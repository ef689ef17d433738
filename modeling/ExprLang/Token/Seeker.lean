import ExprLang.Token.Scanner

/-!
# Moving a scanner by hand

A scanner can be moved over its text by a number of bytes, as a caller does that reads a part of the
text by itself.  The place reached that way may be inside a character or past the end of the text;
nothing can be read there, but the scanner can still be moved on.

## Main definitions

* `Seeker` — a scanner that may stand between characters, inside one, or past the end.
* `Seeker.advance`, `Seeker.emit` — moving it.
* `Seeker.remainder?`, `Seeker.next?` — reading from it, where that is possible.
-/

namespace ExprLang

open Text

/-- A scanner, and how many bytes beyond its place the reading is to go on. -/
structure Seeker where
  /-- A scanner at the last place between two characters that has been passed. -/
  scanner : Scanner
  /-- The bytes passed since, which do not make up a whole character. -/
  beyond : Nat
  deriving DecidableEq, Repr, Inhabited

namespace Seeker

/-- A scanner that has not been moved by hand. -/
def ofScanner (s : Scanner) : Seeker := ⟨s, 0⟩

/-- The place reached. -/
def position (k : Seeker) : Position := .at (k.scanner.offset + k.beyond) k.scanner.file

/-- Whether the end of the text has been reached or passed. -/
def atEnd (k : Seeker) : Bool := k.scanner.rest.isEmpty

/-- Move on by `n` bytes. -/
def advance (k : Seeker) (n : Nat) : Seeker :=
  let p := skipBytes (k.beyond + n) k.scanner.rest
  ⟨k.scanner.moveTo (k.beyond + n - p.1) p.2, p.1⟩

/-- The text that has not been read, if the place is one between two characters. -/
def remainder? (k : Seeker) : Option String :=
  if k.beyond = 0 then some (String.ofList k.scanner.rest) else none

/-- The next token.  Past the end this is the end of the text; inside a character there is none. -/
def next? (k : Seeker) : Option (Token × Seeker) :=
  if k.atEnd then some (.eof k.position, k)
  else if k.beyond = 0 then
    let p := k.scanner.next
    some (p.1, ofScanner p.2)
  else none

/-- A token of the caller's choice that covers the next `n` bytes, and the scanner after them. -/
def emit (k : Seeker) (kind : Kind) (value : String) (n : Nat) : Token × Seeker :=
  let after := k.advance n
  (⟨kind, value, ⟨k.position, after.position⟩⟩, after)

/-- Moving by `n` bytes moves the place by `n` bytes. -/
theorem position_advance (k : Seeker) (n : Nat) :
    (k.advance n).position = .at (k.scanner.offset + k.beyond + n) k.scanner.file := by
  have := skipBytes_fst_le (k.beyond + n) k.scanner.rest
  simp only [position, advance, Scanner.moveTo]
  congr 1
  omega

end Seeker

end ExprLang
