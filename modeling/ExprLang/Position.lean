/-!
# Positions in a source text

A position names a place by the file it is in and by its distance in bytes from the start of the
text, counted in UTF-8.  Distances are kept in 32 bits: a text is expected to be shorter than
`2 ^ 32` bytes, and beyond that the distance wraps around.

## Main definitions

* `Position`, `Position.at` — a place in a file.
* `Span` — the stretch of text between two places.
-/

namespace ExprLang

/-- A place in a source text: a distance in bytes, and the name of the file. -/
structure Position where
  /-- Bytes between the start of the text and this place. -/
  offset : UInt32
  /-- The name under which the text is reported. -/
  file : String
  deriving DecidableEq, Repr, Inhabited

/-- The place `bytes` bytes into `file`.  The distance is taken modulo `2 ^ 32`. -/
def Position.at (bytes : Nat) (file : String) : Position := ⟨UInt32.ofNat bytes, file⟩

/-- The place of tokens that come from no text at all. -/
def Position.nowhere : Position := ⟨0, "<null>"⟩

@[simp] theorem Position.file_at (bytes : Nat) (file : String) :
    (Position.at bytes file).file = file := rfl

/-- Below the 32-bit limit a position remembers its distance exactly. -/
theorem Position.toNat_offset_at {bytes : Nat} (file : String) (h : bytes < UInt32.size) :
    (Position.at bytes file).offset.toNat = bytes :=
  UInt32.toNat_ofNat_of_lt h

/-- The stretch of text from `start` up to, and not including, `stop`. -/
structure Span where
  /-- Where the stretch begins. -/
  start : Position
  /-- The place just after its last byte. -/
  stop : Position
  deriving DecidableEq, Repr, Inhabited

/-- The empty stretch at a place. -/
def Span.empty (place : Position) : Span := ⟨place, place⟩

end ExprLang
