import ExprLang.Text.Bytes
import ExprLang.Token.Basic
import ExprLang.Token.Lexeme

/-!
# The scanner

The scanner turns a source text into tokens on demand.  It holds the text that it has not read yet
and counts the bytes of the text that it has.  Once the text is used up, every further token
stands for the end of the source, at the place just after the text.

## Main definitions

* `Scanner`, `Scanner.ofSource` — a scanner, and the one at the start of a text.
* `Scanner.next` — the next token, and the scanner after it.
* `Scanner.tokens`, `tokenize` — all the tokens of a text, with the one for its end.

## Main results

* `Scanner.next_of_rest_eq_nil` — past the end of the text nothing changes any more.
* `Scanner.length_rest_next_lt` — before it, every token shortens the text.
-/

namespace ExprLang

open Text

/-- A scanner at work on a source text. -/
structure Scanner where
  /-- The name under which the text is reported. -/
  file : String
  /-- The bytes of the text that have been read. -/
  offset : Nat
  /-- The text that has not been read. -/
  rest : List Char
  deriving DecidableEq, Repr, Inhabited

namespace Scanner

/-- The name of a text that comes from no file. -/
def defaultFile : String := "shell"

/-- A scanner at the start of a text. -/
def ofSource (source file : String) : Scanner := ⟨file, 0, source.toList⟩

/-- The place that a scanner has come to. -/
def position (s : Scanner) : Position := .at s.offset s.file

/-- A scanner that has read `bytes` more bytes and has `rest` left. -/
def moveTo (s : Scanner) (bytes : Nat) (rest : List Char) : Scanner :=
  ⟨s.file, s.offset + bytes, rest⟩

/-- A scanner after the trivia that it stands at. -/
def skipTrivia (s : Scanner) : Scanner :=
  let p := splitTrivia false s.rest
  s.moveTo (byteSize p.1) p.2

/-- The token of the lexeme at the start of `c :: cs`, which is what `s` has left. -/
def readToken (s : Scanner) (c : Char) (cs : List Char) : Token × Scanner :=
  let p := readLexeme c cs
  let after := s.moveTo (byteSize p.1.text) p.2
  (⟨p.1.kind, String.ofList p.1.value, ⟨s.position, after.position⟩⟩, after)

/-- The next token, and the scanner after it. -/
def next (s : Scanner) : Token × Scanner :=
  let s' := s.skipTrivia
  match s'.rest with
  | [] => (.eof s'.position, s')
  | c :: cs => s'.readToken c cs

/-! ### How the scanner moves -/

theorem length_rest_skipTrivia_le (s : Scanner) : s.skipTrivia.rest.length ≤ s.rest.length :=
  length_splitTrivia_le false s.rest

/-- A token that is not the end of the text shortens what is left of it. -/
theorem length_rest_next_lt {s : Scanner} (h : s.next.1.kind ≠ .eof) :
    s.next.2.rest.length < s.rest.length := by
  have hle := s.length_rest_skipTrivia_le
  rw [next] at h ⊢
  split at h
  · simp at h
  · next c cs hrest =>
    -- skipping trivia adds nothing, and reading a lexeme takes something off
    have := length_readLexeme_lt c cs
    rw [hrest] at hle
    simp only [readToken, moveTo]
    omega

/-- The token for the end of the text uses up what is left of it. -/
theorem rest_next_of_kind_eq_eof {s : Scanner} (h : s.next.1.kind = .eof) :
    s.next.2.rest = [] := by
  rw [next] at h ⊢
  split at h
  · next hrest => simp [hrest]
  · next c cs hrest => exact absurd h (Lexeme.kind_ne_eof c cs)

/-- Every token shortens what is left of the text, unless there is nothing left. -/
theorem length_rest_next_lt_of_ne_nil {s : Scanner} (h : s.rest ≠ []) :
    s.next.2.rest.length < s.rest.length := by
  by_cases hk : s.next.1.kind = .eof
  · rw [rest_next_of_kind_eq_eof hk]
    simpa [List.length_pos_iff] using h
  · exact length_rest_next_lt hk

/-- Past the end of the text nothing changes any more. -/
theorem next_of_rest_eq_nil {s : Scanner} (h : s.rest = []) : s.next = (.eof s.position, s) := by
  obtain ⟨file, offset, rest⟩ := s
  subst h
  rfl

/-- The token for the end stands where the scanner has come to. -/
theorem next_eq_of_kind_eq_eof {s : Scanner} (h : s.next.1.kind = .eof) :
    s.next = (.eof s.next.2.position, s.next.2) := by
  rw [next] at h ⊢
  split at h
  · rfl
  · next c cs hrest => exact absurd h (Lexeme.kind_ne_eof c cs)

/-- The token for the end comes again and again. -/
theorem next_next_of_eof {s : Scanner} (h : s.next.1.kind = .eof) : s.next.2.next = s.next := by
  rw [next_of_rest_eq_nil (rest_next_of_kind_eq_eof h), ← next_eq_of_kind_eq_eof h]

/-! ### All the tokens of a text -/

/-- The tokens that a scanner has still to give, up to and with the first one for the end. -/
def tokens (s : Scanner) : List Token :=
  if h : s.next.1.kind = .eof then [s.next.1]
  else
    have := length_rest_next_lt h
    s.next.1 :: tokens s.next.2
termination_by s.rest.length

theorem tokens_of_eof {s : Scanner} (h : s.next.1.kind = .eof) : s.tokens = [s.next.1] := by
  rw [tokens, dif_pos h]

theorem tokens_ne_nil (s : Scanner) : s.tokens ≠ [] := by
  rw [tokens]
  split <;> simp

end Scanner

/-- The tokens of a source text, with the one for its end. -/
def tokenize (source file : String) : List Token := (Scanner.ofSource source file).tokens

end ExprLang
