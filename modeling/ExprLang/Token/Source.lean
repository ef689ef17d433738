import ExprLang.Token.Scanner

/-!
# Sources of tokens

The parser takes its tokens one at a time, either from a scanner at work on a text or from a list
of tokens made before.  A source never runs dry: after its last token it gives tokens that stand
for the end of the text.

## Main definitions

* `Source`, `Source.ofText`, `Source.ofTokens` — a source of tokens, and the two ways to make one.
* `Source.next` — the next token, and the source after it.
* `Source.tokens` — the tokens that are still to come.
* `Source.size` — a bound on the tokens that are still to come before the end.

## Main results

* `Source.size_next_lt` — taking a token makes the size smaller, unless it is zero.
* `Source.next_of_size_eq_zero` — a source of size zero gives the end for ever.
* `Source.tokens_cases` — what is still to come is the next token and what comes after it.
-/

namespace ExprLang

/-- A source of tokens. -/
inductive Source where
  /-- A text, read by a scanner on demand. -/
  | text (scanner : Scanner)
  /-- The tokens still to be given, and the place of the end after them. -/
  | list (tokens : List Token) (stop : Position)
  deriving DecidableEq, Repr, Inhabited

namespace Source

/-- The tokens of a text. -/
def ofText (source file : String) : Source := text (.ofSource source file)

/-- The tokens of a list.  The end comes where the last of them stops. -/
def ofTokens (tokens : List Token) : Source :=
  list tokens ((tokens.getLast?.map (·.span.stop)).getD .nowhere)

/-- The next token, and the source after it. -/
def next : Source → Token × Source
  | text s => (s.next.1, text s.next.2)
  | list [] stop => (.eof stop, list [] stop)
  | list (t :: ts) stop => (t, list ts stop)

/-- The first `n` tokens of a source. -/
def take : Nat → Source → List Token
  | 0, _ => []
  | n + 1, s => s.next.1 :: take n s.next.2

/-- How much a source has left: characters of its text, or tokens of its list. -/
def size : Source → Nat
  | text s => s.rest.length
  | list ts _ => ts.length

/-- Taking a token makes the size smaller, unless it is zero. -/
theorem size_next_lt {s : Source} (h : 0 < s.size) : s.next.2.size < s.size := by
  match s with
  | text s => exact Scanner.length_rest_next_lt_of_ne_nil (List.length_pos_iff.mp h)
  | list [] _ => simp [size] at h
  | list (t :: ts) _ => simp [next, size]

/-- A source of size zero gives the end, and stays as it is. -/
theorem next_of_size_eq_zero {s : Source} (h : s.size = 0) :
    s.next.1.kind = .eof ∧ s.next.2 = s := by
  match s with
  | text s =>
    rw [next, Scanner.next_of_rest_eq_nil (List.length_eq_zero_iff.mp h)]
    simp
  | list [] _ => simp [next]
  | list (t :: ts) _ => simp [size] at h

/-- The tokens that are still to come.  Those of a text have the one for its end at their end. -/
def tokens : Source → List Token
  | text s => s.tokens
  | list ts _ => ts

/-- What is still to come is the next token and what comes after it, unless there is nothing left
but the end. -/
theorem tokens_cases (s : Source) : s.tokens = s.next.1 :: s.next.2.tokens ∨
    s.next.1.kind = .eof ∧ (∀ t ∈ s.tokens, t.kind = .eof) ∧
      ∀ t ∈ s.next.2.tokens, t.kind = .eof := by
  match s with
  | text s =>
    by_cases h : s.next.1.kind = .eof
    · -- the token for the end comes again and again
      have hagain : s.next.2.next.1.kind = .eof := by rw [Scanner.next_next_of_eof h, h]
      have hall : ∀ {s : Scanner}, s.next.1.kind = .eof → ∀ t ∈ s.tokens, t.kind = .eof := by
        intro s h t ht
        rw [Scanner.tokens_of_eof h, List.mem_singleton] at ht
        rw [ht, h]
      exact .inr ⟨h, hall h, hall hagain⟩
    · left
      show s.tokens = s.next.1 :: s.next.2.tokens
      rw [Scanner.tokens, dif_neg h]
  | list [] stop => exact .inr ⟨rfl, List.forall_mem_nil _, List.forall_mem_nil _⟩
  | list (t :: ts) stop => exact .inl rfl

end Source

end ExprLang
