import ExprLang.Token.Source

/-!
# The cursor of the parser

The parser looks at two tokens at a time: the current one, and the one after it.  It can only move
forward, one token at a time, and never past the end for good: there it sees the end again and
again.

## Main definitions

* `Cursor`, `Cursor.ofSource` — the two tokens, and the source that the next one comes from.
* `Cursor.advance`, `Cursor.skip` — moving by one token and by several.
* `Cursor.remaining` — a bound on the moves that are left before only the end is in sight.

## Main results

* `Cursor.remaining_advance_lt` — moving makes the bound smaller, unless it is zero.
* `Cursor.remaining_eq_zero_iff` — it is zero when only the end is in sight.
-/

namespace ExprLang

/-- What the parser sees of its tokens. -/
structure Cursor where
  /-- The token that is being parsed. -/
  current : Token
  /-- The token after it. -/
  lookahead : Token
  /-- Where the tokens after these come from. -/
  source : Source
  deriving DecidableEq, Repr, Inhabited

namespace Cursor

/-- The cursor at the first token of a source. -/
def ofSource (s : Source) : Cursor := ⟨s.next.1, s.next.2.next.1, s.next.2.next.2⟩

/-- Move on by one token. -/
def advance (c : Cursor) : Cursor := ⟨c.lookahead, c.source.next.1, c.source.next.2⟩

/-- Move on by `n` tokens. -/
def skip : Nat → Cursor → Cursor
  | 0, c => c
  | n + 1, c => skip n c.advance

@[simp] theorem skip_zero (c : Cursor) : skip 0 c = c := rfl

@[simp] theorem skip_succ (n : Nat) (c : Cursor) : skip (n + 1) c = skip n c.advance := rfl

theorem skip_add (m n : Nat) (c : Cursor) : skip (m + n) c = skip n (skip m c) := by
  induction m generalizing c with
  | zero => simp
  | succ m ih => rw [Nat.succ_add, skip_succ, skip_succ, ih]

/-! ### How much is left -/

/-- The weight of a token that is in sight: nothing for the end, and `w` for any other. -/
def weight (w : Nat) (t : Token) : Nat := if t.kind = .eof then 0 else w

theorem weight_le (w : Nat) (t : Token) : weight w t ≤ w := by
  rw [weight]
  split <;> omega

theorem weight_eq_zero_iff {w : Nat} (hw : 0 < w) {t : Token} :
    weight w t = 0 ↔ t.kind = .eof := by
  by_cases h : t.kind = .eof
  · simp [weight, h]
  · rw [weight, if_neg h]
    exact ⟨fun h' => absurd h' (Nat.ne_of_gt hw), fun h' => absurd h' h⟩

/-- A bound on the moves that are left before only the end is in sight.  A token counts the less the
closer it is, so that a move makes the bound smaller even if the source gives the end and then other
tokens. -/
def remaining (c : Cursor) : Nat := 3 * c.source.size + weight 2 c.lookahead + weight 1 c.current

/-- Moving makes the bound smaller, unless it is zero. -/
theorem remaining_advance_lt {c : Cursor} (h : 0 < c.remaining) :
    c.advance.remaining < c.remaining := by
  have hnew := weight_le 2 c.source.next.1
  simp only [remaining, advance] at h ⊢
  by_cases hs : 0 < c.source.size
  · -- the source shrinks by at least one, which outweighs the token that comes into sight
    have := Source.size_next_lt hs
    have : weight 1 c.lookahead ≤ weight 2 c.lookahead := by
      simp only [weight]
      split <;> omega
    omega
  · -- nothing is pulled from the source but the end
    obtain ⟨hk, hn⟩ := Source.next_of_size_eq_zero (Nat.eq_zero_of_not_pos hs)
    rw [hn]
    simp only [weight, hk] at h ⊢
    split at h <;> split at h <;> simp_all

/-- Nothing is left when both tokens in sight and the source are at the end. -/
theorem remaining_eq_zero_iff {c : Cursor} :
    c.remaining = 0 ↔ c.source.size = 0 ∧ c.lookahead.kind = .eof ∧ c.current.kind = .eof := by
  rw [remaining, ← weight_eq_zero_iff (show 0 < 2 by decide),
    ← weight_eq_zero_iff (show 0 < 1 by decide)]
  omega

/-- Once nothing is left, moving does not bring anything back. -/
theorem remaining_advance_eq_zero {c : Cursor} (h : c.remaining = 0) : c.advance.remaining = 0 := by
  obtain ⟨hs, hl, -⟩ := remaining_eq_zero_iff.mp h
  obtain ⟨hk, hn⟩ := Source.next_of_size_eq_zero hs
  rw [remaining_eq_zero_iff]
  simp [advance, hn, hs, hk, hl]

theorem remaining_advance_le (c : Cursor) : c.advance.remaining ≤ c.remaining := by
  by_cases h : c.remaining = 0
  · rw [remaining_advance_eq_zero h]
    exact Nat.zero_le _
  · exact Nat.le_of_lt (remaining_advance_lt (Nat.pos_of_ne_zero h))

theorem remaining_skip_le (n : Nat) (c : Cursor) : (skip n c).remaining ≤ c.remaining := by
  induction n generalizing c with
  | zero => simp
  | succ n ih => exact Nat.le_trans (ih _) c.remaining_advance_le

end Cursor

end ExprLang
