/-!
# Binding powers

A token that continues an expression has a binding power, and the token that binds tighter takes the
operand between them.

## Main definitions

* `Power` — the binding powers, from the weakest to the tightest.
* `Power.rank` — the place of a power in this order.

## Main results

* `Power.rank_injective` — the order is total.
-/

namespace ExprLang

/-- A binding power. -/
inductive Power where
  /-- Binds nothing.  Every token that continues no expression has this power. -/
  | lowest
  /-- The power of `==` and `!=`. -/
  | equals
  /-- The power of `<` and `>`. -/
  | lessGreater
  /-- The power of `+` and `-` between two operands. -/
  | sum
  /-- The power of `*` and `/`. -/
  | product
  /-- The power of an operator before its operand. -/
  | unary
  /-- The power of a call. -/
  | call
  /-- The power of an index. -/
  | index
  deriving DecidableEq, Repr, Inhabited

namespace Power

/-- The place of a power in the order, from the weakest on. -/
def rank : Power → Nat
  | lowest => 0
  | equals => 1
  | lessGreater => 2
  | sum => 3
  | product => 4
  | unary => 5
  | call => 6
  | index => 7

theorem rank_injective {p q : Power} (h : p.rank = q.rank) : p = q := by
  cases p <;> cases q <;> simp_all [rank]

instance : LT Power := ⟨fun p q => p.rank < q.rank⟩

instance : LE Power := ⟨fun p q => p.rank ≤ q.rank⟩

instance (p q : Power) : Decidable (p < q) := inferInstanceAs (Decidable (p.rank < q.rank))

instance (p q : Power) : Decidable (p ≤ q) := inferInstanceAs (Decidable (p.rank ≤ q.rank))

theorem lt_def {p q : Power} : p < q ↔ p.rank < q.rank := Iff.rfl

end Power

end ExprLang
