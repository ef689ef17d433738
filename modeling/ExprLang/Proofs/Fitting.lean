import ExprLang.Proofs.Precedence

/-!
# Spellings that fit

A spelling fits where it is read to its last word: nothing in it binds too weakly, and there are
enough levels for what is nested in it.  Each form of expression fits if its parts fit into the
places that the form has for them.  No more is asked for than that the parts are read, so semicolons
may be left out wherever the statements of a block end without them.

## Main definitions

* `Spelling.Fits` — a spelling is read by what asks for a power and can open some levels.
* `ClausesFit` — the statements of a list are, too.

## Main results

* `Spelling.Fits.group`, `Spelling.Fits.unary`, … — the forms of expression.
-/

namespace ExprLang

open Word (mark)
open Grammar (standard)

/-- The spelling is read to its end by what asks for more than `p` and can open `n` levels. -/
structure Spelling.Fits (t : Spelling) (p : Power) (n : Nat) : Prop where
  isRead : t.IsRead
  lt_leastPower : p < t.leastPower
  peak_lt : t.peak < n

/-- The statements of a list are read up to a token of kind `k`, in a block that opens one of `n`
levels. -/
structure ClausesFit (cs : List Clause) (k : Kind) (n : Nat) : Prop where
  spaced : SpacedClauses cs k
  isRead : ∀ c ∈ cs, ∀ v ∈ c.value?, v.IsRead
  cost_lt : clausesCost cs < n

theorem ClausesFit.nil (k : Kind) {n : Nat} (hn : 0 < n) : ClausesFit [] k n :=
  ⟨trivial, by simp, hn⟩

theorem ClausesFit.of_fits {cs : List Clause} {k : Kind} {n : Nat} (hs : SpacedClauses cs k)
    (h : ∀ c ∈ cs, ∀ v ∈ c.value?, v.Fits .lowest n) : ClausesFit cs k (n + 1) where
  spaced := hs
  isRead c hc v hv := (h c hc v hv).isRead
  cost_lt := Nat.lt_succ_of_le (clausesCost_le_iff.mpr fun c hc v hv => (h c hc v hv).peak_lt)

namespace Spelling

/-- A spelling that is no bare operation between operands fits wherever there is room. -/
theorem Fits.of_infixPower?_eq_none {t : Spelling} {p : Power} {n : Nat} (h : t.IsRead)
    (hq : t.infixPower? = none) (hp : p < .call) (hn : t.peak < n) : t.Fits p n :=
  ⟨h, Spelling.lt_leastPower hp (by simp [hq]), hn⟩

/-- What fits where a unary operator asks for it is no bare operation between operands. -/
theorem infixPower?_eq_none_of_lt {t : Spelling} (h : Power.unary < t.leastPower) :
    t.infixPower? = none := by
  cases t with
  | binary left op right =>
    have hlt : op.power < .unary := (Grammar.tail_binary op.tail_eq).2.1
    exact absurd (Nat.lt_trans h hlt) (Nat.lt_irrefl _)
  | _ => rfl

/-- A name that can stand where an expression is missing. -/
def filler : Spelling := .ident "x"

theorem fits_filler {p : Power} {n : Nat} (hp : p < .call) (hn : 0 < n) : filler.Fits p n :=
  .of_infixPower?_eq_none (isRead_literal rfl rfl rfl rfl rfl) rfl hp hn

namespace Fits

variable {t l r : Spelling} {p q : Power} {n : Nat}

theorem group (h : t.Fits .lowest n) (hp : p < .call) : (group t).Fits p (n + 1) := by
  refine .of_infixPower?_eq_none (isRead_group h.isRead) rfl hp ?_
  have hpeak := h.peak_lt
  rw [peak]
  omega

theorem unary (op : PrefixOp) (h : t.Fits .unary n) (hp : p < .call) :
    (unary op t).Fits p (n + 1) := by
  have hread := isRead_unary op (infixPower?_eq_none_of_lt h.lt_leastPower) h.isRead
  refine .of_infixPower?_eq_none hread rfl hp ?_
  have hpeak := h.peak_lt
  rw [peak]
  omega

theorem array {es : List Spelling} (h : ∀ e ∈ es, e.Fits .lowest n) (hp : p < .call) :
    (array es).Fits p (n + 1) := by
  refine .of_infixPower?_eq_none (isRead_array fun e he => (h e he).isRead) rfl hp ?_
  exact Nat.lt_succ_of_le (itemsCost_le_iff.mpr fun e he => (h e he).peak_lt)

theorem hash {ps : List (Spelling × Spelling)} (comma : Bool)
    (h : ∀ q ∈ ps, q.1.Fits .lowest n ∧ q.2.Fits .lowest n) (hp : p < .call) :
    (hash ps comma).Fits p (n + 1) := by
  have hread := isRead_hash comma fun q hq => ⟨(h q hq).1.isRead, (h q hq).2.isRead⟩
  refine .of_infixPower?_eq_none hread rfl hp ?_
  exact Nat.lt_succ_of_le
    (pairsCost_le_iff.mpr fun q hq => ⟨(h q hq).1.peak_lt, (h q hq).2.peak_lt⟩)

theorem function (names : List String) {cs : List Clause} (h : ClausesFit cs .closeCurly n)
    (hp : p < .call) : (function names cs).Fits p (n + 1) := by
  refine .of_infixPower?_eq_none (isRead_function names h.spaced h.isRead) rfl hp ?_
  have hcost := h.cost_lt
  rw [peak]
  omega

theorem conditional {cs : List Clause} {other : Option (List Clause)} (h : t.Fits .lowest n)
    (hcs : ClausesFit cs .closeCurly n) (ho : ∀ o ∈ other, ClausesFit o .closeCurly n)
    (hp : p < .call) : (conditional t cs other).Fits p (n + 1) := by
  have hread := isRead_conditional h.isRead hcs.spaced hcs.isRead (fun o ho' => (ho o ho').spaced)
    fun o ho' => (ho o ho').isRead
  refine .of_infixPower?_eq_none hread rfl hp ?_
  have hpeak := h.peak_lt
  have hcost := hcs.cost_lt
  have helse : elseCost other ≤ n := by
    cases other with
    | none => exact Nat.zero_le n
    | some o =>
      have ho := (ho o rfl).cost_lt
      rw [elseCost]
      omega
  rw [peak]
  omega

/-! ### Forms that are known by the token after their left operand

The levels that the left operand leaves open are not there for what comes after it. -/

/-- What an operator does not take a part of binds at least as tightly. -/
theorem le_openPower_of_continuation? {k : Kind} {rule : TailRule}
    (hk : standard.tail k = some (q, rule)) (h : standard.continuation? t.openPower k = none) :
    q ≤ t.openPower := by
  refine Nat.le_of_not_lt fun hlt => ?_
  rw [Grammar.continuation?_eq_some hk hlt] at h
  simp at h

/-- What ends before a parenthesis or a bracket is no bare operation. -/
theorem of_call_le_openPower (h : Power.call ≤ t.openPower) :
    t.infixPower? = none ∧ t.isUnary = false := by
  unfold openPower at h
  cases t with
  | binary left op right =>
    have hlt : op.power < .unary := (Grammar.tail_binary op.tail_eq).2.1
    exact absurd (Nat.lt_of_le_of_lt h hlt) (by decide)
  | unary op t => exact absurd (show Power.call ≤ Power.unary from h) (by decide)
  | _ => exact ⟨rfl, rfl⟩

theorem binary (op : InfixOp) {m : Nat} (hl : l.Fits p m) (hm : l.folds + 1 + n < m)
    (hop : op.power ≤ l.openPower) (hp : p < op.power) (hr : r.Fits op.power n) :
    (binary l op r).Fits p m := by
  have hql : ∀ q ∈ l.infixPower?, op.power ≤ q := by
    intro q hq
    rwa [openPower, hq] at hop
  have hqr : ∀ q ∈ r.infixPower?, op.power < q := by
    intro q hq
    have hlt := hr.lt_leastPower
    rwa [leastPower, hq] at hlt
  refine ⟨isRead_binary op hql hqr hl.isRead hr.isRead, hp, ?_⟩
  have hleft := hl.peak_lt
  have hright := hr.peak_lt
  rw [peak]
  omega

theorem call {es : List Spelling} {m : Nat} (hl : l.Fits p m) (hm : l.folds + 1 + n < m)
    (hop : Power.call ≤ l.openPower) (hp : p < .call) (hes : ∀ e ∈ es, e.Fits .lowest n) :
    (call l es).Fits p m := by
  obtain ⟨hq, hu⟩ := of_call_le_openPower hop
  have hread := isRead_call hq hu hl.isRead fun e he => (hes e he).isRead
  refine .of_infixPower?_eq_none hread rfl hp ?_
  have hleft := hl.peak_lt
  have hright : itemsCost es ≤ n := itemsCost_le_iff.mpr fun e he => (hes e he).peak_lt
  rw [peak]
  omega

theorem index {m : Nat} (hl : l.Fits p m) (hm : l.folds + 1 + n < m)
    (hop : Power.index ≤ l.openPower) (hp : p < .call) (hr : r.Fits .lowest n) :
    (index l r).Fits p m := by
  obtain ⟨hq, hu⟩ := of_call_le_openPower (Nat.le_trans (by decide : Power.call ≤ .index) hop)
  refine .of_infixPower?_eq_none (isRead_index hq hu hl.isRead hr.isRead) rfl hp ?_
  have hleft := hl.peak_lt
  have hright := hr.peak_lt
  rw [peak]
  omega

end Fits

end Spelling

end ExprLang
