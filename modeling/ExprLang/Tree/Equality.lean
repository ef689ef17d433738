import ExprLang.Tree.Basic

/-!
# Equality of trees

Trees are equal if they have the same shape and the same texts and numbers in the same places.  The
comparison goes down both trees at once.

## Main definitions

* `Expr.same`, `Stmt.same` — the comparison.
* The instances of `DecidableEq` for `Expr` and `Stmt`.

## Main results

* `Expr.same_iff`, `Stmt.same_iff` — the comparison decides equality.
-/

namespace ExprLang

mutual

/-- Compare two expressions. -/
def Expr.same : Expr → Expr → Bool
  | .ident a, .ident b => a == b
  | .int a, .int b => a == b
  | .str a, .str b => a == b
  | .bool a, .bool b => a == b
  | .unary op a, .unary op' b => op == op' && a.same b
  | .binary a op a', .binary b op' b' => a.same b && op == op' && a'.same b'
  | .conditional c a a', .conditional d b b' => c.same d && sameStatements a b && sameElse a' b'
  | .function ps a, .function qs b => ps == qs && sameStatements a b
  | .call f xs, .call g ys => f.same g && sameItems xs ys
  | .array xs, .array ys => sameItems xs ys
  | .index a i, .index b j => a.same b && i.same j
  | .hash ps, .hash qs => samePairs ps qs
  | _, _ => false

/-- Compare two statements. -/
def Stmt.same : Stmt → Stmt → Bool
  | .binding n a, .binding m b => n == m && a.same b
  | .ret none, .ret none => true
  | .ret (some a), .ret (some b) => a.same b
  | .expr a, .expr b => a.same b
  | .block a, .block b => sameStatements a b
  | _, _ => false

/-- Compare two lists of statements. -/
def sameStatements : List Stmt → List Stmt → Bool
  | [], [] => true
  | a :: as, b :: bs => a.same b && sameStatements as bs
  | _, _ => false

/-- Compare the second blocks of two conditionals. -/
def sameElse : Option (List Stmt) → Option (List Stmt) → Bool
  | none, none => true
  | some a, some b => sameStatements a b
  | _, _ => false

/-- Compare two lists of expressions. -/
def sameItems : List Expr → List Expr → Bool
  | [], [] => true
  | a :: as, b :: bs => a.same b && sameItems as bs
  | _, _ => false

/-- Compare two lists of keys and values. -/
def samePairs : List (Expr × Expr) → List (Expr × Expr) → Bool
  | [], [] => true
  | (k, v) :: ps, (k', v') :: qs => k.same k' && v.same v' && samePairs ps qs
  | _, _ => false

end

/-! ### The comparison decides equality -/

mutual

theorem Expr.same_iff (a b : Expr) : a.same b = true ↔ a = b := by
  match a with
  | .ident _ => cases b <;> simp [Expr.same]
  | .int _ => cases b <;> simp [Expr.same]
  | .str _ => cases b <;> simp [Expr.same]
  | .bool _ => cases b <;> simp [Expr.same]
  | .unary _ a => cases b <;> simp [Expr.same, Expr.same_iff a]
  | .binary a _ a' => cases b <;> simp [Expr.same, Expr.same_iff a, Expr.same_iff a', and_assoc]
  | .conditional c a a' =>
    cases b <;> simp [Expr.same, Expr.same_iff c, sameStatements_iff a, sameElse_iff a', and_assoc]
  | .function _ a => cases b <;> simp [Expr.same, sameStatements_iff a]
  | .call f xs => cases b <;> simp [Expr.same, Expr.same_iff f, sameItems_iff xs]
  | .array xs => cases b <;> simp [Expr.same, sameItems_iff xs]
  | .index a i => cases b <;> simp [Expr.same, Expr.same_iff a, Expr.same_iff i]
  | .hash ps => cases b <;> simp [Expr.same, samePairs_iff ps]

theorem Stmt.same_iff (a b : Stmt) : a.same b = true ↔ a = b := by
  match a with
  | .binding _ a => cases b <;> simp [Stmt.same, Expr.same_iff a]
  | .ret none =>
    cases b with
    | ret v => cases v <;> simp [Stmt.same]
    | _ => simp [Stmt.same]
  | .ret (some a) =>
    cases b with
    | ret v => cases v <;> simp [Stmt.same, Expr.same_iff a]
    | _ => simp [Stmt.same]
  | .expr a => cases b <;> simp [Stmt.same, Expr.same_iff a]
  | .block a => cases b <;> simp [Stmt.same, sameStatements_iff a]

theorem sameStatements_iff (as bs : List Stmt) : sameStatements as bs = true ↔ as = bs := by
  match as, bs with
  | [], bs => cases bs <;> simp [sameStatements]
  | a :: as, [] => simp [sameStatements]
  | a :: as, b :: bs => simp [sameStatements, Stmt.same_iff a, sameStatements_iff as]

theorem sameElse_iff (a b : Option (List Stmt)) : sameElse a b = true ↔ a = b := by
  match a, b with
  | none, b => cases b <;> simp [sameElse]
  | some a, none => simp [sameElse]
  | some a, some b => simp [sameElse, sameStatements_iff a]

theorem sameItems_iff (as bs : List Expr) : sameItems as bs = true ↔ as = bs := by
  match as, bs with
  | [], bs => cases bs <;> simp [sameItems]
  | a :: as, [] => simp [sameItems]
  | a :: as, b :: bs => simp [sameItems, Expr.same_iff a, sameItems_iff as]

theorem samePairs_iff (ps qs : List (Expr × Expr)) : samePairs ps qs = true ↔ ps = qs := by
  match ps, qs with
  | [], qs => cases qs <;> simp [samePairs]
  | p :: ps, [] => simp [samePairs]
  | (k, v) :: ps, (k', v') :: qs =>
    simp [samePairs, Expr.same_iff k, Expr.same_iff v, samePairs_iff ps, and_assoc]

end

instance : DecidableEq Expr := fun a b => decidable_of_iff _ (Expr.same_iff a b)

instance : DecidableEq Stmt := fun a b => decidable_of_iff _ (Stmt.same_iff a b)

end ExprLang
