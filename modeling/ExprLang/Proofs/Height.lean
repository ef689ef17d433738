import ExprLang.Proofs.Ensuring

/-!
# How high a tree can be

A continuation of an expression opens a level that is closed when the whole expression ends, so the
levels that are open do not bound the height of a tree.  What bounds it is the sum of the levels
that each of the expressions inside one another had when it began: an expression that begins with
`n` levels has a first part from `n - 1` levels, and each of its at most `n - 1` continuations makes
it one higher.

## Main definitions

* `Expr.height`, `Expr.parts` — the height of an expression, and the expressions inside it.
* `maxHeight n` — the height that can be reached with `n` levels.
* `Level.Bounds` — what is read at a level is not higher than its levels allow.

## Main results

* `Expr.height_parts_le` — what is inside an expression is not higher.
* `Level.bounds_ofRoom` — every level bounds the height of what is read.
* `Form.gives_program` — the height of a program.
-/

namespace ExprLang

open ExprLang.Action

/-! ### The height of a tree -/

mutual

/-- The number of expressions on the longest way into an expression.  Statements and blocks do not
count. -/
def Expr.height : Expr → Nat
  | .ident _ | .int _ | .str _ | .bool _ => 1
  | .unary _ operand => operand.height + 1
  | .binary left _ right => max left.height right.height + 1
  | .conditional condition consequence alternative =>
    max condition.height (max (stmtsHeight consequence) (otherHeight alternative)) + 1
  | .function _ body => stmtsHeight body + 1
  | .call callee arguments => max callee.height (exprsHeight arguments) + 1
  | .array elements => exprsHeight elements + 1
  | .index subject place => max subject.height place.height + 1
  | .hash pairs => entriesHeight pairs + 1

/-- The greatest height of an expression of a statement. -/
def Stmt.height : Stmt → Nat
  | .binding _ value => value.height
  | .ret none => 0
  | .ret (some value) => value.height
  | .expr value => value.height
  | .block body => stmtsHeight body

/-- The greatest height of an expression of a list of statements. -/
def stmtsHeight : List Stmt → Nat
  | [] => 0
  | s :: ss => max s.height (stmtsHeight ss)

/-- The greatest height of an expression of the second block of a conditional. -/
def otherHeight : Option (List Stmt) → Nat
  | none => 0
  | some body => stmtsHeight body

/-- The greatest height of a list of expressions. -/
def exprsHeight : List Expr → Nat
  | [] => 0
  | e :: es => max e.height (exprsHeight es)

/-- The greatest height of a list of keys and values. -/
def entriesHeight : List (Expr × Expr) → Nat
  | [] => 0
  | (key, value) :: ps => max (max key.height value.height) (entriesHeight ps)

end

theorem stmtsHeight_le_iff {ss : List Stmt} {h : Nat} :
    stmtsHeight ss ≤ h ↔ ∀ s ∈ ss, s.height ≤ h := by
  induction ss with
  | nil => simp [stmtsHeight]
  | cons s ss ih => rw [stmtsHeight, Nat.max_le, ih, List.forall_mem_cons]

theorem exprsHeight_le_iff {es : List Expr} {h : Nat} :
    exprsHeight es ≤ h ↔ ∀ e ∈ es, e.height ≤ h := by
  induction es with
  | nil => simp [exprsHeight]
  | cons e es ih => rw [exprsHeight, Nat.max_le, ih, List.forall_mem_cons]

theorem entriesHeight_le_iff {ps : List (Expr × Expr)} {h : Nat} :
    entriesHeight ps ≤ h ↔ ∀ q ∈ ps, q.1.height ≤ h ∧ q.2.height ≤ h := by
  induction ps with
  | nil => simp [entriesHeight]
  | cons q ps ih => simp only [entriesHeight, Nat.max_le, ih, List.forall_mem_cons]

/-! ### The parts of a tree -/

mutual

/-- The expression and all the expressions inside it. -/
def Expr.parts : Expr → List Expr
  | .ident name => [.ident name]
  | .int value => [.int value]
  | .str text => [.str text]
  | .bool value => [.bool value]
  | .unary op operand => .unary op operand :: operand.parts
  | .binary left op right => .binary left op right :: (left.parts ++ right.parts)
  | .conditional condition consequence alternative =>
    .conditional condition consequence alternative ::
      (condition.parts ++ (stmtsParts consequence ++ otherParts alternative))
  | .function parameters body => .function parameters body :: stmtsParts body
  | .call callee arguments => .call callee arguments :: (callee.parts ++ exprsParts arguments)
  | .array elements => .array elements :: exprsParts elements
  | .index subject place => .index subject place :: (subject.parts ++ place.parts)
  | .hash pairs => .hash pairs :: entriesParts pairs

/-- The expressions inside a statement. -/
def Stmt.parts : Stmt → List Expr
  | .binding _ value => value.parts
  | .ret none => []
  | .ret (some value) => value.parts
  | .expr value => value.parts
  | .block body => stmtsParts body

/-- The expressions inside a list of statements. -/
def stmtsParts : List Stmt → List Expr
  | [] => []
  | s :: ss => s.parts ++ stmtsParts ss

/-- The expressions inside the second block of a conditional. -/
def otherParts : Option (List Stmt) → List Expr
  | none => []
  | some body => stmtsParts body

/-- The expressions of a list, and all the expressions inside them. -/
def exprsParts : List Expr → List Expr
  | [] => []
  | e :: es => e.parts ++ exprsParts es

/-- The keys and values of a list, and all the expressions inside them. -/
def entriesParts : List (Expr × Expr) → List Expr
  | [] => []
  | (key, value) :: ps => key.parts ++ (value.parts ++ entriesParts ps)

end

/-- All the expressions inside a program. -/
def Program.exprs (p : Program) : List Expr := stmtsParts p

theorem Expr.mem_parts_self (e : Expr) : e ∈ e.parts := by
  cases e <;> exact List.mem_cons_self

mutual

/-- No expression inside another one is higher. -/
theorem Expr.height_parts_le {h : Nat} : ∀ {e : Expr}, e.height ≤ h → ∀ f ∈ e.parts, f.height ≤ h
  | .ident _, he | .int _, he | .str _, he | .bool _, he => by
    rw [Expr.parts, List.forall_mem_singleton]
    exact he
  | .unary _ operand, he => by
    rw [Expr.parts, List.forall_mem_cons]
    refine ⟨he, ?_⟩
    rw [Expr.height] at he
    exact Expr.height_parts_le (by omega)
  | .binary left _ right, he => by
    rw [Expr.parts, List.forall_mem_cons, List.forall_mem_append]
    refine ⟨he, ?_, ?_⟩ <;> rw [Expr.height] at he
    · exact Expr.height_parts_le (by omega)
    · exact Expr.height_parts_le (by omega)
  | .conditional _ _ _, he => by
    rw [Expr.parts, List.forall_mem_cons, List.forall_mem_append, List.forall_mem_append]
    refine ⟨he, ?_, ?_, ?_⟩ <;> rw [Expr.height] at he
    · exact Expr.height_parts_le (by omega)
    · exact stmtsHeight_parts_le (by omega)
    · exact otherHeight_parts_le (by omega)
  | .function _ _, he => by
    rw [Expr.parts, List.forall_mem_cons]
    refine ⟨he, ?_⟩
    rw [Expr.height] at he
    exact stmtsHeight_parts_le (by omega)
  | .call _ _, he => by
    rw [Expr.parts, List.forall_mem_cons, List.forall_mem_append]
    refine ⟨he, ?_, ?_⟩ <;> rw [Expr.height] at he
    · exact Expr.height_parts_le (by omega)
    · exact exprsHeight_parts_le (by omega)
  | .array _, he => by
    rw [Expr.parts, List.forall_mem_cons]
    refine ⟨he, ?_⟩
    rw [Expr.height] at he
    exact exprsHeight_parts_le (by omega)
  | .index _ _, he => by
    rw [Expr.parts, List.forall_mem_cons, List.forall_mem_append]
    refine ⟨he, ?_, ?_⟩ <;> rw [Expr.height] at he
    · exact Expr.height_parts_le (by omega)
    · exact Expr.height_parts_le (by omega)
  | .hash _, he => by
    rw [Expr.parts, List.forall_mem_cons]
    refine ⟨he, ?_⟩
    rw [Expr.height] at he
    exact entriesHeight_parts_le (by omega)

theorem Stmt.height_parts_le {h : Nat} : ∀ {s : Stmt}, s.height ≤ h → ∀ f ∈ s.parts, f.height ≤ h
  | .binding _ _, hs | .ret (some _), hs | .expr _, hs => Expr.height_parts_le hs
  | .ret none, _ => List.forall_mem_nil _
  | .block _, hs => stmtsHeight_parts_le hs

theorem stmtsHeight_parts_le {h : Nat} : ∀ {ss : List Stmt}, stmtsHeight ss ≤ h →
    ∀ f ∈ stmtsParts ss, f.height ≤ h
  | [], _ => List.forall_mem_nil _
  | s :: ss, hs => by
    rw [stmtsHeight, Nat.max_le] at hs
    rw [stmtsParts, List.forall_mem_append]
    exact ⟨Stmt.height_parts_le hs.1, stmtsHeight_parts_le hs.2⟩

theorem otherHeight_parts_le {h : Nat} : ∀ {other : Option (List Stmt)}, otherHeight other ≤ h →
    ∀ f ∈ otherParts other, f.height ≤ h
  | none, _ => List.forall_mem_nil _
  | some _, hs => stmtsHeight_parts_le hs

theorem exprsHeight_parts_le {h : Nat} : ∀ {es : List Expr}, exprsHeight es ≤ h →
    ∀ f ∈ exprsParts es, f.height ≤ h
  | [], _ => List.forall_mem_nil _
  | e :: es, hs => by
    rw [exprsHeight, Nat.max_le] at hs
    rw [exprsParts, List.forall_mem_append]
    exact ⟨Expr.height_parts_le hs.1, exprsHeight_parts_le hs.2⟩

theorem entriesHeight_parts_le {h : Nat} : ∀ {ps : List (Expr × Expr)}, entriesHeight ps ≤ h →
    ∀ f ∈ entriesParts ps, f.height ≤ h
  | [], _ => List.forall_mem_nil _
  | (key, value) :: ps, hs => by
    rw [entriesHeight, Nat.max_le, Nat.max_le] at hs
    rw [entriesParts, List.forall_mem_append, List.forall_mem_append]
    exact ⟨Expr.height_parts_le hs.1.1, Expr.height_parts_le hs.1.2, entriesHeight_parts_le hs.2⟩

end

/-! ### The height of what is read -/

/-- Whatever is read at the level is at most that high. -/
structure Level.ReadsUpTo (L : Level) (h : Nat) : Prop where
  expr : ∀ p, (L.expr p).Gives (·.height ≤ h)
  block : L.block.Gives (stmtsHeight · ≤ h)

namespace Form

variable {L : Level} {h : Nat}

theorem gives_items (hL : L.ReadsUpTo h) (close : Kind) :
    (items L close).Gives (exprsHeight · ≤ h) := by
  refine .after fun s => ?_
  split
  · exact .after fun _ => .pure (Nat.zero_le h)
  · have hnext : (nextItem L).Gives (·.height ≤ h) := .after fun _ => .after fun _ => hL.expr _
    refine .after fun _ => (hL.expr _).bind fun first hfirst => ?_
    refine Gives.bind (.repeatWhile hnext) fun more hmore => .after fun _ => .pure ?_
    exact exprsHeight_le_iff.mpr (List.forall_mem_cons.mpr ⟨hfirst, hmore⟩)

theorem gives_pairs (hL : L.ReadsUpTo h) : (pairs L).Gives (entriesHeight · ≤ h) := by
  have hpair : (pair L).Gives fun q => q.1.height ≤ h ∧ q.2.height ≤ h := by
    refine .after fun _ => (hL.expr _).bind fun key hkey => ?_
    refine .after fun _ => .after fun _ => (hL.expr _).bind fun value hvalue => ?_
    exact .after fun _ => .pure ⟨hkey, hvalue⟩
  refine Gives.bind (.repeatWhile hpair) fun ps hps => .after fun _ => .pure ?_
  exact entriesHeight_le_iff.mpr hps

theorem gives_literal : literal.Gives (·.height ≤ h + 1) := by
  have hleaf : 1 ≤ h + 1 := Nat.le_add_left 1 h
  refine .after fun s => ?_
  split
  · exact .pure hleaf
  · split
    · exact .pure hleaf
    · exact .failHere
  · exact .pure hleaf
  · exact .pure hleaf
  · exact .pure hleaf
  · exact .failHere

theorem gives_alternative (hL : L.ReadsUpTo h) : (alternative L).Gives (otherHeight · ≤ h) := by
  refine .after fun s => ?_
  split
  · exact .after fun _ => .after fun _ => hL.block.bind_pure fun _ hb => hb
  · exact .pure (Nat.zero_le h)

/-- A form that begins with its own first token is at most one higher than its parts. -/
theorem gives_head (hL : L.ReadsUpTo h) (rule : HeadRule) :
    (rule.read L).Gives (·.height ≤ h + 1) := by
  cases rule with
  | literal => exact gives_literal
  | unary =>
    exact .after fun _ => .after fun _ => (hL.expr _).bind_pure fun _ he => Nat.succ_le_succ he
  | group =>
    refine .after fun _ => (hL.expr _).bind fun e he => .after fun _ => .pure ?_
    exact Nat.le_succ_of_le he
  | conditional =>
    refine .after fun _ => .after fun _ => (hL.expr _).bind fun condition hcondition => ?_
    refine .after fun _ => .after fun _ => hL.block.bind fun consequence hconsequence => ?_
    refine (gives_alternative hL).bind_pure fun other hother => ?_
    exact Nat.succ_le_succ (Nat.max_le.mpr ⟨hcondition, Nat.max_le.mpr ⟨hconsequence, hother⟩⟩)
  | function =>
    refine .after fun _ => .after fun names => .after fun _ => ?_
    exact hL.block.bind_pure fun _ hb => Nat.succ_le_succ hb
  | array => exact (gives_items hL _).bind_pure fun _ hes => Nat.succ_le_succ hes
  | hash => exact (gives_pairs hL).bind_pure fun _ hps => Nat.succ_le_succ hps

/-- A form that continues an expression is one higher than its highest part. -/
theorem gives_tail (hL : L.ReadsUpTo h) (power : Power) (left : Expr) (rule : TailRule) :
    (rule.read L power left).Gives (·.height ≤ max left.height h + 1) := by
  have hmax : ∀ {n}, n ≤ h → max left.height n + 1 ≤ max left.height h + 1 := by omega
  cases rule with
  | binary => exact .after fun _ => .after fun _ => (hL.expr _).bind_pure fun _ he => hmax he
  | call => exact (gives_items hL _).bind_pure fun _ hes => hmax hes
  | index =>
    refine .after fun _ => (hL.expr _).bind fun place hplace => .after fun _ => .pure ?_
    exact hmax hplace

/-- Statements add nothing to the height of their expressions. -/
theorem gives_statement (hL : L.ReadsUpTo h) (g : Grammar) :
    (statement g L).Gives (·.height ≤ h) := by
  refine .after fun s => ?_
  cases (g.statement s.current.kind).getD .expression with
  | binding =>
    refine .after fun _ => .after fun name => .after fun _ => .after fun _ => ?_
    exact (hL.expr _).bind fun value hvalue => .after fun _ => .pure hvalue
  | ret =>
    refine .after fun s => ?_
    split
    · exact .after fun _ => .pure (Nat.zero_le h)
    split
    · exact .pure (Nat.zero_le h)
    · exact .after fun _ => (hL.expr _).bind fun value hvalue => .after fun _ => .pure hvalue
  | expression => exact (hL.expr _).bind fun value hvalue => .after fun _ => .pure hvalue
  | block => exact hL.block.bind_pure fun _ hb => hb

/-- A list of statements is no higher than its statements, and those that cannot be read are left
out. -/
theorem gives_entries {again : State → Bool} {entry : Action (Option Stmt)}
    {progress : Progresses again entry.thenAdvance}
    (hentry : entry.Gives fun o => ∀ s ∈ o, s.height ≤ h) :
    (repeatWhile again entry.thenAdvance progress >>= fun os =>
      (pure (os.filterMap id) : Action (List Stmt))).Gives (stmtsHeight · ≤ h) := by
  refine Gives.bind_pure (.repeatWhile hentry.thenAdvance) fun os hos => ?_
  refine stmtsHeight_le_iff.mpr fun s hs => ?_
  obtain ⟨o, ho, hsome⟩ := List.mem_filterMap.mp hs
  exact hos o ho s hsome

theorem gives_blockBody (hL : L.ReadsUpTo h) (g : Grammar) :
    (blockBody g L).Gives (stmtsHeight · ≤ h) :=
  .after fun _ => gives_entries (.after fun _ => (gives_statement hL g).attempt)

/-- A program is no higher than what is read at its level. -/
theorem gives_program (hL : L.ReadsUpTo h) (g : Grammar) :
    (program g L).Gives (stmtsHeight · ≤ h) :=
  gives_entries (gives_statement hL g).attempt

end Form

/-! ### Levels -/

/-- The height that can be reached with `n` levels: `n` from an expression with all of them, then
`n - 1` from the first part of it, and so on. -/
def maxHeight (n : Nat) : Nat := n * (n + 1) / 2

theorem maxHeight_succ (n : Nat) : maxHeight (n + 1) = maxHeight n + (n + 1) := by
  have hsum : (n + 1) * (n + 1 + 1) = n * (n + 1) + 2 * (n + 1) := by
    rw [← Nat.add_mul, Nat.mul_comm]
  rw [maxHeight, hsum, Nat.add_mul_div_left _ _ (by decide), maxHeight]

namespace Level

/-- What is read at the level is not higher than `n` levels allow.  What has been read when an
expression is continued may be higher than that, and each level that is left adds one to it. -/
structure Bounds (L : Level) (n : Nat) : Prop where
  reads : L.ReadsUpTo (maxHeight n)
  climb : ∀ p e, (L.climb p e).Gives (·.height ≤ max e.height (maxHeight n) + n)

theorem bounds_bottom (g : Grammar) : (bottom g).Bounds 0 where
  reads := ⟨fun _ => .failHere, .failHere⟩
  climb p e := by
    refine .after fun s => ?_
    split
    · exact .pure (Nat.le_max_left _ _)
    · exact .failHere

theorem Bounds.above {L : Level} {n : Nat} (hL : L.Bounds n) (g : Grammar) :
    (above g L).Bounds (n + 1) where
  reads := by
    refine ⟨fun p => .after fun s => ?_, ?_⟩
    · split
      · exact .failHere
      · next rule _ =>
        -- the first part takes one level, and each of the others may go into a continuation
        refine (Form.gives_head hL.reads rule).bind fun e he => (hL.climb p e).mono fun f hf => ?_
        rw [maxHeight_succ]
        omega
    · refine (Form.gives_blockBody hL.reads g).mono fun b hb => ?_
      rw [maxHeight_succ]
      omega
  climb p e := by
    refine .after fun s => ?_
    split
    · exact .pure (Nat.le_trans (Nat.le_max_left _ _) (Nat.le_add_right _ _))
    · next power rule _ =>
      refine .after fun _ => (Form.gives_tail hL.reads power e rule).bind fun f hf => ?_
      refine (hL.climb p f).mono fun f' hf' => ?_
      rw [maxHeight_succ]
      omega

/-- Every level bounds the height of what is read. -/
theorem bounds_ofRoom (g : Grammar) (n : Nat) : (ofRoom g n).Bounds n := by
  induction n with
  | zero => exact bounds_bottom g
  | succ n ih => exact ih.above g

end Level

end ExprLang
