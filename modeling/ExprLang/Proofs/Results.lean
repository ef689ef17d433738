import ExprLang.Proofs.Ensuring

/-!
# No more results than tokens

What comes of a source is statements, those inside blocks among them, and diagnostics.  Each of them
is paid for by a token of its own: a statement that is read, or what stops one that is not, by the
token that the statement begins with.  This is so at every depth, because the statements of a block
begin after the token that the statement around them begins with.  A block that the end leaves open
has its diagnostic recorded in place of the statement that it is in.

An action is looked at from behind its first token.  It has a credit, and it may spend this and the
tokens that it moves over, on what it records and on the statements inside its result.

## Main definitions

* `countStatements` — how many statements a list has, with those inside them.
* `State.load`, `State.fullLoad` — what has been recorded, and the tokens that are still to come.
* `Action.Pays` — an action that pays for its result.

## Main results

* `Level.pays_ofRoom` — what is read at a level is paid for.
* `results_le_tokens` — there are no more results than tokens before the end.
-/

namespace ExprLang

open ExprLang.Action

/-! ### Counting statements -/

mutual

/-- The number of statements inside an expression. -/
def Expr.inside : Expr → Nat
  | .ident _ | .int _ | .str _ | .bool _ => 0
  | .unary _ operand => operand.inside
  | .binary left _ right => left.inside + right.inside
  | .conditional condition consequence alternative =>
    condition.inside + (countStatements consequence + elseInside alternative)
  | .function _ body => countStatements body
  | .call callee arguments => callee.inside + itemsInside arguments
  | .array elements => itemsInside elements
  | .index subject place => subject.inside + place.inside
  | .hash pairs => pairsInside pairs

/-- The number of statements inside a statement, which is not counted itself. -/
def Stmt.inside : Stmt → Nat
  | .binding _ value => value.inside
  | .ret none => 0
  | .ret (some value) => value.inside
  | .expr value => value.inside
  | .block body => countStatements body

/-- The number of statements of a list, together with those inside them. -/
def countStatements : List Stmt → Nat
  | [] => 0
  | s :: ss => s.inside + 1 + countStatements ss

/-- The number of statements of the second block of a conditional. -/
def elseInside : Option (List Stmt) → Nat
  | none => 0
  | some body => countStatements body

/-- The number of statements inside the expressions of a list. -/
def itemsInside : List Expr → Nat
  | [] => 0
  | e :: es => e.inside + itemsInside es

/-- The number of statements inside the keys and values of a list. -/
def pairsInside : List (Expr × Expr) → Nat
  | [] => 0
  | (key, value) :: ps => key.inside + value.inside + pairsInside ps

end

/-- What a statement costs that has been read, or has not. -/
def entryCost : Option Stmt → Nat
  | none => 0
  | some s => s.inside + 1

theorem countStatements_filterMap_cons (o : Option Stmt) (os : List (Option Stmt)) :
    countStatements ((o :: os).filterMap id) =
      entryCost o + countStatements (os.filterMap id) := by
  cases o with
  | none => exact (Nat.zero_add _).symm
  | some s => rfl

/-! ### What has been recorded, and what is still to come -/

/-- The number of the tokens before the end that are still to come. -/
def Source.left (s : Source) : Nat := s.tokens.countP (·.kind != .eof)

theorem Source.left_eq_next (s : Source) :
    s.left = Cursor.weight 1 s.next.1 + s.next.2.left := by
  rcases s.tokens_cases with h | ⟨hend, hall, hnext⟩
  · rw [left, left, h, List.countP_cons, Nat.add_comm, Cursor.weight]
    by_cases hk : s.next.1.kind = .eof <;> simp [hk]
  · have hnone : ∀ {ts : List Token}, (∀ t ∈ ts, t.kind = .eof) →
        ts.countP (·.kind != .eof) = 0 := fun h =>
      List.countP_eq_zero.mpr fun t ht => by simp [h t ht]
    rw [left, left, hnone hall, hnone hnext, Cursor.weight, if_pos hend]

namespace State

/-- What has been recorded, and the tokens behind the current one. -/
def load (s : State) : Nat :=
  s.diagnostics.length + (Cursor.weight 1 s.lookahead + s.cursor.source.left)

/-- What has been recorded, and the tokens from the current one on. -/
def fullLoad (s : State) : Nat := Cursor.weight 1 s.current + s.load

theorem load_le_fullLoad (s : State) : s.load ≤ s.fullLoad := Nat.le_add_left _ _

theorem fullLoad_eq_of_ne {s : State} (h : s.current.kind ≠ .eof) : s.fullLoad = s.load + 1 := by
  rw [fullLoad, Cursor.weight, if_neg h, Nat.add_comm]

/-- Moving on brings the next token from behind the current one. -/
theorem fullLoad_advance (s : State) : s.advance.fullLoad = s.load := by
  have hnext := s.cursor.source.left_eq_next
  simp only [fullLoad, load, advance, current, lookahead, Cursor.advance]
  omega

theorem load_advance_le (s : State) : s.advance.load ≤ s.load :=
  s.fullLoad_advance ▸ s.advance.load_le_fullLoad

theorem fullLoad_record (s : State) (d : Diagnostic) : (s.record d).fullLoad = s.fullLoad + 1 := by
  simp only [fullLoad, load, record, current, lookahead, List.length_append, List.length_singleton]
  omega

end State

/-! ### Actions that pay for their results -/

namespace Action

variable {α β : Type} {s : State} {cost : α → Nat} {credit : Nat}

/-- What the action costs is paid for by the credit and by the tokens that it moves over. -/
def Pays (m : Action α) (cost : α → Nat) (credit : Nat) (s : State) : Prop :=
  m.Ensures s (fun a t => t.load + cost a ≤ s.load + credit) fun _ t => t.load ≤ s.load + credit

namespace Pays

variable {m : Action α}

theorem pure {a : α} (h : cost a ≤ credit) : (pure a : Action α).Pays cost credit s :=
  Ensures.pure (Nat.add_le_add_left h _)

theorem failHere {c : Cause} : (failHere c : Action α).Pays cost credit s :=
  Ensures.failHere (Nat.le_add_right _ _)

/-- From a later state, which is left with what the action may spend. -/
theorem after {t : State} {spent : Nat} (h : m.Pays cost spent t)
    (ht : t.load + spent ≤ s.load + credit) :
    m.Ensures t (fun a u => u.load + cost a ≤ s.load + credit)
      fun _ u => u.load ≤ s.load + credit :=
  h.mono (fun _ _ hu => Nat.le_trans hu ht) fun _ _ hu => Nat.le_trans hu ht

/-- One action after another, which has the cost of the first result for its credit. -/
theorem bind {m : Action β} {f : β → Action α} {cost' : β → Nat} (h : m.Pays cost' credit s)
    (hf : ∀ b t, (f b).Pays cost (cost' b) t) : (m >>= f).Pays cost credit s :=
  Ensures.bind h (fun _ _ hd => hd) fun b t ht => (hf b t).after ht

/-- The result of an action, changed. -/
theorem bind_pure {m : Action β} {f : β → α} {cost' : β → Nat} (h : m.Pays cost' credit s)
    (hf : ∀ b, cost (f b) ≤ cost' b) : (m >>= fun b => Pure.pure (f b)).Pays cost credit s :=
  h.bind fun b _ => pure (hf b)

/-- An action that needs no credit keeps all that it has. -/
theorem with_credit (h : m.Pays cost 0 s) (kept : Nat) :
    m.Pays (fun a => cost a + kept) kept s := by
  refine Ensures.mono h (fun a t ht => ?_) fun _ t ht => ?_
  · show t.load + (cost a + kept) ≤ s.load + kept
    omega
  · show t.load ≤ s.load + kept
    omega

theorem state_bind {f : State → Action α} (h : (f s).Pays cost credit s) :
    (state >>= f).Pays cost credit s := Ensures.state_bind h

theorem advance_bind {f : Unit → Action α} (h : (f ()).Pays cost credit s.advance) :
    (advance >>= f).Pays cost credit s :=
  Ensures.advance_bind (h.after (Nat.add_le_add_right s.load_advance_le _))

theorem currentValue_bind {f : String → Action α} (h : (f s.current.value).Pays cost credit s) :
    (currentValue >>= f).Pays cost credit s := Ensures.currentValue_bind h

theorem expect_bind {k : Kind} {f : Unit → Action α} (h : (f ()).Pays cost credit s.advance) :
    (Action.expect k >>= f).Pays cost credit s :=
  Ensures.expect_bind (fun _ => Nat.le_add_right _ _) fun _ =>
    h.after (Nat.add_le_add_right s.load_advance_le _)

theorem expect {k : Kind} : (expect k).Pays (fun _ => 0) 0 s :=
  Ensures.expect (fun _ => Nat.le_refl _) fun _ => s.load_advance_le

/-- Rounds of a repeated action, each of which needs no credit. -/
theorem repeatWhile {again : State → Bool} {progress : Progresses again m} (total : List α → Nat)
    (hnil : total [] = 0) (hcons : ∀ a as, total (a :: as) = cost a + total as)
    (hround : ∀ s, m.Pays cost 0 s) :
    (Action.repeatWhile again m progress).Pays total 0 s := by
  unfold Pays
  apply Ensures.repeatWhile (R := fun s a u => u.load + cost a ≤ s.load + 0) progress
  case hround => exact fun s _ => hround s
  case hnil => exact fun s _ => Nat.le_of_eq (by rw [hnil])
  case hcons =>
    intro s a u as t hu ht
    rw [hcons]
    omega
  case hlater =>
    intro s a u d t hu hd
    omega

/-- A statement that is read is paid for by its first token.  So is what stops one that is not, when
it is recorded. -/
theorem attempt {m : Action Stmt} (h : m.Pays Stmt.inside 0 s) (hk : s.current.kind ≠ .eof) :
    m.attempt.Ensures s (fun o t => t.advance.fullLoad + entryCost o ≤ s.fullLoad)
      fun _ t => t.load ≤ s.fullLoad := by
  have hs := State.fullLoad_eq_of_ne hk
  refine Ensures.attempt (Ensures.mono h (fun a t ht => ?_) fun d t ht => ?_)
  · rw [State.fullLoad_advance, entryCost]
    omega
  · show (t.advance.record d).fullLoad + 0 ≤ s.fullLoad
    rw [State.fullLoad_record, State.fullLoad_advance]
    omega

end Pays

end Action

/-! ### The forms of the language -/

/-- Whatever is read at the level is paid for.  The statements inside an expression that is
continued have been paid for before. -/
structure Level.Pays (L : Level) : Prop where
  expr : ∀ p s, (L.expr p).Pays Expr.inside 0 s
  climb : ∀ p e s, (L.climb p e).Pays Expr.inside e.inside s
  block : ∀ s, L.block.Pays countStatements 0 s

namespace Form

variable {L : Level} {s : State}

theorem pays_items (hL : L.Pays) (close : Kind) : (items L close).Pays itemsInside 0 s := by
  refine .state_bind ?_
  split
  · exact .advance_bind (.pure (Nat.le_refl _))
  · have hnext : ∀ t, (nextItem L).Pays Expr.inside 0 t :=
      fun t => .advance_bind (.advance_bind (hL.expr _ _))
    refine .advance_bind ((hL.expr _ _).bind fun first t => ?_)
    have hmore : (Action.repeatWhile commaAhead (nextItem L) (nextItem_progresses L)).Pays
        itemsInside 0 t := .repeatWhile itemsInside rfl (fun _ _ => rfl) hnext
    refine (hmore.with_credit first.inside).bind fun more u => .expect_bind (.pure ?_)
    exact Nat.le_of_eq (Nat.add_comm _ _)

theorem pays_names : names.Pays (fun _ => 0) 0 s := by
  refine .state_bind ?_
  split
  · exact .advance_bind (.pure (Nat.le_refl _))
  · have hnext : ∀ t, nextName.Pays (fun _ => 0) 0 t :=
      fun t => .advance_bind (.expect_bind (.currentValue_bind (.pure (Nat.le_refl _))))
    refine .expect_bind (.currentValue_bind ?_)
    refine Pays.bind (.repeatWhile (fun _ => 0) rfl (fun _ _ => rfl) hnext) fun more u => ?_
    exact .expect_bind (.pure (Nat.le_refl _))

theorem pays_commaOrClose : commaOrClose.Pays (fun _ => 0) 0 s := by
  refine .state_bind ?_
  split
  · exact .pure (Nat.le_refl _)
  · exact .expect

theorem pays_pairs (hL : L.Pays) : (pairs L).Pays pairsInside 0 s := by
  have hpair : ∀ t, (pair L).Pays (fun q => q.1.inside + q.2.inside) 0 t := by
    refine fun t => .advance_bind ((hL.expr _ _).bind fun key u => ?_)
    refine .expect_bind (.advance_bind (((hL.expr _ _).with_credit _).bind fun value v => ?_))
    refine (pays_commaOrClose.with_credit _).bind_pure fun _ => ?_
    show key.inside + value.inside ≤ 0 + (value.inside + key.inside)
    omega
  refine Pays.bind (.repeatWhile pairsInside rfl (fun _ _ => rfl) hpair) fun ps u => ?_
  exact .expect_bind (.pure (Nat.le_refl _))

theorem pays_literal : literal.Pays Expr.inside 0 s := by
  refine .state_bind ?_
  split
  · exact .pure (Nat.le_refl _)
  · split
    · exact .pure (Nat.le_refl _)
    · exact .failHere
  · exact .pure (Nat.le_refl _)
  · exact .pure (Nat.le_refl _)
  · exact .pure (Nat.le_refl _)
  · exact .failHere

theorem pays_alternative (hL : L.Pays) : (alternative L).Pays elseInside 0 s := by
  refine .state_bind ?_
  split
  · exact .advance_bind (.expect_bind ((hL.block _).bind_pure fun _ => Nat.le_refl _))
  · exact .pure (Nat.le_refl _)

theorem pays_head (hL : L.Pays) (rule : HeadRule) : (rule.read L).Pays Expr.inside 0 s := by
  cases rule with
  | literal => exact pays_literal
  | unary =>
    exact .currentValue_bind (.advance_bind ((hL.expr _ _).bind_pure fun _ => Nat.le_refl _))
  | group =>
    exact .advance_bind ((hL.expr _ _).bind fun e t => .expect_bind (.pure (Nat.le_refl _)))
  | conditional =>
    refine .expect_bind (.advance_bind ((hL.expr _ _).bind fun condition t => ?_))
    refine .expect_bind (.expect_bind (((hL.block _).with_credit _).bind fun body u => ?_))
    refine ((pays_alternative hL).with_credit _).bind_pure fun other => ?_
    show condition.inside + (countStatements body + elseInside other) ≤
      elseInside other + (countStatements body + condition.inside)
    omega
  | function =>
    refine .expect_bind (pays_names.bind fun ps t => .expect_bind ?_)
    exact (hL.block _).bind_pure fun _ => Nat.le_refl _
  | array => exact (pays_items hL _).bind_pure fun _ => Nat.le_refl _
  | hash => exact (pays_pairs hL).bind_pure fun _ => Nat.le_refl _

/-- A form that continues an expression has what this costs for its credit. -/
theorem pays_tail (hL : L.Pays) (power : Power) (left : Expr) (rule : TailRule) :
    (rule.read L power left).Pays Expr.inside left.inside s := by
  cases rule with
  | binary =>
    refine .currentValue_bind (.advance_bind (((hL.expr _ _).with_credit _).bind_pure fun e => ?_))
    exact Nat.le_of_eq (Nat.add_comm _ _)
  | call =>
    refine ((pays_items hL _).with_credit _).bind_pure fun es => ?_
    exact Nat.le_of_eq (Nat.add_comm _ _)
  | index =>
    refine .advance_bind (((hL.expr _ _).with_credit _).bind fun e t => .expect_bind (.pure ?_))
    exact Nat.le_of_eq (Nat.add_comm _ _)

/-! ### Statements -/

theorem pays_semicolons : semicolons.Pays (fun _ => 0) 0 s := by
  have hround : ∀ t, (advance >>= Pure.pure : Action Unit).Pays (fun _ => 0) 0 t :=
    fun t => .advance_bind (.pure (Nat.le_refl _))
  exact Pays.bind_pure (.repeatWhile (fun _ => 0) rfl (fun _ _ => rfl) hround)
    fun _ => Nat.le_refl _

theorem pays_semicolon : semicolon.Pays (fun _ => 0) 0 s := by
  refine .state_bind ?_
  split
  · exact Ensures.of_run_eq (.pure s.load_advance_le) (run_advance s)
  · exact .pure (Nat.le_refl _)

theorem pays_statement (hL : L.Pays) (g : Grammar) : (statement g L).Pays Stmt.inside 0 s := by
  refine .state_bind ?_
  cases (g.statement s.current.kind).getD .expression with
  | binding =>
    refine .expect_bind (.currentValue_bind (.expect_bind (.advance_bind ?_)))
    refine (hL.expr _ _).bind fun value t => (pays_semicolons.with_credit _).bind_pure fun _ => ?_
    exact Nat.le_of_eq (Nat.zero_add _).symm
  | ret =>
    refine .state_bind ?_
    split
    · exact .advance_bind (.pure (Nat.le_refl _))
    split
    · exact .pure (Nat.le_refl _)
    · refine .advance_bind ((hL.expr _ _).bind fun value t => ?_)
      refine (pays_semicolons.with_credit _).bind_pure fun _ => ?_
      exact Nat.le_of_eq (Nat.zero_add _).symm
  | expression =>
    refine (hL.expr _ _).bind fun value t => (pays_semicolon.with_credit _).bind_pure fun _ => ?_
    exact Nat.le_of_eq (Nat.zero_add _).symm
  | block => exact (hL.block _).bind_pure fun _ => Nat.le_refl _

/-- The statements of a list, each of which is paid for by its first token. -/
theorem pays_entries {again : State → Bool} {entry : Action (Option Stmt)}
    {progress : Progresses again entry.thenAdvance}
    (hentry : ∀ s, again s = true → entry.thenAdvance.Ensures s
      (fun o t => t.fullLoad + entryCost o ≤ s.fullLoad) fun _ t => t.load ≤ s.fullLoad) :
    (repeatWhile again entry.thenAdvance progress >>= fun os =>
      (pure (os.filterMap id) : Action (List Stmt))).Ensures s
      (fun ss t => t.fullLoad + countStatements ss ≤ s.fullLoad)
      fun _ t => t.load ≤ s.fullLoad := by
  have hall : (repeatWhile again entry.thenAdvance progress).Ensures s
      (fun os t => t.fullLoad + countStatements (os.filterMap id) ≤ s.fullLoad)
      fun _ t => t.load ≤ s.fullLoad := by
    apply Ensures.repeatWhile (R := fun s o u => u.fullLoad + entryCost o ≤ s.fullLoad) progress
    case hround => exact hentry
    case hnil => exact fun s _ => Nat.le_refl _
    case hcons =>
      intro s o u os t hu ht
      rw [countStatements_filterMap_cons]
      omega
    case hlater =>
      intro s o u d t hu hd
      omega
  exact hall.bind_pure fun os t ht => ht

theorem pays_blockBody (hL : L.Pays) (g : Grammar) :
    (blockBody g L).Pays countStatements 0 s := by
  have hentry : ∀ s, insideBlock s = true → (blockEntry g L).thenAdvance.Ensures s
      (fun o t => t.fullLoad + entryCost o ≤ s.fullLoad) fun _ t => t.load ≤ s.fullLoad := by
    intro s _
    have hopen : stillOpen.Ensures s (fun _ t => t = s ∧ s.current.kind ≠ .eof)
        fun _ t => t.load ≤ s.fullLoad := by
      refine .state_bind ?_
      split
      · exact .failHere s.load_le_fullLoad
      · next hk => exact .pure ⟨rfl, hk⟩
    refine Ensures.thenAdvance (hopen.bind (fun _ _ hd => hd) ?_)
    rintro _ _ ⟨rfl, hk⟩
    exact (pays_statement hL g).attempt hk
  refine Ensures.advance_bind ((pays_entries hentry).mono (fun ss t ht => ?_) fun d t hd => ?_)
  · have hle := t.load_le_fullLoad
    rw [State.fullLoad_advance] at ht
    show t.load + countStatements ss ≤ s.load + 0
    omega
  · rw [State.fullLoad_advance] at hd
    exact hd

/-- A program is paid for by the tokens from the current one on. -/
theorem pays_program (hL : L.Pays) (g : Grammar) :
    (program g L).Ensures s (fun ss t => t.fullLoad + countStatements ss ≤ s.fullLoad)
      fun _ t => t.load ≤ s.fullLoad := by
  refine pays_entries fun s hs => Ensures.thenAdvance ((pays_statement hL g).attempt ?_)
  simpa [beforeEnd] using hs

end Form

/-! ### Levels -/

namespace Level

theorem pays_bottom (g : Grammar) : (bottom g).Pays where
  expr _ _ := .failHere
  climb p e s := by
    refine .state_bind ?_
    split
    · exact .pure (Nat.le_refl _)
    · exact .failHere
  block _ := .failHere

theorem Pays.above {L : Level} (hL : L.Pays) (g : Grammar) : (above g L).Pays where
  expr p s := by
    refine .state_bind ?_
    split
    · exact .failHere
    · next rule _ => exact (Form.pays_head hL rule).bind fun e t => hL.climb p e t
  climb p e s := by
    refine .state_bind ?_
    split
    · exact .pure (Nat.le_refl _)
    · next power rule _ =>
      exact .advance_bind ((Form.pays_tail hL power e rule).bind fun e t => hL.climb p e t)
  block _ := Form.pays_blockBody hL g

/-- What is read at a level is paid for, in any grammar. -/
theorem pays_ofRoom (g : Grammar) (n : Nat) : (ofRoom g n).Pays := by
  induction n with
  | zero => exact pays_bottom g
  | succ n ih => exact ih.above g

end Level

/-! ### All of a source -/

/-- What is recorded and the statements that are read, at any depth, are no more than the tokens of
the source other than the end. -/
theorem results_le_tokens (s : Source) :
    (parse s).diagnostics.length + countStatements (parse s).program ≤ s.left := by
  obtain ⟨t, -, hparse, hpays⟩ := exists_of_ensures_program
    (Form.pays_program (s := .ofSource s) (Level.pays_ofRoom .standard maxNesting) .standard)
  have hstart : (State.ofSource s).fullLoad = s.left := by
    have hfirst := s.left_eq_next
    have hsecond := s.next.2.left_eq_next
    simp only [State.fullLoad, State.load, State.ofSource, State.current, State.lookahead,
      Cursor.ofSource, List.length_nil]
    omega
  have hend : t.diagnostics.length ≤ t.fullLoad :=
    Nat.le_trans (Nat.le_add_right _ _) t.load_le_fullLoad
  rw [hstart] at hpays
  rw [hparse]
  omega

/-- Of a list of tokens there come no more diagnostics and statements, at any depth, than there are
tokens. -/
theorem results_le_length (ts : List Token) :
    (parse (.ofTokens ts)).diagnostics.length + countStatements (parse (.ofTokens ts)).program ≤
      ts.length :=
  Nat.le_trans (results_le_tokens (.ofTokens ts)) List.countP_le_length

/-- Neither comma begins a statement. -/
example : (parse (.ofTokens [⟨.comma, ",", default⟩, ⟨.comma, ",", default⟩])).diagnostics.length =
    2 := by
  decide +kernel

end ExprLang
