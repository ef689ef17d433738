import ExprLang.Proofs.Ensuring
import Mathlib.Data.List.Count
import Mathlib.Data.List.Forall2

/-!
# What is found is in sight

A diagnostic is found at the token that is being parsed or at the one after it, and what it says is
true of that token.  It is recorded where it was found, and then the parser moves on.  So what is
recorded one after another is about tokens that come one after another.

## Main definitions

* `Cause.TrueOf`, `Diagnostic.IsAbout` — a diagnostic that is about a token.
* `Cursor.Trail` — what is found on the way from one cursor to another.
* `Action.Honest` — an action that finds only what is in sight.

## Main results

* `Level.honest_ofRoom` — every level is honest.
* `Form.honest_program` — so is the reading of a program.
* `Cursor.Trail.exists_numbers` — which tokens the diagnostics on the way are about.
-/

namespace ExprLang

open ExprLang.Action
open Grammar (standard)

/-! ### Diagnostics about tokens -/

/-- What the cause says is true of the token. -/
def Cause.TrueOf (t : Token) : Cause → Prop
  | unexpected expected got => t.kind = got ∧ got ≠ expected
  | noExpression kind => t.kind = kind ∧ standard.head kind = none
  | badInteger text => t.kind = .int ∧ t.value = text ∧ Text.readInteger? text = none
  | unclosedBlock => t.kind = .eof
  | tooDeep limit => limit = maxNesting

/-- The diagnostic is reported at the token, and what it says is true of the token. -/
structure Diagnostic.IsAbout (d : Diagnostic) (t : Token) : Prop where
  position_eq : d.position = t.span.start
  true_of : d.cause.TrueOf t

namespace Cursor

/-- The diagnostic is about one of the tokens in sight. -/
def Shows (c : Cursor) (d : Diagnostic) : Prop := d.IsAbout c.current ∨ d.IsAbout c.lookahead

/-- The cursor moves on from the first place to the second.  On the way the diagnostics are found,
each one in sight, and not more than one before the next move. -/
inductive Trail : Cursor → List Diagnostic → Cursor → Prop where
  | stay (c : Cursor) : Trail c [] c
  | move {c c' : Cursor} {ds : List Diagnostic} (h : Trail c.advance ds c') : Trail c ds c'
  | find {c c' : Cursor} {d : Diagnostic} {ds : List Diagnostic} (hd : c.Shows d)
    (h : Trail c.advance ds c') : Trail c (d :: ds) c'

namespace Trail

theorem trans {c c' c'' : Cursor} {ds es : List Diagnostic} (h : Trail c ds c')
    (h' : Trail c' es c'') : Trail c (ds ++ es) c'' := by
  induction h with
  | stay c => exact h'
  | move _ ih => exact .move (ih h')
  | find hd _ ih => exact .find hd (ih h')

/-- What is found on the way is about the tokens that the cursor comes to. -/
theorem exists_isAbout {c c' : Cursor} {ds : List Diagnostic} (h : Trail c ds c')
    {d : Diagnostic} (hd : d ∈ ds) : ∃ i, d.IsAbout (c.skip i).current := by
  induction h with
  | stay c => exact absurd hd List.not_mem_nil
  | move _ ih =>
    obtain ⟨i, hi⟩ := ih hd
    exact ⟨i + 1, hi⟩
  | find hshows _ ih =>
    rcases List.mem_cons.mp hd with rfl | hd
    · exact hshows.elim (fun hcurrent => ⟨0, hcurrent⟩) fun hnext => ⟨1, hnext⟩
    · obtain ⟨i, hi⟩ := ih hd
      exact ⟨i + 1, hi⟩

variable {is : List Nat}

theorem count_zero_succ (is : List Nat) : (is.map (· + 1)).count 0 = 0 :=
  List.count_eq_zero.mpr (by simp)

theorem count_succ_succ (is : List Nat) (i : Nat) : (is.map (· + 1)).count (i + 1) = is.count i :=
  List.count_map_of_injective is (· + 1) (fun _ _ => Nat.succ.inj) i

theorem sorted_succ (h : is.Pairwise (· ≤ ·)) : (is.map (· + 1)).Pairwise (· ≤ ·) :=
  h.map (· + 1) fun _ _ => Nat.succ_le_succ

/-- The tokens that the diagnostics are about, by their numbers from the first cursor on.  They come
in order.  A token can be blamed when it comes into sight, and once more when it is the current one;
the token at the first cursor is the current one already. -/
theorem exists_numbers {c c' : Cursor} {ds : List Diagnostic} (h : Trail c ds c') :
    ∃ is : List Nat, List.Forall₂ (fun d i => d.IsAbout (c.skip i).current) ds is ∧
      is.Pairwise (· ≤ ·) ∧ is.count 0 ≤ 1 ∧ ∀ i, is.count i ≤ 2 := by
  induction h with
  | stay c => exact ⟨[], .nil, .nil, by simp, by simp⟩
  | @move c c' ds _ ih =>
    obtain ⟨is, habout, hsorted, -, htwo⟩ := ih
    refine ⟨is.map (· + 1), List.forall₂_map_right_iff.mpr habout, sorted_succ hsorted, ?_, ?_⟩
    · rw [count_zero_succ]
      exact Nat.zero_le 1
    · rintro (_ | i)
      · rw [count_zero_succ]
        exact Nat.zero_le 2
      · rw [count_succ_succ]
        exact htwo i
  | @find c c' d ds hd _ ih =>
    obtain ⟨is, habout, hsorted, hone, htwo⟩ := ih
    have hlater : List.Forall₂ (fun d i => d.IsAbout (c.skip i).current) ds (is.map (· + 1)) :=
      List.forall₂_map_right_iff.mpr habout
    have hpos : ∀ i ∈ is.map (· + 1), 1 ≤ i := by simp
    rcases hd with hd | hd
    · -- the first cursor is blamed here, and never again
      have hzero : (0 :: is.map (· + 1)).count 0 = 1 := by
        rw [List.count_cons_self, count_zero_succ]
      have hsorted' : (0 :: is.map (· + 1)).Pairwise (· ≤ ·) :=
        List.pairwise_cons.mpr ⟨fun i _ => Nat.zero_le i, sorted_succ hsorted⟩
      refine ⟨0 :: is.map (· + 1), .cons hd hlater, hsorted', Nat.le_of_eq hzero, ?_⟩
      rintro (_ | i)
      · exact Nat.le_succ_of_le (Nat.le_of_eq hzero)
      · rw [List.count_cons_of_ne (Nat.succ_ne_zero i).symm, count_succ_succ]
        exact htwo i
    · -- the token after it is blamed, which may happen once more when it is the current one
      refine ⟨1 :: is.map (· + 1), .cons hd hlater,
        List.pairwise_cons.mpr ⟨hpos, sorted_succ hsorted⟩, ?_, ?_⟩
      · rw [List.count_cons_of_ne (by decide), count_zero_succ]
        exact Nat.zero_le 1
      · rintro (_ | _ | i)
        · rw [List.count_cons_of_ne (by decide), count_zero_succ]
          exact Nat.zero_le 2
        · rw [List.count_cons_self, count_succ_succ]
          exact Nat.succ_le_succ hone
        · rw [List.count_cons_of_ne (by omega), count_succ_succ]
          exact htwo (i + 1)

end Trail

end Cursor

/-! ### Honest actions -/

/-- Going on from one state to another, where all that is recorded on the way is in sight. -/
def State.Trail (s t : State) : Prop :=
  ∃ new, t.diagnostics = s.diagnostics ++ new ∧ s.cursor.Trail new t.cursor

namespace State.Trail

variable {s t u : State}

theorem refl (s : State) : s.Trail s := ⟨[], (List.append_nil _).symm, .stay _⟩

theorem trans (h : s.Trail t) (h' : t.Trail u) : s.Trail u := by
  obtain ⟨ds, hds, hst⟩ := h
  obtain ⟨es, hes, htu⟩ := h'
  exact ⟨ds ++ es, by rw [hes, hds, List.append_assoc], hst.trans htu⟩

theorem advance (s : State) : s.Trail s.advance :=
  ⟨[], (List.append_nil _).symm, .move (.stay _)⟩

/-- What is in sight may be recorded if the cursor moves on then. -/
theorem record {d : Diagnostic} (hd : s.cursor.Shows d) : s.Trail (s.record d).advance :=
  ⟨[d], rfl, .find hd (.stay _)⟩

end State.Trail

namespace Action

variable {α β : Type}

/-- What the action records and what it stops with is in sight where it is found. -/
def Honest (m : Action α) (s : State) : Prop :=
  m.Ensures s (fun _ t => s.Trail t) fun d t => s.Trail t ∧ t.cursor.Shows d

namespace Honest

variable {m : Action α} {s t : State}

/-- What an action does from a later state, seen from an earlier one. -/
theorem after (h : m.Honest t) (hst : s.Trail t) :
    m.Ensures t (fun _ u => s.Trail u) fun d u => s.Trail u ∧ u.cursor.Shows d :=
  h.mono (fun _ _ => hst.trans) fun _ _ hu => ⟨hst.trans hu.1, hu.2⟩

theorem pure (a : α) : (Pure.pure a : Action α).Honest s := Ensures.pure (.refl s)

theorem bind {m : Action β} {f : β → Action α} (h : m.Honest s) (hf : ∀ b t, (f b).Honest t) :
    (m >>= f).Honest s :=
  Ensures.bind h (fun _ _ hd => hd) fun b t hst => (hf b t).after hst

/-- The result of an action, changed. -/
theorem bind_pure {m : Action β} {f : β → α} (h : m.Honest s) :
    (m >>= fun b => Pure.pure (f b)).Honest s :=
  h.bind fun b _ => pure (f b)

theorem state_bind {f : State → Action α} (h : (f s).Honest s) : (state >>= f).Honest s :=
  Ensures.state_bind h

theorem advance_bind {f : Unit → Action α} (h : (f ()).Honest s.advance) :
    (advance >>= f).Honest s :=
  Ensures.advance_bind (h.after (.advance s))

theorem currentValue_bind {f : String → Action α} (h : (f s.current.value).Honest s) :
    (currentValue >>= f).Honest s :=
  Ensures.currentValue_bind h

/-- What is true of the current token may be found at it. -/
theorem failHere {c : Cause} (h : c.TrueOf s.current) : (failHere c : Action α).Honest s :=
  Ensures.failHere ⟨.refl s, .inl ⟨rfl, h⟩⟩

theorem expect (k : Kind) : (expect k).Honest s :=
  Ensures.expect (fun hk => ⟨.refl s, .inr ⟨rfl, rfl, hk⟩⟩) fun _ => .advance s

theorem expect_bind {k : Kind} {f : Unit → Action α} (h : (f ()).Honest s.advance) :
    (Action.expect k >>= f).Honest s :=
  Ensures.expect_bind (fun hk => ⟨.refl s, .inr ⟨rfl, rfl, hk⟩⟩) fun _ => h.after (.advance s)

/-- What an attempt records is in sight as long as the cursor does not move.  So it has to move
then. -/
theorem attempt (h : m.Honest s) :
    m.attempt.Ensures s (fun _ t => s.Trail t.advance) fun d t => s.Trail t ∧ t.cursor.Shows d :=
  Ensures.attempt (h.mono (fun _ t hst => hst.trans (.advance t)) fun _ _ hd =>
    hd.1.trans (.record hd.2))

theorem repeatWhile {again : State → Bool} {body : Action α} {progress : Progresses again body}
    (h : ∀ s, body.Honest s) : (Action.repeatWhile again body progress).Honest s := by
  unfold Honest
  apply Ensures.repeatWhile (R := fun s _ t => s.Trail t) progress
  case hround => exact fun s _ => h s
  case hnil => exact fun s _ => .refl s
  case hcons => exact fun _ _ _ _ _ hst htu => hst.trans htu
  case hlater => exact fun _ _ _ _ _ hst hd => ⟨hst.trans hd.1, hd.2⟩

end Honest

end Action

/-! ### The forms of the language -/

theorem Grammar.kind_of_literal {k : Kind} (h : standard.head k = some .literal) :
    k = .ident ∨ k = .int ∨ k = .string ∨ k = .trueWord ∨ k = .falseWord := by
  cases k <;> simp_all [standard]

/-- Whatever is read at the level is read by an honest action. -/
structure Level.Honest (L : Level) : Prop where
  expr : ∀ p s, (L.expr p).Honest s
  climb : ∀ p e s, (L.climb p e).Honest s
  block : ∀ s, L.block.Honest s

namespace Form

variable {L : Level} {s : State}

theorem honest_items (hL : L.Honest) (close : Kind) : (items L close).Honest s := by
  refine .state_bind ?_
  split
  · exact .advance_bind (.pure [])
  · refine .advance_bind ((hL.expr _ _).bind fun first t => ?_)
    refine Honest.bind (.repeatWhile fun u => ?_) fun more u => .expect_bind (.pure _)
    exact .advance_bind (.advance_bind (hL.expr _ _))

theorem honest_names : names.Honest s := by
  refine .state_bind ?_
  split
  · exact .advance_bind (.pure [])
  · refine .expect_bind (.currentValue_bind ?_)
    refine Honest.bind (.repeatWhile fun u => ?_) fun more u => .expect_bind (.pure _)
    exact .advance_bind (.expect_bind (.currentValue_bind (.pure _)))

theorem honest_commaOrClose : commaOrClose.Honest s := by
  refine .state_bind ?_
  split
  · exact .pure ()
  · exact .expect .comma

theorem honest_pairs (hL : L.Honest) : (pairs L).Honest s := by
  refine Honest.bind (.repeatWhile fun u => ?_) fun ps u => .expect_bind (.pure ps)
  refine .advance_bind ((hL.expr _ _).bind fun key t => .expect_bind (.advance_bind ?_))
  exact (hL.expr _ _).bind fun value t => honest_commaOrClose.bind_pure

/-- A literal is read where the grammar leads to it, so there is one. -/
theorem honest_literal (h : standard.head s.current.kind = some .literal) :
    literal.Honest s := by
  refine .state_bind ?_
  split
  · exact .pure _
  · next hk =>
    split
    · exact .pure _
    · next hnone => exact .failHere ⟨hk, rfl, hnone⟩
  · exact .pure _
  · exact .pure _
  · exact .pure _
  · next hident hint hstring htrue hfalse =>
    -- no other kind leads here
    rcases Grammar.kind_of_literal h with hk | hk | hk | hk | hk
    · exact absurd hk hident
    · exact absurd hk hint
    · exact absurd hk hstring
    · exact absurd hk htrue
    · exact absurd hk hfalse

theorem honest_alternative (hL : L.Honest) : (alternative L).Honest s := by
  refine .state_bind ?_
  split
  · exact .advance_bind (.expect_bind (hL.block _).bind_pure)
  · exact .pure none

theorem honest_head (hL : L.Honest) {rule : HeadRule}
    (h : standard.head s.current.kind = some rule) : (rule.read L).Honest s := by
  cases rule with
  | literal => exact honest_literal h
  | unary => exact .currentValue_bind (.advance_bind (hL.expr _ _).bind_pure)
  | group => exact .advance_bind ((hL.expr _ _).bind fun e t => .expect_bind (.pure e))
  | conditional =>
    refine .expect_bind (.advance_bind ((hL.expr _ _).bind fun c t => ?_))
    refine .expect_bind (.expect_bind ((hL.block _).bind fun b u => ?_))
    exact (honest_alternative hL).bind_pure
  | function =>
    refine .expect_bind (honest_names.bind fun ps t => .expect_bind ?_)
    exact (hL.block _).bind_pure
  | array => exact (honest_items hL _).bind_pure
  | hash => exact (honest_pairs hL).bind_pure

theorem honest_tail (hL : L.Honest) (power : Power) (left : Expr) (rule : TailRule) :
    (rule.read L power left).Honest s := by
  cases rule with
  | binary => exact .currentValue_bind (.advance_bind (hL.expr _ _).bind_pure)
  | call => exact (honest_items hL _).bind_pure
  | index => exact .advance_bind ((hL.expr _ _).bind fun place t => .expect_bind (.pure _))

/-! ### Statements -/

theorem honest_semicolons : semicolons.Honest s :=
  Honest.bind_pure (.repeatWhile fun _ => .advance_bind (.pure ()))

theorem honest_semicolon : semicolon.Honest s := by
  refine .state_bind ?_
  split
  · exact .advance_bind (.pure ())
  · exact .pure ()

theorem honest_statement (hL : L.Honest) : (statement standard L).Honest s := by
  refine .state_bind ?_
  cases (standard.statement s.current.kind).getD .expression with
  | binding =>
    refine .expect_bind (.currentValue_bind (.expect_bind (.advance_bind ?_)))
    exact (hL.expr _ _).bind fun value t => honest_semicolons.bind_pure
  | ret =>
    refine .state_bind ?_
    split
    · exact .advance_bind (.pure _)
    split
    · exact .pure _
    · exact .advance_bind ((hL.expr _ _).bind fun value t => honest_semicolons.bind_pure)
  | expression => exact (hL.expr _ _).bind fun value t => honest_semicolon.bind_pure
  | block => exact (hL.block _).bind_pure

/-- A statement of a block is read, or what is wrong with it is recorded, and the cursor moves
on. -/
theorem honest_blockEntry (hL : L.Honest) : (blockEntry standard L).thenAdvance.Honest s := by
  have hopen : stillOpen.Ensures s (fun _ t => t = s) fun d t => s.Trail t ∧ t.cursor.Shows d := by
    refine .state_bind ?_
    split
    · next heof => exact .failHere ⟨.refl s, .inl ⟨rfl, heof⟩⟩
    · exact .pure rfl
  refine Ensures.thenAdvance (hopen.bind (fun _ _ hd => hd) ?_)
  rintro _ _ rfl
  exact (honest_statement hL).attempt

theorem honest_blockBody (hL : L.Honest) : (blockBody standard L).Honest s :=
  .advance_bind (Honest.bind_pure (.repeatWhile fun _ => honest_blockEntry hL))

/-- All that is recorded while a program is read is in sight where it is found. -/
theorem honest_program (hL : L.Honest) : (program standard L).Honest s :=
  Honest.bind_pure (.repeatWhile fun _ => Ensures.thenAdvance (honest_statement hL).attempt)

end Form

/-! ### Levels -/

namespace Level

theorem honest_refuseLevel {α : Type} {s : State} : (refuseLevel : Action α).Honest s :=
  .failHere rfl

theorem honest_bottom : (bottom standard).Honest where
  expr _ _ := honest_refuseLevel
  climb p e s := by
    refine .state_bind ?_
    split
    · exact .pure e
    · exact honest_refuseLevel
  block _ := honest_refuseLevel

theorem Honest.above {L : Level} (hL : L.Honest) : (above standard L).Honest where
  expr p s := by
    refine .state_bind ?_
    split
    · next hnone => exact .failHere ⟨rfl, hnone⟩
    · next rule hrule => exact (Form.honest_head hL hrule).bind fun e t => hL.climb p e t
  climb p e s := by
    refine .state_bind ?_
    split
    · exact .pure e
    · next power rule _ =>
      exact .advance_bind ((Form.honest_tail hL power e rule).bind fun e t => hL.climb p e t)
  block _ := Form.honest_blockBody hL

/-- Every level is honest. -/
theorem honest_ofRoom (n : Nat) : (ofRoom standard n).Honest := by
  induction n with
  | zero => exact honest_bottom
  | succ n ih => exact ih.above

end Level

end ExprLang
