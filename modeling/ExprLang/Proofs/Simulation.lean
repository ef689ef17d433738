import ExprLang.Parser.Basic

/-!
# Runs side by side

Two runs of the parser go on side by side from states that see the same tokens, each with levels of
its own for the parts inside the forms.  What they have recorded so far may differ.  The forms of
the language decide everything by the tokens in sight, and so they do the same in both runs if what
is read at the levels does.

What is known of the two states while something is read need not hold between the statements of a
list any more, because an attempt goes on there with a failure recorded.  So this is told
separately.  It holds again as long as the end has not been reached.

## Main definitions

* `Simulation` — which states the two runs are in at the same time, and in which ones they stop.
* `Action.Agree` — two actions that come to the same from two states.
* `Simulation.Covers` — two actions that do so from all states that the runs can be in.
* `Simulation.CoversParts`, `Simulation.CoversLevel` — levels at which the same is read, inside the
  forms and altogether.

## Main results

* `Simulation.covers_head`, `Simulation.covers_tail`, `Simulation.covers_form` — the forms of the
  language do the same.
* `Simulation.agree_blockBody`, `Simulation.agree_program` — and so do lists of statements.
* `Simulation.CoversLevel.exprAbove`, `Simulation.CoversLevel.climbAbove` — expressions are read
  alike one level above.
-/

namespace ExprLang

open ExprLang.Action

/-- Whether an expression or a block is refused for this cause, at its first token. -/
def Cause.refuses : Cause → Bool
  | noExpression _ | badInteger _ | tooDeep _ => true
  | unexpected .. | unclosedBlock => false

/-- Two runs of the parser, side by side. -/
structure Simulation where
  /-- The states of the two runs while something is read. -/
  Rel : State → State → Prop
  /-- Their states between the statements of a list. -/
  Between : State → State → Prop
  /-- Their states where both stop with a diagnostic. -/
  Stops : Diagnostic → State → State → Prop
  current_eq : ∀ {s t}, Rel s t → s.current = t.current
  lookahead_eq : ∀ {s t}, Rel s t → s.lookahead = t.lookahead
  advance : ∀ {s t}, Rel s t → Rel s.advance t.advance
  unexpected : ∀ {s t k}, Rel s t → s.lookahead.kind ≠ k →
    Stops ⟨.unexpected k s.lookahead.kind, s.lookahead.span.start⟩ s t
  refused : ∀ {s t c}, Rel s t → c.refuses = true → Stops ⟨c, s.position⟩ s t
  between_current_eq : ∀ {s t}, Between s t → s.current = t.current
  between_advance : ∀ {s t}, Rel s t → Between s.advance t.advance
  between_record : ∀ {s t d}, Stops d s t → Between (s.record d).advance (t.record d).advance
  rel_of_between : ∀ {s t}, Between s t → s.current.kind ≠ .eof → Rel s t

/-! ### Actions that come to the same -/

namespace Action

variable {α β : Type}

/-- From the two states the two actions come to the same result, or stop with the same diagnostic.
The states after them are `good`, or `bad` where they stop. -/
inductive Agree (m m' : Action α) (s t : State) (good : State → State → Prop)
    (bad : Diagnostic → State → State → Prop) : Prop where
  | ok {a : α} {s' t' : State} (hs : m.run s = (.ok a, s')) (ht : m'.run t = (.ok a, t'))
      (h : good s' t')
  | error {d : Diagnostic} {s' t' : State} (hs : m.run s = (.error d, s'))
      (ht : m'.run t = (.error d, t')) (h : bad d s' t')

namespace Agree

variable {m m' : Action α} {s t s' t' : State} {good good' : State → State → Prop}
  {bad bad' : Diagnostic → State → State → Prop}

theorem mono (h : m.Agree m' s t good bad) (hgood : ∀ s t, good s t → good' s t)
    (hbad : ∀ d s t, bad d s t → bad' d s t) : m.Agree m' s t good' bad' := by
  cases h with
  | ok hs ht h => exact .ok hs ht (hgood _ _ h)
  | error hs ht h => exact .error hs ht (hbad _ _ _ h)

theorem of_run_eq {n n' : Action α} (h : n.Agree n' s' t' good bad) (hs : m.run s = n.run s')
    (ht : m'.run t = n'.run t') : m.Agree m' s t good bad := by
  cases h with
  | ok hs' ht' h => exact .ok (hs.trans hs') (ht.trans ht') h
  | error hs' ht' h => exact .error (hs.trans hs') (ht.trans ht') h

theorem pure (h : good s t) (a : α) : (pure a : Action α).Agree (pure a) s t good bad :=
  .ok rfl rfl h

/-- What is done next may depend on the two states. -/
theorem state_bind {f f' : State → Action α} (h : (f s).Agree (f' t) s t good bad) :
    (state >>= f).Agree (state >>= f') s t good bad := h.of_run_eq rfl rfl

/-- One action after another, which begins from the states that the first one leads to. -/
theorem bind {m m' : Action β} {f f' : β → Action α} (h : m.Agree m' s t good' bad)
    (hf : ∀ b s' t', m.run s = (.ok b, s') → good' s' t' → (f b).Agree (f' b) s' t' good bad) :
    (m >>= f).Agree (m' >>= f') s t good bad := by
  cases h with
  | ok hs ht h => exact (hf _ _ _ hs h).of_run_eq (run_bind_of_ok hs) (run_bind_of_ok ht)
  | error hs ht h => exact .error (run_bind_of_error hs) (run_bind_of_error ht) h

/-- The result of an action, changed. -/
theorem bind_pure {m m' : Action β} {f : β → α} (h : m.Agree m' s t good bad) :
    (m >>= fun b => Pure.pure (f b)).Agree (m' >>= fun b => Pure.pure (f b)) s t good bad :=
  h.bind fun b _ _ _ h => pure h (f b)

/-- Where the actions stop, the attempts go on with what stopped them recorded. -/
theorem attempt (h : m.Agree m' s t good fun d s t => good (s.record d) (t.record d)) :
    m.attempt.Agree m'.attempt s t good bad := by
  cases h with
  | ok hs ht h => exact .ok (by rw [run_attempt, hs]) (by rw [run_attempt, ht]) h
  | error hs ht h => exact .ok (by rw [run_attempt, hs]) (by rw [run_attempt, ht]) h

theorem thenAdvance (h : m.Agree m' s t (fun s t => good s.advance t.advance) bad) :
    m.thenAdvance.Agree m'.thenAdvance s t good bad :=
  h.bind fun _ _ _ _ h => .ok rfl rfl h

/-- What every round keeps is kept by all of them, up to where nothing calls for one more. -/
theorem repeatWhile {again : State → Bool} (progress : Progresses again m)
    (progress' : Progresses again m') {inv : State → State → Prop}
    (hagain : ∀ s t, inv s t → again s = again t)
    (hround : ∀ s t, inv s t → again s = true → m.Agree m' s t inv bad) (h : inv s t) :
    (Action.repeatWhile again m progress).Agree (Action.repeatWhile again m' progress') s t
      (fun s t => inv s t ∧ again s = false) bad := by
  induction s using progress.induction generalizing t with
  | round s ih =>
    have hcall := hagain s t h
    by_cases hs : again s = true
    · refine of_run_eq ?_ (run_repeatWhile_of_again progress hs)
        (run_repeatWhile_of_again progress' (hcall ▸ hs))
      exact (hround s t h hs).bind fun a s' t' hr h' => (ih a s' hs hr h').bind_pure
    · refine of_run_eq (pure ⟨h, Bool.eq_false_iff.mpr hs⟩ []) ?_ ?_
      · exact run_repeatWhile_of_not_again progress hs
      · exact run_repeatWhile_of_not_again progress' (hcall ▸ hs)

end Agree

end Action

namespace Simulation

variable {α β : Type} {S : Simulation}

/-- From all states that the two runs can be in while something is read, the two actions come to the
same. -/
def Covers (S : Simulation) (m m' : Action α) : Prop :=
  ∀ s t, S.Rel s t → m.Agree m' s t S.Rel S.Stops

namespace Covers

variable {m m' : Action α}

theorem pure (a : α) : S.Covers (pure a : Action α) (pure a) := fun _ _ h => .pure h a

theorem advance : S.Covers Action.advance Action.advance := fun _ _ h => .ok rfl rfl (S.advance h)

/-- One action after another. -/
theorem bind {m m' : Action β} {f f' : β → Action α} (h : S.Covers m m')
    (hf : ∀ b, S.Covers (f b) (f' b)) : S.Covers (m >>= f) (m' >>= f') :=
  fun s t hst => (h s t hst).bind fun b s' t' _ h' => hf b s' t' h'

/-- The result of an action, changed. -/
theorem bind_pure {m m' : Action β} {f : β → α} (h : S.Covers m m') :
    S.Covers (m >>= fun b => Pure.pure (f b)) (m' >>= fun b => Pure.pure (f b)) :=
  h.bind fun b => pure (f b)

/-- What is done next may depend on the tokens in sight. -/
theorem state_bind {f f' : State → Action α} (hsame : ∀ s t, S.Rel s t → f' s = f' t)
    (h : ∀ s, S.Covers (f s) (f' s)) : S.Covers (state >>= f) (state >>= f') := by
  intro s t hst
  refine .state_bind ?_
  rw [← hsame s t hst]
  exact h s s t hst

theorem advance_bind {f f' : Unit → Action α} (h : S.Covers (f ()) (f' ())) :
    S.Covers (Action.advance >>= f) (Action.advance >>= f') := advance.bind fun _ => h

theorem currentValue : S.Covers currentValue currentValue :=
  state_bind (fun s t h => by rw [S.current_eq h]) fun s => pure s.current.value

/-- Both runs stop at the same token. -/
theorem failHere {c : Cause} (hc : c.refuses = true) :
    S.Covers (failHere c : Action α) (failHere c) := by
  intro s t hst
  refine .error (run_failHere c s) ?_ (S.refused hst hc)
  rw [run_failHere, State.position, State.position, S.current_eq hst]

theorem expect (k : Kind) : S.Covers (expect k) (expect k) := by
  intro s t hst
  have hnext := S.lookahead_eq hst
  by_cases hk : s.lookahead.kind = k
  · refine Agree.ok (a := ()) ?_ ?_ (S.advance hst)
    · rw [run_expect, if_pos hk]
    · rw [run_expect, ← hnext, if_pos hk]
  · refine .error ?_ ?_ (S.unexpected hst hk)
    · rw [run_expect, if_neg hk]
    · rw [run_expect, ← hnext, if_neg hk]

theorem expect_bind {k : Kind} {f f' : Unit → Action α} (h : S.Covers (f ()) (f' ())) :
    S.Covers (Action.expect k >>= f) (Action.expect k >>= f') := (expect k).bind fun _ => h

theorem repeatWhile {again : State → Bool} {progress : Progresses again m}
    {progress' : Progresses again m'} (hagain : ∀ s t, S.Rel s t → again s = again t)
    (h : S.Covers m m') :
    S.Covers (Action.repeatWhile again m progress) (Action.repeatWhile again m' progress') := by
  intro s t hst
  have hrounds := Agree.repeatWhile progress progress' hagain (fun s t hst _ => h s t hst) hst
  exact hrounds.mono (fun _ _ h => h.1) fun _ _ _ h => h

end Covers

/-! ### The forms of expressions -/

/-- At the two levels the same is read for the parts inside the forms. -/
structure CoversParts (S : Simulation) (L L' : Level) : Prop where
  expr : ∀ p, S.Covers (L.expr p) (L'.expr p)
  block : S.Covers L.block L'.block

/-- At the two levels the same is read. -/
structure CoversLevel (S : Simulation) (L L' : Level) : Prop extends S.CoversParts L L' where
  climb : ∀ p e, S.Covers (L.climb p e) (L'.climb p e)

variable {L L' : Level} {s t : State}

theorem commaAhead_eq (h : S.Rel s t) : Form.commaAhead s = Form.commaAhead t := by
  rw [Form.commaAhead, Form.commaAhead, S.lookahead_eq h]

theorem covers_items (hL : S.CoversParts L L') (close : Kind) :
    S.Covers (Form.items L close) (Form.items L' close) := by
  refine .state_bind (fun s t h => by rw [S.lookahead_eq h]) fun s => ?_
  split
  · exact .advance_bind (.pure [])
  · have hnext : S.Covers (Form.nextItem L) (Form.nextItem L') :=
      .advance_bind (.advance_bind (hL.expr _))
    refine .advance_bind ((hL.expr _).bind fun first => ?_)
    refine Covers.bind (.repeatWhile (fun _ _ => commaAhead_eq) hnext) fun more => ?_
    exact .expect_bind (.pure _)

theorem covers_names : S.Covers Form.names Form.names := by
  refine .state_bind (fun s t h => by rw [S.lookahead_eq h]) fun s => ?_
  split
  · exact .advance_bind (.pure [])
  · have hnext : S.Covers Form.nextName Form.nextName :=
      .advance_bind (.expect_bind .currentValue)
    refine .expect_bind (Covers.currentValue.bind fun first => ?_)
    refine Covers.bind (.repeatWhile (fun _ _ => commaAhead_eq) hnext) fun more => ?_
    exact .expect_bind (.pure _)

theorem covers_commaOrClose : S.Covers Form.commaOrClose Form.commaOrClose := by
  refine .state_bind (fun s t h => by rw [S.lookahead_eq h]) fun s => ?_
  split
  · exact .pure ()
  · exact .expect .comma

theorem covers_pairs (hL : S.CoversParts L L') : S.Covers (Form.pairs L) (Form.pairs L') := by
  have hpair : S.Covers (Form.pair L) (Form.pair L') := by
    refine .advance_bind ((hL.expr _).bind fun key => .expect_bind (.advance_bind ?_))
    exact (hL.expr _).bind fun value => covers_commaOrClose.bind_pure
  refine Covers.bind (.repeatWhile (fun s t h => ?_) hpair) fun ps => .expect_bind (.pure ps)
  rw [Form.pairAhead, Form.pairAhead, S.lookahead_eq h]

theorem covers_literal : S.Covers Form.literal Form.literal := by
  refine .state_bind (fun s t h => by rw [S.current_eq h]) fun s => ?_
  split
  · exact .pure _
  · split
    · exact .pure _
    · exact .failHere rfl
  · exact .pure _
  · exact .pure _
  · exact .pure _
  · exact .failHere rfl

theorem covers_alternative (hL : S.CoversParts L L') :
    S.Covers (Form.alternative L) (Form.alternative L') := by
  refine .state_bind (fun s t h => by rw [S.lookahead_eq h]) fun s => ?_
  split
  · exact .advance_bind (.expect_bind hL.block.bind_pure)
  · exact .pure none

theorem covers_head (hL : S.CoversParts L L') (rule : HeadRule) :
    S.Covers (rule.read L) (rule.read L') := by
  cases rule with
  | literal => exact covers_literal
  | unary => exact Covers.currentValue.bind fun op => .advance_bind (hL.expr _).bind_pure
  | group => exact .advance_bind ((hL.expr _).bind fun e => .expect_bind (.pure e))
  | conditional =>
    refine .expect_bind (.advance_bind ((hL.expr _).bind fun condition => ?_))
    refine .expect_bind (.expect_bind (hL.block.bind fun consequence => ?_))
    exact (covers_alternative hL).bind_pure
  | function => exact .expect_bind (covers_names.bind fun ps => .expect_bind hL.block.bind_pure)
  | array => exact (covers_items hL _).bind_pure
  | hash => exact (covers_pairs hL).bind_pure

theorem covers_tail (hL : S.CoversParts L L') (power : Power) (left : Expr) (rule : TailRule) :
    S.Covers (rule.read L power left) (rule.read L' power left) := by
  cases rule with
  | binary => exact Covers.currentValue.bind fun op => .advance_bind (hL.expr _).bind_pure
  | call => exact (covers_items hL _).bind_pure
  | index => exact .advance_bind ((hL.expr _).bind fun place => .expect_bind (.pure _))

/-! ### Statements -/

theorem covers_semicolons : S.Covers Form.semicolons Form.semicolons := by
  refine Covers.bind_pure (.repeatWhile (fun s t h => ?_) (.advance_bind (.pure ())))
  rw [Form.semicolonAhead, Form.semicolonAhead, S.lookahead_eq h]

theorem covers_semicolon : S.Covers Form.semicolon Form.semicolon := by
  refine .state_bind (fun s t h => by rw [S.lookahead_eq h]) fun s => ?_
  split
  · exact .advance
  · exact .pure ()

/-- Blocks need only be read alike for the form that is a block. -/
theorem covers_form (hexpr : ∀ p, S.Covers (L.expr p) (L'.expr p)) (rule : StmtRule)
    (hblock : rule = .block → S.Covers L.block L'.block) :
    S.Covers (rule.read L) (rule.read L') := by
  cases rule with
  | binding =>
    refine .expect_bind (Covers.currentValue.bind fun name => .expect_bind (.advance_bind ?_))
    exact (hexpr _).bind fun value => covers_semicolons.bind_pure
  | ret =>
    refine .state_bind (fun s t h => by rw [S.lookahead_eq h]) fun s => ?_
    split
    · exact .advance_bind (.pure _)
    split
    · exact .pure _
    · exact .advance_bind ((hexpr _).bind fun value => covers_semicolons.bind_pure)
  | expression => exact (hexpr _).bind fun value => covers_semicolon.bind_pure
  | block => exact (hblock rfl).bind_pure

/-- Blocks need only be read alike if the grammar has statements that are blocks. -/
theorem covers_statement {g : Grammar} (hexpr : ∀ p, S.Covers (L.expr p) (L'.expr p))
    (hblock : ∀ k, (g.statement k).getD .expression = .block → S.Covers L.block L'.block) :
    S.Covers (Form.statement g L) (Form.statement g L') :=
  .state_bind (fun s t h => by rw [S.current_eq h]) fun _ => covers_form hexpr _ (hblock _)

theorem CoversParts.statement (hL : S.CoversParts L L') (g : Grammar) :
    S.Covers (Form.statement g L) (Form.statement g L') :=
  covers_statement hL.expr fun _ _ => hL.block

/-- After a statement that has been attempted, the runs can move on. -/
theorem agree_attempt {m m' : Action α} (hm : S.Covers m m') (h : S.Between s t)
    (hs : s.current.kind ≠ .eof) {bad : Diagnostic → State → State → Prop} :
    m.attempt.Agree m'.attempt s t (fun s t => S.Between s.advance t.advance) bad := by
  refine .attempt ?_
  exact (hm s t (S.rel_of_between h hs)).mono (fun _ _ => S.between_advance)
    fun _ _ _ => S.between_record

/-- A block is given up at the end only. -/
def GivenUp (S : Simulation) (d : Diagnostic) (s t : State) : Prop :=
  S.Between s t ∧ s.current.kind = .eof ∧ d = ⟨.unclosedBlock, s.position⟩

theorem agree_stillOpen (h : S.Between s t) :
    Form.stillOpen.Agree Form.stillOpen s t
      (fun s' t' => s' = s ∧ t' = t ∧ s.current.kind ≠ .eof) S.GivenUp := by
  have hcurrent := S.between_current_eq h
  by_cases hk : s.current.kind = .eof
  · refine .error ?_ ?_ ⟨h, hk, rfl⟩
    · rw [Form.stillOpen, run_state_bind, if_pos hk, run_failHere]
    · rw [Form.stillOpen, run_state_bind, ← hcurrent, if_pos hk, run_failHere, State.position,
        State.position, hcurrent]
  · refine Agree.ok (a := ()) ?_ ?_ ⟨rfl, rfl, hk⟩
    · rw [Form.stillOpen, run_state_bind, if_neg hk, run_pure]
    · rw [Form.stillOpen, run_state_bind, ← hcurrent, if_neg hk, run_pure]

theorem agree_blockBody {g : Grammar} (hm : S.Covers (Form.statement g L) (Form.statement g L'))
    (h : S.Rel s t) :
    (Form.blockBody g L).Agree (Form.blockBody g L') s t
      (fun s t => S.Between s t ∧ s.current.kind = .closeCurly) S.GivenUp := by
  have hentry : ∀ s t, S.Between s t → Form.insideBlock s = true →
      (Form.blockEntry g L).thenAdvance.Agree (Form.blockEntry g L').thenAdvance s t S.Between
        S.GivenUp := by
    intro s t hst _
    refine .thenAdvance ((agree_stillOpen hst).bind ?_)
    rintro _ _ _ _ ⟨rfl, rfl, hk⟩
    exact agree_attempt hm hst hk
  have hagain : ∀ s t, S.Between s t → Form.insideBlock s = Form.insideBlock t := by
    intro s t hst
    rw [Form.insideBlock, Form.insideBlock, S.between_current_eq hst]
  have hrounds := Agree.repeatWhile (Form.blockEntry_progresses g L)
    (Form.blockEntry_progresses g L') hagain hentry (S.between_advance h)
  refine (Agree.bind_pure (hrounds.mono (fun s t hst => ⟨hst.1, ?_⟩) fun _ _ _ hd => hd)).of_run_eq
    (run_advance_bind _ s) (run_advance_bind _ t)
  simpa [Form.insideBlock] using hst.2

theorem agree_program {g : Grammar} (hm : S.Covers (Form.statement g L) (Form.statement g L'))
    (h : S.Between s t) :
    (Form.program g L).Agree (Form.program g L') s t
      (fun s t => S.Between s t ∧ s.current.kind = .eof) fun _ _ _ => False := by
  have hentry : ∀ s t, S.Between s t → Form.beforeEnd s = true →
      (Form.programEntry g L).thenAdvance.Agree (Form.programEntry g L').thenAdvance s t S.Between
        fun _ _ _ => False :=
    fun s t hst hs => .thenAdvance (agree_attempt hm hst (by simpa [Form.beforeEnd] using hs))
  have hagain : ∀ s t, S.Between s t → Form.beforeEnd s = Form.beforeEnd t := by
    intro s t hst
    rw [Form.beforeEnd, Form.beforeEnd, S.between_current_eq hst]
  have hrounds := Agree.repeatWhile (Form.programEntry_progresses g L)
    (Form.programEntry_progresses g L') hagain hentry h
  refine Agree.bind_pure (hrounds.mono (fun s t hst => ⟨hst.1, ?_⟩) fun _ _ _ hd => hd)
  simpa [Form.beforeEnd] using hst.2

/-! ### Levels -/

theorem covers_bottom (g : Grammar) : S.CoversLevel (Level.bottom g) (Level.bottom g) where
  expr _ := .failHere rfl
  climb p e := by
    refine .state_bind (fun s t h => by rw [S.lookahead_eq h]) fun s => ?_
    split
    · exact .pure e
    · exact .failHere rfl
  block := .failHere rfl

theorem CoversLevel.exprAbove (hL : S.CoversLevel L L') (g : Grammar) (p : Power) :
    S.Covers (Level.exprAbove g L p) (Level.exprAbove g L' p) := by
  refine .state_bind (fun s t h => by rw [S.current_eq h]) fun s => ?_
  split
  · exact .failHere rfl
  · next rule _ => exact (covers_head hL.toCoversParts rule).bind fun left => hL.climb p left

theorem CoversLevel.climbAbove (hL : S.CoversLevel L L') (g : Grammar) (p : Power) (e : Expr) :
    S.Covers (Level.climbAbove g L p e) (Level.climbAbove g L' p e) := by
  refine .state_bind (fun s t h => by rw [S.lookahead_eq h]) fun s => ?_
  split
  · exact .pure e
  · next power rule _ =>
    have htail := covers_tail hL.toCoversParts power e rule
    exact .advance_bind (htail.bind fun left => hL.climb p left)

end Simulation

end ExprLang
