import ExprLang.Parser.Basic

/-!
# What an action ensures

An action comes to a result or stops with a diagnostic, and either way it leaves a state behind.
What is known about the one and about the other is told together, because the parts of an action
that is made of others are the same in both cases.  Nothing is said about what is recorded on the
way, except by the states.

## Main definitions

* `Action.Ensures m s good bad` — from `s` a result of `m` is `good`, and what stops `m` is `bad`.
* `Action.Gives m good` — the results of `m` are `good` from every state.

## Main results

* `Action.Ensures.bind`, `Action.Ensures.repeatWhile`, … — how these statements are put together.
* `Action.Ensures.repeatWhile_of_invariant` — what the rounds of a repeated action keep.
* `exists_of_ensures_program` — what reading a program ensures is true of parsing its source.
-/

namespace ExprLang

namespace Action

variable {α β : Type}

/-- What the action comes to is `good`, together with the state after it, and what it stops with is
`bad`. -/
structure Ensures (m : Action α) (s : State) (good : α → State → Prop)
    (bad : Diagnostic → State → Prop) : Prop where
  of_ok : ∀ a t, m.run s = (.ok a, t) → good a t
  of_error : ∀ d t, m.run s = (.error d, t) → bad d t

namespace Ensures

variable {m : Action α} {s t : State} {good good' : α → State → Prop}
  {bad bad' : Diagnostic → State → Prop}

theorem mono (h : m.Ensures s good bad) (hgood : ∀ a t, good a t → good' a t)
    (hbad : ∀ d t, bad d t → bad' d t) : m.Ensures s good' bad' :=
  ⟨fun a t hr => hgood a t (h.of_ok a t hr), fun d t hr => hbad d t (h.of_error d t hr)⟩

theorem of_run_eq {m' : Action α} (h : m'.Ensures t good bad) (hr : m.run s = m'.run t) :
    m.Ensures s good bad :=
  ⟨fun a u hu => h.of_ok a u (hr ▸ hu), fun d u hu => h.of_error d u (hr ▸ hu)⟩

theorem pure {a : α} (h : good a s) : (pure a : Action α).Ensures s good bad where
  of_ok b t hr := by
    obtain ⟨hb, rfl⟩ := Prod.mk.inj hr
    exact Except.ok.inj hb ▸ h
  of_error d t hr := by simp at hr

theorem fail {d : Diagnostic} (h : bad d s) : (fail d : Action α).Ensures s good bad where
  of_ok a t hr := by simp at hr
  of_error e t hr := by
    obtain ⟨he, rfl⟩ := Prod.mk.inj hr
    exact Except.error.inj he ▸ h

/-- One action after another, which begins where the first one comes to a result. -/
theorem bind {m : Action β} {f : β → Action α} {good' : β → State → Prop}
    (h : m.Ensures s good' bad') (hbad : ∀ d t, bad' d t → bad d t)
    (hf : ∀ b t, good' b t → (f b).Ensures t good bad) : (m >>= f).Ensures s good bad := by
  rcases hr : m.run s with ⟨e | b, t⟩
  · exact (fail (hbad e t (h.of_error e t hr))).of_run_eq (run_bind_of_error hr)
  · exact (hf b t (h.of_ok b t hr)).of_run_eq (run_bind_of_ok hr)

/-- The result of an action, changed. -/
theorem bind_pure {m : Action β} {f : β → α} {good' : β → State → Prop}
    (h : m.Ensures s good' bad) (hf : ∀ b t, good' b t → good (f b) t) :
    (m >>= fun b => Pure.pure (f b)).Ensures s good bad :=
  h.bind (fun _ _ h => h) fun b t hb => pure (hf b t hb)

theorem state_bind {f : State → Action α} (h : (f s).Ensures s good bad) :
    (state >>= f).Ensures s good bad :=
  h.of_run_eq (run_state_bind f s)

theorem advance_bind {f : Unit → Action α} (h : (f ()).Ensures s.advance good bad) :
    (advance >>= f).Ensures s good bad :=
  h.of_run_eq (run_advance_bind f s)

theorem currentValue_bind {f : String → Action α} (h : (f s.current.value).Ensures s good bad) :
    (currentValue >>= f).Ensures s good bad :=
  h.of_run_eq (run_currentValue_bind f s)

theorem failHere {c : Cause} (h : bad ⟨c, s.position⟩ s) :
    (failHere c : Action α).Ensures s good bad :=
  state_bind (fail h)

theorem expect {k : Kind} {good : Unit → State → Prop}
    (hfail : s.lookahead.kind ≠ k →
      bad ⟨.unexpected k s.lookahead.kind, s.lookahead.span.start⟩ s)
    (h : s.lookahead.kind = k → good () s.advance) : (expect k).Ensures s good bad := by
  by_cases hk : s.lookahead.kind = k
  · refine (pure (h hk)).of_run_eq ?_
    rw [run_expect, if_pos hk, run_pure]
  · refine (fail (hfail hk)).of_run_eq ?_
    rw [run_expect, if_neg hk, run_fail]

/-- The token that is expected comes next, or else the one that does is to blame. -/
theorem expect_bind {k : Kind} {f : Unit → Action α}
    (hfail : s.lookahead.kind ≠ k →
      bad ⟨.unexpected k s.lookahead.kind, s.lookahead.span.start⟩ s)
    (h : s.lookahead.kind = k → (f ()).Ensures s.advance good bad) :
    (Action.expect k >>= f).Ensures s good bad :=
  have hnext : (Action.expect k).Ensures s (fun _ t => t = s.advance ∧ s.lookahead.kind = k) bad :=
    expect hfail fun hk => ⟨rfl, hk⟩
  hnext.bind (fun _ _ h => h) fun _ _ ht => ht.1 ▸ h ht.2

/-- Where an action stops, an attempt goes on with what stopped it recorded. -/
theorem attempt {good : Option α → State → Prop}
    (h : m.Ensures s (fun a t => good (some a) t) fun d t => good none (t.record d)) :
    m.attempt.Ensures s good bad := by
  rcases hr : m.run s with ⟨d | a, t⟩
  · refine (pure (h.of_error d t hr)).of_run_eq ?_
    rw [run_attempt, hr, run_pure]
  · refine (pure (h.of_ok a t hr)).of_run_eq ?_
    rw [run_attempt, hr, run_pure]

theorem thenAdvance (h : m.Ensures s (fun a t => good a t.advance) bad) :
    m.thenAdvance.Ensures s good bad :=
  h.bind (fun _ _ h => h) fun _ _ ha => advance_bind (pure ha)

/-- The rounds of a repeated action, each of which leads on as `R` says. -/
theorem repeatWhile {again : State → Bool} {body : Action α} (progress : Progresses again body)
    {R : State → α → State → Prop} {good : State → List α → State → Prop}
    {bad : State → Diagnostic → State → Prop}
    (hround : ∀ s, again s = true → body.Ensures s (R s) (bad s))
    (hnil : ∀ s, again s = false → good s [] s)
    (hcons : ∀ s a u as t, R s a u → good u as t → good s (a :: as) t)
    (hlater : ∀ s a u d t, R s a u → bad u d t → bad s d t) (s : State) :
    (Action.repeatWhile again body progress).Ensures s (good s) (bad s) := by
  induction s using progress.induction with
  | round s ih =>
    by_cases hs : again s = true
    · refine of_run_eq ?_ (run_repeatWhile_of_again progress hs)
      have hbody : body.Ensures s (fun a u => R s a u ∧ body.run s = (.ok a, u)) (bad s) :=
        ⟨fun a u hr => ⟨(hround s hs).of_ok a u hr, hr⟩, (hround s hs).of_error⟩
      refine hbody.bind (fun _ _ h => h) fun a u ⟨ha, hr⟩ => ?_
      have hrest := ih a u hs hr
      refine (hrest.mono (fun _ _ h => h) fun d t => hlater s a u d t ha).bind_pure ?_
      exact fun as t => hcons s a u as t ha
    · have hend := hnil s (Bool.eq_false_iff.mpr hs)
      exact (pure hend).of_run_eq (run_repeatWhile_of_not_again progress hs)

/-- What every round keeps is kept by all of them, up to where nothing calls for one more. -/
theorem repeatWhile_of_invariant {again : State → Bool} {body : Action α}
    (progress : Progresses again body) {inv : State → Prop} {bad : Diagnostic → State → Prop}
    (hround : ∀ s, inv s → again s = true → body.Ensures s (fun _ t => inv t) bad) (h : inv s) :
    (Action.repeatWhile again body progress).Ensures s (fun _ t => inv t ∧ again t = false)
      bad := by
  have hall : (Action.repeatWhile again body progress).Ensures s
      (fun _ t => inv s → inv t ∧ again t = false) fun d t => inv s → bad d t := by
    apply repeatWhile (R := fun s _ t => inv s → inv t) progress
    case hround =>
      intro s hs
      by_cases hi : inv s
      · exact (hround s hi hs).mono (fun _ _ ht _ => ht) fun _ _ hd _ => hd
      · exact ⟨fun _ _ _ hi' => absurd hi' hi, fun _ _ _ hi' => absurd hi' hi⟩
    case hnil => exact fun s hs hi => ⟨hi, hs⟩
    case hcons => exact fun _ _ _ _ _ hu ht hi => ht (hu hi)
    case hlater => exact fun _ _ _ _ _ hu hd hi => hd (hu hi)
  exact hall.mono (fun _ _ ht => ht h) fun _ _ hd => hd h

end Ensures

/-! ### What an action gives -/

/-- All results of the action have the property, whatever state it begins from. -/
def Gives (m : Action α) (good : α → Prop) : Prop :=
  ∀ s, m.Ensures s (fun a _ => good a) fun _ _ => True

namespace Gives

variable {m : Action α} {good good' : α → Prop}

theorem mono (h : m.Gives good) (hgood : ∀ a, good a → good' a) : m.Gives good' :=
  fun s => (h s).mono (fun a _ => hgood a) fun _ _ h => h

theorem pure {a : α} (h : good a) : (pure a : Action α).Gives good := fun _ => Ensures.pure h

theorem failHere {c : Cause} : (failHere c : Action α).Gives good :=
  fun _ => Ensures.failHere trivial

theorem bind {m : Action β} {f : β → Action α} {before : β → Prop} (h : m.Gives before)
    (hf : ∀ b, before b → (f b).Gives good) : (m >>= f).Gives good :=
  fun s => (h s).bind (fun _ _ h => h) fun b t hb => hf b hb t

/-- Where nothing has to be known about what comes first. -/
theorem after {m : Action β} {f : β → Action α} (hf : ∀ b, (f b).Gives good) :
    (m >>= f).Gives good :=
  have hany : m.Gives fun _ => True := fun _ => ⟨fun _ _ _ => trivial, fun _ _ _ => trivial⟩
  hany.bind fun b _ => hf b

/-- The result of an action, changed. -/
theorem bind_pure {m : Action β} {f : β → α} {before : β → Prop} (h : m.Gives before)
    (hf : ∀ b, before b → good (f b)) : (m >>= fun b => Pure.pure (f b)).Gives good :=
  h.bind fun b hb => pure (hf b hb)

theorem attempt (h : m.Gives good) : m.attempt.Gives fun o => ∀ a ∈ o, good a := by
  intro s
  refine Ensures.attempt ((h s).mono ?_ ?_)
  · intro a t ha b hb
    exact Option.mem_some.mp hb ▸ ha
  · intro d t _ a ha
    exact absurd ha (Option.not_mem_none a)

theorem thenAdvance (h : m.Gives good) : m.thenAdvance.Gives good :=
  fun s => Ensures.thenAdvance (h s)

theorem repeatWhile {again : State → Bool} {body : Action α} {progress : Progresses again body}
    (h : body.Gives good) :
    (Action.repeatWhile again body progress).Gives fun as => ∀ a ∈ as, good a := by
  intro s
  apply Ensures.repeatWhile (R := fun _ a _ => good a) progress
  case hround => exact fun s _ => h s
  case hnil => exact fun _ _ => List.forall_mem_nil _
  case hcons => exact fun _ _ _ _ _ ha has => List.forall_mem_cons.mpr ⟨ha, has⟩
  case hlater => exact fun _ _ _ _ _ _ _ => trivial

end Gives

end Action

/-! ### All of a source -/

/-- What reading a program ensures, seen from what comes of parsing the source. -/
theorem exists_of_ensures_program {s : Source} {good : Program → State → Prop}
    {bad : Diagnostic → State → Prop}
    (h : (Form.program .standard (.ofRoom .standard maxNesting)).Ensures (.ofSource s) good bad) :
    ∃ t, (State.ofSource s).Reaches t ∧ (parse s).diagnostics = t.diagnostics ∧
      good (parse s).program t := by
  obtain ⟨p, t, hrun⟩ := Form.run_program_isOk .standard (.ofRoom .standard maxNesting)
    (.ofSource s)
  have hreaches := (Form.program .standard (.ofRoom .standard maxNesting)).reaches (.ofSource s)
  rw [hrun] at hreaches
  rw [parse_eq hrun]
  exact ⟨t, hreaches, rfl, h.of_ok p t hrun⟩

end ExprLang
