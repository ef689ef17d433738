import ExprLang.Parser.Level
import ExprLang.Proofs.Passing

/-!
# What an action comes to

The parser reads what is nested too deeply no differently from anything else, up to the token where
a level would have to be opened that is not there.  So a statement about reading has two halves.
With enough levels the action from one state comes to another action from a later state, most often
to one that only returns a result.  Without, the first diagnostic that it has to tell is that the
nesting is too deep, whatever is recorded after it.

## Main definitions

* `Action.told` — the diagnostics of an outcome, recorded or not.
* `Action.Trips` — the first diagnostic told is that the nesting is too deep.
* `Action.LeadsTo m s fits m' after` — what `m` comes to from `s`, provided that `fits` holds.

## Main results

* `Action.LeadsTo.trans`, `Action.LeadsTo.bind` — how these statements are put together.
-/

namespace ExprLang

namespace Action

variable {α β γ : Type}

/-! ### Diagnostics told -/

/-- The diagnostics of an outcome: those recorded, and the one that stopped the action. -/
def told : Except Diagnostic α × State → List Diagnostic
  | (.ok _, t) => t.diagnostics
  | (.error d, t) => t.diagnostics ++ [d]

@[simp] theorem told_ok (a : α) (t : State) : told (.ok a, t) = t.diagnostics := rfl

@[simp] theorem told_error (d : Diagnostic) (t : State) :
    told ((.error d : Except Diagnostic α), t) = t.diagnostics ++ [d] := rfl

/-- What has been recorded before is told first. -/
theorem prefix_told (m : Action α) (s : State) : s.diagnostics <+: told (m.run s) := by
  have h := (m.reaches s).diagnostics
  rcases hr : m.run s with ⟨_ | _, t⟩
  · rw [hr] at h
    exact h.trans (List.prefix_append _ _)
  · rw [hr] at h
    exact h

/-- The first diagnostic that an action has to tell is that the nesting is too deep. -/
def Trips (m : Action α) (s : State) : Prop :=
  ∃ d rest, d.cause = .tooDeep maxNesting ∧ told (m.run s) = s.diagnostics ++ d :: rest

theorem trips_refuseLevel (s : State) : (refuseLevel : Action α).Trips s :=
  ⟨⟨.tooDeep maxNesting, s.position⟩, [], rfl, rfl⟩

namespace Trips

variable {m : Action α} {m' : Action β} {s t : State}

theorem of_told_eq (h : m'.Trips t) (hd : t.diagnostics = s.diagnostics)
    (hr : told (m.run s) = told (m'.run t)) : m.Trips s := by
  obtain ⟨d, rest, hc, h⟩ := h
  exact ⟨d, rest, hc, by rw [hr, h, hd]⟩

/-- What comes afterwards tells more, but nothing that comes first. -/
theorem bind (h : m.Trips s) (f : α → Action β) : (m >>= f).Trips s := by
  obtain ⟨d, rest, hc, h⟩ := h
  rcases hr : m.run s with ⟨e | a, t⟩
  · exact ⟨d, rest, hc, by rw [run_bind_of_error hr, ← h, hr]; rfl⟩
  · obtain ⟨more, hmore⟩ := prefix_told (f a) t
    refine ⟨d, rest ++ more, hc, ?_⟩
    rw [hr, told_ok] at h
    rw [run_bind_of_ok hr, ← hmore, h, List.append_assoc, List.cons_append]

/-- Recording why an action failed does not change what is told. -/
theorem attempt (h : m.Trips s) : m.attempt.Trips s := by
  refine h.of_told_eq rfl ?_
  rw [run_attempt]
  rcases m.run s with ⟨_ | _, t⟩ <;> rfl

end Trips

/-! ### Coming to another action -/

/-- If `fits` holds, `m` from `s` does what `m'` does from one of the states `after`, and has
recorded nothing up to there.  If not, then it trips. -/
structure LeadsTo (m : Action α) (s : State) (fits : Prop) (m' : Action α)
    (after : State → Prop) : Prop where
  of_fits : fits → ∃ t, after t ∧ t.diagnostics = s.diagnostics ∧ m.run s = m'.run t
  of_not_fits : ¬ fits → m.Trips s

/-- To be one token before a state. -/
def Before (d t : State) : Prop := t.advance = d

theorem Before.current_eq {d t : State} (h : Before d t) : t.lookahead = d.current := by
  rw [← State.current_advance, h]

theorem Before.diagnostics_eq {d t : State} (h : Before d t) : t.diagnostics = d.diagnostics := by
  rw [← h]
  rfl

namespace LeadsTo

variable {m m' m'' : Action α} {s t : State} {fits fits' : Prop} {after after' : State → Prop}

theorem congr (h : LeadsTo m s fits m' after) (hf : fits' ↔ fits) : LeadsTo m s fits' m' after :=
  ⟨fun h' => h.of_fits (hf.mp h'), fun h' => h.of_not_fits fun h'' => h' (hf.mpr h'')⟩

/-- An action that does what another one does from a later state comes to what that one comes
to. -/
theorem of_run_eq (hr : m.run s = m'.run t) (hd : t.diagnostics = s.diagnostics)
    (h : LeadsTo m' t fits m'' after) : LeadsTo m s fits m'' after where
  of_fits hf := by
    obtain ⟨u, hu, hud, hur⟩ := h.of_fits hf
    exact ⟨u, hu, hud.trans hd, hr.trans hur⟩
  of_not_fits hf := (h.of_not_fits hf).of_told_eq hd (by rw [hr])

/-- An action comes to itself. -/
theorem refl (ht : after s) : LeadsTo m s True m after :=
  ⟨fun _ => ⟨s, ht, rfl, rfl⟩, fun h => absurd trivial h⟩

theorem trans (h : LeadsTo m s fits m' after)
    (h' : ∀ t, after t → t.diagnostics = s.diagnostics → LeadsTo m' t fits' m'' after') :
    LeadsTo m s (fits ∧ fits') m'' after' := by
  by_cases hf : fits
  · obtain ⟨t, ht, htd, hr⟩ := h.of_fits hf
    exact ((h' t ht htd).of_run_eq hr htd).congr (by simp [hf])
  · exact ⟨fun hb => absurd hb.1 hf, fun _ => h.of_not_fits hf⟩

/-- One action after another: first to a result, then on from it. -/
theorem bind {m : Action β} {b : β} {f : β → Action α} (h : LeadsTo m s fits (pure b) after)
    (h' : ∀ t, after t → LeadsTo (f b) t fits' m' after') :
    LeadsTo (m >>= f) s (fits ∧ fits') m' after' := by
  by_cases hf : fits
  · obtain ⟨t, ht, htd, hr⟩ := h.of_fits hf
    exact ((h' t ht).of_run_eq (run_bind_of_ok hr) htd).congr (by simp [hf])
  · exact ⟨fun hb => absurd hb.1 hf, fun _ => (h.of_not_fits hf).bind f⟩

/-- An action that is sure to come to a result, and then on from it. -/
theorem sure_bind {m : Action β} {b : β} {f : β → Action α} (h : LeadsTo m s True (pure b) after)
    (h' : ∀ t, after t → LeadsTo (f b) t fits m' after') : LeadsTo (m >>= f) s fits m' after' :=
  (h.bind h').congr (by simp)

/-- An action that may trip, and then one that is sure to come to something. -/
theorem bind_sure {m : Action β} {b : β} {f : β → Action α} (h : LeadsTo m s fits (pure b) after)
    (h' : ∀ t, after t → LeadsTo (f b) t True m' after') : LeadsTo (m >>= f) s fits m' after' :=
  (h.bind h').congr (by simp)

/-- The result of an action, changed. -/
theorem bind_pure {m : Action β} {b : β} {f : β → α} (h : LeadsTo m s fits (pure b) after) :
    LeadsTo (m >>= fun b => pure (f b)) s fits (pure (f b)) after :=
  h.bind_sure fun _ ht => refl ht

theorem state_bind {f : State → Action α} (h : LeadsTo (f s) s fits m' after) :
    LeadsTo (state >>= f) s fits m' after :=
  h.of_run_eq (run_state_bind f s) rfl

theorem advance_bind {f : Unit → Action α} (h : LeadsTo (f ()) s.advance fits m' after) :
    LeadsTo (advance >>= f) s fits m' after :=
  h.of_run_eq (run_advance_bind f s) rfl

theorem currentValue_bind {f : String → Action α}
    (h : LeadsTo (f s.current.value) s fits m' after) :
    LeadsTo (Action.currentValue >>= f) s fits m' after :=
  h.of_run_eq (run_currentValue_bind f s) rfl

theorem currentValue (h : after s) :
    LeadsTo Action.currentValue s True (pure s.current.value) after where
  of_fits _ := ⟨s, h, rfl, rfl⟩
  of_not_fits hf := absurd trivial hf

theorem expect {k : Kind} {d : State} (hs : Before d s) (hk : d.current.kind = k) (hd : after d) :
    LeadsTo (Action.expect k) s True (pure ()) after where
  of_fits _ := by
    refine ⟨d, hd, hs.diagnostics_eq.symm, ?_⟩
    rw [run_expect, if_pos (hs.current_eq ▸ hk), hs]
    rfl
  of_not_fits hf := absurd trivial hf

/-- The token that is expected comes next. -/
theorem expect_bind {k : Kind} {d : State} {f : Unit → Action α} (hs : Before d s)
    (hk : d.current.kind = k) (h : LeadsTo (f ()) d fits m' after) :
    LeadsTo (Action.expect k >>= f) s fits m' after := by
  refine h.of_run_eq ?_ hs.diagnostics_eq.symm
  rw [run_bind, run_expect, if_pos (hs.current_eq ▸ hk), hs]

/-- An action that has come to a result records nothing when it is attempted. -/
theorem attempt {m : Action α} {a : α} (h : LeadsTo m s fits (pure a) after) :
    LeadsTo m.attempt s fits (pure (some a)) after where
  of_fits hf := by
    obtain ⟨t, ht, htd, hr⟩ := h.of_fits hf
    exact ⟨t, ht, htd, by rw [run_attempt, hr]; rfl⟩
  of_not_fits hf := (h.of_not_fits hf).attempt

/-- Moving on afterwards leads from just before a state to the state itself. -/
theorem thenAdvance {m : Action α} {a : α} {d : State}
    (h : LeadsTo m s fits (pure a) (Before d)) : LeadsTo m.thenAdvance s fits (pure a) (· = d) := by
  exact h.bind_sure fun t ht => advance_bind (refl ht)

/-- A repeated action that is not called for. -/
theorem repeat_nil {again : State → Bool} {body : Action β} (progress : Progresses again body)
    {after : State → Prop} (hs : again s = false) (h : after s) :
    LeadsTo (repeatWhile again body progress) s True (pure []) after := by
  have hstay : LeadsTo (pure ([] : List β)) s True (pure []) after := refl h
  exact hstay.of_run_eq (run_repeatWhile_of_not_again progress (Bool.eq_false_iff.mp hs)) rfl

/-- A repeated action that is called for: one round, and then the rounds after it. -/
theorem repeat_cons {again : State → Bool} {body : Action β} (progress : Progresses again body)
    {b : β} {bs : List β} {after' : State → Prop} (hs : again s = true)
    (h : LeadsTo body s fits (pure b) after)
    (h' : ∀ t, after t → LeadsTo (repeatWhile again body progress) t fits' (pure bs) after') :
    LeadsTo (repeatWhile again body progress) s (fits ∧ fits') (pure (b :: bs)) after' := by
  have hround := h.bind (f := fun a => repeatWhile again body progress >>= fun as => pure (a :: as))
    fun t ht => (h' t ht).bind_pure (f := (b :: ·))
  exact hround.of_run_eq (run_repeatWhile_of_again progress hs) rfl

end LeadsTo

end Action

end ExprLang
