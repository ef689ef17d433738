import ExprLang.Parser.Action

/-!
# Repeated actions

Every list in the language is read by doing one action again and again, as long as the tokens in
sight call for it.  This ends because each round that succeeds takes something off what is left.
Whoever repeats an action has to say why that is so.

## Main definitions

* `Action.Progresses again body` — a round of `body` takes something off what is left.
* `Action.repeatWhile` — the results of `body`, done as long as `again` holds.

## Main results

* `Action.run_repeatWhile` — doing it again is doing it once and then again.
* `Action.Progresses.induction` — induction on the rounds.
* `Action.run_repeatWhile_isOk` — if no round fails, then the whole does not fail.
* `Action.Progresses.of_advance`, `Action.Progresses.of_thenAdvance` — a round makes progress if it
  moves on first or last, and fails once nothing is left.
-/

namespace ExprLang

namespace Action

variable {α : Type}

/-- A round of `body` that succeeds takes something off what is left. -/
def Progresses (again : State → Bool) (body : Action α) : Prop :=
  ∀ s t a, again s = true → body.run s = (.ok a, t) → t.remaining < s.remaining

/-- The results of `body`, done from `s` as long as `again` holds. -/
def runWhile (again : State → Bool) (body : Action α) (progress : Progresses again body)
    (s : State) : Except Diagnostic (List α) × State :=
  if hs : again s = true then
    match hr : body.run s with
    | (.ok a, t) =>
      have := progress s t a hs hr
      match runWhile again body progress t with
      | (.ok as, u) => (.ok (a :: as), u)
      | (.error d, u) => (.error d, u)
    | (.error d, t) => (.error d, t)
  else (.ok [], s)
termination_by s.remaining

theorem reaches_runWhile (again : State → Bool) (body : Action α)
    (progress : Progresses again body) (s : State) :
    s.Reaches (runWhile again body progress s).2 := by
  fun_induction runWhile again body progress s with
  | case1 s hs a t hr _ as u hu ih =>
    -- the round goes forward, and so do the rounds after it
    have h := body.reaches s
    rw [hr] at h
    rw [hu] at ih
    exact h.trans ih
  | case2 s hs a t hr _ d u hu ih =>
    have h := body.reaches s
    rw [hr] at h
    rw [hu] at ih
    exact h.trans ih
  | case3 s hs d t hr =>
    have h := body.reaches s
    rw [hr] at h
    exact h
  | case4 s hs => exact .refl s

/-- Do `body` as long as `again` holds, and collect the results. -/
def repeatWhile (again : State → Bool) (body : Action α) (progress : Progresses again body) :
    Action (List α) :=
  ⟨runWhile again body progress, reaches_runWhile again body progress⟩

/-- Doing an action again is doing it once, and then again. -/
theorem run_repeatWhile (again : State → Bool) (body : Action α) (progress : Progresses again body)
    (s : State) :
    (repeatWhile again body progress).run s =
      if again s = true then
        (body >>= fun a => repeatWhile again body progress >>= fun as => pure (a :: as)).run s
      else (.ok [], s) := by
  simp only [repeatWhile, run_bind]
  rw [runWhile]
  split
  · split
    · next a t hr =>
      simp only [hr, run_pure]
      split <;> simp_all
    · next d t hr => simp only [hr]
  · rfl

theorem run_repeatWhile_of_again {again : State → Bool} {body : Action α}
    (progress : Progresses again body) {s : State} (hs : again s = true) :
    (repeatWhile again body progress).run s =
      (body >>= fun a => repeatWhile again body progress >>= fun as => pure (a :: as)).run s := by
  rw [run_repeatWhile, if_pos hs]

theorem run_repeatWhile_of_not_again {again : State → Bool} {body : Action α}
    (progress : Progresses again body) {s : State} (hs : ¬ again s = true) :
    (repeatWhile again body progress).run s = (pure [] : Action (List α)).run s := by
  rw [run_repeatWhile, if_neg hs, run_pure]

/-- Induction on the rounds: what has to be known of a state may be taken as known of the state that
a round from there leads to. -/
theorem Progresses.induction {again : State → Bool} {body : Action α}
    (progress : Progresses again body) {motive : State → Prop}
    (round : ∀ s, (∀ a t, again s = true → body.run s = (.ok a, t) → motive t) → motive s)
    (s : State) : motive s := by
  generalize hn : s.remaining = n
  induction n using Nat.strongRecOn generalizing s with
  | ind n ih =>
    refine round s fun a t hs hr => ?_
    have hlt : t.remaining < n := hn ▸ progress s t a hs hr
    exact ih t.remaining hlt t rfl

/-- If no round fails, then the whole does not fail. -/
theorem run_repeatWhile_isOk {again : State → Bool} {body : Action α}
    (progress : Progresses again body)
    (h : ∀ s, again s = true → ∃ a t, body.run s = (.ok a, t)) (s : State) :
    ∃ as t, (repeatWhile again body progress).run s = (.ok as, t) := by
  induction s using progress.induction with
  | round s ih =>
    by_cases hs : again s = true
    · obtain ⟨a, t, ha⟩ := h s hs
      obtain ⟨as, u, has⟩ := ih a t hs ha
      refine ⟨a :: as, u, ?_⟩
      rw [run_repeatWhile_of_again progress hs, run_bind_of_ok ha, run_bind_of_ok has, run_pure]
    · exact ⟨[], s, run_repeatWhile_of_not_again progress hs⟩

/-! ### Why a round makes progress -/

/-- A round that begins by moving on makes progress, provided that it fails once nothing is left. -/
theorem Progresses.of_advance {again : State → Bool} {body : Unit → Action α}
    (h : ∀ s, again s = true → s.remaining = 0 → (body ()).FailsAt s.advance) :
    Progresses again (advance >>= body) := by
  intro s t a hs hr
  by_cases hz : s.remaining = 0
  · -- then the round would have failed
    obtain ⟨d, u, hf⟩ := h s hs hz
    rw [run_advance_bind, hf] at hr
    simp at hr
  · have hlt := remaining_bind_lt body
      (show (advance.run s).2.remaining < s.remaining from
        State.remaining_advance_lt (Nat.pos_of_ne_zero hz))
    rwa [hr] at hlt

/-- A round that is called for by the token after the current one makes progress if it begins by
moving on. -/
theorem Progresses.of_lookahead {kind : Kind} (hk : kind ≠ .eof) {body : Unit → Action α} :
    Progresses (fun s => s.lookahead.kind == kind) (advance >>= body) :=
  .of_advance fun s hs hz => by
    have hl := (Cursor.remaining_eq_zero_iff.mp hz).2.1
    exact absurd (hl.symm.trans (beq_iff_eq.mp hs)).symm hk

/-- Do an action and then move on. -/
def thenAdvance (m : Action α) : Action α := do
  let a ← m
  advance
  pure a

/-- A round that ends by moving on makes progress if it succeeds only while something is left. -/
theorem Progresses.of_thenAdvance {again : State → Bool} {m : Action α}
    (h : ∀ s, again s = true → s.remaining = 0 → m.FailsAt s) : Progresses again m.thenAdvance := by
  intro s t a hs hr
  by_cases hz : s.remaining = 0
  · obtain ⟨d, u, hf⟩ := h s hs hz
    rw [thenAdvance, run_bind_of_error hf] at hr
    simp at hr
  · have hle := m.remaining_run_le s
    rw [thenAdvance, run_bind] at hr
    split at hr
    · next b u hu =>
      -- the action may have used up what was left; otherwise the last move takes something off
      rw [hu] at hle
      rw [run_advance_bind, run_pure] at hr
      obtain ⟨-, rfl⟩ := Prod.mk.inj hr
      by_cases hu0 : u.remaining = 0
      · rw [State.remaining_advance_eq_zero hu0]
        exact Nat.pos_of_ne_zero hz
      · exact Nat.lt_of_lt_of_le (State.remaining_advance_lt (Nat.pos_of_ne_zero hu0)) hle
    · simp at hr

end Action

end ExprLang
