import ExprLang.Diagnostic.Basic
import ExprLang.Parser.Cursor

/-!
# Actions of the parser

An action reads something: it moves the cursor, may record diagnostics on the way, and ends with a
result or with the diagnostic that stopped it.  An action that fails leaves the cursor where it
failed, so that the parser can go on from there.

Actions only go forward.  They move the cursor by some number of tokens, and they keep the
diagnostics recorded before.  This is a part of what an action is, so it holds of every action
that is built from the ones below.

## Main definitions

* `State`, `State.Reaches` — the cursor and the diagnostics, and going forward from them.
* `Action` — an action, with `pure` and `bind` as a monad.
* `Action.state`, `Action.advance`, `Action.fail`, `Action.record` — the elementary actions.
* `Action.failHere`, `Action.expect`, `Action.attempt` — actions made of these.

## Main results

* `Action.run_bind` — how one action follows another.
* `State.Reaches.remaining_le` — going forward leaves no more than there was.
-/

namespace ExprLang

/-! ### States -/

/-- What the parser sees, and what it has found. -/
structure State where
  /-- The tokens in sight. -/
  cursor : Cursor
  /-- The diagnostics recorded so far, in the order in which they were. -/
  diagnostics : List Diagnostic
  deriving DecidableEq, Repr, Inhabited

namespace State

/-- The state at the first token of a source. -/
def ofSource (s : Source) : State := ⟨.ofSource s, []⟩

/-- The token that is being parsed. -/
def current (s : State) : Token := s.cursor.current

/-- The token after it. -/
def lookahead (s : State) : Token := s.cursor.lookahead

/-- The place of the token that is being parsed. -/
def position (s : State) : Position := s.current.span.start

/-- A bound on the moves that are left before only the end is in sight. -/
def remaining (s : State) : Nat := s.cursor.remaining

/-- Move on by one token. -/
def advance (s : State) : State := { s with cursor := s.cursor.advance }

/-- Record a diagnostic. -/
def record (s : State) (d : Diagnostic) : State := { s with diagnostics := s.diagnostics ++ [d] }

@[simp] theorem remaining_record (s : State) (d : Diagnostic) :
    (s.record d).remaining = s.remaining := rfl

theorem remaining_advance_lt {s : State} (h : 0 < s.remaining) :
    s.advance.remaining < s.remaining := Cursor.remaining_advance_lt h

theorem remaining_advance_eq_zero {s : State} (h : s.remaining = 0) :
    s.advance.remaining = 0 := Cursor.remaining_advance_eq_zero h

/-- Going forward: the cursor moves by some number of tokens, and diagnostics are only added. -/
structure Reaches (s t : State) : Prop where
  /-- The cursor moves by some number of tokens. -/
  cursor : ∃ n, t.cursor = s.cursor.skip n
  /-- The diagnostics recorded before are kept. -/
  diagnostics : s.diagnostics <+: t.diagnostics

namespace Reaches

theorem refl (s : State) : s.Reaches s := ⟨⟨0, rfl⟩, List.prefix_refl _⟩

theorem trans {s t u : State} (h : s.Reaches t) (h' : t.Reaches u) : s.Reaches u := by
  obtain ⟨⟨m, hm⟩, hd⟩ := h
  obtain ⟨⟨n, hn⟩, hd'⟩ := h'
  exact ⟨⟨m + n, by rw [hn, hm, Cursor.skip_add]⟩, hd.trans hd'⟩

theorem advance (s : State) : s.Reaches s.advance := ⟨⟨1, rfl⟩, List.prefix_refl _⟩

theorem record (s : State) (d : Diagnostic) : s.Reaches (s.record d) :=
  ⟨⟨0, rfl⟩, List.prefix_append _ _⟩

/-- Going forward leaves no more than there was. -/
theorem remaining_le {s t : State} (h : s.Reaches t) : t.remaining ≤ s.remaining := by
  obtain ⟨n, hn⟩ := h.cursor
  rw [remaining, hn]
  exact Cursor.remaining_skip_le n s.cursor

end Reaches

end State

/-! ### Actions -/

/-- An action of the parser. -/
structure Action (α : Type) where
  /-- What the action does from a state: its result, or why it stopped, and the state after it. -/
  run : State → Except Diagnostic α × State
  /-- An action goes forward. -/
  reaches : ∀ s : State, s.Reaches (run s).2

namespace Action

variable {α β : Type}

/-- The action that does nothing. -/
protected def pure (a : α) : Action α := ⟨fun s => (.ok a, s), fun s => .refl s⟩

/-- One action and, if it has a result, another one that depends on it. -/
protected def bind (m : Action α) (f : α → Action β) : Action β where
  run s :=
    match m.run s with
    | (.ok a, t) => (f a).run t
    | (.error d, t) => (.error d, t)
  reaches s := by
    have h := m.reaches s
    split
    · next a t heq =>
      rw [heq] at h
      exact h.trans ((f a).reaches t)
    · next d t heq =>
      rw [heq] at h
      exact h

instance : Monad Action where
  pure := Action.pure
  bind := Action.bind

@[simp] theorem run_pure (a : α) (s : State) : (pure a : Action α).run s = (.ok a, s) := rfl

/-- How one action follows another. -/
theorem run_bind (m : Action α) (f : α → Action β) (s : State) :
    (m >>= f).run s =
      match m.run s with
      | (.ok a, t) => (f a).run t
      | (.error d, t) => (.error d, t) := rfl

theorem run_bind_of_ok {m : Action α} {f : α → Action β} {s t : State} {a : α}
    (h : m.run s = (.ok a, t)) : (m >>= f).run s = (f a).run t := by
  rw [run_bind, h]

theorem run_bind_of_error {m : Action α} {f : α → Action β} {s t : State} {d : Diagnostic}
    (h : m.run s = (.error d, t)) : (m >>= f).run s = (.error d, t) := by
  rw [run_bind, h]

/-- An action leaves no more than there was. -/
theorem remaining_run_le (m : Action α) (s : State) : (m.run s).2.remaining ≤ s.remaining :=
  (m.reaches s).remaining_le

/-- What comes first and goes on strictly makes the whole go on strictly. -/
theorem remaining_bind_lt {m : Action α} (f : α → Action β) {s : State}
    (h : (m.run s).2.remaining < s.remaining) : ((m >>= f).run s).2.remaining < s.remaining := by
  rw [run_bind]
  split
  · next a t heq =>
    rw [heq] at h
    exact Nat.lt_of_le_of_lt ((f a).remaining_run_le t) h
  · next d t heq =>
    rw [heq] at h
    exact h

/-! ### Elementary actions -/

/-- The state, as it is. -/
def state : Action State := ⟨fun s => (.ok s, s), fun s => .refl s⟩

/-- Move on by one token. -/
def advance : Action Unit := ⟨fun s => (.ok (), s.advance), fun s => .advance s⟩

/-- Stop with a diagnostic. -/
def fail (d : Diagnostic) : Action α := ⟨fun s => (.error d, s), fun s => .refl s⟩

/-- Record a diagnostic and go on. -/
def record (d : Diagnostic) : Action Unit := ⟨fun s => (.ok (), s.record d), fun s => .record s d⟩

@[simp] theorem run_state (s : State) : state.run s = (.ok s, s) := rfl

@[simp] theorem run_advance (s : State) : advance.run s = (.ok (), s.advance) := rfl

@[simp] theorem run_fail (d : Diagnostic) (s : State) :
    (fail d : Action α).run s = (.error d, s) := rfl

@[simp] theorem run_record (d : Diagnostic) (s : State) :
    (record d).run s = (.ok (), s.record d) := rfl

@[simp] theorem run_state_bind (f : State → Action β) (s : State) :
    (state >>= f).run s = (f s).run s := rfl

@[simp] theorem run_advance_bind (f : Unit → Action β) (s : State) :
    (advance >>= f).run s = (f ()).run s.advance := rfl

@[simp] theorem run_fail_bind (d : Diagnostic) (f : α → Action β) (s : State) :
    ((fail d : Action α) >>= f).run s = (.error d, s) := rfl

/-! ### Actions made of these -/

/-- Stop with a diagnostic about the current token. -/
def failHere (c : Cause) : Action α := do
  let s ← state
  fail ⟨c, s.position⟩

/-- Move on if the next token is of the expected kind, and stop at it if it is not. -/
def expect (kind : Kind) : Action Unit := do
  let s ← state
  if s.lookahead.kind = kind then advance
  else fail ⟨.unexpected kind s.lookahead.kind, s.lookahead.span.start⟩

/-- The text of the current token. -/
def currentValue : Action String := do
  let s ← state
  pure s.current.value

/-- Do an action.  If it fails, record why and have no result. -/
def attempt (m : Action α) : Action (Option α) where
  run s :=
    match m.run s with
    | (.ok a, t) => (.ok (some a), t)
    | (.error d, t) => (.ok none, t.record d)
  reaches s := by
    have h := m.reaches s
    split
    · next a t heq =>
      rw [heq] at h
      exact h
    · next d t heq =>
      -- recording goes on from where the action failed
      rw [heq] at h
      exact h.trans (.record t d)

@[simp] theorem run_failHere (c : Cause) (s : State) :
    (failHere c : Action α).run s = (.error ⟨c, s.position⟩, s) := rfl

theorem run_expect (kind : Kind) (s : State) :
    (expect kind).run s =
      if s.lookahead.kind = kind then (.ok (), s.advance)
      else (.error ⟨.unexpected kind s.lookahead.kind, s.lookahead.span.start⟩, s) := by
  rw [expect, run_state_bind]
  split <;> rfl

@[simp] theorem run_currentValue (s : State) : currentValue.run s = (.ok s.current.value, s) := rfl

@[simp] theorem run_currentValue_bind (f : String → Action β) (s : State) :
    (currentValue >>= f).run s = (f s.current.value).run s := rfl

theorem run_attempt (m : Action α) (s : State) :
    m.attempt.run s =
      match m.run s with
      | (.ok a, t) => (.ok (some a), t)
      | (.error d, t) => (.ok none, t.record d) := rfl

/-- An attempt does not fail. -/
theorem run_attempt_isOk (m : Action α) (s : State) : ∃ a t, m.attempt.run s = (.ok a, t) := by
  rw [run_attempt]
  split
  · next a t _ => exact ⟨some a, t, rfl⟩
  · next d t _ => exact ⟨none, t.record d, rfl⟩

/-! ### Failure -/

/-- An action fails from a state. -/
def FailsAt (m : Action α) (s : State) : Prop := ∃ d t, m.run s = (.error d, t)

theorem FailsAt.bind {m : Action α} {s : State} (h : m.FailsAt s) (f : α → Action β) :
    (m >>= f).FailsAt s := by
  obtain ⟨d, t, h⟩ := h
  exact ⟨d, t, run_bind_of_error h⟩

theorem FailsAt.advance_bind {f : Unit → Action β} {s : State} (h : (f ()).FailsAt s.advance) :
    (advance >>= f).FailsAt s := h

theorem FailsAt.currentValue_bind {f : String → Action β} {s : State}
    (h : (f s.current.value).FailsAt s) : (currentValue >>= f).FailsAt s := h

theorem failsAt_failHere (c : Cause) (s : State) : (failHere c : Action α).FailsAt s :=
  ⟨_, _, run_failHere c s⟩

/-- What is expected does not come at the end. -/
theorem failsAt_expect {kind : Kind} {s : State} (hs : s.lookahead.kind = .eof) (hk : kind ≠ .eof) :
    (expect kind).FailsAt s := by
  refine ⟨_, _, (run_expect kind s).trans (if_neg ?_)⟩
  rw [hs]
  exact hk.symm

end Action

end ExprLang
