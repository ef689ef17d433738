import ExprLang.Parser.Basic
import ExprLang.Proofs.Leading

/-!
# Blames

A diagnostic has a cause and a place.  Which token it is about, and how many levels of nesting were
open when it was found, cannot be told from these: many tokens may have the same place.  To tell it,
the same parser is run with two changes that it does not notice.  The tokens are numbered by the
places that they are given, and a level leaves a notch in the place of each diagnostic that is found
while it is open.

## Main definitions

* `Position.tally`, `Position.notch` — the place of a number, and a place with one more notch.
* `Level.counting g n` — the levels of `Level.ofRoom g n`, which leave their notches.
* `Blame`, `blames` — what the parser finds in a list of tokens: the causes, the numbers of the
  tokens, and the levels open.

## Main results

* `Action.told_counted` — an action that leaves notches tells the same, but for the notches.
-/

namespace ExprLang

/-! ### Numbers and notches -/

namespace Position

/-- The place that stands for a number. -/
def tally (i : Nat) : Position := ⟨0, String.ofList (List.replicate i '|')⟩

/-- The same place with one more notch. -/
def notch (p : Position) : Position := { p with file := String.ofList ('+' :: p.file.toList) }

/-- The number that a place stands for. -/
def index (p : Position) : Nat := p.file.toList.count '|'

/-- The notches in a place. -/
def notches (p : Position) : Nat := p.file.toList.count '+'

@[simp] theorem index_tally (i : Nat) : (tally i).index = i := by
  simp [index, tally]

@[simp] theorem notches_tally (i : Nat) : (tally i).notches = 0 := by
  simp [notches, tally, List.count_replicate]

@[simp] theorem index_notch (p : Position) : p.notch.index = p.index := by
  simp [index, notch]

@[simp] theorem notches_notch (p : Position) : p.notch.notches = p.notches + 1 := by
  simp [notches, notch]

end Position

/-- The same diagnostic with one more notch in its place. -/
def Diagnostic.notch (d : Diagnostic) : Diagnostic := ⟨d.cause, d.position.notch⟩

@[simp] theorem Diagnostic.cause_notch (d : Diagnostic) : d.notch.cause = d.cause := rfl

@[simp] theorem Diagnostic.position_notch (d : Diagnostic) :
    d.notch.position = d.position.notch := rfl

/-! ### Levels that leave notches -/

namespace Action

variable {α : Type}

/-- The same action, which leaves a notch in each diagnostic that it finds. -/
def counted (m : Action α) : Action α where
  run s :=
    let r := m.run s
    (r.1.mapError Diagnostic.notch, ⟨r.2.cursor,
      s.diagnostics ++ (r.2.diagnostics.drop s.diagnostics.length).map Diagnostic.notch⟩)
  reaches s := ⟨(m.reaches s).cursor, List.prefix_append _ _⟩

theorem run_counted {m : Action α} {s t : State} {r : Except Diagnostic α} {new : List Diagnostic}
    (h : m.run s = (r, t)) (ht : t.diagnostics = s.diagnostics ++ new) :
    m.counted.run s =
      (r.mapError Diagnostic.notch, ⟨t.cursor, s.diagnostics ++ new.map Diagnostic.notch⟩) := by
  simp only [counted, h, ht, List.drop_left]

/-- An action that leaves notches tells the same, but for the notches. -/
theorem told_counted {m : Action α} {s : State} {new : List Diagnostic}
    (h : told (m.run s) = s.diagnostics ++ new) :
    told (m.counted.run s) = s.diagnostics ++ new.map Diagnostic.notch := by
  obtain ⟨recorded, hrecorded⟩ := (m.reaches s).diagnostics
  rcases hr : m.run s with ⟨d | a, t⟩
  · rw [hr] at h hrecorded
    rw [told_error, ← hrecorded, List.append_assoc, List.append_cancel_left_eq] at h
    rw [run_counted hr hrecorded.symm, ← h, List.map_append, ← List.append_assoc]
    rfl
  · rw [hr] at h hrecorded
    rw [told_ok, ← hrecorded, List.append_cancel_left_eq] at h
    rw [run_counted hr hrecorded.symm, ← h]
    rfl

/-- Leaving notches does not keep an action from failing. -/
theorem FailsAt.counted {m : Action α} {s : State} (h : m.FailsAt s) : m.counted.FailsAt s := by
  obtain ⟨d, t, h⟩ := h
  obtain ⟨new, hnew⟩ := (m.reaches s).diagnostics
  rw [h] at hnew
  exact ⟨_, _, run_counted h hnew.symm⟩

end Action

namespace Level

/-- The same level, which leaves a notch in each diagnostic that is found while it is open. -/
def counted (L : Level) : Level where
  expr p := (L.expr p).counted
  climb p e := (L.climb p e).counted
  block := L.block.counted
  expr_failsAt p s hs := (L.expr_failsAt p s hs).counted

/-- The levels of `ofRoom`, which leave their notches.  At the bottom no level is opened. -/
def counting (g : Grammar) : Nat → Level
  | 0 => bottom g
  | room + 1 => (above g (counting g room)).counted

end Level

/-! ### Blames -/

/-- What was found, which token it is about, and how many levels were open. -/
structure Blame where
  cause : Cause
  /-- The number of the token.  The end has the number after that of the last token. -/
  index : Nat
  /-- The levels that were open. -/
  depth : Nat
  deriving DecidableEq, Repr, Inhabited

/-- A diagnostic about a number, with its notches. -/
def Diagnostic.blame (d : Diagnostic) : Blame := ⟨d.cause, d.position.index, d.position.notches⟩

/-- Where a token of a list is, by its number.  Any number after those of the tokens is that of the
end, which comes where the last token stops. -/
def placeOf (ts : List Token) (i : Nat) : Position :=
  (ts[i]?.map (·.span.start)).getD ((ts.getLast?.map (·.span.stop)).getD .nowhere)

/-- The diagnostic about a token of a list. -/
def Blame.diagnostic (ts : List Token) (b : Blame) : Diagnostic := ⟨b.cause, placeOf ts b.index⟩

/-- The same tokens, with numbers for their places. -/
def numberedFrom : Nat → List Token → List Token
  | _, [] => []
  | i, t :: ts => ⟨t.kind, t.value, .empty (.tally i)⟩ :: numberedFrom (i + 1) ts

/-- The state at the first of the tokens, which are numbered. -/
def State.numbered (ts : List Token) : State :=
  .ofSource (.list (numberedFrom 0 ts) (.tally ts.length))

/-- All that the parser finds in a list of tokens, in the order in which it does. -/
def blames (ts : List Token) : List Blame :=
  ((Form.program .standard (.counting .standard maxNesting)).run
    (.numbered ts)).2.diagnostics.map Diagnostic.blame

end ExprLang
