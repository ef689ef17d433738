import ExprLang.Proofs.Blame
import ExprLang.Proofs.Unclosed

/-!
# The frame of an operation

An operation of the parser can fail anywhere, deep inside expressions and blocks.  Whatever comes of
it, the parser after it follows the same grammar, has as many levels open as before, has kept the
diagnostics recorded before, and has moved on by some number of tokens.

The levels of `Level.ofRoom` cannot show that what is opened is closed again: each of them knows how
many there are below it, and so nothing is ever opened or closed.  Here the same forms are read with
a counter, which is the depth.  To open a level is to add one to it, unless it is at its limit.  An
expression and a block set it back to what it was when they end, even if they fail.  What continues
an expression opens a level too, and leaves it open for the expression around it to close.

The counter is kept among the diagnostics, as notes: each new depth is noted there, and the depth is
the one noted last.  So the notes tell every depth that the parser has been at.  What the parser
finds itself is never a note, and so the notes can be taken out again.

## Main definitions

* `State.depth`, `State.depths` — the depth, and all depths that there have been.
* `Action.openLevel`, `Action.inLevel` — opening a level, and closing all that have been opened.
* `Level.metered g n` — the levels of a grammar, which go by the counter.  The number `n` only makes
  the recursion end.
* `Operation`, `Operation.run` — the operations of the parser, and what comes of them.
* `Operation.metered`, `Operation.depths` — what comes of them with the counter, and all depths that
  there have been.
* `Operation.KeepsFrame` — the frame.

## Main results

* `Level.meters_metered` — a level that knows its room and one that goes by the counter read alike,
  and the counter is in the end what it was.
* `Parser.outcome_openLevel`, `Parser.outcome_inLevel` — the counter does what is done by hand with
  the levels of a parser.
* `Parser.keeps_frame` — every operation keeps the frame, and at the limit none opens a level.
-/

namespace ExprLang

open ExprLang.Action

/-! ### The counter -/

/-- The note that a number of levels are open. -/
def Diagnostic.ofDepth (depth : Nat) : Diagnostic := ⟨.unexpected .eof .eof, .tally depth⟩

/-- The number of open levels that a note tells. -/
def Diagnostic.depth? (d : Diagnostic) : Option Nat := d.ending?.map fun _ => d.position.index

@[simp] theorem Diagnostic.ending?_ofDepth (depth : Nat) :
    (ofDepth depth).ending? = some .eof := rfl

@[simp] theorem Diagnostic.depth?_ofDepth (depth : Nat) : (ofDepth depth).depth? = some depth := by
  simp [depth?, ofDepth, ending?]

theorem Diagnostic.depth?_eq_none {d : Diagnostic} (h : d.ending? = none) : d.depth? = none := by
  simp [depth?, h]

namespace State

/-- All the depths that there have been, in their order. -/
def depths (s : State) : List Nat := s.diagnostics.filterMap Diagnostic.depth?

/-- How many levels are open. -/
def depth (s : State) : Nat := s.depths.getLast?.getD 0

/-- Change the depth. -/
def setDepth (s : State) (depth : Nat) : State := s.record (.ofDepth depth)

theorem depths_record (s : State) {d : Diagnostic} (h : d.ending? = none) :
    (s.record d).depths = s.depths := by
  simp [depths, record, Diagnostic.depth?_eq_none h]

@[simp] theorem depths_setDepth (s : State) (depth : Nat) :
    (s.setDepth depth).depths = s.depths ++ [depth] := by
  simp [depths, setDepth, record]

@[simp] theorem withoutNotes_setDepth (s : State) (depth : Nat) :
    withoutNotes (s.setDepth depth).diagnostics = withoutNotes s.diagnostics := by
  simp [setDepth, record, withoutNotes]

@[simp] theorem depth_setDepth (s : State) (depth : Nat) : (s.setDepth depth).depth = depth := by
  simp [State.depth]

end State

namespace Action

variable {α : Type}

/-- Open one more level, which stays open. -/
def openLevel : Action Unit := do
  let s ← state
  if s.depth < maxNesting then record (.ofDepth (s.depth + 1)) else refuseLevel

/-- Do an action and then change the depth, even if the action fails. -/
def thenDepth (m : Action α) (depth : Nat) : Action α where
  run s :=
    let r := m.run s
    (r.1, r.2.setDepth depth)
  reaches s := (m.reaches s).trans (.record _ _)

/-- Do an action one level deeper.  Afterwards all the levels that it opened are closed. -/
def inLevel (m : Action α) : Action α := do
  let s ← state
  openLevel
  m.thenDepth s.depth

theorem run_openLevel {s : State} (h : s.depth < maxNesting) :
    openLevel.run s = (.ok (), s.setDepth (s.depth + 1)) := by
  rw [openLevel, run_state_bind, if_pos h, run_record]
  rfl

theorem run_openLevel_of_le {s : State} (h : maxNesting ≤ s.depth) :
    openLevel.run s = (.error ⟨.tooDeep maxNesting, s.position⟩, s) := by
  rw [openLevel, run_state_bind, if_neg (Nat.not_lt.mpr h), refuseLevel, run_failHere]

theorem run_inLevel {m : Action α} {s t : State} {r : Except Diagnostic α}
    (hs : s.depth < maxNesting) (h : m.run (s.setDepth (s.depth + 1)) = (r, t)) :
    m.inLevel.run s = (r, t.setDepth s.depth) := by
  rw [inLevel, run_state_bind, run_bind_of_ok (run_openLevel hs)]
  simp only [thenDepth, h]

theorem run_inLevel_of_le {m : Action α} {s : State} (h : maxNesting ≤ s.depth) :
    m.inLevel.run s = (.error ⟨.tooDeep maxNesting, s.position⟩, s) := by
  rw [inLevel, run_state_bind, run_bind_of_error (run_openLevel_of_le h)]

theorem FailsAt.inLevel {m : Action α} {s : State} (h : m.FailsAt (s.setDepth (s.depth + 1))) :
    m.inLevel.FailsAt s := by
  by_cases hs : s.depth < maxNesting
  · obtain ⟨d, t, h⟩ := h
    exact ⟨d, t.setDepth s.depth, run_inLevel hs h⟩
  · exact ⟨_, s, run_inLevel_of_le (Nat.not_lt.mp hs)⟩

end Action

/-! ### Levels that go by the counter -/

namespace Level

/-- The level above `L`, which goes by the counter. -/
def aboveMetered (g : Grammar) (L : Level) : Level where
  expr least := (exprAbove g L least).inLevel
  climb least left := do
    let s ← state
    match g.continuation? least s.lookahead.kind with
    | none => pure left
    | some (power, rule) =>
      -- this level is closed only where the whole expression ends
      openLevel
      advance
      let left ← rule.read L power left
      L.climb least left
  block := (Form.blockBody g L).inLevel
  expr_failsAt least s hs := (failsAt_exprAbove g L least (s := s.setDepth _) hs).inLevel

/-- The levels of a grammar, which go by the counter.  With more of them than can be opened, the
last one is never reached. -/
def metered (g : Grammar) : Nat → Level
  | 0 => bottom g
  | n + 1 => aboveMetered g (metered g n)

end Level

/-! ### The runs with and without the counter -/

/-- The second state is the first one with the counter.  Before it began, `ds` had been recorded. -/
structure State.Metered (ds : List Diagnostic) (s t : State) : Prop where
  cursor_eq : s.cursor = t.cursor
  diagnostics_eq : s.diagnostics = ds ++ withoutNotes t.diagnostics
  depths_le : ∀ d ∈ t.depths, d ≤ maxNesting

namespace State.Metered

variable {ds : List Diagnostic} {s t : State}

theorem current_eq (h : s.Metered ds t) : s.current = t.current :=
  congrArg Cursor.current h.cursor_eq

theorem lookahead_eq (h : s.Metered ds t) : s.lookahead = t.lookahead :=
  congrArg Cursor.lookahead h.cursor_eq

theorem advance (h : s.Metered ds t) : s.advance.Metered ds t.advance :=
  ⟨congrArg Cursor.advance h.cursor_eq, h.diagnostics_eq, h.depths_le⟩

theorem record (h : s.Metered ds t) {d : Diagnostic} (hd : d.ending? = none) :
    (s.record d).Metered ds (t.record d) := by
  refine ⟨h.cursor_eq, ?_, ?_⟩
  · show s.diagnostics ++ [d] = ds ++ withoutNotes (t.diagnostics ++ [d])
    rw [withoutNotes_append, h.diagnostics_eq, List.append_assoc]
    simp [withoutNotes, hd]
  · rw [depths_record t hd]
    exact h.depths_le

theorem setDepth (h : s.Metered ds t) {depth : Nat} (hdepth : depth ≤ maxNesting) :
    s.Metered ds (t.setDepth depth) := by
  refine ⟨h.cursor_eq, ?_, ?_⟩
  · rw [withoutNotes_setDepth, h.diagnostics_eq]
  · intro d hd
    rw [depths_setDepth, List.mem_append, List.mem_singleton] at hd
    rcases hd with hd | rfl
    · exact h.depths_le d hd
    · exact hdepth

end State.Metered

/-- The runs without and with the counter, where it is at `depth`. -/
def atDepth (ds : List Diagnostic) (depth : Nat) : Simulation where
  Rel s t := s.Metered ds t ∧ t.depth = depth
  Between s t := s.Metered ds t ∧ t.depth = depth
  Stops d s t := d.ending? = none ∧ s.Metered ds t ∧ t.depth = depth
  current_eq h := h.1.current_eq
  lookahead_eq h := h.1.lookahead_eq
  advance h := ⟨h.1.advance, h.2⟩
  unexpected h hk := ⟨Diagnostic.ending?_of_ne hk _, h⟩
  refused h hc := ⟨Diagnostic.ending?_of_refuses hc _, h⟩
  between_current_eq h := h.1.current_eq
  between_advance h := ⟨h.1.advance, h.2⟩
  between_record h := by
    refine ⟨(h.2.1.record h.1).advance, ?_⟩
    show (State.record _ _).depth = _
    rw [State.depth, State.depths_record _ h.1]
    exact h.2.2
  rel_of_between h _ := h

section

variable {α : Type} {ds : List Diagnostic} {depth : Nat} {s t : State}

/-- The two actions come to the same, and the second one leaves the counter at any depth. -/
def Action.AgreeMetered (ds : List Diagnostic) (m m' : Action α) (s t : State) : Prop :=
  m.Agree m' s t (State.Metered ds) fun d s t => d.ending? = none ∧ s.Metered ds t

theorem Action.Agree.forgetDepth {m m' : Action α}
    (h : m.Agree m' s t (atDepth ds depth).Rel (atDepth ds depth).Stops) :
    m.AgreeMetered ds m' s t :=
  h.mono (fun _ _ h => h.1) fun _ _ _ h => ⟨h.1, h.2.1⟩

/-- One action after another, of which only the first one has to leave the counter where it was. -/
theorem Action.Agree.bindMetered {β : Type} {m m' : Action β} {f f' : β → Action α}
    (h : m.Agree m' s t (atDepth ds depth).Rel (atDepth ds depth).Stops)
    (hf : ∀ b s' t', (atDepth ds depth).Rel s' t' → (f b).AgreeMetered ds (f' b) s' t') :
    (m >>= f).AgreeMetered ds (m' >>= f') s t :=
  (h.mono (fun _ _ h => h) fun _ _ _ h => ⟨h.1, h.2.1⟩).bind fun b s' t' _ => hf b s' t'

/-- What is done one level deeper leaves the counter as it was, wherever it has brought it
itself. -/
theorem Action.AgreeMetered.inLevel {m m' : Action α} (hst : (atDepth ds depth).Rel s t)
    (hdepth : depth < maxNesting)
    (h : ∀ t', (atDepth ds (depth + 1)).Rel s t' → m.AgreeMetered ds m' s t') :
    m.Agree m'.inLevel s t (atDepth ds depth).Rel (atDepth ds depth).Stops := by
  obtain ⟨hsame, rfl⟩ := hst
  have hback := Nat.le_of_lt hdepth
  cases h _ ⟨hsame.setDepth hdepth, State.depth_setDepth t _⟩ with
  | ok hs ht hend =>
    exact .ok hs (run_inLevel hdepth ht) ⟨hend.setDepth hback, State.depth_setDepth _ _⟩
  | error hs ht hend =>
    have hclosed := hend.2.setDepth hback
    exact .error hs (run_inLevel hdepth ht) ⟨hend.1, hclosed, State.depth_setDepth _ _⟩

/-- At the limit nothing can be done one level deeper. -/
theorem agree_refuseLevel {m' : Action α} (hst : (atDepth ds maxNesting).Rel s t) :
    (refuseLevel : Action α).Agree m'.inLevel s t (atDepth ds maxNesting).Rel
      (atDepth ds maxNesting).Stops := by
  have hposition : s.position = t.position := by
    rw [State.position, State.position, hst.1.current_eq]
  refine .error (run_failHere _ s) ?_ ((atDepth ds maxNesting).refused hst rfl)
  rw [run_inLevel_of_le (Nat.le_of_eq hst.2.symm), hposition]

end

/-! ### Levels -/

/-- A level that goes by the counter reads the same as one that does not, with the counter at
`depth`.  An expression and a block leave the counter there, and what continues an expression need
not. -/
structure Level.Meters (ds : List Diagnostic) (depth : Nat) (L L' : Level) : Prop
    extends (atDepth ds depth).CoversParts L L' where
  climb : ∀ p e s t, (atDepth ds depth).Rel s t → (L.climb p e).AgreeMetered ds (L'.climb p e) s t

namespace Level

variable {ds : List Diagnostic} {g : Grammar} {depth : Nat} {L L' : Level}

/-- At the limit a level that goes by the counter refuses what the one without room does. -/
theorem meters_bottom : (bottom g).Meters ds maxNesting (aboveMetered g L') where
  expr _ _ _ hst := agree_refuseLevel hst
  block _ _ hst := agree_refuseLevel hst
  climb p e := by
    intro s t hst
    have hnext := (atDepth ds maxNesting).lookahead_eq hst
    refine .state_bind ?_
    rw [← hnext]
    cases g.continuation? p s.lookahead.kind with
    | none => exact .pure hst.1 e
    | some next =>
      -- both stop before anything is moved, one for its room and the other for the counter
      refine .error (run_failHere _ s) (run_bind_of_error ?_) ⟨rfl, hst.1⟩
      rw [run_openLevel_of_le (Nat.le_of_eq hst.2.symm), State.position, State.position,
        hst.1.current_eq]

/-- An expression is read alike one level above. -/
theorem Meters.exprAbove (hL : L.Meters ds depth L') (p : Power) {s t : State}
    (hst : (atDepth ds depth).Rel s t) :
    (exprAbove g L p).AgreeMetered ds (exprAbove g L' p) s t := by
  have hcurrent := (atDepth ds depth).current_eq hst
  refine .state_bind ?_
  rw [← hcurrent]
  split
  · exact (Simulation.Covers.failHere rfl s t hst).forgetDepth
  · next rule _ =>
    have hhead := Simulation.covers_head hL.toCoversParts rule s t hst
    exact hhead.bindMetered fun left => hL.climb p left

/-- The rest of an expression is read alike one level above.  The level that it opens is open where
it ends. -/
theorem Meters.climbAbove (hL : L.Meters ds (depth + 1) L') (hdepth : depth < maxNesting)
    (p : Power) (e : Expr) {s t : State} (hst : (atDepth ds depth).Rel s t) :
    (climbAbove g L p e).AgreeMetered ds ((aboveMetered g L').climb p e) s t := by
  have hnext := (atDepth ds depth).lookahead_eq hst
  refine .state_bind ?_
  rw [← hnext]
  cases g.continuation? p s.lookahead.kind with
  | none => exact .pure hst.1 e
  | some next =>
    obtain ⟨power, rule⟩ := next
    obtain ⟨hsame, rfl⟩ := hst
    -- from here on the counter is one further, and so are the levels inside
    have hopen : (atDepth ds (t.depth + 1)).Rel s (t.setDepth (t.depth + 1)) :=
      ⟨hsame.setDepth hdepth, t.depth_setDepth _⟩
    have htail := Simulation.covers_tail hL.toCoversParts power e rule _ _
      ((atDepth ds (t.depth + 1)).advance hopen)
    exact .of_run_eq (htail.bindMetered fun left => hL.climb p left) (run_advance_bind _ s)
      (run_bind_of_ok (run_openLevel hdepth))

/-- An expression and a block close what has been opened inside them. -/
theorem Meters.above (hL : L.Meters ds (depth + 1) L') (hdepth : depth < maxNesting) :
    (above g L).Meters ds depth (aboveMetered g L') where
  expr p s t hst := AgreeMetered.inLevel hst hdepth fun _ => hL.exprAbove p
  block s t hst := AgreeMetered.inLevel hst hdepth fun t' hst' => by
    have hbody := Simulation.agree_blockBody (hL.toCoversParts.statement g) hst'
    exact hbody.mono (fun _ _ h => h.1.1) fun d _ _ h => ⟨by rw [h.2.2]; rfl, h.1.1⟩
  climb p e s t := hL.climbAbove hdepth p e

/-- A level that knows its room and one that goes by the counter read alike, and an expression and a
block leave the counter at the depth that it was at. -/
theorem meters_metered {room n : Nat} (hdepth : depth + room = maxNesting) (hn : room < n) :
    (ofRoom g room).Meters ds depth (metered g n) := by
  -- each level takes one off the room and adds one to the counter
  induction room generalizing depth n with
  | zero =>
    obtain ⟨n, rfl⟩ := Nat.exists_eq_add_one_of_ne_zero (Nat.ne_of_gt hn)
    obtain rfl : depth = maxNesting := hdepth
    exact meters_bottom
  | succ room ih =>
    obtain ⟨n, rfl⟩ := Nat.exists_eq_add_one_of_ne_zero (Nat.ne_of_gt (Nat.zero_lt_of_lt hn))
    exact (ih (by omega) (by omega)).above (by omega)

end Level

/-! ### Operations -/

/-- An operation of the parser that reads something. -/
inductive Operation : Type → Type where
  /-- Read an expression that takes only what binds tighter than the given power. -/
  | expr (least : Power) : Operation Expr
  /-- Read a block. -/
  | block : Operation Block
  /-- Read expressions separated by commas, up to a token that closes the list. -/
  | items (close : Kind) : Operation (List Expr)
  /-- Read a form of expression from its first token. -/
  | head (rule : HeadRule) : Operation Expr
  /-- Read a form of expression from the token after its left operand. -/
  | tail (rule : TailRule) (left : Expr) (power : Power) : Operation Expr
  /-- Read a form of statement. -/
  | form (rule : StmtRule) : Operation Stmt
  /-- Read the statement that the current token begins. -/
  | statement : Operation Stmt

namespace Parser

/-- How many levels are open. -/
def depth (p : Parser) : Nat := maxNesting - p.room

/-- The state of the parser with the counter, at the depth of the parser, and nothing recorded. -/
def metered (p : Parser) : State := State.setDepth ⟨p.state.cursor, []⟩ p.depth

/-- The parser after something has been done with the counter.  The depth is where the counter is
then. -/
def ofMetered (p : Parser) (t : State) : Parser where
  grammar := p.grammar
  room := maxNesting - t.depth
  state := ⟨t.cursor, p.diagnostics ++ withoutNotes t.diagnostics⟩

/-- Nothing has been done yet, with the counter or without. -/
theorem rel_metered (p : Parser) : (atDepth p.diagnostics p.depth).Rel p.state p.metered := by
  refine ⟨⟨rfl, (List.append_nil _).symm, ?_⟩, State.depth_setDepth _ _⟩
  intro d hd
  rw [metered, State.depths_setDepth] at hd
  obtain rfl := List.mem_singleton.mp hd
  exact Nat.sub_le _ _

/-- What comes of something that has been done with the counter. -/
def outcome {α : Type} (p : Parser) (r : Except Diagnostic α × State) : Outcome α :=
  (r.1, p.ofMetered r.2)

theorem ofMetered_setDepth (p : Parser) (t : State) (depth : Nat) :
    p.ofMetered (t.setDepth depth) = { p.ofMetered t with room := maxNesting - depth } := by
  rw [ofMetered, State.depth_setDepth, State.withoutNotes_setDepth]
  rfl

/-- With the counter a level is opened as one of the parser is. -/
theorem outcome_openLevel (p : Parser) (t : State) :
    p.outcome (openLevel.run t) = (p.ofMetered t).enterLevel := by
  by_cases ht : t.depth < maxNesting
  · obtain ⟨room, hroom⟩ : ∃ room, (p.ofMetered t).room = room + 1 :=
      Nat.exists_eq_add_one.mpr (Nat.sub_pos_of_lt ht)
    have hnext : maxNesting - (t.depth + 1) = room := by
      rw [Nat.sub_add_eq, show maxNesting - t.depth = room + 1 from hroom, Nat.add_sub_cancel]
    rw [run_openLevel ht, outcome, ofMetered_setDepth, hnext, enterLevel, hroom]
  · have hroom : (p.ofMetered t).room = 0 := Nat.sub_eq_zero_of_le (Nat.not_lt.mp ht)
    rw [run_openLevel_of_le (Nat.not_lt.mp ht), enterLevel, hroom]
    rfl

/-- With the counter something is done one level deeper as with the levels of the parser. -/
theorem outcome_inLevel {α : Type} {m : Action α} {body : Parser → Outcome α} (p : Parser)
    (t : State) (h : ∀ t', p.outcome (m.run t') = body (p.ofMetered t')) :
    p.outcome (m.inLevel.run t) = (p.ofMetered t).nested body := by
  by_cases ht : t.depth < maxNesting
  · have hbody := h (t.setDepth (t.depth + 1))
    rw [nested, ← outcome_openLevel, run_openLevel ht, run_inLevel ht rfl, outcome,
      ofMetered_setDepth]
    simp only [outcome] at hbody ⊢
    rw [← hbody]
    rfl
  · rw [nested, ← outcome_openLevel, run_openLevel_of_le (Nat.not_lt.mp ht),
      run_inLevel_of_le (Nat.not_lt.mp ht)]
    rfl

/-- Where the counter is at the depth of the parser again, nothing but the state has changed. -/
theorem ofMetered_eq {p : Parser} (h : p.room ≤ maxNesting) {s t : State}
    (hst : (atDepth p.diagnostics p.depth).Rel s t) : p.ofMetered t = { p with state := s } := by
  have hroom : maxNesting - t.depth = p.room := by rw [hst.2, depth, Nat.sub_sub_self h]
  have hstate : (⟨t.cursor, p.diagnostics ++ withoutNotes t.diagnostics⟩ : State) = s := by
    rw [← hst.1.cursor_eq, ← hst.1.diagnostics_eq]
  rw [ofMetered, hroom, hstate]

end Parser

namespace Operation

variable {α : Type}

/-- What comes of an operation. -/
def run : Operation α → Parser → Outcome α
  | expr least, p => p.expr least
  | block, p => p.block
  | items close, p => p.items close
  | head rule, p => p.head rule
  | tail rule left power, p => p.tail rule left power
  | form rule, p => p.form rule
  | statement, p => p.statement

/-- The action that an operation does at a level of a grammar. -/
def action (g : Grammar) (L : Level) : Operation α → Action α
  | expr least => L.expr least
  | block => L.block
  | items close => Form.items L close
  | head rule => rule.read L
  | tail rule left power => rule.read L power left
  | form rule => rule.read L
  | statement => Form.statement g L

theorem run_eq (o : Operation α) (p : Parser) :
    o.run p = p.perform (o.action p.grammar p.level) := by
  cases o <;> rfl

/-- An operation done with the counter. -/
def runMetered (o : Operation α) (p : Parser) : Except Diagnostic α × State :=
  (o.action p.grammar (.metered p.grammar (maxNesting + 1))).run p.metered

/-- What comes of an operation done with the counter. -/
def metered (o : Operation α) (p : Parser) : Outcome α := p.outcome (o.runMetered p)

/-- All the depths that there have been when an operation ends. -/
def depths (o : Operation α) (p : Parser) : List Nat := (o.runMetered p).2.depths

theorem covers {S : Simulation} {L L' : Level} (hL : S.CoversParts L L') (g : Grammar)
    (o : Operation α) : S.Covers (o.action g L) (o.action g L') := by
  cases o with
  | expr least => exact hL.expr least
  | block => exact hL.block
  | items close => exact Simulation.covers_items hL close
  | head rule => exact Simulation.covers_head hL rule
  | tail rule left power => exact Simulation.covers_tail hL power left rule
  | form rule => exact Simulation.covers_form hL.expr rule fun _ => hL.block
  | statement => exact hL.statement g

/-- What an operation keeps, whether it has a result or not. -/
structure KeepsFrame (o : Operation α) (p : Parser) : Prop where
  /-- The same comes of it with the counter, where levels are opened and closed. -/
  metered_eq : o.metered p = o.run p
  /-- In the end as many levels are open as before. -/
  depth_eq : (o.metered p).2.depth = p.depth
  /-- In between there are never more of them than there may be. -/
  depths_le : ∀ d ∈ o.depths p, d ≤ maxNesting
  /-- The tokens may do what they could do before. -/
  grammar_eq : (o.run p).2.grammar = p.grammar
  /-- What was recorded before is still there, in front of what has been recorded since. -/
  diagnostics_eq : ∃ new, (o.run p).2.diagnostics = p.diagnostics ++ new
  /-- The parser has moved on by some number of tokens. -/
  cursor_eq : ∃ n, (o.run p).2.state.cursor = p.state.cursor.skip n

/-- The same comes of an operation with the counter, which stays within its limit. -/
theorem metered_eq_run (o : Operation α) {p : Parser} (h : p.room ≤ maxNesting) :
    o.metered p = o.run p ∧ ∀ d ∈ o.depths p, d ≤ maxNesting := by
  have hlevel : p.level.Meters p.diagnostics p.depth (.metered p.grammar (maxNesting + 1)) :=
    Level.meters_metered (Nat.sub_add_cancel h) (Nat.lt_succ_of_le h)
  rw [run_eq, metered, depths, Parser.perform, Parser.outcome, runMetered]
  cases covers hlevel.toCoversParts p.grammar o _ _ p.rel_metered with
  | ok hs ht hend =>
    rw [hs, ht, Parser.ofMetered_eq h hend]
    exact ⟨rfl, hend.1.depths_le⟩
  | error hs ht hend =>
    rw [hs, ht, Parser.ofMetered_eq h hend.2]
    exact ⟨rfl, hend.2.1.depths_le⟩

theorem keepsFrame (o : Operation α) {p : Parser} (h : p.room ≤ maxNesting) : o.KeepsFrame p := by
  obtain ⟨hsame, hle⟩ := o.metered_eq_run h
  have hrun := o.run_eq p
  have hreaches := (o.action p.grammar p.level).reaches p.state
  refine ⟨hsame, ?_, hle, ?_, ?_, ?_⟩
  · rw [hsame, hrun]
    rfl
  · rw [hrun]
    rfl
  · obtain ⟨new, hnew⟩ := hreaches.diagnostics
    rw [hrun]
    exact ⟨new, hnew.symm⟩
  · rw [hrun]
    exact hreaches.cursor

end Operation

/-- Every operation keeps the frame of the parser, whatever the grammar, the tokens and the depth.
At the limit no expression and no block can be read: this stops at the current token, and changes
nothing. -/
theorem Parser.keeps_frame (p : Parser) (h : p.room ≤ maxNesting) :
    (∀ (α : Type) (o : Operation α), o.KeepsFrame p) ∧
    (p.depth = maxNesting →
      (∀ least, p.expr least = (.error ⟨.tooDeep maxNesting, p.position⟩, p)) ∧
      p.block = (.error ⟨.tooDeep maxNesting, p.position⟩, p)) := by
  refine ⟨fun α o => o.keepsFrame h, ?_⟩
  intro hdepth
  have hroom : p.room = 0 := by
    rw [depth] at hdepth
    omega
  have hlevel : p.level = .ofRoom p.grammar 0 := by rw [level, hroom]
  constructor
  · intro least
    rw [expr, hlevel, perform, Level.expr_ofRoom_zero]
    rfl
  · rw [block, hlevel, perform, Level.block_ofRoom_zero]
    rfl

/-- A call that breaks off after its opening parenthesis.  The expression opens a level, the call
another one, and the argument that is missing a third.  That of the call is closed by the
expression. -/
theorem Parser.keeps_frame_call :
    let p := Parser.ofSource (.ofText "f(" "shell")
    let full : Parser := { p with room := 0 }
    p.room ≤ maxNesting ∧ (Operation.expr .lowest).KeepsFrame p ∧
      (Operation.expr .lowest).depths p = [0, 1, 2, 3, 2, 0] ∧
      full.room ≤ maxNesting ∧ full.depth = maxNesting ∧
      full.expr .lowest = (.error ⟨.tooDeep maxNesting, full.position⟩, full) := by
  intro p full
  have hroom : p.room ≤ maxNesting := Nat.le_refl maxNesting
  have hfull : full.room ≤ maxNesting := Nat.zero_le maxNesting
  refine ⟨hroom, (p.keeps_frame hroom).1 _ _, by decide, hfull, rfl, ?_⟩
  exact ((full.keeps_frame hfull).2 rfl).1 .lowest

end ExprLang
