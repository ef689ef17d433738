import ExprLang.Parser.Expr

/-!
# Reading statements

A statement is read from its first token to its last, with the semicolons after it.  Lists of
statements are read with recovery: a statement that fails is recorded and left out, and the list
goes on after the token at which it failed.

## Main definitions

* `StmtRule.read`, `Form.statement` — the forms of statement, and the one that a token begins.
* `Form.blockBody`, `Form.program` — the lists of statements, in braces and of a whole source.

## Main results

* `Form.run_program_isOk` — reading a program never fails.
-/

namespace ExprLang

open ExprLang.Action

namespace Form

/-! ### The forms of statements -/

/-- Whether the next token is a semicolon. -/
def semicolonAhead (s : State) : Bool := s.lookahead.kind == .semicolon

/-- Move over all the semicolons that come next. -/
def semicolons : Action Unit := do
  let _ ← repeatWhile semicolonAhead (advance >>= pure) (.of_lookahead (by decide))
  pure ()

/-- Move over a semicolon, if one comes next. -/
def semicolon : Action Unit := do
  let s ← state
  if s.lookahead.kind = .semicolon then advance else pure ()

/-- A name given to a value. -/
def binding (L : Level) : Action Stmt := do
  expect .ident
  let name ← currentValue
  expect .assign
  advance
  let value ← L.expr .lowest
  semicolons
  pure (.binding name value)

/-- The end of a function.  Without a result it ends in one semicolon, or before what closes the
list that it is in. -/
def ret (L : Level) : Action Stmt := do
  let s ← state
  if s.lookahead.kind = .semicolon then
    advance
    pure (.ret none)
  else if s.lookahead.kind = .closeCurly ∨ s.lookahead.kind = .eof then
    pure (.ret none)
  else
    advance
    let value ← L.expr .lowest
    semicolons
    pure (.ret (some value))

/-- An expression that stands for itself. -/
def expression (L : Level) : Action Stmt := do
  let value ← L.expr .lowest
  semicolon
  pure (.expr value)

/-- A block that stands for itself. -/
def block (L : Level) : Action Stmt := do
  let body ← L.block
  pure (.block body)

end Form

/-- Read a form of statement from its first token. -/
def StmtRule.read (L : Level) : StmtRule → Action Stmt
  | binding => Form.binding L
  | ret => Form.ret L
  | expression => Form.expression L
  | block => Form.block L

namespace Form

/-- The statement that the current token begins. -/
def statement (g : Grammar) (L : Level) : Action Stmt := do
  let s ← state
  ((g.statement s.current.kind).getD .expression).read L

/-! ### Lists of statements -/

/-- Stop if the current token is the end, where a block is still open. -/
def stillOpen : Action Unit := do
  let s ← state
  if s.current.kind = .eof then failHere .unclosedBlock else pure ()

/-- A statement of a block, if it can be read. -/
def blockEntry (g : Grammar) (L : Level) : Action (Option Stmt) := do
  stillOpen
  (statement g L).attempt

/-- Whether the current token is none that closes a block. -/
def insideBlock (s : State) : Bool := s.current.kind != .closeCurly

theorem blockEntry_progresses (g : Grammar) (L : Level) :
    Progresses insideBlock (blockEntry g L).thenAdvance :=
  .of_thenAdvance fun s _ hz => by
    have hk : s.current.kind = .eof := (Cursor.remaining_eq_zero_iff.mp hz).2.2
    refine FailsAt.bind ⟨⟨.unclosedBlock, s.position⟩, s, ?_⟩ _
    rw [stillOpen, run_state_bind, if_pos hk, run_failHere]

/-- The statements of a block, from its opening brace to its closing one. -/
def blockBody (g : Grammar) (L : Level) : Action Block := do
  advance
  let entries ← repeatWhile insideBlock (blockEntry g L).thenAdvance (blockEntry_progresses g L)
  pure (entries.filterMap id)

/-- A statement of a program, if it can be read. -/
def programEntry (g : Grammar) (L : Level) : Action (Option Stmt) := (statement g L).attempt

/-- Whether the current token is one before the end. -/
def beforeEnd (s : State) : Bool := s.current.kind != .eof

theorem programEntry_progresses (g : Grammar) (L : Level) :
    Progresses beforeEnd (programEntry g L).thenAdvance :=
  .of_thenAdvance fun s hs hz => by
    have hk : s.current.kind = .eof := (Cursor.remaining_eq_zero_iff.mp hz).2.2
    simp [beforeEnd, hk] at hs

/-- The statements of a whole source, up to its end. -/
def program (g : Grammar) (L : Level) : Action Program := do
  let entries ← repeatWhile beforeEnd (programEntry g L).thenAdvance (programEntry_progresses g L)
  pure (entries.filterMap id)

/-- Reading a program never fails, because a statement that does is left out. -/
theorem run_program_isOk (g : Grammar) (L : Level) (s : State) :
    ∃ p t, (program g L).run s = (.ok p, t) := by
  obtain ⟨entries, t, h⟩ := run_repeatWhile_isOk (programEntry_progresses g L) (fun s _ => by
    obtain ⟨a, t, h⟩ := (statement g L).run_attempt_isOk s
    exact ⟨a, t.advance, by rw [thenAdvance, programEntry, run_bind_of_ok h]; rfl⟩) s
  exact ⟨entries.filterMap id, t, by rw [program, run_bind_of_ok h, run_pure]⟩

end Form

end ExprLang
