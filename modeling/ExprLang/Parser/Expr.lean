import ExprLang.Grammar.Basic
import ExprLang.Parser.Level
import ExprLang.Text.Integer

/-!
# Reading the forms of expressions

Each form of expression is read by an action of its own, which starts at the token that the form
is known by and ends at the last token of the expression.  For the parts inside it the action is
given the level below.

## Main definitions

* `Form.items`, `Form.names`, `Form.pair` — the lists inside expressions, and what they are made of.
* `HeadRule.read` — the forms that are known by their first token.
* `TailRule.read` — the forms that are known by the token after their left operand.

## Main results

* `HeadRule.failsAt_read` — once nothing is left, no form can be read.
-/

namespace ExprLang

open ExprLang.Action

namespace Form

/-! ### Lists -/

/-- Whether the next token is a comma. -/
def commaAhead (s : State) : Bool := s.lookahead.kind == .comma

/-- A comma, and the expression after it. -/
def nextItem (L : Level) : Action Expr := do
  advance
  advance
  L.expr .lowest

theorem nextItem_progresses (L : Level) : Progresses commaAhead (nextItem L) :=
  .of_lookahead (by decide)

/-- Expressions separated by commas, up to and with a token that closes the list.  The current
token is the one that opens it. -/
def items (L : Level) (close : Kind) : Action (List Expr) := do
  let s ← state
  if s.lookahead.kind = close then
    advance
    pure []
  else
    advance
    let first ← L.expr .lowest
    let more ← repeatWhile commaAhead (nextItem L) (nextItem_progresses L)
    expect close
    pure (first :: more)

/-- A comma, and the name after it. -/
def nextName : Action String := do
  advance
  expect .ident
  currentValue

theorem nextName_progresses : Progresses commaAhead nextName := .of_lookahead (by decide)

/-- Names separated by commas, up to and with a closing parenthesis.  The current token is the
opening one. -/
def names : Action (List String) := do
  let s ← state
  if s.lookahead.kind = .closeParen then
    advance
    pure []
  else
    expect .ident
    let first ← currentValue
    let more ← repeatWhile commaAhead nextName nextName_progresses
    expect .closeParen
    pure (first :: more)

/-- A comma, unless the next token is the brace that closes the list. -/
def commaOrClose : Action Unit := do
  let s ← state
  if s.lookahead.kind = .closeCurly then pure () else expect .comma

/-- A key and its value, and the comma after them.  The current token is the one before the key. -/
def pair (L : Level) : Action (Expr × Expr) := do
  advance
  let key ← L.expr .lowest
  expect .colon
  advance
  let value ← L.expr .lowest
  commaOrClose
  pure (key, value)

/-- Whether the next token is none that closes a list of keys and values. -/
def pairAhead (s : State) : Bool := s.lookahead.kind != .closeCurly

theorem pair_progresses (L : Level) : Progresses pairAhead (pair L) :=
  .of_advance fun s _ hz =>
    (L.expr_failsAt .lowest s.advance (State.remaining_advance_eq_zero hz)).bind _

/-- Keys and values separated by commas, up to and with a closing brace.  The current token is the
opening one. -/
def pairs (L : Level) : Action (List (Expr × Expr)) := do
  let ps ← repeatWhile pairAhead (pair L) (pair_progresses L)
  expect .closeCurly
  pure ps

/-! ### The forms that are known by their first token -/

/-- A name, an integer, a string or a truth value. -/
def literal : Action Expr := do
  let s ← state
  match s.current.kind with
  | .ident => pure (.ident s.current.value)
  | .int =>
    match Text.readInteger? s.current.value with
    | some n => pure (.int n)
    | none => failHere (.badInteger s.current.value)
  | .string => pure (.str s.current.value)
  | .trueWord => pure (.bool true)
  | .falseWord => pure (.bool false)
  | kind => failHere (.noExpression kind)

/-- An operator before its operand. -/
def unary (L : Level) : Action Expr := do
  let op ← currentValue
  advance
  let operand ← L.expr .unary
  pure (.unary op operand)

/-- An expression in parentheses. -/
def group (L : Level) : Action Expr := do
  advance
  let e ← L.expr .lowest
  expect .closeParen
  pure e

/-- The block after a condition that does not hold, if there is one. -/
def alternative (L : Level) : Action (Option Block) := do
  let s ← state
  if s.lookahead.kind = .elseWord then
    advance
    expect .openCurly
    let body ← L.block
    pure (some body)
  else pure none

/-- A conditional. -/
def conditional (L : Level) : Action Expr := do
  expect .openParen
  advance
  let condition ← L.expr .lowest
  expect .closeParen
  expect .openCurly
  let consequence ← L.block
  let other ← alternative L
  pure (.conditional condition consequence other)

/-- A function. -/
def function (L : Level) : Action Expr := do
  expect .openParen
  let parameters ← names
  expect .openCurly
  let body ← L.block
  pure (.function parameters body)

/-- A list of elements. -/
def array (L : Level) : Action Expr := do
  let elements ← items L .closeBracket
  pure (.array elements)

/-- A list of keys and values. -/
def hash (L : Level) : Action Expr := do
  let ps ← pairs L
  pure (.hash ps)

/-! ### The forms that are known by the token after their left operand -/

/-- An operator between two operands.  The right one takes what binds tighter than the operator. -/
def binary (L : Level) (power : Power) (left : Expr) : Action Expr := do
  let op ← currentValue
  advance
  let right ← L.expr power
  pure (.binary left op right)

/-- A function applied to arguments. -/
def call (L : Level) (left : Expr) : Action Expr := do
  let arguments ← items L .closeParen
  pure (.call left arguments)

/-- A part of a value, chosen by an index. -/
def index (L : Level) (left : Expr) : Action Expr := do
  advance
  let place ← L.expr .lowest
  expect .closeBracket
  pure (.index left place)

end Form

/-- Read a form of expression from its first token. -/
def HeadRule.read (L : Level) : HeadRule → Action Expr
  | literal => Form.literal
  | unary => Form.unary L
  | group => Form.group L
  | conditional => Form.conditional L
  | function => Form.function L
  | array => Form.array L
  | hash => Form.hash L

/-- Read a form of expression from the token after its left operand, which is given together with
the binding power of that token. -/
def TailRule.read (L : Level) (power : Power) (left : Expr) : TailRule → Action Expr
  | binary => Form.binary L power left
  | call => Form.call L left
  | index => Form.index L left

/-! ### Once nothing is left, nothing can be read -/

namespace Form

theorem failsAt_literal {s : State} (hs : s.remaining = 0) : literal.FailsAt s := by
  have hk : s.current.kind = .eof := (Cursor.remaining_eq_zero_iff.mp hs).2.2
  refine ⟨⟨.noExpression .eof, s.position⟩, s, ?_⟩
  rw [literal, run_state_bind, hk]
  rfl

theorem failsAt_items (L : Level) {close : Kind} (hc : close ≠ .eof) {s : State}
    (hs : s.remaining = 0) : (items L close).FailsAt s := by
  have hl : s.lookahead.kind = .eof := (Cursor.remaining_eq_zero_iff.mp hs).2.1
  -- the end closes no list, so a first item is called for, and it cannot be read
  obtain ⟨d, t, hf⟩ := (L.expr_failsAt .lowest s.advance (State.remaining_advance_eq_zero hs)).bind
    fun first => do
      let more ← repeatWhile commaAhead (nextItem L) (nextItem_progresses L)
      expect close
      pure (first :: more)
  refine ⟨d, t, ?_⟩
  rw [items, run_state_bind, if_neg (by rw [hl]; exact hc.symm), run_advance_bind]
  exact hf

theorem failsAt_pairs (L : Level) {s : State} (hs : s.remaining = 0) : (pairs L).FailsAt s := by
  have hl : s.lookahead.kind = .eof := (Cursor.remaining_eq_zero_iff.mp hs).2.1
  have hp : (pair L).FailsAt s :=
    .advance_bind
      ((L.expr_failsAt .lowest s.advance (State.remaining_advance_eq_zero hs)).bind _)
  obtain ⟨d, t, hf⟩ := hp
  refine FailsAt.bind ⟨d, t, ?_⟩ _
  -- a first round is called for, and it fails
  rw [run_repeatWhile_of_again _ (by simp [pairAhead, hl]), run_bind_of_error hf]

end Form

/-- Once nothing is left, no form of expression can be read. -/
theorem HeadRule.failsAt_read (L : Level) (rule : HeadRule) {s : State} (hs : s.remaining = 0) :
    (rule.read L).FailsAt s := by
  have hl : s.lookahead.kind = .eof := (Cursor.remaining_eq_zero_iff.mp hs).2.1
  have ha := State.remaining_advance_eq_zero hs
  cases rule with
  | literal => exact Form.failsAt_literal hs
  | unary => exact .currentValue_bind (.advance_bind ((L.expr_failsAt .unary s.advance ha).bind _))
  | group => exact .advance_bind ((L.expr_failsAt .lowest s.advance ha).bind _)
  | conditional => exact (failsAt_expect hl (by decide)).bind _
  | function => exact (failsAt_expect hl (by decide)).bind _
  | array => exact (Form.failsAt_items L (by decide) hs).bind _
  | hash => exact (Form.failsAt_pairs L hs).bind _

end ExprLang
