import ExprLang.Parser.Stmt

/-!
# The tower of levels

A level is built on the one below it.  An expression opens a level for itself.  Each continuation
of it opens one more, because it makes the expression so far a part of a larger one; these levels
are closed again when the whole expression ends.  A block opens one level for its statements.

## Main definitions

* `Level.bottom`, `Level.above` — the level at which nothing can be opened, and the one above a
  level.
* `Level.ofRoom g n` — the level from which `n` more can be opened.

## Main results

* `Level.expr_ofRoom_zero`, `Level.block_ofRoom_zero` — without room, nothing can be opened.
-/

namespace ExprLang

open ExprLang.Action

namespace Level

/-- The level at which nothing can be opened any more.  An expression that is there already is
kept, as long as nothing continues it. -/
def bottom (g : Grammar) : Level where
  expr _ := refuseLevel
  climb least left := do
    let s ← state
    match g.continuation? least s.lookahead.kind with
    | none => pure left
    | some _ => refuseLevel
  block := refuseLevel
  expr_failsAt _ s _ := failsAt_failHere _ s

/-- Read an expression from its first token, one level above `L`. -/
def exprAbove (g : Grammar) (L : Level) (least : Power) : Action Expr := do
  let s ← state
  match g.head s.current.kind with
  | none => failHere (.noExpression s.current.kind)
  | some rule =>
    let left ← rule.read L
    L.climb least left

/-- Read the rest of an expression, one level above `L`. -/
def climbAbove (g : Grammar) (L : Level) (least : Power) (left : Expr) : Action Expr := do
  let s ← state
  match g.continuation? least s.lookahead.kind with
  | none => pure left
  | some (power, rule) =>
    advance
    let left ← rule.read L power left
    L.climb least left

theorem failsAt_exprAbove (g : Grammar) (L : Level) (least : Power) {s : State}
    (hs : s.remaining = 0) : (exprAbove g L least).FailsAt s := by
  rw [FailsAt, exprAbove, run_state_bind]
  split
  · exact failsAt_failHere _ s
  · next rule _ => exact (rule.failsAt_read L hs).bind _

/-- The level above `L`, from which one more can be opened. -/
def above (g : Grammar) (L : Level) : Level where
  expr := exprAbove g L
  climb := climbAbove g L
  block := Form.blockBody g L
  expr_failsAt least _ hs := failsAt_exprAbove g L least hs

/-- The level from which `room` more can be opened. -/
def ofRoom (g : Grammar) : Nat → Level
  | 0 => bottom g
  | room + 1 => above g (ofRoom g room)

/-- Without room, no expression can be opened. -/
theorem expr_ofRoom_zero (g : Grammar) (least : Power) (s : State) :
    ((ofRoom g 0).expr least).run s = (.error ⟨.tooDeep maxNesting, s.position⟩, s) := rfl

/-- Without room, no block can be opened. -/
theorem block_ofRoom_zero (g : Grammar) (s : State) :
    (ofRoom g 0).block.run s = (.error ⟨.tooDeep maxNesting, s.position⟩, s) := rfl

end Level

end ExprLang
