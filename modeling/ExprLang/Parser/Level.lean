import ExprLang.Grammar.Power
import ExprLang.Parser.Repeat
import ExprLang.Tree.Basic

/-!
# Levels of nesting

Expressions and blocks stand inside one another, and the parser follows them only to a limited
depth.  What it can read from inside a given number of levels is gathered in a `Level`.  The forms
of the language are read by actions that are given the level below their own for the parts inside
them, and so need not know how deep they are.

## Main definitions

* `Level` — the actions that read an expression, the rest of one, and a block.
* `maxNesting` — how many levels there are.
* `refuseLevel` — what happens when there are no more.
-/

namespace ExprLang

/-- How many expressions and blocks may stand inside one another. -/
def maxNesting : Nat := 256

/-- What can be read at some depth. -/
structure Level where
  /-- Read an expression that takes only what binds tighter than the given power. -/
  expr : Power → Action Expr
  /-- Read the rest of such an expression, whose part so far is given. -/
  climb : Power → Expr → Action Expr
  /-- Read a block, from its opening brace. -/
  block : Action Block
  /-- Once nothing is left, no expression can be read. -/
  expr_failsAt : ∀ power s, State.remaining s = 0 → (expr power).FailsAt s

/-- Stop at the current token because one more level would be too deep. -/
def refuseLevel {α : Type} : Action α := Action.failHere (.tooDeep maxNesting)

end ExprLang
