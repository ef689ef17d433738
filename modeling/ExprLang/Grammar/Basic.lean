import ExprLang.Grammar.Power
import ExprLang.Token.Kind

/-!
# Grammars

A grammar tells for every kind of token what it may do: begin an expression, continue one, or
begin a statement.  A token that begins no statement of its own begins one that is an expression.

## Main definitions

* `HeadRule`, `TailRule`, `StmtRule` — the forms of expression and statement.
* `Grammar` — which kinds of token lead to which form.
* `Grammar.standard` — the grammar of the language.
* `Grammar.setHead`, `Grammar.setTail`, `Grammar.setStatement` — a grammar with one entry changed.
* `Grammar.continuation?` — how a token continues an expression.
-/

namespace ExprLang

/-- A form of expression that is known by its first token. -/
inductive HeadRule where
  /-- A name, an integer, a string or a truth value. -/
  | literal
  /-- An operator before its operand. -/
  | unary
  /-- An expression in parentheses. -/
  | group
  /-- A conditional. -/
  | conditional
  /-- A function. -/
  | function
  /-- A list of elements in brackets. -/
  | array
  /-- A list of keys and values in braces. -/
  | hash
  deriving DecidableEq, Repr, Inhabited

/-- A form of expression that is known by the token after its left operand. -/
inductive TailRule where
  /-- An operator between two operands. -/
  | binary
  /-- Arguments in parentheses. -/
  | call
  /-- An index in brackets. -/
  | index
  deriving DecidableEq, Repr, Inhabited

/-- A form of statement. -/
inductive StmtRule where
  /-- A name given to a value. -/
  | binding
  /-- The end of a function. -/
  | ret
  /-- An expression. -/
  | expression
  /-- A list of statements in braces. -/
  | block
  deriving DecidableEq, Repr, Inhabited

/-- What the tokens of each kind may do. -/
structure Grammar where
  /-- How a token begins an expression. -/
  head : Kind → Option HeadRule
  /-- How a token continues an expression, and how tightly it binds the operand before it. -/
  tail : Kind → Option (Power × TailRule)
  /-- How a token begins a statement that is not an expression. -/
  statement : Kind → Option StmtRule

namespace Grammar

/-- The grammar of the language. -/
def standard : Grammar where
  head
    | .ident | .int | .string | .trueWord | .falseWord => some .literal
    | .bang | .minus => some .unary
    | .openParen => some .group
    | .ifWord => some .conditional
    | .fnWord => some .function
    | .openBracket => some .array
    | .openCurly => some .hash
    | _ => none
  tail
    | .equals | .notEquals => some (.equals, .binary)
    | .less | .greater => some (.lessGreater, .binary)
    | .plus | .minus => some (.sum, .binary)
    | .asterisk | .slash => some (.product, .binary)
    | .openParen => some (.call, .call)
    | .openBracket => some (.index, .index)
    | _ => none
  statement
    | .letWord => some .binding
    | .returnWord => some .ret
    | _ => none

/-- A grammar in which the tokens of one kind begin an expression in a given way. -/
def setHead (g : Grammar) (kind : Kind) (rule : HeadRule) : Grammar :=
  { g with head := fun k => if k = kind then some rule else g.head k }

/-- A grammar in which the tokens of one kind continue an expression in a given way. -/
def setTail (g : Grammar) (kind : Kind) (power : Power) (rule : TailRule) : Grammar :=
  { g with tail := fun k => if k = kind then some (power, rule) else g.tail k }

/-- A grammar in which the tokens of one kind begin a statement in a given way. -/
def setStatement (g : Grammar) (kind : Kind) (rule : StmtRule) : Grammar :=
  { g with statement := fun k => if k = kind then some rule else g.statement k }

/-- The binding power of the tokens of one kind, if they continue an expression. -/
def power? (g : Grammar) (kind : Kind) : Option Power := (g.tail kind).map (·.1)

/-- The binding power of the tokens of one kind. -/
def power (g : Grammar) (kind : Kind) : Power := (g.power? kind).getD .lowest

/-- How a token continues an expression that takes only what binds tighter than `least`.  A
semicolon ends every expression, whatever the grammar says about it. -/
def continuation? (g : Grammar) (least : Power) (kind : Kind) : Option (Power × TailRule) :=
  if kind = .semicolon then none else (g.tail kind).filter fun p => least < p.1

/-- What continues an expression binds tighter than asked for. -/
theorem lt_of_continuation? {g : Grammar} {least power : Power} {kind : Kind} {rule : TailRule}
    (h : g.continuation? least kind = some (power, rule)) : least < power := by
  rw [continuation?] at h
  split at h
  · simp at h
  · simpa using (Option.filter_eq_some_iff.mp h).2

/-- In the language no token begins a statement that is a block. -/
theorem statement_ne_block (kind : Kind) :
    (standard.statement kind).getD .expression ≠ .block := by
  cases kind <;> decide

end Grammar

end ExprLang
