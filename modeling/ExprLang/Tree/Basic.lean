/-!
# Syntax trees

A program is a list of statements.  Statements hold expressions, and two forms of expression hold
statements in turn: conditionals and functions, whose bodies are blocks.  A block is a list of
statements.

Operators are kept as the text by which they were written, so that a grammar may give further tokens
the role of an operator.

## Main definitions

* `Expr`, `Stmt` — expressions and statements.
* `Block`, `Program` — lists of statements, inside braces and at the top.
* `Expr.literal`, `Stmt.literal` — the text of the token that a tree is named after.
-/

namespace ExprLang

mutual

/-- An expression. -/
inductive Expr where
  /-- A name. -/
  | ident (name : String)
  /-- An integer. -/
  | int (value : Int)
  /-- A string, by the text between its quotation marks. -/
  | str (text : String)
  /-- A truth value. -/
  | bool (value : Bool)
  /-- An operator before its operand. -/
  | unary (op : String) (operand : Expr)
  /-- An operator between its operands. -/
  | binary (left : Expr) (op : String) (right : Expr)
  /-- A condition, the block for when it holds, and perhaps one for when it does not. -/
  | conditional (condition : Expr) (consequence : List Stmt) (alternative : Option (List Stmt))
  /-- A function: the names of its parameters, and its body. -/
  | function (parameters : List String) (body : List Stmt)
  /-- A function applied to arguments. -/
  | call (callee : Expr) (arguments : List Expr)
  /-- A list of elements. -/
  | array (elements : List Expr)
  /-- A part of a value, chosen by an index. -/
  | index (subject : Expr) (place : Expr)
  /-- A list of keys and their values. -/
  | hash (pairs : List (Expr × Expr))

/-- A statement. -/
inductive Stmt where
  /-- A name given to a value. -/
  | binding (name : String) (value : Expr)
  /-- The end of a function, perhaps with a result. -/
  | ret (value : Option Expr)
  /-- An expression that stands for itself. -/
  | expr (value : Expr)
  /-- A list of statements in braces. -/
  | block (body : List Stmt)

end

deriving instance Repr, Inhabited for Expr, Stmt

/-- The statements between two braces. -/
abbrev Block := List Stmt

/-- The statements of a whole source text. -/
abbrev Program := List Stmt

/-! ### The token that a tree is named after -/

/-- The text of the token that an expression is named after.  An operation is named after its
operator, also when its left operand comes first in the text. -/
def Expr.literal : Expr → String
  | ident name => name
  | int value => toString value
  | str text => text
  | bool value => toString value
  | unary op _ => op
  | binary _ op _ => op
  | conditional .. => "if"
  | function .. => "fn"
  | call .. => "("
  | array _ => "["
  | index .. => "["
  | hash _ => "\x7b"

/-- The text of the token that a block is named after. -/
def Block.literal (_ : Block) : String := "\x7b"

/-- The text of the token that a statement is named after. -/
def Stmt.literal : Stmt → String
  | binding .. => "let"
  | ret _ => "return"
  | expr value => value.literal
  | block body => Block.literal body

/-- The text of the token that a program is named after: that of its first statement, if any. -/
def Program.literal (p : Program) : String := (p.head?.map Stmt.literal).getD ""

end ExprLang
