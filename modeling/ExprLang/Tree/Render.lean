import ExprLang.Tree.Basic

/-!
# Rendering trees

The canonical text of a tree.  Every operation is in parentheses, so the text shows how the
operands are grouped.  A `let` and a `return` end in a semicolon of their own; an expression that
stands for a statement gets one only if another statement follows.

## Main definitions

* `Expr.render`, `Stmt.render` — the text of an expression and of a statement.
* `Block.render`, `Program.render` — the text of a list of statements, with and without braces.
-/

namespace ExprLang

/-- What comes between a statement and the next one. -/
def Stmt.separator : Stmt → String
  | .expr _ => "; "
  | _ => " "

/-- Names separated by commas. -/
def renderNames : List String → String
  | [] => ""
  | [name] => name
  | name :: names => name ++ ", " ++ renderNames names

/-- Text in braces.  An empty block has a single space between them. -/
def braced (inside : String) : List Stmt → String
  | [] => "\x7b \x7d"
  | _ :: _ => "\x7b " ++ inside ++ " \x7d"

mutual

/-- The text of an expression. -/
def Expr.render : Expr → String
  | .ident name => name
  | .int value => toString value
  | .str text => "\"" ++ text ++ "\""
  | .bool value => toString value
  | .unary op operand => "(" ++ op ++ operand.render ++ ")"
  | .binary left op right => "(" ++ left.render ++ " " ++ op ++ " " ++ right.render ++ ")"
  | .conditional condition consequence alternative =>
    "if (" ++ condition.render ++ ") " ++ braced (renderStatements consequence) consequence ++
      renderElse alternative
  | .function parameters body =>
    "fn(" ++ renderNames parameters ++ ") " ++ braced (renderStatements body) body
  | .call callee arguments => callee.render ++ "(" ++ renderItems arguments ++ ")"
  | .array elements => "[" ++ renderItems elements ++ "]"
  | .index subject place => "(" ++ subject.render ++ "[" ++ place.render ++ "])"
  | .hash pairs => "\x7b" ++ renderPairs pairs ++ "\x7d"

/-- The text of a statement. -/
def Stmt.render : Stmt → String
  | .binding name value => "let " ++ name ++ " = " ++ value.render ++ ";"
  | .ret none => "return;"
  | .ret (some value) => "return " ++ value.render ++ ";"
  | .expr value => value.render
  | .block body => braced (renderStatements body) body

/-- The text of statements without braces around them. -/
def renderStatements : List Stmt → String
  | [] => ""
  | [s] => s.render
  | s :: ss => s.render ++ s.separator ++ renderStatements ss

/-- The text of the second block of a conditional. -/
def renderElse : Option (List Stmt) → String
  | none => ""
  | some body => " else " ++ braced (renderStatements body) body

/-- The text of expressions separated by commas. -/
def renderItems : List Expr → String
  | [] => ""
  | [e] => e.render
  | e :: es => e.render ++ ", " ++ renderItems es

/-- The text of keys and values separated by commas. -/
def renderPairs : List (Expr × Expr) → String
  | [] => ""
  | [(key, value)] => key.render ++ ": " ++ value.render
  | (key, value) :: ps => key.render ++ ": " ++ value.render ++ ", " ++ renderPairs ps

end

/-- The text of a block. -/
def Block.render (b : Block) : String := braced (renderStatements b) b

/-- The text of a program. -/
def Program.render (p : Program) : String := renderStatements p

end ExprLang
