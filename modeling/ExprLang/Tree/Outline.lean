import ExprLang.Outline
import ExprLang.Tree.Basic

/-!
# Outlines of trees

The structure of a tree, as a dump shows it: every form of expression and statement is a record with
named fields, inside a tuple that names the form.

## Main definitions

* `Expr.outline`, `Stmt.outline`, `Program.outline` — the structure of a tree.
-/

namespace ExprLang

/-- A record inside the tuple that names its form. -/
def formOutline (form record : String) (fields : List (String × Outline)) : Outline :=
  .tuple form [.record record fields]

/-- The structure of a name. -/
def nameOutline (name : String) : Outline := .record "Identifier" [("value", .ofText name)]

/-- The structure of a block, made of those of its statements. -/
def blockOutline (statements : List Outline) : Outline :=
  .record "BlockStmt" [("body", .list statements)]

mutual

/-- The structure of an expression. -/
def Expr.outline : Expr → Outline
  | .ident name => .tuple "Identifier" [nameOutline name]
  | .int value => formOutline "Integer" "IntegerLiteral" [("value", .ofInt value)]
  | .str text => formOutline "String" "StringLiteral" [("value", .ofText text)]
  | .bool value => formOutline "Boolean" "BooleanLiteral" [("value", .ofBool value)]
  | .unary op operand =>
    formOutline "Prefix" "PrefixExpr" [("operator", .ofText op), ("right", operand.outline)]
  | .binary left op right =>
    formOutline "Infix" "InfixExpr"
      [("left", left.outline), ("operator", .ofText op), ("right", right.outline)]
  | .conditional condition consequence alternative =>
    formOutline "If" "IfExpr"
      [("condition", condition.outline),
        ("consequence", blockOutline (statementOutlines consequence)),
        ("alternative", elseOutline alternative)]
  | .function parameters body =>
    formOutline "Function" "FunctionLiteral"
      [("parameters", .list (parameters.map nameOutline)),
        ("body", blockOutline (statementOutlines body))]
  | .call callee arguments =>
    formOutline "Call" "CallExpr"
      [("function", callee.outline), ("arguments", .list (itemOutlines arguments))]
  | .array elements =>
    formOutline "Array" "ArrayLiteral" [("elements", .list (itemOutlines elements))]
  | .index subject place =>
    formOutline "Index" "IndexExpr" [("left", subject.outline), ("index", place.outline)]
  | .hash pairs => formOutline "Hash" "HashLiteral" [("pairs", .list (pairOutlines pairs))]

/-- The structure of a statement. -/
def Stmt.outline : Stmt → Outline
  | .binding name value =>
    formOutline "Let" "LetStmt" [("name", nameOutline name), ("value", value.outline)]
  | .ret none => formOutline "Return" "ReturnStmt" [("value", .ofOption none)]
  | .ret (some value) =>
    formOutline "Return" "ReturnStmt" [("value", .ofOption (some value.outline))]
  | .expr value => formOutline "Expression" "ExpressionStmt" [("expression", value.outline)]
  | .block body => .tuple "Block" [blockOutline (statementOutlines body)]

/-- The structures of statements. -/
def statementOutlines : List Stmt → List Outline
  | [] => []
  | s :: ss => s.outline :: statementOutlines ss

/-- The structure of the second block of a conditional. -/
def elseOutline : Option (List Stmt) → Outline
  | none => .ofOption none
  | some body => .ofOption (some (blockOutline (statementOutlines body)))

/-- The structures of expressions. -/
def itemOutlines : List Expr → List Outline
  | [] => []
  | e :: es => e.outline :: itemOutlines es

/-- The structures of keys and values. -/
def pairOutlines : List (Expr × Expr) → List Outline
  | [] => []
  | (key, value) :: ps => .tuple "" [key.outline, value.outline] :: pairOutlines ps

end

/-- The structure of a program. -/
def Program.outline (p : Program) : Outline :=
  .record "Program" [("statements", .list (statementOutlines p))]

end ExprLang
