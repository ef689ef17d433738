import ExprLang.Token.Basic

/-!
# Diagnostics

A diagnostic tells what the parser did not expect, and where.  It never ends the reading of a source
text: the parser goes on after it and may find more.

## Main definitions

* `Cause`, `Cause.name`, `Cause.message`, `Cause.tip?` — what went wrong, and the texts for it.
* `Diagnostic` — a cause, and the place it is reported at.
-/

namespace ExprLang

/-- What the parser did not expect. -/
inductive Cause where
  /-- A token of another kind than the only one that can follow. -/
  | unexpected (expected got : Kind)
  /-- A token that begins no expression, where one has to begin. -/
  | noExpression (kind : Kind)
  /-- A number that is not an integer of 64 bits. -/
  | badInteger (text : String)
  /-- A block that is still open at the end of the source. -/
  | unclosedBlock
  /-- An expression or a block inside too many others. -/
  | tooDeep (limit : Nat)
  deriving DecidableEq, Repr, Inhabited

namespace Cause

/-- The name of a cause. -/
def name : Cause → String
  | unexpected .. => "UnexpectedToken"
  | noExpression _ => "NoPrefixParser"
  | badInteger _ => "IntegerParse"
  | unclosedBlock => "UnterminatedBlock"
  | tooDeep _ => "NestingTooDeep"

/-- The message for a cause. -/
def message : Cause → String
  | unexpected expected got =>
    "expected next token to be " ++ expected.symbol ++ ", got " ++ got.symbol ++ " instead"
  | noExpression kind => "no prefix parse function for " ++ kind.symbol ++ " found"
  | badInteger text => "could not parse " ++ Text.quoted text ++ " as integer"
  | unclosedBlock => "expected next token to be \x7d, got EOF instead"
  | tooDeep limit => "expression nested deeper than " ++ toString limit ++ " levels"

/-- A tip on what to do about a cause, if there is one to give. -/
def tip? : Cause → Option String
  | unexpected expected got =>
    some ("Unexpected token `" ++ got.symbol ++ "`, expected `" ++ expected.symbol ++ "`")
  | noExpression .eof => some "Input ended where an expression was expected"
  | noExpression .illegal => none
  | noExpression kind => some ("`" ++ kind.symbol ++ "` cannot start an expression")
  | badInteger text => some ("Invalid number: `" ++ text ++ "`, is it above the integer limit?")
  | unclosedBlock => some "Block is never closed, did you miss a `\x7d`?"
  | tooDeep _ => some "Split the expression up with `let` bindings"

/-- The structure of a cause. -/
def outline (c : Cause) : Outline :=
  match c with
  | unexpected expected got =>
    .record c.name [("expected", expected.outline), ("got", got.outline)]
  | noExpression kind => .record c.name [("kind", kind.outline)]
  | badInteger text => .record c.name [("token", .ofText text)]
  | unclosedBlock => .atom c.name
  | tooDeep limit => .record c.name [("limit", .ofNat limit)]

end Cause

/-- What went wrong, and where. -/
structure Diagnostic where
  /-- What went wrong. -/
  cause : Cause
  /-- The start of the token to blame. -/
  position : Position
  deriving DecidableEq, Repr, Inhabited

namespace Diagnostic

/-- The message of a diagnostic. -/
def message (d : Diagnostic) : String := d.cause.message

/-- The structure of a diagnostic. -/
def outline (d : Diagnostic) : Outline :=
  .record "Error" [("internal_error", d.cause.outline), ("position", d.position.outline)]

end Diagnostic

end ExprLang
