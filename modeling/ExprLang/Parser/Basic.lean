import ExprLang.Parser.Nesting
import ExprLang.Tree.Equality

/-!
# Parsers

A parser is at work on a source of tokens.  It holds the grammar that it follows, the state that
its actions go on from, and how many levels it may still open.  Its operations give a result, or
the diagnostic that stopped them, together with the parser after them.  They never change the
grammar, and they close the levels that they open.

## Main definitions

* `Parser`, `Parser.ofSource` — a parser, and the one at the start of a source.
* `Parser.expr`, `Parser.statement`, `Parser.block`, … — its operations.
* `Parser.enterLevel`, `Parser.nested` — opening levels by hand.
* `Parsed`, `Parser.finish` — the rest of the source, as a program and its diagnostics.
* `parse`, `parseText` — all of a source.

## Main results

* `parse_eq` — parsing a source is reading a program.
-/

namespace ExprLang

/-- A parser at work. -/
structure Parser where
  /-- What the tokens may do. -/
  grammar : Grammar
  /-- How many levels may still be opened. -/
  room : Nat
  /-- What is in sight, and what has been found. -/
  state : State

/-- What comes of an operation: its result, or why it stopped, and the parser after it. -/
abbrev Outcome (α : Type) := Except Diagnostic α × Parser

namespace Parser

variable {α : Type}

/-- The parser of the language, at the start of a source. -/
def ofSource (s : Source) : Parser := ⟨.standard, maxNesting, .ofSource s⟩

/-! ### What is in sight -/

/-- The token that is being parsed. -/
def current (p : Parser) : Token := p.state.current

/-- The token after it. -/
def lookahead (p : Parser) : Token := p.state.lookahead

/-- The place of the token that is being parsed. -/
def position (p : Parser) : Position := p.state.position

/-- The diagnostics recorded so far. -/
def diagnostics (p : Parser) : List Diagnostic := p.state.diagnostics

/-- Whether the current token is of one of some kinds. -/
def currentIsOneOf (p : Parser) (kinds : List Kind) : Bool := kinds.contains p.current.kind

/-- The binding power of the current token. -/
def currentPower (p : Parser) : Power := p.grammar.power p.current.kind

/-- The binding power of the token after the current one. -/
def lookaheadPower (p : Parser) : Power := p.grammar.power p.lookahead.kind

/-! ### Reading -/

/-- The level that the parser is at. -/
def level (p : Parser) : Level := .ofRoom p.grammar p.room

/-- Do an action. -/
def perform (p : Parser) (m : Action α) : Outcome α :=
  let r := m.run p.state
  (r.1, { p with state := r.2 })

/-- Move on by one token. -/
def advance (p : Parser) : Parser := { p with state := p.state.advance }

/-- Record a diagnostic about the current token. -/
def record (p : Parser) (c : Cause) : Parser := { p with state := p.state.record ⟨c, p.position⟩ }

/-- Move on if the next token is of the expected kind. -/
def expect (p : Parser) (kind : Kind) : Outcome Unit := p.perform (.expect kind)

/-- Read an expression that takes only what binds tighter than `least`. -/
def expr (p : Parser) (least : Power) : Outcome Expr := p.perform (p.level.expr least)

/-- Read a block, from its opening brace. -/
def block (p : Parser) : Outcome Block := p.perform p.level.block

/-- Read expressions separated by commas, up to a token that closes the list. -/
def items (p : Parser) (close : Kind) : Outcome (List Expr) := p.perform (Form.items p.level close)

/-- Read a given form of expression from its first token. -/
def head (p : Parser) (rule : HeadRule) : Outcome Expr := p.perform (rule.read p.level)

/-- Read a given form of expression from the token after its left operand. -/
def tail (p : Parser) (rule : TailRule) (left : Expr) (power : Power) : Outcome Expr :=
  p.perform (rule.read p.level power left)

/-- Read a given form of statement. -/
def form (p : Parser) (rule : StmtRule) : Outcome Stmt := p.perform (rule.read p.level)

/-- Read the statement that the current token begins. -/
def statement (p : Parser) : Outcome Stmt := p.perform (Form.statement p.grammar p.level)

/-- Read the rest of the source.  This never fails, by `Form.run_program_isOk`, so there is always a
program to give. -/
def program (p : Parser) : Program × Parser :=
  let r := p.perform (Form.program p.grammar p.level)
  (r.1.toOption.getD [], r.2)

/-! ### Opening levels -/

/-- Open one more level, which stays open. -/
def enterLevel (p : Parser) : Outcome Unit :=
  match p.room with
  | 0 => p.perform refuseLevel
  | room + 1 => (.ok (), { p with room })

/-- Run something one level deeper.  Afterwards all the levels that it opened are closed. -/
def nested (p : Parser) (body : Parser → Outcome α) : Outcome α :=
  match p.enterLevel with
  | (.error d, q) => (.error d, q)
  | (.ok (), q) =>
    let r := body q
    (r.1, { r.2 with room := p.room })

end Parser

/-! ### Parsing all of a source -/

/-- The outcome of parsing a source.  If there are diagnostics, statements may be missing from the
program. -/
structure Parsed where
  /-- The statements that could be read. -/
  program : Program
  /-- What was found on the way, in the order in which it was. -/
  diagnostics : List Diagnostic
  deriving DecidableEq, Repr, Inhabited

/-- Whether nothing was found. -/
def Parsed.isClean (p : Parsed) : Bool := p.diagnostics.isEmpty

/-- The messages of the diagnostics. -/
def Parsed.messages (p : Parsed) : List String := p.diagnostics.map Diagnostic.message

/-- Read the rest of the source, and give it with all the diagnostics. -/
def Parser.finish (p : Parser) : Parsed :=
  let r := p.program
  ⟨r.1, r.2.diagnostics⟩

/-- Parse a source of tokens. -/
def parse (s : Source) : Parsed := (Parser.ofSource s).finish

/-- Parsing a source is reading a program from its start. -/
theorem parse_eq {s : Source} {p : Program} {t : State}
    (h : (Form.program .standard (.ofRoom .standard maxNesting)).run (.ofSource s) = (.ok p, t)) :
    parse s = ⟨p, t.diagnostics⟩ := by
  let r := (Form.program .standard (.ofRoom .standard maxNesting)).run (.ofSource s)
  show (⟨r.1.toOption.getD [], r.2.diagnostics⟩ : Parsed) = _
  rw [show r = (.ok p, t) from h]
  rfl

/-- Parse a source text. -/
def parseText (source file : String) : Parsed := parse (.ofText source file)

end ExprLang
