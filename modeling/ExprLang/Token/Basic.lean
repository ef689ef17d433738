import ExprLang.Outline
import ExprLang.Position
import ExprLang.Token.Kind

/-!
# Tokens

A token is a piece of source text that the parser handles as a unit: its kind, the text that matters
about it, and the stretch of source that it was read from.

## Main definitions

* `Token` — a token.
* `Token.eof` — the token that stands for the end of the source.
* `Token.describe`, `Token.listing` — the two texts by which a token is shown.
-/

namespace ExprLang

/-- A token of a source text. -/
structure Token where
  /-- What the token is. -/
  kind : Kind
  /-- The text of the token.  For a string this is the text between the quotation marks. -/
  value : String
  /-- The stretch of source that the token was read from. -/
  span : Span
  deriving DecidableEq, Repr, Inhabited

namespace Token

/-- The end of the source, at a place. -/
def eof (place : Position) : Token := ⟨.eof, "", .empty place⟩

@[simp] theorem kind_eof (place : Position) : (eof place).kind = .eof := rfl

@[simp] theorem value_eof (place : Position) : (eof place).value = "" := rfl

/-- A token as a message shows it. -/
def describe (t : Token) : String :=
  "Token \x7b\nkind: " ++ t.kind.symbol ++ ",\nvalue: " ++ t.value ++ "\x7d"

/-- A token whose kind leaves its text open. -/
def hasOwnText (t : Token) : Bool :=
  t.kind = .string || t.kind = .ident || t.kind = .int || t.kind = .illegal

/-- A token as a list of tokens shows it: its kind, and its text where the kind leaves it open. -/
def listing (t : Token) : String :=
  t.kind.symbol ++ " (" ++ (if t.hasOwnText then t.value else "") ++ ")"

end Token

/-! ### Outlines -/

/-- The structure of a position. -/
def Position.outline (p : Position) : Outline :=
  .tuple "Position" [.ofNat p.offset.toNat, .ofText p.file]

/-- The structure of a stretch of source. -/
def Span.outline (s : Span) : Outline :=
  .record "Span" [("start", s.start.outline), ("end", s.stop.outline)]

/-- The structure of a kind. -/
def Kind.outline (k : Kind) : Outline := .atom k.label

/-- The structure of a token. -/
def Token.outline (t : Token) : Outline :=
  .record "Token" [("kind", t.kind.outline), ("value", .ofText t.value), ("span", t.span.outline)]

end ExprLang
