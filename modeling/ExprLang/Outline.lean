import ExprLang.Text.Quoted

/-!
# Outlines of data

The dump of a value shows its structure: named records with their fields, named tuples, and lists.
A value is first turned into an `Outline`, which knows nothing of spaces and lines, and the
outline is then laid out, either on one line or with one item a line, indented by four spaces a
level and with a comma after every item.

## Main definitions

* `Outline` — the structure of a value.
* `Outline.compact` — the layout on one line.
* `Outline.indented` — the layout over several lines.
-/

namespace ExprLang

/-- The structure of a value, as a dump shows it. -/
inductive Outline where
  /-- A value without parts, by its text. -/
  | atom (text : String)
  /-- A record: its name, and its fields by name.  There is at least one field. -/
  | record (name : String) (fields : List (String × Outline))
  /-- A tuple with at least one item.  The name may be empty. -/
  | tuple (name : String) (items : List Outline)
  /-- A list. -/
  | list (items : List Outline)
  deriving Repr, Inhabited

namespace Outline

/-! ### Outlines of simple values -/

/-- A text, between quotation marks. -/
def ofText (s : String) : Outline := atom (Text.quoted s)

/-- A number. -/
def ofNat (n : Nat) : Outline := atom (toString n)

/-- A number with a sign. -/
def ofInt (n : Int) : Outline := atom (toString n)

/-- A truth value. -/
def ofBool (b : Bool) : Outline := atom (toString b)

/-- A value that may be absent. -/
def ofOption : Option Outline → Outline
  | none => atom "None"
  | some o => tuple "Some" [o]

/-! ### The layout on one line -/

mutual

/-- An outline on one line. -/
def compact : Outline → String
  | atom text => text
  | record name fields => name ++ " \x7b " ++ compactFields fields ++ " \x7d"
  | tuple name items => name ++ "(" ++ compactItems items ++ ")"
  | list items => "[" ++ compactItems items ++ "]"

/-- Items separated by commas. -/
def compactItems : List Outline → String
  | [] => ""
  | [o] => o.compact
  | o :: os => o.compact ++ ", " ++ compactItems os

/-- Fields separated by commas. -/
def compactFields : List (String × Outline) → String
  | [] => ""
  | [(field, o)] => field ++ ": " ++ o.compact
  | (field, o) :: fs => field ++ ": " ++ o.compact ++ ", " ++ compactFields fs

end

/-! ### The layout over several lines -/

/-- The start of a line that is `depth` levels deep. -/
def margin (depth : Nat) : String := "".pushn ' ' (4 * depth)

mutual

/-- An outline over several lines, after a margin of `depth` levels.  A list without items stays on
its line. -/
def indented (depth : Nat) : Outline → String
  | atom text => text
  | record name fields =>
    name ++ " \x7b\n" ++ indentedFields (depth + 1) fields ++ margin depth ++ "\x7d"
  | tuple name items => name ++ "(\n" ++ indentedItems (depth + 1) items ++ margin depth ++ ")"
  | list [] => "[]"
  | list (o :: os) => "[\n" ++ indentedItems (depth + 1) (o :: os) ++ margin depth ++ "]"

/-- Items, each on a line of its own and followed by a comma. -/
def indentedItems (depth : Nat) : List Outline → String
  | [] => ""
  | o :: os => margin depth ++ indented depth o ++ ",\n" ++ indentedItems depth os

/-- Fields, each on a line of its own and followed by a comma. -/
def indentedFields (depth : Nat) : List (String × Outline) → String
  | [] => ""
  | (field, o) :: fs =>
    margin depth ++ field ++ ": " ++ indented depth o ++ ",\n" ++ indentedFields depth fs

end

/-- An outline in one of the two layouts. -/
def layout (overLines : Bool) (o : Outline) : String :=
  if overLines then o.indented 0 else o.compact

end Outline

end ExprLang
