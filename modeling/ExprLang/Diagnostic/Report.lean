import ExprLang.Diagnostic.Basic
import ExprLang.Text.Blank
import ExprLang.Text.Line

/-!
# Reports

A report shows a diagnostic together with the line of source that it is about, and points at the
place with a caret:

    Error: expected next token to be =, got INT instead
    -> example
      |
    1 | let x 5;
      | ------^
    tip: Unexpected token `INT`, expected `=`

The line is shown without the blanks at its ends.  The caret stands in the column of the place,
counted in characters, less the spaces and tabs that the line has lost at its start.

## Main definitions

* `Line.column` — the column of the place that a line was found for.
* `Line.shown`, `Line.caretColumn` — the line as a report shows it, and the column of its caret.
* `Diagnostic.report` — the report of a diagnostic.
-/

namespace ExprLang

open Text

/-- A text of at least `width` characters, with `fill` put in front of it where it is shorter.  The
width may be any number: a formatter that refuses one above 65535 is not modelled. -/
def padStart (width : Nat) (fill : Char) (text : String) : String :=
  "".pushn fill (width - text.length) ++ text

namespace Text.Line

/-- The number of characters in the first `bytes` bytes of `cs`, if a character ends there. -/
def charsIn? : Nat → List Char → Option Nat
  | 0, _ => some 0
  | _ + 1, [] => none
  | n + 1, c :: cs =>
    if c.utf8Size ≤ n + 1 then (charsIn? (n + 1 - c.utf8Size) cs).map (· + 1)
    else none

/-- The column of the place in the line: the number of characters before it.  Inside a character,
where there is no such number, it is the number of bytes. -/
def column (l : Line) : Nat := (charsIn? l.offset l.text).getD l.offset

/-- The spaces and tabs at the start of the line. -/
def margin (l : Line) : List Char := l.text.takeWhile fun c => c = ' ' || c = '\t'

/-- The line as a report shows it. -/
def shown (l : Line) : List Char := trim (l.text.dropWhile fun c => c = ' ' || c = '\t')

/-- The column of the caret under the line as a report shows it. -/
def caretColumn (l : Line) : Nat := l.column - l.margin.length

/-- The lines of a report that show a line of source. -/
def excerpt (l : Line) : String :=
  let number := toString l.number
  let bar := padStart (number.length + 2) ' ' "|"
  bar ++ "\n" ++
    number ++ " | " ++ String.ofList l.shown ++ "\n" ++
    bar ++ " " ++ padStart (l.caretColumn + 1) '-' "^" ++ "\n"

end Text.Line

/-- The report of a diagnostic about a source text, which is shown under the name `file`. -/
def Diagnostic.report (d : Diagnostic) (source file : String) : String :=
  "Error: " ++ d.message ++ "\n" ++
    "-> " ++ file ++ "\n" ++
    ((lineAt? source d.position.offset.toNat).map Line.excerpt).getD "" ++
    (d.cause.tip?.map fun tip => "tip: " ++ tip ++ "\n").getD ""

end ExprLang
