import ExprLang.Text.Blank
import ExprLang.Token.Kind

/-!
# Lexemes

A source text is a sequence of lexemes, with trivia before, between and after them.  *Trivia* are
blanks and comments; a comment runs from `//` to the end of its line.  A lexeme is a word, a run
of digits, a quoted string, one of the fixed operators and punctuation marks, or a single
character that begins none of these.  A lexeme is as long as possible.  A quoted string ends at
the next quotation mark, or with the source if there is none.

## Main definitions

* `splitTrivia` — the trivia at the start of a text, and the text after them.
* `Lexeme`, `readLexeme` — the lexeme at the start of a text.

## Main results

* `splitTrivia_append`, `readLexeme_append` — what is split off and what is left make up the text.
* `Lexeme.kind_ne_eof` — no lexeme stands for the end of the text.
-/

namespace ExprLang

open Text

/-! ### Trivia -/

/-- Split off the trivia at the start of a text.  The flag tells whether the text begins inside a
comment.  The newline after a comment is a blank, so it is split off too. -/
def splitTrivia : Bool → List Char → List Char × List Char
  | _, [] => ([], [])
  | true, c :: cs =>
    let p := splitTrivia (c != '\n') cs
    (c :: p.1, p.2)
  | false, c :: cs =>
    if isBlank c then
      let p := splitTrivia false cs
      (c :: p.1, p.2)
    else if c = '/' ∧ cs.head? = some '/' then
      let p := splitTrivia true cs
      (c :: p.1, p.2)
    else ([], c :: cs)

/-- Splitting off trivia loses nothing. -/
@[simp] theorem splitTrivia_append (inside : Bool) (cs : List Char) :
    (splitTrivia inside cs).1 ++ (splitTrivia inside cs).2 = cs := by
  induction cs generalizing inside with
  | nil => cases inside <;> rfl
  | cons c cs ih =>
    cases inside
    · simp only [splitTrivia]
      split
      · simp [ih]
      · split
        · simp [ih]
        · rfl
    · simp [splitTrivia, ih]

theorem length_splitTrivia_le (inside : Bool) (cs : List Char) :
    (splitTrivia inside cs).2.length ≤ cs.length := by
  have := congrArg List.length (splitTrivia_append inside cs)
  rw [List.length_append] at this
  omega

/-! ### The forms of lexemes -/

/-- A character that begins a word. -/
def isWordStart (c : Char) : Bool := c.isAlpha || c == '_'

/-- A character that continues a word. -/
def isWordChar (c : Char) : Bool := c.isAlphanum || c == '_'

/-- The kind of a lexeme of a single character, if it is not part of a longer one. -/
def Kind.ofMark : Char → Kind
  | '=' => .assign
  | '!' => .bang
  | '+' => .plus
  | '-' => .minus
  | '*' => .asterisk
  | '/' => .slash
  | '<' => .less
  | '>' => .greater
  | ',' => .comma
  | ';' => .semicolon
  | ':' => .colon
  | '(' => .openParen
  | ')' => .closeParen
  | '\x7b' => .openCurly
  | '\x7d' => .closeCurly
  | '[' => .openBracket
  | ']' => .closeBracket
  | _ => .illegal

/-- A lexeme of a source text. -/
structure Lexeme where
  /-- What the lexeme is. -/
  kind : Kind
  /-- The characters that matter about it.  Those of a string exclude the quotation marks. -/
  value : List Char
  /-- All the characters that it covers. -/
  text : List Char
  deriving DecidableEq, Repr, Inhabited

/-- A lexeme all of whose characters matter. -/
def Lexeme.plain (kind : Kind) (text : List Char) : Lexeme := ⟨kind, text, text⟩

/-- The word that begins with `c` and goes on in `cs`. -/
def readWord (c : Char) (cs : List Char) : Lexeme × List Char :=
  let word := c :: cs.takeWhile isWordChar
  (.plain (.ofWord (String.ofList word)) word, cs.dropWhile isWordChar)

/-- The run of digits that begins with `c` and goes on in `cs`. -/
def readDigits (c : Char) (cs : List Char) : Lexeme × List Char :=
  (.plain .int (c :: cs.takeWhile Char.isDigit), cs.dropWhile Char.isDigit)

/-- The string whose opening quotation mark is followed by `cs`. -/
def readString (cs : List Char) : Lexeme × List Char :=
  let inside := cs.takeWhile (· != '"')
  match cs.dropWhile (· != '"') with
  -- the text ends inside the string
  | [] => (⟨.string, inside, '"' :: inside⟩, [])
  | q :: rest => (⟨.string, inside, '"' :: inside ++ [q]⟩, rest)

/-- The operator or mark that begins with `c` and may go on in `cs`. -/
def readMark (c : Char) (cs : List Char) : Lexeme × List Char :=
  match c, cs with
  | '=', '=' :: rest => (.plain .equals ['=', '='], rest)
  | '!', '=' :: rest => (.plain .notEquals ['!', '='], rest)
  | c, cs => (.plain (.ofMark c) [c], cs)

/-- The lexeme at the start of the text `c :: cs`, and the text after it. -/
def readLexeme (c : Char) (cs : List Char) : Lexeme × List Char :=
  if isWordStart c then readWord c cs
  else if c.isDigit then readDigits c cs
  else if c = '"' then readString cs
  else readMark c cs

/-! ### What reading a lexeme leaves -/

theorem readWord_append (c : Char) (cs : List Char) :
    (readWord c cs).1.text ++ (readWord c cs).2 = c :: cs := by
  simp [readWord, Lexeme.plain]

theorem readDigits_append (c : Char) (cs : List Char) :
    (readDigits c cs).1.text ++ (readDigits c cs).2 = c :: cs := by
  simp [readDigits, Lexeme.plain]

theorem readString_append (cs : List Char) :
    (readString cs).1.text ++ (readString cs).2 = '"' :: cs := by
  have h := List.takeWhile_append_dropWhile (p := (· != '"')) (l := cs)
  rw [readString]
  split <;> simp_all

theorem readMark_append (c : Char) (cs : List Char) :
    (readMark c cs).1.text ++ (readMark c cs).2 = c :: cs := by
  unfold readMark
  split <;> simp [Lexeme.plain]

/-- Reading a lexeme loses nothing. -/
@[simp] theorem readLexeme_append (c : Char) (cs : List Char) :
    (readLexeme c cs).1.text ++ (readLexeme c cs).2 = c :: cs := by
  rw [readLexeme]
  split
  · exact readWord_append c cs
  · split
    · exact readDigits_append c cs
    · split
      · next h => rw [h]; exact readString_append cs
      · exact readMark_append c cs

/-- A lexeme has at least one character. -/
theorem readLexeme_text_ne_nil (c : Char) (cs : List Char) : (readLexeme c cs).1.text ≠ [] := by
  simp only [readLexeme, readWord, readDigits, readString, readMark, Lexeme.plain]
  repeat' split
  all_goals simp

/-- Reading a lexeme shortens the text. -/
theorem length_readLexeme_lt (c : Char) (cs : List Char) :
    (readLexeme c cs).2.length < (c :: cs).length := by
  have h := congrArg List.length (readLexeme_append c cs)
  have h' := List.length_pos_iff.mpr (readLexeme_text_ne_nil c cs)
  rw [List.length_append] at h
  omega

/-! ### No lexeme stands for the end of the text -/

theorem Kind.ofWord_ne_eof (word : String) : Kind.ofWord word ≠ .eof := by
  rcases Kind.ofWord_cases word with ⟨h, -⟩ | hmem
  · simp [h]
  · -- there is no entry for the end in the table
    have hall : ∀ p ∈ Kind.reservedWords, p.2 ≠ .eof := by decide
    exact hall _ hmem

theorem Kind.ofMark_ne_eof (c : Char) : Kind.ofMark c ≠ .eof := by
  unfold Kind.ofMark
  split <;> simp

theorem Lexeme.kind_ne_eof (c : Char) (cs : List Char) : (readLexeme c cs).1.kind ≠ .eof := by
  simp only [readLexeme, readWord, readDigits, readString, readMark, Lexeme.plain]
  repeat' split
  all_goals simp [Kind.ofWord_ne_eof, Kind.ofMark_ne_eof]

end ExprLang
