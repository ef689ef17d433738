/-!
# Kinds of tokens

The scanner sorts the tokens of a source text into the kinds below.  Each kind has two spellings:
a *symbol*, which is what a user reads in a diagnostic (`=`, `IDENT`), and a *label*, which is the
name of the kind in the dumps of internal data (`Assign`, `Identifier`).

## Main definitions

* `Kind` — the kinds.
* `Kind.symbol`, `Kind.label` — their two spellings.
* `Kind.reservedWords`, `Kind.ofWord` — the words that are not names.

## Main results

* `Kind.label_injective` — a label determines its kind.
* `Kind.ofWord_cases` — the kind of a word is that of names, or comes from the table.
-/

namespace ExprLang

/-- The kind of a token. -/
inductive Kind where
  /-- A character that begins no token. -/
  | illegal
  /-- The end of the source text. -/
  | eof
  /-- A name. -/
  | ident
  /-- A run of digits. -/
  | int
  /-- A quoted string. -/
  | string
  /-- The sign of a binding, `=`. -/
  | assign
  | plus
  | minus
  /-- The sign of negation, `!`. -/
  | bang
  | asterisk
  | slash
  | less
  | greater
  /-- The sign of comparison, `==`. -/
  | equals
  /-- The sign of comparison, `!=`. -/
  | notEquals
  | comma
  | semicolon
  | colon
  | openParen
  | closeParen
  | openCurly
  | closeCurly
  | openBracket
  | closeBracket
  /-- The reserved word `fn`. -/
  | fnWord
  /-- The reserved word `let`. -/
  | letWord
  /-- The reserved word `true`. -/
  | trueWord
  /-- The reserved word `false`. -/
  | falseWord
  /-- The reserved word `if`. -/
  | ifWord
  /-- The reserved word `else`. -/
  | elseWord
  /-- The reserved word `return`. -/
  | returnWord
  deriving DecidableEq, Repr, Inhabited

namespace Kind

/-! ### The two spellings of a kind -/

/-- The spelling of a kind in diagnostics. -/
def symbol : Kind → String
  | illegal => "ILLEGAL"
  | eof => "EOF"
  | ident => "IDENT"
  | int => "INT"
  | string => "STRING"
  | assign => "="
  | plus => "+"
  | minus => "-"
  | bang => "!"
  | asterisk => "*"
  | slash => "/"
  | less => "<"
  | greater => ">"
  | equals => "=="
  | notEquals => "!="
  | comma => ","
  | semicolon => ";"
  | colon => ":"
  | openParen => "("
  | closeParen => ")"
  | openCurly => "\x7b"
  | closeCurly => "\x7d"
  | openBracket => "["
  | closeBracket => "]"
  | fnWord => "FUNCTION"
  | letWord => "LET"
  | trueWord => "TRUE"
  | falseWord => "FALSE"
  | ifWord => "IF"
  | elseWord => "ELSE"
  | returnWord => "RETURN"

/-- The spelling of a kind in dumps. -/
def label : Kind → String
  | illegal => "Illegal"
  | eof => "EOF"
  | ident => "Identifier"
  | int => "Int"
  | string => "String"
  | assign => "Assign"
  | plus => "Plus"
  | minus => "Minus"
  | bang => "Bang"
  | asterisk => "Asterisk"
  | slash => "Slash"
  | less => "Less"
  | greater => "Greater"
  | equals => "Equals"
  | notEquals => "NotEquals"
  | comma => "Comma"
  | semicolon => "Semicolon"
  | colon => "Colon"
  | openParen => "OpenParen"
  | closeParen => "CloseParen"
  | openCurly => "OpenCurly"
  | closeCurly => "CloseCurly"
  | openBracket => "OpenBracket"
  | closeBracket => "CloseBracket"
  | fnWord => "Fn"
  | letWord => "Let"
  | trueWord => "True"
  | falseWord => "False"
  | ifWord => "If"
  | elseWord => "Else"
  | returnWord => "Return"

/-- Every kind, in the order of the declaration. -/
def all : List Kind :=
  [illegal, eof, ident, int, string, assign, plus, minus, bang, asterisk, slash, less, greater,
    equals, notEquals, comma, semicolon, colon, openParen, closeParen, openCurly, closeCurly,
    openBracket, closeBracket, fnWord, letWord, trueWord, falseWord, ifWord, elseWord, returnWord]

theorem mem_all (k : Kind) : k ∈ all := by cases k <;> decide

/-- The kind with a given label. -/
def ofLabel? (text : String) : Option Kind := all.find? (·.label == text)

theorem ofLabel?_label (k : Kind) : ofLabel? k.label = some k := by cases k <;> decide

/-- A label determines its kind. -/
theorem label_injective {k l : Kind} (h : k.label = l.label) : k = l := by
  have := ofLabel?_label k
  rw [h, ofLabel?_label l] at this
  exact (Option.some.inj this).symm

/-! ### Reserved words -/

/-- The words that have a kind of their own, and so name nothing. -/
def reservedWords : List (String × Kind) :=
  [("else", elseWord), ("false", falseWord), ("fn", fnWord), ("if", ifWord), ("let", letWord),
    ("return", returnWord), ("true", trueWord)]

/-- The kind of a word: its own if the word is reserved, else that of names. -/
def ofWord (word : String) : Kind := (reservedWords.lookup word).getD ident

/-- The kind of a word is that of names, or the word is in the table with its kind. -/
theorem ofWord_cases (word : String) :
    ofWord word = ident ∧ reservedWords.lookup word = none ∨
      (word, ofWord word) ∈ reservedWords := by
  unfold ofWord
  cases h : reservedWords.lookup word with
  | none => exact .inl ⟨rfl, rfl⟩
  | some k =>
    obtain ⟨l, l', hl, -⟩ := List.lookup_eq_some_iff.mp h
    exact .inr (by simp [hl])

/-- The reserved words of one kind, in alphabetical order. -/
def words (k : Kind) : List String := (reservedWords.filter (·.2 == k)).map (·.1)

end Kind

end ExprLang
