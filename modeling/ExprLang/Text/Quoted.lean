import ExprLang.Text.Invisible

/-!
# Quoted strings

In dumps and in some messages a text stands between quotation marks.  The quotation mark, the
backslash and the common control characters are then written with a backslash, and a character that
a reader would not see is written by its number, in lower case and without leading zeros.  The
apostrophe stands for itself.

## Main definitions

* `quoted s` — the text `s` between quotation marks.
-/

namespace ExprLang.Text

/-- A code point in hexadecimal digits of lower case. -/
def hexDigits (n : Nat) : String := String.ofList (Nat.toDigits 16 n)

/-- How one character is written between quotation marks. -/
def quotedChar : Char → String
  | '"' => "\\\""
  | '\\' => "\\\\"
  | '\n' => "\\n"
  | '\r' => "\\r"
  | '\t' => "\\t"
  | '\x00' => "\\0"
  | c => if isInvisible c then "\\u\x7b" ++ hexDigits c.toNat ++ "\x7d" else c.toString

/-- The inside of a quoted text. -/
def quotedChars : List Char → String
  | [] => ""
  | c :: cs => quotedChar c ++ quotedChars cs

/-- A text between quotation marks. -/
def quoted (s : String) : String := "\"" ++ quotedChars s.toList ++ "\""

@[simp] theorem quotedChars_append (cs ds : List Char) :
    quotedChars (cs ++ ds) = quotedChars cs ++ quotedChars ds := by
  induction cs with
  | nil => simp [quotedChars]
  | cons c cs ih => simp [quotedChars, ih, String.append_assoc]

end ExprLang.Text
