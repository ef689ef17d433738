import ExprLang.Token.Basic

/-!
# Words

The parser never looks at the span of a token, and it looks at the text of a token only where the
kind leaves that text open or where the token is an operator, whose text is taken over into the
tree.  A *word* is what remains of a token then: its kind and its text, with the usual text of the
kind wherever the parser does not look.

## Main definitions

* `Word`, `Word.mark`, `Token.word` — words, and the word that a token amounts to.
* `Kind.text?`, `Kind.isOperator`, `Kind.isMark` — the kinds with one text only, those whose text
  is kept, and those with one word only.
* `Word.listed` — lists of words separated by commas.

## Main results

* `Word.listed_false_cons` — a list without a comma at its end, by its first entry.
-/

namespace ExprLang

/-! ### Words -/

/-- A kind of token and the text of a token of this kind. -/
structure Word where
  kind : Kind
  text : String
  deriving DecidableEq, Repr, Inhabited

namespace Kind

/-- The text that all tokens of a kind have, if they all have the same. -/
def text? : Kind → Option String
  | illegal | ident | int | string => none
  | eof => some ""
  | fnWord => some "fn"
  | letWord => some "let"
  | trueWord => some "true"
  | falseWord => some "false"
  | ifWord => some "if"
  | elseWord => some "else"
  | returnWord => some "return"
  | k => some k.symbol

/-- The kinds of the tokens whose text becomes the operator of a tree. -/
def isOperator : Kind → Bool
  | plus | minus | bang | asterisk | slash | less | greater | equals | notEquals => true
  | _ => false

/-- The kinds whose tokens all amount to the same word.  The end is none of them. -/
def isMark (k : Kind) : Bool := k != .eof && !k.isOperator && k.text?.isSome

end Kind

/-- The word of a kind all of whose tokens have the same text. -/
def Word.mark (k : Kind) : Word := ⟨k, k.text?.getD ""⟩

@[simp] theorem Word.kind_mark (k : Kind) : (Word.mark k).kind = k := rfl

/-- What the parser can tell about a token. -/
def Token.word (t : Token) : Word :=
  ⟨t.kind, if t.kind.isOperator then t.value else t.kind.text?.getD t.value⟩

@[simp] theorem Token.kind_word (t : Token) : t.word.kind = t.kind := rfl

/-- Where the kind leaves the text open or the parser keeps it, the word has the text of the
token. -/
theorem Token.text_word {t : Token} (h : t.kind.isOperator = true ∨ t.kind.text? = none) :
    t.word.text = t.value := by
  rcases h with h | h
  · simp [word, h]
  · simp [word, h]

/-- A token with the usual text of its kind amounts to its kind and its text. -/
theorem Token.word_eq {t : Token} (h : ∀ text, t.kind.text? = some text → t.value = text) :
    t.word = ⟨t.kind, t.value⟩ := by
  unfold word
  cases ht : t.kind.text? with
  | none => simp
  | some text => simp [h text ht]

/-! ### Lists -/

namespace Word

/-- Entries separated by commas.  The flag tells whether one more comma follows the last. -/
def listed (trailing : Bool) : List (List Word) → List Word
  | [] => []
  | [ws] => ws ++ if trailing then [mark .comma] else []
  | ws :: entries => ws ++ mark .comma :: listed trailing entries

@[simp] theorem listed_nil (trailing : Bool) : listed trailing [] = [] := rfl

theorem listed_singleton (trailing : Bool) (ws : List Word) :
    listed trailing [ws] = ws ++ if trailing then [mark .comma] else [] := rfl

theorem listed_cons_cons (trailing : Bool) (ws vs : List Word) (entries : List (List Word)) :
    listed trailing (ws :: vs :: entries) = ws ++ mark .comma :: listed trailing (vs :: entries) :=
  rfl

/-- Without a comma at the end, every entry but the first has one comma before it. -/
theorem listed_false_cons (ws : List Word) (entries : List (List Word)) :
    listed false (ws :: entries) = ws ++ entries.flatMap (mark .comma :: ·) := by
  induction entries generalizing ws with
  | nil => simp [listed_singleton]
  | cons vs entries ih => rw [listed_cons_cons, ih, List.flatMap_cons, List.cons_append]

end Word

end ExprLang
