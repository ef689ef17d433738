import ExprLang.Proofs.Scanning
import ExprLang.Proofs.Trivia

/-!
# Every way to write a text is read back

A text is written lexeme by lexeme, with trivia before, between and after them.  Two lexemes may
touch, unless the second would be read as a part of the first.  The scanner reads a text written in
this way just as it was meant.

That a lexeme ends where it should depends only on the first character after it, so the proof asks
for each lexeme which characters it does not end before, and for each lexeme and all trivia which
character they begin with.

## Main definitions

* `Piece` — a lexeme as it is written, with `Piece.text` and `Piece.reading`.
* `Piece.Fuses` — the second of two lexemes would be read as a part of the first.
* `Written` — texts in which lexemes are written.

## Main results

* `Piece.textWords_append` — a lexeme is read as it was meant where it can end.
* `tokenize_written` — a text is read as it was written.
-/

namespace ExprLang

open Text

/-! ### Lexemes as they are written -/

/-- The operators and the punctuation marks. -/
def Kind.marks : List Kind :=
  [assign, plus, minus, bang, asterisk, slash, less, greater, equals, notEquals, comma, semicolon,
    colon, openParen, closeParen, openCurly, closeCurly, openBracket, closeBracket]

/-- A lexeme as it is written. -/
inductive Piece where
  /-- A word, reserved or not. -/
  | word (cs : List Char)
  | digits (cs : List Char)
  /-- A string, with the characters between its quotation marks. -/
  | quoted (cs : List Char)
  /-- An operator or a punctuation mark. -/
  | mark (k : Kind)
  /-- A character that begins nothing else. -/
  | stray (c : Char)
  deriving DecidableEq, Repr

/-- The character is no blank, and no lexeme but itself begins with it. -/
def IsStray (c : Char) : Prop :=
  isBlank c = false ∧ isWordStart c = false ∧ c.isDigit = false ∧ c ≠ '"' ∧
    ∀ k ∈ Kind.marks, k.symbol.toList.head? ≠ some c

instance (c : Char) : Decidable (IsStray c) := inferInstanceAs (Decidable (_ ∧ _))

namespace Piece

/-- The lexeme is what its form says. -/
def IsProper : Piece → Prop
  | word cs => isWord cs = true
  | digits cs => cs ≠ [] ∧ ∀ c ∈ cs, c.isDigit = true
  | quoted cs => '"' ∉ cs
  | mark k => k ∈ Kind.marks
  | stray c => IsStray c

instance : DecidablePred IsProper
  | word cs => inferInstanceAs (Decidable (isWord cs = true))
  -- only the characters of the run are looked at, not all that there are
  | digits cs => @instDecidableAnd _ _ inferInstance (List.decidableBAll _ cs)
  | quoted cs => inferInstanceAs (Decidable ('"' ∉ cs))
  | mark k => inferInstanceAs (Decidable (k ∈ Kind.marks))
  | stray c => inferInstanceAs (Decidable (IsStray c))

/-- The characters of the lexeme. -/
def text : Piece → List Char
  | word cs | digits cs => cs
  | quoted cs => '"' :: cs ++ ['"']
  | mark k => k.symbol.toList
  | stray c => [c]

/-- The kind and the value of the lexeme. -/
def reading : Piece → Word
  | word cs => ⟨.ofWord (String.ofList cs), String.ofList cs⟩
  | digits cs => ⟨.int, String.ofList cs⟩
  | quoted cs => ⟨.string, String.ofList cs⟩
  | mark k => .mark k
  | stray c => ⟨.illegal, String.ofList [c]⟩

/-- If the second lexeme came right after the first, it would not be read as a lexeme of its own. -/
def Fuses : Piece → Piece → Prop
  | word _, word _ | word _, digits _ | digits _, digits _ => True
  | mark .assign, mark k | mark .bang, mark k => k = .assign ∨ k = .equals
  | mark .slash, mark k => k = .slash
  | _, _ => False

/-- The lexeme ends before this text, and does not go on into it. -/
def EndsBefore : Piece → List Char → Prop
  | word _, cs => EndsWord cs
  | digits _, cs => ∀ c ∈ cs.head?, c.isDigit = false
  | mark .assign, cs | mark .bang, cs => cs.head? ≠ some '='
  | mark .slash, cs => cs.head? ≠ some '/'
  | _, _ => True

end Piece

/-- The text in which the lexemes are written one after another, with trivia before, between and
after them.  There may be a lexeme in front of the text, which the first of them must not fuse with
and which, as a slash, would begin a comment with another one. -/
inductive Written : Option Piece → List Piece → List Char → Prop where
  /-- After the last lexeme there are trivia. -/
  | nil {before : Option Piece} {gap : List Char} :
      TrailingTrivia gap → (before = some (.mark .slash) → gap.head? ≠ some '/') →
        Written before [] gap
  /-- At the end of the text the quotation mark after a string may be missing. -/
  | unclosed {before : Option Piece} {gap inside : List Char} :
      Trivia gap → (before = some (.mark .slash) → gap.head? ≠ some '/') → '"' ∉ inside →
        Written before [.quoted inside] (gap ++ '"' :: inside)
  | cons {before : Option Piece} {gap rest : List Char} {p : Piece} {ps : List Piece} :
      Trivia gap → (before = some (.mark .slash) → gap.head? ≠ some '/') →
        (∀ q ∈ before, q.Fuses p → gap ≠ []) → p.IsProper → Written (some p) ps rest →
          Written before (p :: ps) (gap ++ (p.text ++ rest))

/-! ### The first character of a lexeme -/

namespace Piece

variable {p q : Piece} {c : Char} {cs rest : List Char}

/-- The text of a lexeme and what comes after it begin with the first character of the lexeme. -/
theorem head?_text_append (hp : p.IsProper) (rest : List Char) :
    ∃ c, p.text.head? = some c ∧ (p.text ++ rest).head? = some c := by
  cases p with
  | word cs =>
    cases cs with
    | nil => exact absurd hp (by simp [IsProper, isWord])
    | cons c cs => exact ⟨c, rfl, rfl⟩
  | digits cs =>
    cases cs with
    | nil => exact absurd rfl hp.1
    | cons c cs => exact ⟨c, rfl, rfl⟩
  | quoted cs => exact ⟨'"', rfl, rfl⟩
  | mark k =>
    have hne : ∀ k ∈ Kind.marks, k.symbol.toList ≠ [] := by decide
    obtain ⟨c, cs, hcs⟩ := List.exists_cons_of_ne_nil (hne k hp)
    exact ⟨c, by rw [text, hcs]; rfl, by rw [text, hcs]; rfl⟩
  | stray c => exact ⟨c, rfl, rfl⟩

/-- The first character of a lexeme tells its form. -/
theorem cases_of_head? (hp : p.IsProper) (hc : p.text.head? = some c) :
    (∃ cs, p = word cs) ∧ isWordStart c = true ∨ (∃ cs, p = digits cs) ∧ c.isDigit = true ∨
      (∃ cs, p = quoted cs) ∧ c = '"' ∨
        (∃ k ∈ Kind.marks, p = mark k ∧ k.symbol.toList.head? = some c) ∨
          p = stray c ∧ IsStray c := by
  cases p with
  | word cs =>
    obtain ⟨run, rfl⟩ := List.head?_eq_some_iff.mp hc
    exact .inl ⟨⟨_, rfl⟩, (Bool.and_eq_true_iff.mp hp).1⟩
  | digits cs =>
    obtain ⟨run, rfl⟩ := List.head?_eq_some_iff.mp hc
    exact .inr (.inl ⟨⟨_, rfl⟩, hp.2 c List.mem_cons_self⟩)
  | quoted cs =>
    obtain rfl : '"' = c := Option.some.inj hc
    exact .inr (.inr (.inl ⟨⟨cs, rfl⟩, rfl⟩))
  | mark k => exact .inr (.inr (.inr (.inl ⟨k, hp, rfl, hc⟩)))
  | stray d =>
    obtain rfl : d = c := Option.some.inj hc
    exact .inr (.inr (.inr (.inr ⟨rfl, hp⟩)))

/-- No mark begins like a word or a number. -/
theorem isWordChar_of_mark {k : Kind} (hk : k ∈ Kind.marks) (hc : k.symbol.toList.head? = some c) :
    isWordChar c = false := by
  have hall : ∀ k ∈ Kind.marks, k.symbol.toList.head?.map isWordChar = some false := by decide
  have hhead := hall k hk
  rw [hc] at hhead
  exact Option.some.inj hhead

theorem isWordChar_of_isStray (h : IsStray c) : isWordChar c = false := by
  obtain ⟨-, hword, hdigit, -⟩ := h
  simp_all [isWordStart, isWordChar, Char.isAlphanum]

/-- Only words and numbers begin with a character that can continue a word. -/
theorem of_head?_isWordChar (hp : p.IsProper) (hc : p.text.head? = some c)
    (h : isWordChar c = true) : ∃ cs, p = word cs ∨ p = digits cs := by
  rcases cases_of_head? hp hc with ⟨⟨cs, rfl⟩, -⟩ | ⟨⟨cs, rfl⟩, -⟩ | ⟨-, rfl⟩ |
    ⟨k, hk, -, hhead⟩ | ⟨-, hstray⟩
  · exact ⟨cs, .inl rfl⟩
  · exact ⟨cs, .inr rfl⟩
  · exact absurd h (by decide)
  · exact absurd h (by rw [isWordChar_of_mark hk hhead]; decide)
  · exact absurd h (by rw [isWordChar_of_isStray hstray]; decide)

/-- Only numbers begin with a digit. -/
theorem of_head?_isDigit (hp : p.IsProper) (hc : p.text.head? = some c)
    (h : c.isDigit = true) : ∃ cs, p = digits cs := by
  obtain ⟨cs, rfl | rfl⟩ := of_head?_isWordChar hp hc (isWordChar_of_isDigit h)
  · obtain ⟨run, rfl⟩ := List.head?_eq_some_iff.mp hc
    have hstart := (Bool.and_eq_true_iff.mp hp).1
    exact absurd hstart (by rw [isWordStart_of_isDigit h]; decide)
  · exact ⟨cs, rfl⟩

/-- What begins with the first character of a mark is a mark with this first character. -/
theorem of_head?_mark {k : Kind} (hk : k ∈ Kind.marks) (hp : p.IsProper)
    (hc : p.text.head? = some c) (hkc : k.symbol.toList.head? = some c) :
    ∃ l ∈ Kind.marks, p = mark l ∧ l.symbol.toList.head? = some c := by
  have hword := isWordChar_of_mark hk hkc
  rcases cases_of_head? hp hc with ⟨-, hstart⟩ | ⟨-, hdigit⟩ | ⟨-, rfl⟩ | hmark | ⟨-, hstray⟩
  · rw [isWordStart, Bool.or_eq_true] at hstart
    rw [isWordChar, Char.isAlphanum, Bool.or_eq_false_iff, Bool.or_eq_false_iff] at hword
    simp_all
  · exact absurd (isWordChar_of_isDigit hdigit) (by rw [hword]; decide)
  · have hall : ∀ k ∈ Kind.marks, k.symbol.toList.head? ≠ some '"' := by decide
    exact absurd hkc (hall k hk)
  · exact hmark
  · exact absurd hkc (hstray.2.2.2.2 k hk)

theorem of_head?_equals (hp : p.IsProper) (hc : p.text.head? = some '=') :
    p = mark .assign ∨ p = mark .equals := by
  obtain ⟨k, hk, rfl, hhead⟩ := of_head?_mark (k := .assign) (by decide) hp hc (by decide)
  have hall : ∀ k ∈ Kind.marks, k.symbol.toList.head? = some '=' → k = .assign ∨ k = .equals := by
    decide
  exact (hall k hk hhead).imp (congrArg mark) (congrArg mark)

theorem of_head?_slash (hp : p.IsProper) (hc : p.text.head? = some '/') : p = mark .slash := by
  obtain ⟨k, hk, rfl, hhead⟩ := of_head?_mark (k := .slash) (by decide) hp hc (by decide)
  have hall : ∀ k ∈ Kind.marks, k.symbol.toList.head? = some '/' → k = .slash := by decide
  exact congrArg mark (hall k hk hhead)

/-! ### Where a lexeme ends -/

/-- A lexeme ends where the text ends. -/
theorem endsBefore_nil (p : Piece) : p.EndsBefore [] := by
  unfold EndsBefore
  split <;> simp

/-- A lexeme ends before a string. -/
theorem endsBefore_quote (p : Piece) (cs : List Char) : p.EndsBefore ('"' :: cs) := by
  unfold EndsBefore
  split
  · exact endsWord_cons.mpr (by decide)
  · intro c hc
    obtain rfl : '"' = c := Option.some.inj hc
    decide
  all_goals simp

/-- A lexeme ends before another one that it does not fuse with. -/
theorem endsBefore_text (hq : q.IsProper) (h : ¬ p.Fuses q) (rest : List Char) :
    p.EndsBefore (q.text ++ rest) := by
  obtain ⟨c, hc, hhead⟩ := head?_text_append hq rest
  unfold EndsBefore
  split
  · intro d hd
    obtain rfl : c = d := Option.some.inj (hhead.symm.trans hd)
    rw [Bool.eq_false_iff]
    intro hword
    obtain ⟨cs, rfl | rfl⟩ := of_head?_isWordChar hq hc hword
    · exact h trivial
    · exact h trivial
  · intro d hd
    obtain rfl : c = d := Option.some.inj (hhead.symm.trans hd)
    rw [Bool.eq_false_iff]
    intro hdigit
    obtain ⟨cs, rfl⟩ := of_head?_isDigit hq hc hdigit
    exact h trivial
  · rw [hhead, ← hc]
    intro heq
    rcases of_head?_equals hq heq with rfl | rfl
    · exact h (.inl rfl)
    · exact h (.inr rfl)
  · rw [hhead, ← hc]
    intro heq
    rcases of_head?_equals hq heq with rfl | rfl
    · exact h (.inl rfl)
    · exact h (.inr rfl)
  · rw [hhead, ← hc]
    intro hslash
    obtain rfl := of_head?_slash hq hslash
    exact h rfl
  · trivial

/-- No blank continues a word, or an operator. -/
theorem not_isBlank_of_continues (h : isWordChar c = true ∨ c = '=' ∨ c = '/') :
    isBlank c = false := by
  rcases h with h | rfl | rfl
  · rw [isWordChar, Char.isAlphanum, Bool.or_right_comm, Bool.or_eq_true] at h
    rcases h with h | h
    · have hnat := toNat_of_isWordStart h
      exact not_isBlank_of_lt (by omega) (by omega)
    · have hnat := toNat_of_isDigit h
      exact not_isBlank_of_lt (by omega) (by omega)
  · decide
  · decide

/-- A lexeme ends before a blank or a comment, only after a slash no comment can begin. -/
theorem endsBefore_of_beginsTrivia (h : BeginsTrivia cs)
    (hslash : p = mark .slash → cs.head? ≠ some '/') : p.EndsBefore cs := by
  rcases cs with _ | ⟨c, cs⟩
  · exact h.elim
  · have hcases : isBlank c = true ∨ c = '/' := h.imp id And.left
    have hcontinues : ¬ isWordChar c = true ∧ c ≠ '=' := by
      rcases hcases with hblank | rfl
      · exact ⟨fun hc => by simp [not_isBlank_of_continues (.inl hc)] at hblank,
          fun hc => by simp [not_isBlank_of_continues (.inr (.inl hc))] at hblank⟩
      · decide
    unfold EndsBefore
    split
    · exact endsWord_cons.mpr (Bool.eq_false_iff.mpr hcontinues.1)
    · intro d hd
      obtain rfl : c = d := Option.some.inj hd
      exact Bool.eq_false_iff.mpr fun hdigit => hcontinues.1 (isWordChar_of_isDigit hdigit)
    · exact fun heq => hcontinues.2 (Option.some.inj heq)
    · exact fun heq => hcontinues.2 (Option.some.inj heq)
    · exact hslash rfl
    · trivial

/-! ### A lexeme is read back -/

/-- Every mark of one character is the mark of this character. -/
theorem mark_cases {k : Kind} (hk : k ∈ Kind.marks) :
    k = .equals ∨ k = .notEquals ∨ ∃ c, k.symbol.toList = [c] ∧ Kind.ofMark c = k := by
  have hall : ∀ k ∈ Kind.marks,
      k = .equals ∨ k = .notEquals ∨ k.symbol.toList.map Kind.ofMark = [k] := by decide
  refine (hall k hk).imp id (Or.imp id fun h => ?_)
  obtain ⟨c, hc, hk⟩ := List.map_eq_singleton_iff.mp h
  exact ⟨c, hc, hk⟩

theorem textWords_mark_append {k : Kind} (hk : k ∈ Kind.marks) (h : (mark k).EndsBefore rest) :
    textWords (k.symbol.toList ++ rest) = .mark k :: textWords rest := by
  rcases mark_cases hk with rfl | rfl | ⟨c, hc, rfl⟩
  · exact (textWords_comparison rest).1
  · exact (textWords_comparison rest).2
  · have hne : Kind.ofMark c ≠ .illegal := by
      have hall : ∀ k ∈ Kind.marks, k ≠ .illegal := by decide
      exact hall _ hk
    rw [hc, List.singleton_append]
    refine textWords_mark hne ?_ ?_
    · rintro (rfl | rfl)
      · exact h
      · exact h
    · rintro rfl
      exact h

/-- A character is a mark of its own, or is no mark. -/
theorem ofMark_cases (c : Char) : Kind.ofMark c = .illegal ∨
    Kind.ofMark c ∈ Kind.marks ∧ (Kind.ofMark c).symbol.toList.head? = some c := by
  unfold Kind.ofMark
  split <;> first | exact .inl rfl | exact .inr (by decide)

/-- A character that begins nothing else is read alone. -/
theorem textWords_stray (hc : IsStray c) (cs : List Char) :
    textWords (c :: cs) = ⟨.illegal, String.ofList [c]⟩ :: textWords cs := by
  obtain ⟨hblank, hword, hdigit, hquote, hmarks⟩ := hc
  have hassign : c ≠ '=' := fun h => hmarks .assign (by decide) (by rw [h]; decide)
  have hbang : c ≠ '!' := fun h => hmarks .bang (by decide) (by rw [h]; decide)
  have hslash : c ≠ '/' := fun h => hmarks .slash (by decide) (by rw [h]; decide)
  have hkind : Kind.ofMark c = .illegal := by
    rcases ofMark_cases c with h | ⟨hmem, hhead⟩
    · exact h
    · exact absurd hhead (hmarks _ hmem)
  have hread : readLexeme c cs = (.plain .illegal [c], cs) := by
    rw [readLexeme, if_neg (by rw [hword]; decide), if_neg (by rw [hdigit]; decide), if_neg hquote]
    unfold readMark
    split
    · exact absurd rfl hassign
    · exact absurd rfl hbang
    · rw [hkind]
  exact textWords_lexeme hblank (fun h => absurd h hslash) hread

/-- A lexeme is read as it was meant where it can end. -/
theorem textWords_append (hp : p.IsProper) (h : p.EndsBefore rest) :
    textWords (p.text ++ rest) = p.reading :: textWords rest := by
  cases p with
  | word cs => exact textWords_word hp h
  | digits cs => exact textWords_digits_of_head hp.1 hp.2 h
  | quoted cs =>
    rw [text, List.append_assoc]
    exact textWords_string hp rest
  | mark k => exact textWords_mark_append hp h
  | stray c => exact textWords_stray hp rest

end Piece

/-! ### A text is read back -/

/-- Trivia make no words. -/
theorem Trivia.textWords_append {gap : List Char} (h : Trivia gap) (cs : List Char) :
    textWords (gap ++ cs) = textWords cs :=
  textWords_congr (by rw [h.splitTrivia_append])

theorem TrailingTrivia.textWords_eq {gap : List Char} (h : TrailingTrivia gap) :
    textWords gap = [] :=
  textWords_of_nil (by rw [h.splitTrivia_eq])

/-- A string to the end of the text. -/
theorem textWords_unclosed {inside : List Char} (h : '"' ∉ inside) :
    textWords ('"' :: inside) = [⟨.string, String.ofList inside⟩] := by
  have hend : ∀ c ∈ ([] : List Char).head?, c = '"' := by simp
  obtain ⟨htake, hdrop⟩ := takeWhile_inside h hend
  rw [List.append_nil] at htake hdrop
  have hread : readLexeme '"' inside = (⟨.string, inside, '"' :: inside⟩, []) := by
    rw [readLexeme, if_neg (by decide), if_neg (by decide), if_pos rfl, readString, htake, hdrop]
  rw [textWords_lexeme (by decide) (by simp) hread, textWords_nil]
  rfl

/-- A lexeme ends where a text begins that may be written after it. -/
theorem Written.endsBefore {p : Piece} {ps : List Piece} {cs : List Char}
    (h : Written (some p) ps cs) : p.EndsBefore cs := by
  cases h with
  | nil hgap hslash =>
    by_cases hne : cs = []
    · rw [hne]
      exact p.endsBefore_nil
    · exact Piece.endsBefore_of_beginsTrivia (hgap.begins hne) fun hp => hslash (congrArg some hp)
  | @unclosed _ gap inside hgap hslash _ =>
    cases gap with
    | nil => exact p.endsBefore_quote inside
    | cons c gap =>
      exact Piece.endsBefore_of_beginsTrivia (hgap.begins (by simp))
        fun hp => hslash (congrArg some hp)
  | @cons _ gap rest q ps hgap hslash hfuses hq _ =>
    cases gap with
    | nil => exact Piece.endsBefore_text hq (fun h => hfuses p rfl h rfl) rest
    | cons c gap =>
      exact Piece.endsBefore_of_beginsTrivia (hgap.begins (by simp))
        fun hp => hslash (congrArg some hp)

/-- The words of a text are the lexemes that are written in it. -/
theorem Written.textWords_eq {before : Option Piece} {ps : List Piece} {cs : List Char}
    (h : Written before ps cs) : textWords cs = ps.map Piece.reading := by
  induction h with
  | nil hgap _ => exact hgap.textWords_eq
  | unclosed hgap _ hinside =>
    rw [hgap.textWords_append, textWords_unclosed hinside]
    rfl
  | cons hgap _ _ hp hrest ih =>
    rw [hgap.textWords_append, Piece.textWords_append hp hrest.endsBefore, ih, List.map_cons]

/-- A text is read as it was written: its tokens have the kinds and the values of the lexemes, and
then comes the end. -/
theorem tokenize_written {ps : List Piece} {source : String} (h : Written none ps source.toList)
    (file : String) :
    (tokenize source file).map (fun t => Word.mk t.kind t.value) =
      ps.map Piece.reading ++ [.mark .eof] := by
  rw [← h.textWords_eq]
  exact Scanner.map_tokens _

/-- Lexemes that touch, a comment, and a string that is still open at the end of the text. -/
theorem tokenize_written_open :
    Written none [.word ['i', 'f', 's'], .mark .equals, .mark .bang, .mark .slash, .stray 'é',
        .digits ['1'], .word ['i', 'f'], .quoted ['q', '/']] "ifs==!/é 1if//\n\"q/".toList ∧
      (tokenize "ifs==!/é 1if//\n\"q/" "shell").map (fun t => Word.mk t.kind t.value) =
        [⟨.ident, "ifs"⟩, .mark .equals, .mark .bang, .mark .slash, ⟨.illegal, "é"⟩, ⟨.int, "1"⟩,
          .mark .ifWord, ⟨.string, "q/"⟩, .mark .eof] := by
  have hwritten : Written none [.word ['i', 'f', 's'], .mark .equals, .mark .bang, .mark .slash,
      .stray 'é', .digits ['1'], .word ['i', 'f'], .quoted ['q', '/']]
      "ifs==!/é 1if//\n\"q/".toList := by
    refine @Written.cons _ [] _ _ _ .nil ?_ ?_ ?_ (@Written.cons _ [] _ _ _ .nil ?_ ?_ ?_
      (@Written.cons _ [] _ _ _ .nil ?_ ?_ ?_ (@Written.cons _ [] _ _ _ .nil ?_ ?_ ?_
        (@Written.cons _ [] _ _ _ .nil ?_ ?_ ?_
          (@Written.cons _ [' '] _ _ _ (.blank ?_ .nil) ?_ ?_ ?_
            (@Written.cons _ [] _ _ _ .nil ?_ ?_ ?_
              (@Written.unclosed _ ['/', '/', '\n'] _ (@Trivia.comment [] [] ?_ .nil) ?_ ?_)))))))
    all_goals simp +decide [Piece.Fuses]
  exact ⟨hwritten, (tokenize_written hwritten "shell").trans (by decide)⟩

end ExprLang
