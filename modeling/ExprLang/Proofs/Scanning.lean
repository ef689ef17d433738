import ExprLang.Proofs.Passing

/-!
# The words of a text

The scanner gives the tokens of a text one by one, with the places where they stand.  For what the
parser makes of them only their words matter, and these depend on nothing but the characters.  So
the words of a text can be told piece by piece: a word, a number, a quoted string or a mark at the
start of a text is the first word, and the rest of the text has the other words.

## Main definitions

* `textWords` — the words of a text.
* `IsName` — the names that are no reserved words.
* `EndsWord` — texts before which a word or a number comes to its end.
* `Word.Proper` — words as the scanner gives them.

## Main results

* `textWords_word`, `textWords_digits`, `textWords_string`, `textWords_mark` — what begins a text
  gives its first word.
* `Scanner.map_tokens` — the tokens of a text are its words, and the end.
* `Scanner.passes_words` — from the start of a text to its end, its words are passed.
-/

namespace ExprLang

open Text

/-! ### The words of a text -/

/-- What remains of a lexeme when its place does not matter. -/
def Lexeme.word (l : Lexeme) : Word := ⟨l.kind, String.ofList l.value⟩

/-- The words of a text. -/
def textWords (cs : List Char) : List Word :=
  match h : (splitTrivia false cs).2 with
  | [] => []
  | c :: rest =>
    have : (readLexeme c rest).2.length < cs.length := by
      have hle := length_splitTrivia_le false cs
      rw [h] at hle
      exact Nat.lt_of_lt_of_le (length_readLexeme_lt c rest) hle
    (readLexeme c rest).1.word :: textWords (readLexeme c rest).2
termination_by cs.length

theorem textWords_of_nil {cs : List Char} (h : (splitTrivia false cs).2 = []) :
    textWords cs = [] := by
  rw [textWords]
  split
  · rfl
  · next c rest hcons => simp [hcons] at h

theorem textWords_of_cons {c : Char} {cs rest : List Char}
    (h : (splitTrivia false cs).2 = c :: rest) :
    textWords cs = (readLexeme c rest).1.word :: textWords (readLexeme c rest).2 := by
  rw [textWords]
  split
  · next hnil => simp [hnil] at h
  · next c' rest' hcons =>
    obtain ⟨rfl, rfl⟩ := List.cons.inj (h.symm.trans hcons)
    rfl

@[simp] theorem textWords_nil : textWords [] = [] := textWords_of_nil rfl

/-- The words of a text depend only on what comes after the trivia that it begins with. -/
theorem textWords_congr {cs ds : List Char}
    (h : (splitTrivia false cs).2 = (splitTrivia false ds).2) : textWords cs = textWords ds := by
  cases hd : (splitTrivia false ds).2 with
  | nil => rw [textWords_of_nil (h.trans hd), textWords_of_nil hd]
  | cons d rest => rw [textWords_of_cons (h.trans hd), textWords_of_cons hd]

/-- Blanks make no words. -/
theorem textWords_blank {c : Char} (hc : isBlank c = true) (cs : List Char) :
    textWords (c :: cs) = textWords cs :=
  textWords_congr (by simp [splitTrivia, hc])

@[simp] theorem textWords_space (cs : List Char) : textWords (' ' :: cs) = textWords cs :=
  textWords_blank (by decide) cs

/-- Where neither a blank nor a comment begins, a lexeme does. -/
theorem textWords_lexeme {c : Char} {cs rest : List Char} {l : Lexeme} (hb : isBlank c = false)
    (hc : c = '/' → cs.head? ≠ some '/') (h : readLexeme c cs = (l, rest)) :
    textWords (c :: cs) = l.word :: textWords rest := by
  have hstop : (splitTrivia false (c :: cs)).2 = c :: cs := by
    rw [splitTrivia, if_neg (by simp [hb]), if_neg fun hslash => hc hslash.1 hslash.2]
  rw [textWords_of_cons hstop, h]

/-! ### Words and numbers -/

/-- A letter or an underscore, and then letters, digits and underscores. -/
def isWord : List Char → Bool
  | [] => false
  | c :: cs => isWordStart c && cs.all isWordChar

/-- A word that is not reserved. -/
def IsName (name : String) : Prop :=
  isWord name.toList = true ∧ name ∉ Kind.reservedWords.map (·.1)

instance (name : String) : Decidable (IsName name) := inferInstanceAs (Decidable (_ ∧ _))

/-- Neither a word nor a number goes on into this text. -/
def EndsWord (cs : List Char) : Prop := ∀ c ∈ cs.head?, isWordChar c = false

@[simp] theorem endsWord_nil : EndsWord [] := by simp [EndsWord]

@[simp] theorem endsWord_cons {c : Char} {cs : List Char} :
    EndsWord (c :: cs) ↔ isWordChar c = false := by simp [EndsWord]

/-- A run of characters that does not go on into the text after it. -/
theorem takeWhile_run {p : Char → Bool} {run cs : List Char} (hrun : ∀ c ∈ run, p c = true)
    (hcs : ∀ c ∈ cs.head?, p c = false) :
    (run ++ cs).takeWhile p = run ∧ (run ++ cs).dropWhile p = cs := by
  rw [List.takeWhile_append_of_pos hrun, List.dropWhile_append_of_pos hrun]
  cases cs with
  | nil => simp
  | cons c cs =>
    have hc := hcs c rfl
    simp [hc]

theorem isWordChar_of_isDigit {c : Char} (h : c.isDigit = true) : isWordChar c = true := by
  simp [isWordChar, Char.isAlphanum, h]

/-- Letters and underscores are found between `A` and `z`. -/
theorem toNat_of_isWordStart {c : Char} (h : isWordStart c = true) :
    0x41 ≤ c.toNat ∧ c.toNat ≤ 0x7a := by
  rw [isWordStart, Bool.or_eq_true, beq_iff_eq] at h
  rcases h with h | rfl
  · change (decide ('A'.val ≤ c.val ∧ c.val ≤ 'Z'.val) ||
      (decide ('a'.val ≤ c.val) && decide (c.val ≤ 'z'.val))) = true at h
    simp only [Bool.or_eq_true, Bool.and_eq_true, decide_eq_true_eq,
      UInt32.le_iff_toNat_le] at h
    change 0x41 ≤ c.toNat ∧ c.toNat ≤ 0x5a ∨ 0x61 ≤ c.toNat ∧ c.toNat ≤ 0x7a at h
    omega
  · decide

/-- Digits are found between `0` and `9`. -/
theorem toNat_of_isDigit {c : Char} (h : c.isDigit = true) : 0x30 ≤ c.toNat ∧ c.toNat ≤ 0x39 := by
  simp only [Char.isDigit, Bool.and_eq_true, decide_eq_true_eq, UInt32.le_iff_toNat_le,
    ge_iff_le] at h
  exact h

theorem isWordStart_of_isDigit {c : Char} (h : c.isDigit = true) : isWordStart c = false := by
  have hdigit := toNat_of_isDigit h
  rw [Bool.eq_false_iff]
  intro hc
  have hstart := toNat_of_isWordStart hc
  omega

/-- A word that does not go on into the rest of the text. -/
theorem textWords_word {word cs : List Char} (hw : isWord word = true) (hcs : EndsWord cs) :
    textWords (word ++ cs) =
      ⟨Kind.ofWord (String.ofList word), String.ofList word⟩ :: textWords cs := by
  cases word with
  | nil => simp [isWord] at hw
  | cons c run =>
    obtain ⟨hc, hrun⟩ := Bool.and_eq_true_iff.mp hw
    obtain ⟨htake, hdrop⟩ := takeWhile_run (List.all_eq_true.mp hrun) hcs
    have hnat := toNat_of_isWordStart hc
    have hread : readLexeme c (run ++ cs) =
        (.plain (.ofWord (String.ofList (c :: run))) (c :: run), cs) := by
      rw [readLexeme, if_pos hc, readWord, htake, hdrop]
    refine textWords_lexeme (not_isBlank_of_lt (by omega) (by omega)) ?_ hread
    rintro rfl
    simp at hnat

/-- A run of digits that does not go on into the rest of the text.  A letter may come next. -/
theorem textWords_digits_of_head {digits cs : List Char} (hne : digits ≠ [])
    (hdigits : ∀ c ∈ digits, c.isDigit = true) (hcs : ∀ c ∈ cs.head?, c.isDigit = false) :
    textWords (digits ++ cs) = ⟨.int, String.ofList digits⟩ :: textWords cs := by
  cases digits with
  | nil => exact absurd rfl hne
  | cons c run =>
    obtain ⟨hc, hrun⟩ := List.forall_mem_cons.mp hdigits
    obtain ⟨htake, hdrop⟩ := takeWhile_run hrun hcs
    have hnat := toNat_of_isDigit hc
    have hread : readLexeme c (run ++ cs) = (.plain .int (c :: run), cs) := by
      rw [readLexeme, if_neg (by rw [isWordStart_of_isDigit hc]; decide), if_pos hc, readDigits,
        htake, hdrop]
    refine textWords_lexeme (not_isBlank_of_lt (by omega) (by omega)) ?_ hread
    rintro rfl
    simp at hnat

/-- A run of digits where neither a word nor a number goes on. -/
theorem textWords_digits {digits cs : List Char} (hne : digits ≠ [])
    (hdigits : ∀ c ∈ digits, c.isDigit = true) (hcs : EndsWord cs) :
    textWords (digits ++ cs) = ⟨.int, String.ofList digits⟩ :: textWords cs := by
  refine textWords_digits_of_head hne hdigits fun c hc => ?_
  rw [Bool.eq_false_iff]
  intro hdigit
  exact absurd (isWordChar_of_isDigit hdigit) (by rw [hcs c hc]; decide)

/-! ### Strings -/

/-- The characters inside a string are those up to the next quotation mark, or up to the end. -/
theorem takeWhile_inside {inside cs : List Char} (h : '"' ∉ inside)
    (hcs : ∀ c ∈ cs.head?, c = '"') :
    (inside ++ cs).takeWhile (· != '"') = inside ∧ (inside ++ cs).dropWhile (· != '"') = cs := by
  apply takeWhile_run
  · intro c hc
    rw [bne_iff_ne]
    rintro rfl
    exact h hc
  · intro c hc
    rw [hcs c hc]
    rfl

/-- A string between two quotation marks. -/
theorem textWords_string {inside : List Char} (h : '"' ∉ inside) (cs : List Char) :
    textWords ('"' :: inside ++ '"' :: cs) = ⟨.string, String.ofList inside⟩ :: textWords cs := by
  have hquote : ∀ c ∈ ('"' :: cs).head?, c = '"' := by simp
  obtain ⟨htake, hdrop⟩ := takeWhile_inside h hquote
  have hread : readLexeme '"' (inside ++ '"' :: cs) =
      (⟨.string, inside, '"' :: inside ++ ['"']⟩, cs) := by
    rw [readLexeme, if_neg (by decide), if_neg (by decide), if_pos rfl, readString, htake, hdrop]
  exact textWords_lexeme (by decide) (by simp) hread

/-! ### Operators and marks -/

/-- The character of an operator or a mark begins nothing else. -/
theorem ofMark_ne_illegal {c : Char} (hc : Kind.ofMark c ≠ .illegal) :
    isBlank c = false ∧ isWordStart c = false ∧ c.isDigit = false ∧ c ≠ '"' ∧
      (Lexeme.plain (Kind.ofMark c) [c]).word = .mark (Kind.ofMark c) := by
  unfold Kind.ofMark at hc ⊢
  split at hc <;> first | decide | exact absurd rfl hc

/-- An operator or a mark of one character, which is not part of a longer one and begins no
comment. -/
theorem textWords_mark {c : Char} {cs : List Char} (hc : Kind.ofMark c ≠ .illegal)
    (heq : c = '=' ∨ c = '!' → cs.head? ≠ some '=') (hslash : c = '/' → cs.head? ≠ some '/') :
    textWords (c :: cs) = .mark (Kind.ofMark c) :: textWords cs := by
  obtain ⟨hb, hw, hd, hq, hword⟩ := ofMark_ne_illegal hc
  have hread : readLexeme c cs = (.plain (.ofMark c) [c], cs) := by
    rw [readLexeme, if_neg (by rw [hw]; decide), if_neg (by rw [hd]; decide), if_neg hq]
    unfold readMark
    split
    · exact absurd rfl (heq (.inl rfl))
    · exact absurd rfl (heq (.inr rfl))
    · rfl
  rw [textWords_lexeme hb hslash hread, hword]

/-- An operator of two characters. -/
theorem textWords_comparison (cs : List Char) :
    textWords ('=' :: '=' :: cs) = .mark .equals :: textWords cs ∧
      textWords ('!' :: '=' :: cs) = .mark .notEquals :: textWords cs :=
  ⟨textWords_lexeme (by decide) (by simp) rfl, textWords_lexeme (by decide) (by simp) rfl⟩

/-! ### Words as the scanner gives them -/

/-- A word has a text of its kind: a name if it is one, digits for a number, no quotation mark in a
string, and else the text that all words of the kind have. -/
def Word.Proper (w : Word) : Prop :=
  match w.kind with
  | .ident => IsName w.text
  | .int => w.text.toList ≠ [] ∧ ∀ c ∈ w.text.toList, c.isDigit = true
  | .string => '"' ∉ w.text.toList
  | .illegal => True
  | k => k.text? = some w.text

theorem Word.proper_of_text? {k : Kind} {text : String} (h : k.text? = some text) :
    Word.Proper ⟨k, text⟩ := by
  cases k <;> simp_all [Proper, Kind.text?]

theorem Word.Proper.text_eq {w : Word} (h : w.Proper) {text : String}
    (ht : w.kind.text? = some text) : w.text = text := by
  rcases w with ⟨k, own⟩
  cases k <;> simp_all [Proper, Kind.text?]

theorem Kind.proper_ofWord {word : String} (h : isWord word.toList = true) :
    Word.Proper ⟨Kind.ofWord word, word⟩ := by
  rcases Kind.ofWord_cases word with ⟨hk, hnone⟩ | hmem
  · rw [hk]
    refine ⟨h, ?_⟩
    intro hmem
    obtain ⟨p, hp, rfl⟩ := List.mem_map.mp hmem
    have := List.lookup_eq_none_iff.mp hnone p hp
    simp at this
  · -- every entry of the table has the text of its kind
    have hall : ∀ p ∈ Kind.reservedWords, p.2.text? = some p.1 := by decide
    exact Word.proper_of_text? (hall _ hmem)

theorem Kind.proper_ofMark (c : Char) : Word.Proper ⟨Kind.ofMark c, String.ofList [c]⟩ := by
  unfold Kind.ofMark
  split <;> first | exact Word.proper_of_text? (by decide) | exact trivial

/-- A lexeme gives a proper word. -/
theorem Lexeme.proper_word (c : Char) (cs : List Char) : (readLexeme c cs).1.word.Proper := by
  unfold readLexeme
  split
  · next hc =>
    refine Kind.proper_ofWord ?_
    rw [String.toList_ofList, isWord, hc]
    exact List.all_takeWhile
  · split
    · next hd =>
      refine ⟨by simp [Lexeme.word, readDigits, Lexeme.plain], ?_⟩
      intro d hmem
      simp only [Lexeme.word, readDigits, Lexeme.plain, String.toList_ofList] at hmem
      rcases List.mem_cons.mp hmem with rfl | hmem
      · exact hd
      · exact List.all_eq_true.mp List.all_takeWhile d hmem
    · split
      · have hinside : '"' ∉ cs.takeWhile (· != '"') := by
          intro hmem
          have := List.all_eq_true.mp List.all_takeWhile _ hmem
          simp at this
        unfold readString
        split <;> simpa [Lexeme.word, Word.Proper] using hinside
      · unfold readMark
        split
        · exact Word.proper_of_text? rfl
        · exact Word.proper_of_text? rfl
        · exact Kind.proper_ofMark _

/-- The words of a text are proper. -/
theorem proper_of_mem_textWords {cs : List Char} {w : Word} (h : w ∈ textWords cs) :
    w.Proper := by
  fun_induction textWords cs with
  | case1 cs hnil => simp at h
  | case2 cs c rest hcons hlt ih =>
    rcases List.mem_cons.mp h with rfl | h
    · exact Lexeme.proper_word c rest
    · exact ih h

/-! ### Tokens and words -/

namespace Scanner

/-- The next token of a scanner is the first word of what it has left, or else the end. -/
theorem next_cases (sc : Scanner) :
    (textWords sc.rest = [] ∧ sc.next.1.kind = .eof ∧ sc.next.1.value = "") ∨
      (sc.next.1.kind ≠ .eof ∧ textWords sc.rest =
        ⟨sc.next.1.kind, sc.next.1.value⟩ :: textWords sc.next.2.rest) := by
  cases h : (splitTrivia false sc.rest).2 with
  | nil =>
    have hnext : sc.next = (.eof sc.skipTrivia.position, sc.skipTrivia) := by
      rw [next, show sc.skipTrivia.rest = [] from h]
    exact .inl (by rw [hnext]; exact ⟨textWords_of_nil h, rfl, rfl⟩)
  | cons c cs =>
    have hnext : sc.next = sc.skipTrivia.readToken c cs := by
      rw [next, show sc.skipTrivia.rest = c :: cs from h]
    exact .inr (by rw [hnext]; exact ⟨Lexeme.kind_ne_eof c cs, textWords_of_cons h⟩)

/-- The tokens of a text are its words, and then the end. -/
theorem map_tokens (sc : Scanner) :
    sc.tokens.map (fun t => Word.mk t.kind t.value) = textWords sc.rest ++ [.mark .eof] := by
  fun_induction tokens sc with
  | case1 sc h =>
    rcases sc.next_cases with ⟨hws, -, hv⟩ | ⟨hk, -⟩
    · rw [hws, List.map_singleton, h, hv]
      rfl
    · exact absurd h hk
  | case2 sc h hlt ih =>
    rcases sc.next_cases with ⟨-, hk, -⟩ | ⟨-, hws⟩
    · exact absurd hk h
    · rw [List.map_cons, ih, hws, List.cons_append]

/-- From where a scanner stands to the end, the words of what it has left are passed. -/
theorem passes_words (sc : Scanner) :
    ∃ d, (State.ofSource (.text sc)).Passes (textWords sc.rest) d ∧ d.current.kind = .eof := by
  fun_induction tokens sc with
  | case1 sc h =>
    rcases sc.next_cases with ⟨hws, -, -⟩ | ⟨hk, -⟩
    · exact ⟨State.ofSource (.text sc), by rw [hws]; rfl, h⟩
    · exact absurd h hk
  | case2 sc h hlt ih =>
    rcases sc.next_cases with ⟨-, hk, -⟩ | ⟨-, hws⟩
    · exact absurd hk h
    · obtain ⟨d, hd, heof⟩ := ih
      rw [hws]
      refine ⟨d, State.passes_cons.mpr ⟨h, Token.word_eq fun text ht => ?_, hd⟩, heof⟩
      have hproper := proper_of_mem_textWords (hws ▸ List.mem_cons_self)
      exact hproper.text_eq ht

end Scanner

end ExprLang
