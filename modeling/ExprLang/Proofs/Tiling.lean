import ExprLang.Proofs.Trivia
import ExprLang.Token.Scanner
import Mathlib.Data.List.Chain

/-!
# Tokens tile the text

The tokens of a text stand in it one after another.  Each covers some whole characters of the text,
which are its value, or for a string its value between quotation marks.  Between two tokens, before
the first and after the last, there are only blanks and comments.  So every character of the text is
either in just one token or in trivia, and the scanner stops only between characters.

## Main definitions

* `Span.Covers` — the characters of a text that stand in a stretch of it.
* `Token.Shows` — the characters that a token with this value covers.
* `Scanner.StandsAfter` — how far a scanner has come in a text.

## Main results

* `Scanner.next_standsAfter` — one token, and the trivia before it.
* `tokenize_tiles` — the tokens of a text tile it.
-/

namespace ExprLang

open Text

/-! ### Stretches of a text -/

/-- In `text` the characters `inside` stand just in the stretch `s`, and `after` comes after them.
So both ends of the stretch are between characters. -/
def Span.Covers (s : Span) (text inside after : List Char) : Prop :=
  ∃ before, text = before ++ inside ++ after ∧ s.start.offset.toNat = byteSize before ∧
    s.stop.offset.toNat = byteSize before + byteSize inside

theorem Span.Covers.start_lt_stop {s : Span} {text inside after : List Char}
    (h : s.Covers text inside after) (hne : inside ≠ []) :
    s.start.offset.toNat < s.stop.offset.toNat := by
  obtain ⟨before, -, hstart, hstop⟩ := h
  have hpos := List.length_pos_iff.mpr hne
  have hle := length_le_byteSize inside
  omega

/-- The characters that a token with this value covers, if `after` comes after them.  A string has
quotation marks around its value.  The closing one is missing only where the text ends. -/
def Token.Shows (t : Token) (inside after : List Char) : Prop :=
  if t.kind = .string then
    inside = '"' :: t.value.toList ++ ['"'] ∨ inside = '"' :: t.value.toList ∧ after = []
  else inside = t.value.toList

/-- Between two tokens, or what stands for tokens at the ends of a text, there are only trivia. -/
def Token.Adjoins (text : List Char) (t u : Token) : Prop :=
  ∃ gap after, Span.Covers ⟨t.span.stop, u.span.start⟩ text gap after ∧
    (Trivia gap ∨ after = [] ∧ TrailingTrivia gap)

/-! ### What a lexeme covers -/

/-- What a string covers. -/
theorem readString_text (cs : List Char) :
    (readString cs).1.text = '"' :: (readString cs).1.value ++ ['"'] ∨
      (readString cs).1.text = '"' :: (readString cs).1.value ∧ (readString cs).2 = [] := by
  unfold readString
  split
  · exact .inr ⟨rfl, rfl⟩
  · next q rest hdrop =>
    -- the string goes on to the next quotation mark
    have hq : q = '"' := by
      have hhead := List.head?_dropWhile_not (· != '"') cs
      rw [hdrop] at hhead
      simpa using hhead
    subst hq
    exact .inl rfl

theorem Kind.ofWord_ne_string (word : String) : Kind.ofWord word ≠ .string := by
  rcases Kind.ofWord_cases word with ⟨h, -⟩ | hmem
  · simp [h]
  · have hall : ∀ p ∈ Kind.reservedWords, p.2 ≠ .string := by decide
    exact hall _ hmem

theorem Kind.ofMark_ne_string (c : Char) : Kind.ofMark c ≠ .string := by
  unfold Kind.ofMark
  split <;> simp

/-- A lexeme is a string with its quotation marks, or it covers just its value. -/
theorem readLexeme_cases (c : Char) (cs : List Char) :
    c = '"' ∧ readLexeme c cs = readString cs ∨
      (readLexeme c cs).1.kind ≠ .string ∧
        (readLexeme c cs).1.text = (readLexeme c cs).1.value := by
  unfold readLexeme
  split
  · exact .inr ⟨Kind.ofWord_ne_string _, rfl⟩
  · split
    · exact .inr ⟨by simp [readDigits, Lexeme.plain], rfl⟩
    · split
      · next hq => exact .inl ⟨hq, rfl⟩
      · right
        unfold readMark
        split
        · exact ⟨by simp [Lexeme.plain], rfl⟩
        · exact ⟨by simp [Lexeme.plain], rfl⟩
        · exact ⟨Kind.ofMark_ne_string _, rfl⟩

theorem kind_readString (cs : List Char) : (readString cs).1.kind = .string := by
  unfold readString
  split <;> rfl

namespace Scanner

/-! ### One token -/

/-- The scanner has read just the characters `before` of the text. -/
structure StandsAfter (sc : Scanner) (text before : List Char) : Prop where
  text_eq : text = before ++ sc.rest
  offset_eq : sc.offset = byteSize before

theorem standsAfter_ofSource (source file : String) :
    (ofSource source file).StandsAfter source.toList [] := ⟨rfl, rfl⟩

/-- Places in a text of less than `2 ^ 32` bytes remember how many bytes come before them. -/
theorem toNat_offset_at_of_prefix {text before : List Char} (hsize : byteSize text < UInt32.size)
    (h : before <+: text) (file : String) :
    (Position.at (byteSize before) file).offset.toNat = byteSize before := by
  obtain ⟨after, rfl⟩ := h
  rw [byteSize_append] at hsize
  exact Position.toNat_offset_at file (by omega)

variable {sc : Scanner} {text before : List Char}

/-- The trivia that a scanner stands at, and the text after them. -/
theorem StandsAfter.skipTrivia (h : sc.StandsAfter text before) :
    ∃ gap, sc.skipTrivia.StandsAfter text (before ++ gap) ∧
      (Trivia gap ∨ sc.skipTrivia.rest = [] ∧ TrailingTrivia gap) := by
  refine ⟨(splitTrivia false sc.rest).1, ⟨?_, ?_⟩, splitTrivia_cases sc.rest⟩
  · rw [List.append_assoc]
    show text = before ++ ((splitTrivia false sc.rest).1 ++ (splitTrivia false sc.rest).2)
    rw [splitTrivia_append]
    exact h.text_eq
  · rw [byteSize_append, ← h.offset_eq]
    rfl

/-- A lexeme that a scanner stands at is read as a token that covers it. -/
theorem StandsAfter.readToken (h : sc.StandsAfter text before) {c : Char} {cs : List Char}
    (hrest : sc.rest = c :: cs) :
    ∃ inside, inside ≠ [] ∧ (sc.readToken c cs).2.StandsAfter text (before ++ inside) ∧
      (sc.readToken c cs).1.span =
        ⟨.at (byteSize before) sc.file, .at (byteSize (before ++ inside)) sc.file⟩ ∧
      (sc.readToken c cs).1.Shows inside (sc.readToken c cs).2.rest := by
  refine ⟨(readLexeme c cs).1.text, readLexeme_text_ne_nil c cs, ⟨?_, ?_⟩, ?_, ?_⟩
  · rw [List.append_assoc]
    show text = before ++ ((readLexeme c cs).1.text ++ (readLexeme c cs).2)
    rw [readLexeme_append, ← hrest]
    exact h.text_eq
  · rw [byteSize_append, ← h.offset_eq]
    rfl
  · rw [byteSize_append, ← h.offset_eq]
    rfl
  · unfold Token.Shows
    show if (readLexeme c cs).1.kind = .string then _ else _
    simp only [Scanner.readToken, moveTo, String.toList_ofList]
    rcases readLexeme_cases c cs with ⟨rfl, hread⟩ | ⟨hkind, htext⟩
    · rw [hread, if_pos (kind_readString cs)]
      exact readString_text cs
    · rw [if_neg hkind]
      exact htext

/-- Moving on keeps the name of the text. -/
theorem file_next (sc : Scanner) : sc.next.2.file = sc.file := by
  rw [next]
  split <;> rfl

/-- The next token covers some characters after some trivia.  If there is none then only trivia are
left, and the end of the text stands after them. -/
theorem StandsAfter.next (h : sc.StandsAfter text before) :
    (∃ gap, TrailingTrivia gap ∧ text = before ++ gap ∧
        sc.next.1 = .eof (.at (byteSize text) sc.file)) ∨
      ∃ gap inside, Trivia gap ∧ inside ≠ [] ∧ sc.next.1.kind ≠ .eof ∧
        sc.next.2.StandsAfter text (before ++ gap ++ inside) ∧
        sc.next.1.span = ⟨.at (byteSize (before ++ gap)) sc.file,
          .at (byteSize (before ++ gap ++ inside)) sc.file⟩ ∧
        sc.next.1.Shows inside sc.next.2.rest := by
  obtain ⟨gap, hskip, hgap⟩ := h.skipTrivia
  cases hrest : sc.skipTrivia.rest with
  | nil =>
    left
    have htext : text = before ++ gap := by
      have := hskip.text_eq
      rwa [hrest, List.append_nil] at this
    refine ⟨gap, hgap.elim Trivia.trailing And.right, htext, ?_⟩
    rw [Scanner.next, hrest, htext]
    show Token.eof (.at sc.skipTrivia.offset sc.file) = _
    rw [hskip.offset_eq]
  | cons c cs =>
    right
    obtain ⟨inside, hne, hstands, hspan, hshows⟩ := hskip.readToken hrest
    have hnext : sc.next = sc.skipTrivia.readToken c cs := by
      rw [Scanner.next, hrest]
    refine ⟨gap, inside, ?_, hne, ?_, ?_⟩
    · exact hgap.elim id fun hlast => absurd hlast.1 (by simp [hrest])
    · rw [hnext]
      exact Lexeme.kind_ne_eof c cs
    · rw [hnext]
      exact ⟨hstands, hspan, hshows⟩

end Scanner

/-! ### All tokens -/

/-- The tokens tile the text from the byte `start` on. -/
structure Tiles (text : List Char) (file : String) (start : Nat) (ts : List Token) : Prop where
  /-- The last token stands for the end of the text, and every other one covers characters. -/
  covers : ∃ body, ts = body ++ [.eof (.at (byteSize text) file)] ∧
    body.length + start ≤ byteSize text ∧ ∀ t ∈ body, t.kind ≠ .eof ∧
      ∃ inside after, t.span.Covers text inside after ∧ inside ≠ [] ∧ t.Shows inside after
  start_le : ∀ t ∈ ts, start ≤ t.span.start.offset.toNat
  /-- A token begins where the ones before it have ended. -/
  ascending : ts.Pairwise fun t u => t.span.stop.offset.toNat ≤ u.span.start.offset.toNat
  /-- Trivia are all there is between the tokens, and in front of the first one. -/
  adjoins : ∀ t : Token, t.span.stop.offset.toNat = start →
    List.IsChain (Token.Adjoins text) (t :: ts)

/-- The end of the text, after trivia. -/
theorem Tiles.last {text before gap : List Char} (hsize : byteSize text < UInt32.size)
    (htext : text = before ++ gap) (hgap : TrailingTrivia gap) (file : String) :
    Tiles text file (byteSize before) [.eof (.at (byteSize text) file)] := by
  have hend : (Position.at (byteSize text) file).offset.toNat = byteSize text :=
    Position.toNat_offset_at file hsize
  have hbytes : byteSize text = byteSize before + byteSize gap := by rw [htext, byteSize_append]
  refine ⟨⟨[], rfl, ?_, by simp⟩, ?_, List.pairwise_singleton _ _, ?_⟩
  · rw [List.length_nil, hbytes]
    omega
  · intro t ht
    rw [List.mem_singleton.mp ht]
    show byteSize before ≤ (Position.at (byteSize text) file).offset.toNat
    omega
  · intro t ht
    refine List.isChain_cons_cons.mpr ⟨⟨gap, [], ⟨before, ?_, ht, ?_⟩, .inr ⟨rfl, hgap⟩⟩, ?_⟩
    · rw [List.append_nil, htext]
    · exact hend.trans hbytes
    · exact List.isChain_singleton _

/-- One more token in front, after trivia. -/
theorem Tiles.cons {text before gap inside after : List Char} {file : String} {t : Token}
    {ts : List Token} (hsize : byteSize text < UInt32.size)
    (htext : text = before ++ gap ++ inside ++ after) (hgap : Trivia gap) (hne : inside ≠ [])
    (hkind : t.kind ≠ .eof) (hshows : t.Shows inside after)
    (hspan : t.span = ⟨.at (byteSize (before ++ gap)) file,
      .at (byteSize (before ++ gap ++ inside)) file⟩)
    (h : Tiles text file (byteSize (before ++ gap ++ inside)) ts) :
    Tiles text file (byteSize before) (t :: ts) := by
  obtain ⟨⟨body, hbody, hlength, hcovers⟩, hle, hpairwise, hchain⟩ := h
  have hstart : t.span.start.offset.toNat = byteSize (before ++ gap) := by
    rw [hspan]
    exact Scanner.toNat_offset_at_of_prefix hsize ⟨inside ++ after, by simp [htext]⟩ file
  have hstop : t.span.stop.offset.toNat = byteSize (before ++ gap ++ inside) := by
    rw [hspan]
    exact Scanner.toNat_offset_at_of_prefix hsize ⟨after, by rw [htext]⟩ file
  have hpos : 0 < byteSize inside :=
    Nat.lt_of_lt_of_le (List.length_pos_iff.mpr hne) (length_le_byteSize inside)
  simp only [byteSize_append] at hstart hstop hlength hle
  refine ⟨⟨t :: body, by rw [hbody, List.cons_append], ?_, ?_⟩, ?_, ?_, ?_⟩
  · rw [List.length_cons]
    omega
  · intro u hu
    rcases List.mem_cons.mp hu with rfl | hu
    · refine ⟨hkind, inside, after, ⟨before ++ gap, htext, ?_, ?_⟩, hne, hshows⟩
      · rw [hstart, byteSize_append]
      · rw [hstop, byteSize_append]
    · exact hcovers u hu
  · intro u hu
    rcases List.mem_cons.mp hu with rfl | hu
    · omega
    · exact Nat.le_trans (by omega) (hle u hu)
  · refine List.pairwise_cons.mpr ⟨fun u hu => ?_, hpairwise⟩
    exact hstop ▸ hle u hu
  · intro u hu
    refine List.isChain_cons_cons.mpr
      ⟨?_, hchain t (by rw [hstop, byteSize_append, byteSize_append])⟩
    exact ⟨gap, inside ++ after, ⟨before, by simp [htext], hu, hstart⟩, .inl hgap⟩

/-- From where a scanner stands its tokens tile the text. -/
theorem Scanner.StandsAfter.tiles {sc : Scanner} {text before : List Char}
    (h : sc.StandsAfter text before) (hsize : byteSize text < UInt32.size) :
    Tiles text sc.file (byteSize before) sc.tokens := by
  fun_induction Scanner.tokens sc generalizing before with
  | case1 sc heof =>
    rcases h.next with ⟨gap, hgap, htext, hnext⟩ | ⟨gap, inside, -, -, hkind, -⟩
    · rw [hnext]
      exact .last hsize htext hgap sc.file
    · exact absurd heof hkind
  | case2 sc hkind hlt ih =>
    rcases h.next with ⟨gap, -, -, hnext⟩ | ⟨gap, inside, hgap, hne, -, hstands, hspan, hshows⟩
    · exact absurd (by rw [hnext]; rfl) hkind
    · have hrest := ih hstands
      rw [sc.file_next] at hrest
      exact .cons hsize hstands.text_eq hgap hne hkind hshows hspan hrest

/-- The tokens of a text of less than `2 ^ 32` bytes tile it.  The last one, and no other, stands
for the end of the text, and is there.  Every other one covers at least one character, and covers
just its value, or its value in quotation marks.  A token begins where the ones before it have
ended, and between two of them, before the first and after the last there are only trivia.  So there
are no more tokens than bytes, beside the last one. -/
theorem tokenize_tiles {source : String} (h : source.utf8ByteSize < UInt32.size) (file : String) :
    (∃ body, tokenize source file = body ++ [.eof (.at source.utf8ByteSize file)] ∧
      (Position.at source.utf8ByteSize file).offset.toNat = source.utf8ByteSize ∧
      body.length ≤ source.utf8ByteSize ∧ ∀ t ∈ body, t.kind ≠ .eof ∧
        t.span.start.offset.toNat < t.span.stop.offset.toNat ∧
        t.span.stop.offset.toNat ≤ source.utf8ByteSize ∧
        ∃ inside after, t.span.Covers source.toList inside after ∧ t.Shows inside after) ∧
    ((tokenize source file).Pairwise fun t u =>
      t.span.stop.offset.toNat ≤ u.span.start.offset.toNat) ∧
    List.IsChain (Token.Adjoins source.toList) (.eof (.at 0 file) :: tokenize source file) := by
  have hsize : byteSize source.toList < UInt32.size := by
    rw [byteSize_toList]
    exact h
  have htiles := (Scanner.standsAfter_ofSource source file).tiles hsize
  obtain ⟨⟨body, hbody, hlength, hcovers⟩, -, hpairwise, hchain⟩ := htiles
  rw [byteSize_toList] at hbody hlength
  refine ⟨⟨body, hbody, Position.toNat_offset_at file h, hlength, ?_⟩, hpairwise,
    hchain (.eof (.at 0 file)) rfl⟩
  intro t ht
  obtain ⟨hkind, inside, after, hcover, hne, hshows⟩ := hcovers t ht
  refine ⟨hkind, hcover.start_lt_stop hne, ?_, inside, after, hcover, hshows⟩
  obtain ⟨before, htext, -, hstop⟩ := hcover
  have hbytes := congrArg byteSize htext
  simp only [byteSize_append, byteSize_toList] at hbytes
  omega

/-- A letter of two bytes, a comment, and a string that is still open at the end of the text. -/
theorem tokenize_tiles_accent :
    "é //\n\"q".utf8ByteSize < UInt32.size ∧
      ((tokenize "é //\n\"q" "shell").Pairwise fun t u =>
        t.span.stop.offset.toNat ≤ u.span.start.offset.toNat) ∧
      List.IsChain (Token.Adjoins "é //\n\"q".toList)
        (.eof (.at 0 "shell") :: tokenize "é //\n\"q" "shell") :=
  ⟨by decide, (tokenize_tiles (by decide) "shell").2⟩

end ExprLang
