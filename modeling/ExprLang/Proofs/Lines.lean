import ExprLang.Text.Line
import Mathlib.Data.List.DropRight

/-!
# The line of a place

The lines of a text are the stretches between its newlines, each with the newline that ends it.  A
place is in the line that has as many lines before it as there are newlines before the place.  This
is the same whether characters or bytes are counted, because no other character has a byte that
looks like a newline.

## Main definitions

* `AreLines` — lists of characters that a text is cut into at its newlines.
* `Line.StandsIn` — a line, with its number, is a stretch of a text.
* `utf8` — the bytes of a text.

## Main results

* `areLines_lines` — `lines` cuts a text at its newlines.
* `count_newline_utf8` — there are as many bytes that are newlines as there are characters.
* `lineAt?_exact` — which line is found for a place, before the end of a text and past it.
-/

namespace ExprLang.Text

/-! ### Lists of lines -/

/-- Each of the lists has a newline at its end and nowhere else, but the last one may have none. -/
def AreLines : List (List Char) → Prop
  | [] => True
  | l :: ls => '\n' ∉ l.dropLast ∧ (ls ≠ [] → l.getLast? = some '\n') ∧ AreLines ls

/-- Cutting a text into lines cuts it at its newlines. -/
theorem areLines_lines (cs : List Char) : AreLines (lines cs) := by
  induction cs with
  | nil => exact trivial
  | cons c cs ih =>
    rw [lines]
    split
    · next hc => exact ⟨by simp, fun _ => by simp [hc], ih⟩
    · next hc =>
      split
      · exact ⟨by simp, fun hne => absurd rfl hne, trivial⟩
      · next l ls hl =>
        -- the character goes in front of the first line of the rest, which has one already
        rw [hl] at ih
        obtain ⟨hinside, hend, hrest⟩ := ih
        have hne : l ≠ [] := ne_nil_of_mem_lines (hl ▸ List.mem_cons_self)
        obtain ⟨d, ds, rfl⟩ := List.exists_cons_of_ne_nil hne
        refine ⟨?_, fun hls => by rw [List.getLast?_cons_cons, hend hls], hrest⟩
        rw [List.dropLast_cons_cons, List.mem_cons, not_or]
        exact ⟨Ne.symm hc, hinside⟩

/-- A line that ends in its only newline. -/
theorem count_newline_eq_one {l : List Char} (hinside : '\n' ∉ l.dropLast)
    (hend : l.getLast? = some '\n') : l.count '\n' = 1 := by
  rw [← List.dropLast_append_getLast? '\n' hend, List.count_append,
    List.count_eq_zero.mpr hinside, List.count_singleton_self]

/-- What comes before a line among other lines, and the line itself. -/
theorem AreLines.of_append {before : List (List Char)} {l : List Char} {after : List (List Char)}
    (h : AreLines (before ++ l :: after)) :
    (∀ c ∈ before.flatten.getLast?, c = '\n') ∧ before.flatten.count '\n' = before.length ∧
      '\n' ∉ l.dropLast ∧ (after ≠ [] → l.getLast? = some '\n') := by
  induction before with
  | nil =>
    obtain ⟨hinside, hend, -⟩ := h
    exact ⟨by simp, rfl, hinside, hend⟩
  | cons b bs ih =>
    obtain ⟨hinside, hend, hrest⟩ := h
    obtain ⟨hlast, hcount, hline⟩ := ih hrest
    have hb : b.getLast? = some '\n' := hend (by simp)
    refine ⟨?_, ?_, hline⟩
    · rw [List.flatten_cons, List.getLast?_append, hb]
      intro c hc
      cases hbs : bs.flatten.getLast? with
      | none =>
        rw [hbs] at hc
        exact (Option.mem_some.mp hc).symm
      | some d =>
        rw [hbs] at hc
        obtain rfl : d = c := Option.some.inj hc
        exact hlast d hbs
    · rw [List.flatten_cons, List.count_append, count_newline_eq_one hinside hb, hcount,
        List.length_cons, Nat.add_comm]

/-- The line stands in the text with `before` in front of it and `after` behind it.  It begins with
the text or just after a newline, and it goes on up to the next newline or to the end of the text.
Its number is told by the newlines in front of it. -/
structure Line.StandsIn (l : Line) (before after text : List Char) : Prop where
  text_eq : text = before ++ l.text ++ after
  ne_nil : l.text ≠ []
  begins : ∀ c ∈ before.getLast?, c = '\n'
  inside : '\n' ∉ l.text.dropLast
  ends : after ≠ [] → l.text.getLast? = some '\n'
  number_eq : l.number = before.count '\n' + 1

/-- A line of a text stands in it, and has the lines before it in front. -/
theorem standsIn_of_lines_eq {cs l : List Char} {before after : List (List Char)}
    (h : lines cs = before ++ l :: after) (offset : Nat) :
    Line.StandsIn ⟨1 + before.length, l, offset⟩ before.flatten after.flatten cs := by
  have hlines := areLines_lines cs
  rw [h] at hlines
  obtain ⟨hlast, hcount, hinside, hend⟩ := hlines.of_append
  have hmem : l ∈ lines cs := h ▸ List.mem_append_right _ List.mem_cons_self
  refine ⟨?_, ne_nil_of_mem_lines hmem, hlast, hinside, ?_, ?_⟩
  · rw [← flatten_lines cs, h, List.flatten_append, List.flatten_cons, List.append_assoc]
  · intro hafter
    refine hend ?_
    rintro rfl
    exact hafter rfl
  · rw [hcount, Nat.add_comm]

/-! ### Newlines among the bytes of a text -/

/-- The bytes of a text. -/
def utf8 (cs : List Char) : List UInt8 := cs.flatMap String.utf8EncodeChar

theorem utf8_append (cs ds : List Char) : utf8 (cs ++ ds) = utf8 cs ++ utf8 ds :=
  List.flatMap_append

theorem utf8_toList (s : String) : utf8 s.toList = s.toByteArray.data.toList := by
  rw [← String.ofList_toList (s := s), String.toByteArray_ofList, String.toList_ofList,
    List.utf8Encode, List.data_toByteArray]
  rfl

theorem length_utf8 (cs : List Char) : (utf8 cs).length = byteSize cs := by
  induction cs with
  | nil => rfl
  | cons c cs ih =>
    rw [utf8, List.flatMap_cons, List.length_append, String.length_utf8EncodeChar, byteSize_cons,
      ← ih]
    rfl

/-- No other character has a byte that looks like a newline: one in ASCII has its code for its only
byte, and the bytes of any other one are at least 128. -/
theorem newline_mem_utf8EncodeChar {c : Char} (h : '\n'.toUInt8 ∈ String.utf8EncodeChar c) :
    c = '\n' := by
  have hbyte : ∀ n : Nat, '\n'.toUInt8 = UInt8.ofNat n → n % 256 = 10 := by
    intro n hn
    have hnat := congrArg UInt8.toNat hn
    rw [UInt8.toNat_ofNat'] at hnat
    exact hnat.symm
  rw [String.utf8EncodeChar] at h
  split at h
  · have hcode := hbyte _ (List.mem_singleton.mp h)
    apply Char.ext
    apply UInt32.toNat.inj
    show c.val.toNat = 10
    omega
  · -- every byte is in one of the ranges from 128 on
    exfalso
    split at h
    · simp only [List.mem_cons, List.not_mem_nil, or_false] at h
      rcases h with h | h <;> exact absurd (hbyte _ h) (by omega)
    · split at h
      · simp only [List.mem_cons, List.not_mem_nil, or_false] at h
        rcases h with h | h | h <;> exact absurd (hbyte _ h) (by omega)
      · simp only [List.mem_cons, List.not_mem_nil, or_false] at h
        rcases h with h | h | h | h <;> exact absurd (hbyte _ h) (by omega)

/-- There are as many bytes that are newlines as there are characters. -/
theorem count_newline_utf8 (cs : List Char) :
    (utf8 cs).count '\n'.toUInt8 = cs.count '\n' := by
  induction cs with
  | nil => rfl
  | cons c cs ih =>
    rw [utf8, List.flatMap_cons, List.count_append, List.count_cons, ← ih, Nat.add_comm]
    congr 1
    by_cases hc : c = '\n'
    · subst hc
      decide
    · rw [if_neg (by simpa using hc)]
      exact List.count_eq_zero.mpr fun hmem => hc (newline_mem_utf8EncodeChar hmem)

/-- Before the last character of a line there is no newline. -/
theorem count_newline_take_utf8 {l : List Char} {n : Nat} (hinside : '\n' ∉ l.dropLast)
    (hn : n < byteSize l) : ((utf8 l).take n).count '\n'.toUInt8 = 0 := by
  have hne : l ≠ [] := by
    rintro rfl
    exact absurd hn (Nat.not_lt_zero n)
  have hl := List.dropLast_concat_getLast hne
  have hnone : (utf8 l.dropLast).count '\n'.toUInt8 = 0 := by
    rw [count_newline_utf8]
    exact List.count_eq_zero.mpr hinside
  apply Nat.eq_zero_of_le_zero
  by_cases hlast : l.getLast hne = '\n'
  · -- the last character is one byte, which is not among those taken
    have hshort : n ≤ (utf8 l.dropLast).length := by
      rw [← hl, hlast, byteSize_append] at hn
      rw [length_utf8]
      exact Nat.le_of_lt_succ hn
    rw [← hl, utf8_append, List.take_append_of_le_length hshort, ← hnone]
    exact (List.take_sublist n _).count_le _
  · have hall : '\n' ∉ l := by
      rw [← hl, List.mem_append, List.mem_singleton, not_or]
      exact ⟨hinside, Ne.symm hlast⟩
    rw [← List.count_eq_zero.mpr hall, ← count_newline_utf8]
    exact (List.take_sublist n _).count_le _

/-- As many newlines are before a place in a line as are in front of the line. -/
theorem Line.StandsIn.number_eq_of_lt {l : Line} {before after text : List Char}
    (h : l.StandsIn before after text) (hoffset : l.offset < byteSize l.text) :
    l.number = ((utf8 text).take (byteSize before + l.offset)).count '\n'.toUInt8 + 1 := by
  have hshort : l.offset ≤ (utf8 l.text).length := by
    rw [length_utf8]
    exact Nat.le_of_lt hoffset
  rw [h.text_eq, List.append_assoc, utf8_append, utf8_append, ← length_utf8,
    List.take_length_add_append, List.take_append_of_le_length hshort, List.count_append,
    count_newline_take_utf8 h.inside hoffset, count_newline_utf8]
  exact h.number_eq

/-! ### The line that is found -/

/-- A line is what it is without its ending, and then carriage returns and newlines.  What it is
without its ending does not end in one of these. -/
theorem withoutEnding_append (l : List Char) : ∃ ending, l = withoutEnding l ++ ending ∧
    (∀ c ∈ ending, c = '\r' ∨ c = '\n') ∧
      ∀ c ∈ (withoutEnding l).getLast?, ¬ (c = '\r' ∨ c = '\n') := by
  have hdrop : withoutEnding l = l.rdropWhile fun c => c = '\r' || c = '\n' := rfl
  rw [hdrop]
  refine ⟨_, List.rdropWhile_append_rtakeWhile.symm, ?_, ?_⟩
  · intro c hc
    simpa using List.mem_rtakeWhile_imp hc
  · intro c hc
    have hne : (l.rdropWhile fun c => c = '\r' || c = '\n') ≠ [] := by
      intro hnil
      rw [hnil] at hc
      exact Option.not_mem_none c hc
    rw [List.getLast?_eq_some_getLast hne, Option.mem_some] at hc
    simpa [← hc] using List.rdropWhile_last_not _ l hne

theorem lines_eq_nil_iff {cs : List Char} : lines cs = [] ↔ cs = [] := by
  constructor
  · intro h
    rw [← flatten_lines cs, h, List.flatten_nil]
  · rintro rfl
    rfl

/-- No line is found in the empty text, and in no other.  Before the end of a text the line is found
that the place is in.  Its number is one more than the newlines among the bytes before the place.
At and past the end the last line is found, at the place just after what it is without the carriage
returns and newlines at its end. -/
theorem lineAt?_exact (source : String) (pos : Nat) :
    (lineAt? source pos = none ↔ source = "") ∧
    (pos < source.utf8ByteSize → ∃ l before after, lineAt? source pos = some l ∧
      l.StandsIn before after source.toList ∧ byteSize before + l.offset = pos ∧
      l.offset < byteSize l.text ∧
      l.number = (source.toByteArray.data.toList.take pos).count '\n'.toUInt8 + 1) ∧
    (source ≠ "" → source.utf8ByteSize ≤ pos → ∃ l before body ending,
      lineAt? source pos = some l ∧ l.StandsIn before [] source.toList ∧
      l.text = body ++ ending ∧ (∀ c ∈ ending, c = '\r' ∨ c = '\n') ∧
      (∀ c ∈ body.getLast?, ¬ (c = '\r' ∨ c = '\n')) ∧ l.offset = byteSize body) := by
  have hsize : byteSize (lines source.toList).flatten = source.utf8ByteSize := by
    rw [flatten_lines, byteSize_toList]
  have hbefore : pos < source.utf8ByteSize → ∃ l before after, lineAt? source pos = some l ∧
      l.StandsIn before after source.toList ∧ byteSize before + l.offset = pos ∧
      l.offset < byteSize l.text := by
    intro hpos
    obtain ⟨before, l, after, hlines, hle, hlt, hfind⟩ :=
      exists_findLine_of_lt (hsize ▸ hpos) 1
    exact ⟨_, _, _, hfind, standsIn_of_lines_eq hlines _, by simp only; omega, by simp only; omega⟩
  have hpast : source ≠ "" → source.utf8ByteSize ≤ pos → ∃ l before, lineAt? source pos = some l ∧
      l.StandsIn before [] source.toList ∧ l.offset = byteSize (withoutEnding l.text) := by
    intro hne hpos
    have hlines : lines source.toList ≠ [] := by
      rw [Ne, lines_eq_nil_iff, String.toList_eq_nil_iff]
      exact hne
    obtain ⟨before, l, hlast, hfind⟩ := exists_findLine_of_le hlines (hsize ▸ hpos) 1
    exact ⟨_, _, hfind, standsIn_of_lines_eq hlast _, rfl⟩
  refine ⟨⟨fun hnone => ?_, ?_⟩, fun hpos => ?_, fun hne hpos => ?_⟩
  · by_contra hne
    rcases Nat.lt_or_ge pos source.utf8ByteSize with hpos | hpos
    · obtain ⟨l, _, _, hl, -⟩ := hbefore hpos
      rw [hnone] at hl
      cases hl
    · obtain ⟨l, _, hl, -⟩ := hpast hne hpos
      rw [hnone] at hl
      cases hl
  · rintro rfl
    rfl
  · obtain ⟨l, before, after, hl, hstands, hoffset, hlt⟩ := hbefore hpos
    refine ⟨l, before, after, hl, hstands, hoffset, hlt, ?_⟩
    rw [← utf8_toList, ← hoffset]
    exact hstands.number_eq_of_lt hlt
  · obtain ⟨l, before, hl, hstands, hoffset⟩ := hpast hne hpos
    obtain ⟨ending, htext, hending, hbody⟩ := withoutEnding_append l.text
    exact ⟨l, before, withoutEnding l.text, ending, hl, hstands, htext, hending, hbody, hoffset⟩

/-- The second line begins after four bytes.  Past the end of the text the place is after the
`b`. -/
theorem lineAt?_exact_ending :
    4 < "é\r\nb\r\n".utf8ByteSize ∧ "é\r\nb\r\n" ≠ "" ∧ "é\r\nb\r\n".utf8ByteSize ≤ 9 ∧
    lineAt? "é\r\nb\r\n" 4 = some ⟨2, "b\r\n".toList, 0⟩ ∧
    lineAt? "é\r\nb\r\n" 9 = some ⟨2, "b\r\n".toList, 1⟩ ∧
    (∃ l before after, lineAt? "é\r\nb\r\n" 4 = some l ∧
      l.StandsIn before after "é\r\nb\r\n".toList ∧ byteSize before + l.offset = 4 ∧
      l.offset < byteSize l.text ∧
      l.number = ("é\r\nb\r\n".toByteArray.data.toList.take 4).count '\n'.toUInt8 + 1) ∧
    ∃ l before body ending, lineAt? "é\r\nb\r\n" 9 = some l ∧
      l.StandsIn before [] "é\r\nb\r\n".toList ∧
      l.text = body ++ ending ∧ (∀ c ∈ ending, c = '\r' ∨ c = '\n') ∧
      (∀ c ∈ body.getLast?, ¬ (c = '\r' ∨ c = '\n')) ∧ l.offset = byteSize body :=
  ⟨by decide, by decide, by decide, by decide, by decide, (lineAt?_exact _ 4).2.1 (by decide),
    (lineAt?_exact _ 9).2.2 (by decide) (by decide)⟩

end ExprLang.Text
