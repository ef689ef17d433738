import ExprLang.Diagnostic.Report
import ExprLang.Proofs.Reporting
import ExprLang.Proofs.Tiling

/-!
# Where the caret of a report stands

A report shows the line that a diagnostic is about, without the blanks at its ends, and a caret in
the line below.  The place of a diagnostic is the beginning of a token, which is never blank, so the
character there is among those that are shown.  In front of it the line loses its spaces and tabs,
which the column of the caret makes up for, and then all other blanks, which it does not make up
for.  So the caret stands under the character of the place, but too far to the right by as many
columns as there are blanks lost in the second step.

## Main definitions

* `Text.Line.lost` — the blanks at the start of a line that its margin leaves out.
* `Diagnostic.PointsAt` — the report shows a line, with a caret in some column of it.

## Main results

* `Scanner.StandsAfter.begins_of_mem_tokens` — a token begins at a character that is not blank.
* `diagnostic_begins` — a diagnostic is found at such a character, or at the end of the text.
* `Text.Line.shown_getElem?` — where a character that is not blank comes to stand in the line shown.
* `report_pointsAt` — how far the caret of a report is from the character of its place.
-/

namespace ExprLang

open Text
open Grammar (standard)

/-! ### Where tokens begin -/

/-- At the place a character of the text begins that is not blank. -/
def BeginsAt (text : List Char) (file : String) (place : Position) : Prop :=
  ∃ before c after, text = before ++ c :: after ∧ isBlank c = false ∧
    place = .at (byteSize before) file

/-- A token begins at a character that is not blank, or it stands for the end of the text. -/
theorem Scanner.StandsAfter.begins_of_mem_tokens {sc : Scanner} {text before : List Char}
    (h : sc.StandsAfter text before) {t : Token} (ht : t ∈ sc.tokens) :
    t.span.start = .at (byteSize text) sc.file ∨ BeginsAt text sc.file t.span.start := by
  fun_induction Scanner.tokens sc generalizing before with
  | case1 sc heof =>
    obtain rfl := List.mem_singleton.mp ht
    rcases h.next with ⟨_, -, -, hnext⟩ | ⟨_, _, -, -, hkind, -⟩
    · rw [hnext]
      exact .inl rfl
    · exact absurd heof hkind
  | case2 sc hkind hlt ih =>
    rcases List.mem_cons.mp ht with rfl | ht
    · -- the token begins where the trivia before it end
      obtain ⟨gap, hskip, -⟩ := h.skipTrivia
      rw [Scanner.next] at hkind ⊢
      split at hkind
      · exact absurd rfl hkind
      · next c cs hrest =>
        refine .inr ⟨before ++ gap, c, cs, hrest ▸ hskip.text_eq, ?_, ?_⟩
        · exact not_isBlank_of_splitTrivia hrest
        · rw [← hskip.offset_eq]
          rfl
    · rcases h.next with ⟨_, -, -, hnext⟩ | ⟨_, _, -, -, -, hstands, -⟩
      · exact absurd (by rw [hnext]; rfl) hkind
      · rw [← sc.file_next]
        exact ih hstands ht

/-! ### Where diagnostics are found -/

/-- A diagnostic of a text is found where a character stands that is not blank, or at its end. -/
theorem diagnostic_begins {source file : String} {d : Diagnostic}
    (hd : d ∈ (parseText source file).diagnostics) :
    d.position = .at source.utf8ByteSize file ∨ BeginsAt source.toList file d.position := by
  have hprogram := Form.honest_program (Level.honest_ofRoom maxNesting)
    (s := .ofSource (.ofText source file))
  obtain ⟨t, -, hparse, new, hnew, htrail⟩ := exists_of_ensures_program hprogram
  rw [parseText, hparse, hnew] at hd
  obtain ⟨i, hi⟩ := htrail.exists_isAbout hd
  have hmem := List.mem_of_getElem? (Scanner.current_skip (.ofSource source file) i)
  have hbegins := (Scanner.standsAfter_ofSource source file).begins_of_mem_tokens hmem
  rw [byteSize_toList] at hbegins
  rw [hi.position_eq]
  exact hbegins

/-! ### The column of a character -/

namespace Text

variable {p : Char → Bool} {xs ys : List Char} {c : Char}

theorem dropWhile_append_cons (hc : p c = false) :
    (xs ++ c :: ys).dropWhile p = xs.dropWhile p ++ c :: ys := by
  simp [List.dropWhile_append, hc]

theorem takeWhile_append_cons (hc : p c = false) :
    (xs ++ c :: ys).takeWhile p = xs.takeWhile p := by
  rw [List.takeWhile_append, List.takeWhile_cons_of_neg (Bool.eq_false_iff.mp hc), List.append_nil]
  split
  · next hlength => exact ((List.takeWhile_prefix p).eq_of_length hlength).symm
  · rfl

/-- Blanks at the end are dropped behind the last character that is none. -/
theorem trimEnd_append_cons (hc : isBlank c = false) :
    trimEnd (xs ++ c :: ys) = xs ++ c :: trimEnd ys := by
  have hreverse : (xs ++ c :: ys).reverse = ys.reverse ++ c :: xs.reverse := by simp
  rw [trimEnd, hreverse, dropWhile_append_cons hc]
  simp [trimEnd]

namespace Line

/-- The whole characters in front of a place are counted. -/
theorem charsIn?_append (xs ys : List Char) :
    charsIn? (byteSize xs) (xs ++ ys) = some xs.length := by
  induction xs with
  | nil => rw [byteSize_nil, charsIn?, List.length_nil]
  | cons x xs ih =>
    have hpos := x.utf8Size_pos
    obtain ⟨n, hn⟩ := Nat.exists_eq_add_one.mpr (show 0 < byteSize (x :: xs) by
      rw [byteSize_cons]
      omega)
    have hrest : n + 1 - x.utf8Size = byteSize xs := by
      rw [← hn, byteSize_cons]
      omega
    have hle : x.utf8Size ≤ n + 1 := by
      rw [← hn, byteSize_cons]
      omega
    rw [hn, List.cons_append, charsIn?, if_pos hle, hrest, ih, Option.map_some, List.length_cons]

/-- The blanks that the line as shown has lost at its start, beside the margin. -/
def lost (l : Line) : List Char :=
  (l.text.dropWhile fun c => c = ' ' || c = '\t').takeWhile isBlank

/-- A character that is not blank is shown.  The column of the caret for it is too large by as many
columns as there are blanks lost beside the margin. -/
theorem shown_getElem? {l : Line} (htext : l.text = xs ++ c :: ys)
    (hoffset : l.offset = byteSize xs) (hc : isBlank c = false) :
    ∃ i, l.caretColumn = i + l.lost.length ∧ l.shown[i]? = some c := by
  have hmargin : (c = ' ' || c = '\t') = false := by
    rw [Bool.or_eq_false_iff, decide_eq_false_iff_not, decide_eq_false_iff_not]
    constructor
    · rintro rfl
      simp [isBlank] at hc
    · rintro rfl
      simp [isBlank] at hc
  have hcolumn : l.column = xs.length := by
    rw [column, hoffset, htext, charsIn?_append, Option.getD_some]
  -- what is in front of the character: the margin, the blanks lost beside it, and what is shown
  let inside := xs.dropWhile fun c => c = ' ' || c = '\t'
  have hlost : l.lost = inside.takeWhile isBlank := by
    rw [lost, htext, dropWhile_append_cons hmargin, takeWhile_append_cons hc]
  have hshown : l.shown = inside.dropWhile isBlank ++ c :: trimEnd ys := by
    rw [shown, htext, dropWhile_append_cons hmargin, trim, dropWhile_append_cons hc,
      trimEnd_append_cons hc]
  have hlength : xs.length = l.margin.length + inside.length := by
    rw [margin, htext, takeWhile_append_cons hmargin, ← List.length_append,
      List.takeWhile_append_dropWhile]
  have hinside : inside.length = l.lost.length + (inside.dropWhile isBlank).length := by
    rw [hlost, ← List.length_append, List.takeWhile_append_dropWhile]
  refine ⟨(inside.dropWhile isBlank).length, ?_, ?_⟩
  · rw [caretColumn, hcolumn]
    omega
  · rw [hshown, List.getElem?_append_right (Nat.le_refl _), Nat.sub_self]
    rfl

end Line

/-- The line of a character of the text. -/
theorem exists_lineAt? {source : String} {before after : List Char}
    (h : source.toList = before ++ c :: after) :
    ∃ l xs ys, lineAt? source (byteSize before) = some l ∧ l.text = xs ++ c :: ys ∧
      l.offset = byteSize xs := by
  have hsize : byteSize before < byteSize (lines source.toList).flatten := by
    rw [flatten_lines, h, byteSize_append, byteSize_cons]
    have := c.utf8Size_pos
    omega
  obtain ⟨ls, l, ls', hlines, hle, hlt, hfind⟩ := exists_findLine_of_lt hsize 1
  have htext : ls.flatten ++ (l ++ ls'.flatten) = before ++ c :: after := by
    rw [← h, ← flatten_lines source.toList, hlines, List.flatten_append, List.flatten_cons]
  obtain ⟨xs, rfl, hrest⟩ := exists_append_of_byteSize_le htext hle
  -- the character comes before the end of the line
  rw [byteSize_append] at hlt
  obtain ⟨mid, hl, hmid⟩ :=
    exists_append_of_byteSize_le hrest.symm (by omega)
  cases mid with
  | nil =>
    rw [hl, List.append_nil] at hlt
    omega
  | cons a ys =>
    obtain ⟨rfl, -⟩ := List.cons.inj hmid
    refine ⟨_, xs, ys, hfind, hl, ?_⟩
    rw [byteSize_append]
    exact Nat.add_sub_cancel_left _ _

end Text

/-! ### The caret -/

/-- Under its heading the report shows the line, and below it a caret in the given column of what is
shown.  As many characters are in front of the line as in front of this column. -/
def Diagnostic.PointsAt (d : Diagnostic) (source name : String) (l : Line) (column : Nat) : Prop :=
  let space := "".pushn ' ' ((toString l.number).length + 1)
  ∃ below, d.report source name =
    "Error: " ++ d.message ++ "\n" ++ "-> " ++ name ++ "\n" ++ space ++ "|\n" ++
      toString l.number ++ " | " ++ String.ofList l.shown ++ "\n" ++
      space ++ "| " ++ "".pushn '-' column ++ "^\n" ++ below

/-- A text that is one character long, with others put in front of it. -/
theorem padStart_succ (n : Nat) (fill : Char) {text : String} (h : text.length = 1) :
    padStart (n + 1) fill text = "".pushn fill n ++ text := by
  rw [padStart, h, Nat.add_sub_cancel]

/-- In a report for which a line was found, the caret stands in the column that the line says. -/
theorem Diagnostic.pointsAt_caretColumn {d : Diagnostic} {source : String} {l : Line}
    (h : lineAt? source d.position.offset.toNat = some l) (name : String) :
    d.PointsAt source name l l.caretColumn := by
  have hbar : "|".length = 1 := by decide
  have hcaret : "^".length = 1 := by decide
  refine ⟨(d.cause.tip?.map fun tip => "tip: " ++ tip ++ "\n").getD "", ?_⟩
  unfold report
  rw [h, Option.map_some, Option.getD_some, Line.excerpt, padStart_succ _ _ hbar,
    padStart_succ _ _ hcaret]
  simp only [String.append_assoc]
  rfl

/-- A diagnostic of a text of less than `2 ^ 32` bytes that is not at its end is about a character
of it.  The report shows the line of this character, and the character is among those that are
shown.  The caret stands under it, but too far to the right by as many columns as there are blanks
other than spaces and tabs lost at the start of the line.  If there are none, it stands just under
it. -/
theorem report_pointsAt {source file : String} (hsize : source.utf8ByteSize < UInt32.size)
    {d : Diagnostic} (hd : d ∈ (parseText source file).diagnostics)
    (hoffset : d.position.offset.toNat < source.utf8ByteSize) (name : String) :
    ∃ before c after l i, source.toList = before ++ c :: after ∧
      d.position.offset.toNat = byteSize before ∧
      lineAt? source d.position.offset.toNat = some l ∧
      l.shown[i]? = some c ∧ d.PointsAt source name l (i + l.lost.length) := by
  rcases diagnostic_begins hd with hend | ⟨before, c, after, htext, hc, hplace⟩
  · -- the end of the text is not before its end
    rw [hend, Position.toNat_offset_at file hsize] at hoffset
    exact absurd hoffset (Nat.lt_irrefl _)
  · have hbytes : d.position.offset.toNat = byteSize before := by
      rw [hplace]
      rw [← byteSize_toList] at hsize
      exact Scanner.toNat_offset_at_of_prefix hsize ⟨c :: after, htext.symm⟩ file
    obtain ⟨l, xs, ys, hl, hline, hin⟩ := exists_lineAt? htext
    rw [← hbytes] at hl
    obtain ⟨i, hcolumn, hshown⟩ := l.shown_getElem? hline hin hc
    have hcaret := Diagnostic.pointsAt_caretColumn hl name
    rw [hcolumn] at hcaret
    exact ⟨before, c, after, l, i, htext, hbytes, hl, hshown, hcaret⟩

/-- The caret is under the number, which stands where a sign is expected. -/
theorem report_pointsAt_number :
    "let x 5;".utf8ByteSize < UInt32.size ∧
      ⟨.unexpected .assign .int, .at 6 "shell"⟩ ∈ (parseText "let x 5;" "shell").diagnostics ∧
      ∃ before c after l i, "let x 5;".toList = before ++ c :: after ∧
        (Position.at 6 "shell").offset.toNat = byteSize before ∧
        lineAt? "let x 5;" (Position.at 6 "shell").offset.toNat = some l ∧
        l.shown[i]? = some c ∧
        Diagnostic.PointsAt ⟨.unexpected .assign .int, .at 6 "shell"⟩ "let x 5;" "shell" l
          (i + l.lost.length) := by
  have hd : ⟨.unexpected .assign .int, .at 6 "shell"⟩ ∈
      (parseText "let x 5;" "shell").diagnostics := by
    decide +kernel
  exact ⟨by decide, hd, report_pointsAt (by decide) hd (by decide) "shell"⟩

/-- After a form feed, which the line loses too, the caret is under the semicolon instead of the
number. -/
theorem report_pointsAt_formFeed :
    (parseText "\x0clet x 5;" "shell").diagnostics =
        [⟨.unexpected .assign .int, .at 7 "shell"⟩] ∧
      "\x0clet x 5;".toList = "\x0clet x ".toList ++ '5' :: [';'] ∧
      byteSize "\x0clet x ".toList = 7 ∧
      Diagnostic.report ⟨.unexpected .assign .int, .at 7 "shell"⟩ "\x0clet x 5;" "shell" =
        "Error: expected next token to be =, got INT instead\n-> shell\n  |\n1 | let x 5;\n" ++
          "  | -------^\ntip: Unexpected token \x60INT\x60, expected \x60=\x60\n" ∧
      "let x 5;".toList[7]? = some ';' := by
  decide +kernel

end ExprLang
