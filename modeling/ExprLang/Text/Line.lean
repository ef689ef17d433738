import ExprLang.Text.Bytes

/-!
# Finding the line of a position

A diagnostic shows the line that its position is in.  Lines are cut after each newline, so a line
holds its own newline, and the last one may have none.  Past the end of the text there is no line;
there the last line is shown, at the place just after its text.

## Main definitions

* `lines cs` — the lines of a text, each with its newline.
* `Line` — a line, its number and a place within it.
* `lineAt? source pos` — the line that holds the byte `pos`.

## Main results

* `flatten_lines` — cutting a text into lines loses nothing.
* `exists_findLine_of_lt` — a byte of a text is in the line that is found for it.
* `exists_findLine_of_le` — past the end of a text the last line is found.
-/

namespace ExprLang.Text

/-! ### Cutting a text into lines -/

/-- The lines of a text, each with the newline that ends it.  The empty text has none. -/
def lines : List Char → List (List Char)
  | [] => []
  | c :: cs =>
    if c = '\n' then [c] :: lines cs
    else
      match lines cs with
      -- the last line, without a newline
      | [] => [[c]]
      | l :: ls => (c :: l) :: ls

/-- Cutting a text into lines loses nothing. -/
@[simp] theorem flatten_lines (cs : List Char) : (lines cs).flatten = cs := by
  induction cs with
  | nil => rfl
  | cons c cs ih =>
    rw [lines]
    split
    · simp [ih]
    · split
      · next h => simpa [h] using ih
      · next h => simpa [h] using ih

/-- No line is empty. -/
theorem ne_nil_of_mem_lines {cs l : List Char} (h : l ∈ lines cs) : l ≠ [] := by
  induction cs generalizing l with
  | nil => simp [lines] at h
  | cons c cs ih =>
    rw [lines] at h
    split at h
    · rcases List.mem_cons.mp h with rfl | h
      · simp
      · exact ih h
    · split at h
      · simp_all
      · next hl =>
        rcases List.mem_cons.mp h with rfl | h
        · simp
        · exact ih (by simp [hl, h])

/-- A line without the newlines and carriage returns at its end. -/
def withoutEnding (l : List Char) : List Char :=
  (l.reverse.dropWhile fun c => c = '\r' || c = '\n').reverse

/-! ### The line of a position -/

/-- A line of a source text, and a place in it. -/
structure Line where
  /-- The number of the line, counted from one. -/
  number : Nat
  /-- The characters of the line, with its newline. -/
  text : List Char
  /-- The place, in bytes from the start of the line. -/
  offset : Nat
  deriving DecidableEq, Repr, Inhabited

/-- Among lines numbered from `number` on, the one that holds the byte `pos`, counted from the start
of the first of them. -/
def findLine (pos number : Nat) : List (List Char) → Option Line
  | [] => none
  | l :: ls =>
    if pos < byteSize l then some ⟨number, l, pos⟩
    else if ls.isEmpty then some ⟨number, l, byteSize (withoutEnding l)⟩
    else findLine (pos - byteSize l) (number + 1) ls

/-- A byte of the text is in the line that it comes to after the lines before it. -/
theorem exists_findLine_of_lt {pos : Nat} {ls : List (List Char)} (h : pos < byteSize ls.flatten)
    (number : Nat) : ∃ before l after, ls = before ++ l :: after ∧
      byteSize before.flatten ≤ pos ∧ pos < byteSize before.flatten + byteSize l ∧
      findLine pos number ls =
        some ⟨number + before.length, l, pos - byteSize before.flatten⟩ := by
  induction ls generalizing pos number with
  | nil => simp at h
  | cons l ls ih =>
    rw [List.flatten_cons, byteSize_append] at h
    rw [findLine]
    by_cases hl : pos < byteSize l
    · exact ⟨[], l, ls, rfl, Nat.zero_le _, by simpa using hl, by simp [hl]⟩
    · -- the byte is in a later line, so this one is not the last
      have hne : ls.isEmpty = false := by
        cases ls with
        | nil => simp at h; omega
        | cons => rfl
      have hrest : pos - byteSize l < byteSize ls.flatten := by omega
      obtain ⟨before, l', after, rfl, hle, hlt, hfind⟩ := ih hrest (number + 1)
      refine ⟨l :: before, l', after, rfl, ?_, ?_, ?_⟩
      · rw [List.flatten_cons, byteSize_append]
        omega
      · rw [List.flatten_cons, byteSize_append]
        omega
      · rw [if_neg hl, hne, if_neg Bool.false_ne_true, hfind, List.flatten_cons, byteSize_append,
          List.length_cons, Nat.sub_sub, Nat.add_assoc, Nat.add_comm 1]

/-- Past the end of the text the last line is found, at the place just after what is visible of
it. -/
theorem exists_findLine_of_le {pos : Nat} {ls : List (List Char)} (hne : ls ≠ [])
    (h : byteSize ls.flatten ≤ pos) (number : Nat) : ∃ before l, ls = before ++ [l] ∧
      findLine pos number ls =
        some ⟨number + before.length, l, byteSize (withoutEnding l)⟩ := by
  induction ls generalizing pos number with
  | nil => exact absurd rfl hne
  | cons l ls ih =>
    rw [List.flatten_cons, byteSize_append] at h
    rw [findLine, if_neg (show ¬ pos < byteSize l by omega)]
    by_cases hls : ls = []
    · subst hls
      exact ⟨[], l, rfl, rfl⟩
    · have hrest : byteSize ls.flatten ≤ pos - byteSize l := by omega
      obtain ⟨before, l', rfl, hfind⟩ := ih hls hrest (number + 1)
      refine ⟨l :: before, l', rfl, ?_⟩
      rw [if_neg (by simp), hfind, List.length_cons, Nat.add_assoc, Nat.add_comm 1]

/-- The line that holds the byte `pos` of a text.  At and past the end of the text this is its last
line, at the place just after what is visible of it. -/
def lineAt? (source : String) (pos : Nat) : Option Line := findLine pos 1 (lines source.toList)

end ExprLang.Text
