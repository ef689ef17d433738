/-!
# White space

A character is blank if Unicode gives it the property `White_Space`.  Beside the blanks of ASCII
these are a handful of spaces of other widths and the line and paragraph separators.

## Main definitions

* `isBlank c` — `c` is white space.
* `trim cs` — `cs` without the blanks at its two ends.

## Main results

* `isBlank_of_isWhitespace` — the blanks of ASCII are blank.
-/

namespace ExprLang.Text

/-- White space, in the sense of the Unicode property of that name. -/
def isBlank (c : Char) : Bool :=
  let n := c.toNat
  (0x09 ≤ n && n ≤ 0x0d) || n == 0x20 || n == 0x85 || n == 0xa0 || n == 0x1680 ||
    (0x2000 ≤ n && n ≤ 0x200a) || n == 0x2028 || n == 0x2029 || n == 0x202f || n == 0x205f ||
      n == 0x3000

theorem isBlank_of_isWhitespace {c : Char} (h : c.isWhitespace = true) : isBlank c = true := by
  simp only [Char.isWhitespace, Bool.or_eq_true, decide_eq_true_eq] at h
  rcases h with ((rfl | rfl) | rfl) | rfl <;> decide

/-- No letter, digit, quotation mark or operator is blank: a blank of ASCII is a control character
or the space. -/
theorem not_isBlank_of_lt {c : Char} (h : 0x20 < c.toNat) (h' : c.toNat < 0x85) :
    isBlank c = false := by
  simp only [isBlank, Bool.or_eq_false_iff, Bool.and_eq_false_iff, decide_eq_false_iff_not,
    beq_eq_false_iff_ne]
  omega

/-- Drop the blanks at the end. -/
def trimEnd (cs : List Char) : List Char := (cs.reverse.dropWhile isBlank).reverse

/-- Drop the blanks at both ends. -/
def trim (cs : List Char) : List Char := trimEnd (cs.dropWhile isBlank)

end ExprLang.Text
