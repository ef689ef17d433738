/-!
# Reading integers

An integer is an optional sign and at least one decimal digit of ASCII, and nothing else.  Only the
integers of 64 bits are read; leading zeros do not count towards the limit.

## Main definitions

* `digitsValue? ds` — the number that a run of digits denotes.
* `readInteger? s` — the integer that a text denotes, if it denotes one of 64 bits.
-/

namespace ExprLang.Text

/-- The smallest integer of 64 bits. -/
def minInteger : Int := -9223372036854775808

/-- The largest integer of 64 bits. -/
def maxInteger : Int := 9223372036854775807

/-- The number that a list of digits denotes, most significant digit first. -/
def digitsValue (ds : List Char) : Nat := ds.foldl (fun n d => 10 * n + (d.toNat - '0'.toNat)) 0

/-- The number that a list of characters denotes, if it is a run of digits and not empty. -/
def digitsValue? (ds : List Char) : Option Nat :=
  if !ds.isEmpty && ds.all Char.isDigit then some (digitsValue ds) else none

/-- The integer that a list of characters denotes, whatever its size. -/
def signedValue? : List Char → Option Int
  | '-' :: ds => (digitsValue? ds).map fun n => -(n : Int)
  | '+' :: ds => (digitsValue? ds).map Int.ofNat
  | ds => (digitsValue? ds).map Int.ofNat

/-- The integer that a text denotes, if it denotes one that fits into 64 bits. -/
def readInteger? (s : String) : Option Int :=
  (signedValue? s.toList).filter fun n => minInteger ≤ n && n ≤ maxInteger

/-- A run of digits denotes its number, whatever its size. -/
theorem signedValue?_of_digits {ds : List Char} (hne : ds ≠ [])
    (h : ∀ c ∈ ds, c.isDigit = true) : signedValue? ds = some (digitsValue ds : Int) := by
  have hvalue : digitsValue? ds = some (digitsValue ds) := by
    rw [digitsValue?, if_pos]
    simpa [hne] using h
  unfold signedValue?
  split
  · exact absurd (h '-' List.mem_cons_self) (by decide)
  · exact absurd (h '+' List.mem_cons_self) (by decide)
  · rw [hvalue]
    rfl

/-- What is read fits into 64 bits. -/
theorem le_of_readInteger? {s : String} {n : Int} (h : readInteger? s = some n) :
    minInteger ≤ n ∧ n ≤ maxInteger := by
  simpa using (Option.filter_eq_some_iff.mp h).2

/-- A run of digits that is not read is too large. -/
theorem lt_of_readInteger?_eq_none {s : String} (hne : s.toList ≠ [])
    (hs : ∀ c ∈ s.toList, c.isDigit = true) (h : readInteger? s = none) :
    maxInteger < digitsValue s.toList := by
  rw [readInteger?, signedValue?_of_digits hne hs, Option.filter_eq_none_iff] at h
  have hlarge := h _ rfl
  simp only [Bool.and_eq_true, decide_eq_true_eq, not_and, Int.not_le] at hlarge
  exact hlarge (Int.le_trans (by decide) (Int.natCast_nonneg _))

end ExprLang.Text
