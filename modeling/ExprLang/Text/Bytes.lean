/-!
# Measuring text in bytes

A source text is read as a list of characters, while positions count the bytes that these
characters take in UTF-8.

## Main definitions

* `byteSize cs` — the bytes that the characters `cs` take.
* `skipBytes n cs` — what is left of `cs` after as many whole characters as fit into `n` bytes.

## Main results

* `byteSize_toList` — `byteSize` counts the bytes of a string.
* `exists_append_of_byteSize_le` — places in a text are told apart by their bytes.
* `skipBytes_add` — skipping accounts for every byte.
-/

namespace ExprLang.Text

/-- The number of bytes that a list of characters takes in UTF-8. -/
def byteSize : List Char → Nat
  | [] => 0
  | c :: cs => c.utf8Size + byteSize cs

@[simp] theorem byteSize_nil : byteSize [] = 0 := rfl

@[simp] theorem byteSize_cons (c : Char) (cs : List Char) :
    byteSize (c :: cs) = c.utf8Size + byteSize cs := rfl

@[simp] theorem byteSize_append (cs ds : List Char) :
    byteSize (cs ++ ds) = byteSize cs + byteSize ds := by
  induction cs with
  | nil => simp
  | cons c cs ih => simp [ih, Nat.add_assoc]

theorem length_le_byteSize (cs : List Char) : cs.length ≤ byteSize cs := by
  induction cs with
  | nil => simp
  | cons c cs ih =>
    have := c.utf8Size_pos
    simp only [List.length_cons, byteSize_cons]
    omega

/-- Two ways to cut a text in two, the first of them not behind the second. -/
theorem exists_append_of_byteSize_le {as bs cs ds : List Char} (h : as ++ bs = cs ++ ds)
    (hle : byteSize as ≤ byteSize cs) : ∃ mid, cs = as ++ mid ∧ bs = mid ++ ds := by
  rcases List.append_eq_append_iff.mp h with hmid | ⟨mid, rfl, rfl⟩
  · exact hmid
  · -- then nothing is between the two places
    rw [byteSize_append] at hle
    have hlength := length_le_byteSize mid
    obtain rfl : mid = [] := List.length_eq_zero_iff.mp (by omega)
    exact ⟨[], by simp, rfl⟩

/-- The characters of a string take the bytes that the string has. -/
@[simp] theorem byteSize_toList (s : String) : byteSize s.toList = s.utf8ByteSize := by
  suffices h : ∀ cs, byteSize cs = (String.ofList cs).utf8ByteSize by
    rw [h, String.ofList_toList]
  intro cs
  induction cs with
  | nil => simp
  | cons c cs ih =>
    -- the bytes of the first character and those of the others
    rw [show c :: cs = [c] ++ cs from rfl, String.ofList_append, String.utf8ByteSize_append, ← ih,
      ← String.singleton_eq_ofList, String.utf8ByteSize_singleton]
    simp

/-- Drop as many whole characters as fit into `n` bytes.  The first component is the number of
bytes that did not make up a whole character. -/
def skipBytes : Nat → List Char → Nat × List Char
  | n, [] => (n, [])
  | n, c :: cs => if c.utf8Size ≤ n then skipBytes (n - c.utf8Size) cs else (n, c :: cs)

/-- Skipping accounts for every byte: those it leaves over and those it dropped add up. -/
theorem skipBytes_add (n : Nat) (cs : List Char) :
    (skipBytes n cs).1 + byteSize cs = n + byteSize (skipBytes n cs).2 := by
  induction cs generalizing n with
  | nil => simp [skipBytes]
  | cons c cs ih =>
    rw [skipBytes]
    split
    · have := ih (n - c.utf8Size)
      simp only [byteSize_cons]
      omega
    · simp

/-- Skipping leaves over at most the bytes that it was asked to skip. -/
theorem skipBytes_fst_le (n : Nat) (cs : List Char) : (skipBytes n cs).1 ≤ n := by
  induction cs generalizing n with
  | nil => simp [skipBytes]
  | cons c cs ih =>
    rw [skipBytes]
    split
    · exact Nat.le_trans (ih _) (Nat.sub_le _ _)
    · simp

/-- Skipping a prefix of the text drops just that prefix. -/
@[simp] theorem skipBytes_append (cs ds : List Char) :
    skipBytes (byteSize cs) (cs ++ ds) = skipBytes 0 ds := by
  induction cs with
  | nil => rfl
  | cons c cs ih => simp [skipBytes, ih]

@[simp] theorem skipBytes_zero (cs : List Char) : skipBytes 0 cs = (0, cs) := by
  cases cs with
  | nil => rfl
  | cons c cs =>
    have := c.utf8Size_pos
    rw [skipBytes, if_neg (by omega)]

end ExprLang.Text
