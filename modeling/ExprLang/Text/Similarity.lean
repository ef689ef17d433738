/-!
# How similar two words are

Two words are the more similar, the more characters they share at about the same place, and the
fewer of these come in another order.  A character of one word is matched with the first equal and
still unmatched character of the other one, within half the length of the longer word.  The
similarity is the mean of three shares: of the matched characters among those of each word, and of
the ones that keep their order among the matched.

## Main definitions

* `similarity a b` — a number between zero and one.
* `mostSimilar? word candidates` — the candidate that is meant, if one is similar enough.
-/

namespace ExprLang.Text

/-- Match `c` with the first equal and unmatched character at a place from `low` up to `high`.
The places of the list are counted from `place`, and the flags tell which of its characters are
matched. -/
def claim (c : Char) (low high : Nat) : Nat → List (Char × Bool) → Option (List (Char × Bool))
  | _, [] => none
  | place, (d, taken) :: ds =>
    -- no place from here on is within reach
    if high < place then none
    else if low ≤ place && !taken && d == c then some ((d, true) :: ds)
    else (claim c low high (place + 1) ds).map ((d, taken) :: ·)

/-- Match the characters of a word, whose places are counted from `place`, with those of another
one.  The result holds the matched characters of the first word, and the second word with its
flags. -/
def claimAll (reach : Nat) : Nat → List Char → List (Char × Bool) → List Char × List (Char × Bool)
  | _, [], ds => ([], ds)
  | place, c :: cs, ds =>
    match claim c (place - reach) (place + reach) 0 ds with
    | some ds' =>
      let p := claimAll reach (place + 1) cs ds'
      (c :: p.1, p.2)
    | none => claimAll reach (place + 1) cs ds

/-- How similar two words are. -/
def similarity (a b : List Char) : Float :=
  let reach := max a.length b.length / 2 - 1
  let p := claimAll reach 0 a (b.map fun c => (c, false))
  let matched := p.1.length
  let others := (p.2.filter (·.2)).map (·.1)
  -- two characters that have changed places count as one move
  let moved := ((p.1.zip others).filter fun q => q.1 != q.2).length / 2
  if a.isEmpty && b.isEmpty then 1
  else if matched = 0 then 0
  else
    (matched.toFloat / a.length.toFloat + matched.toFloat / b.length.toFloat +
      (matched - moved).toFloat / matched.toFloat) / 3

/-- The similarity from which on a word is taken for a misspelling of another. -/
def similarityLimit : Float := 0.7

/-- The most similar of some candidates, if any is similar enough.  Of equally similar ones this
is the last. -/
def mostSimilar? (word : String) (candidates : List String) : Option String :=
  let rated := candidates.map fun c => (similarity word.toList c.toList, c)
  let step (best : Option (Float × String)) (p : Float × String) : Option (Float × String) :=
    match best with
    | none => some p
    | some q => if p.1 < q.1 then best else some p
  ((rated.filter fun p => similarityLimit < p.1).foldl step none).map (·.2)

end ExprLang.Text
