import ExprLang.Token.Lexeme

/-!
# Trivia

What the scanner passes over between two lexemes is told here without the scanner: blanks, and
comments each with the newline that ends it.  Only at the end of a text may a comment go without
one.  The scanner splits off just such trivia, and all that there are.

## Main definitions

* `Trivia` — blanks and comments between lexemes.
* `TrailingTrivia` — blanks and comments at the end of a text.
* `BeginsTrivia` — texts that begin with a blank or a comment.

## Main results

* `splitTrivia_cases` — what is split off is trivia.
* `not_isBlank_of_splitTrivia` — what is left does not begin with a blank.
* `Trivia.splitTrivia_append` — trivia in front of other text are split off to the last character.
-/

namespace ExprLang

open Text

/-! ### Blanks and comments -/

/-- Blanks, and comments with the newlines that end them. -/
inductive Trivia : List Char → Prop where
  | nil : Trivia []
  | blank {c : Char} {cs : List Char} : isBlank c = true → Trivia cs → Trivia (c :: cs)
  | comment {body cs : List Char} :
      '\n' ∉ body → Trivia cs → Trivia ('/' :: '/' :: body ++ '\n' :: cs)

/-- Trivia at the end of a text.  The last comment may end with the text. -/
def TrailingTrivia (cs : List Char) : Prop :=
  Trivia cs ∨ ∃ before body, cs = before ++ '/' :: '/' :: body ∧ Trivia before ∧ '\n' ∉ body

/-- A text that begins with a blank or a comment. -/
def BeginsTrivia : List Char → Prop
  | [] => False
  | c :: cs => isBlank c = true ∨ c = '/' ∧ cs.head? = some '/'

theorem Trivia.trailing {cs : List Char} (h : Trivia cs) : TrailingTrivia cs := .inl h

theorem TrailingTrivia.blank {c : Char} {cs : List Char} (hc : isBlank c = true)
    (h : TrailingTrivia cs) : TrailingTrivia (c :: cs) := by
  rcases h with h | ⟨before, body, rfl, hbefore, hbody⟩
  · exact .inl (.blank hc h)
  · exact .inr ⟨c :: before, body, rfl, .blank hc hbefore, hbody⟩

theorem TrailingTrivia.comment {body cs : List Char} (hbody : '\n' ∉ body)
    (h : TrailingTrivia cs) : TrailingTrivia ('/' :: '/' :: body ++ '\n' :: cs) := by
  rcases h with h | ⟨before, body', rfl, hbefore, hbody'⟩
  · exact .inl (.comment hbody h)
  · exact .inr
      ⟨'/' :: '/' :: body ++ '\n' :: before, body', by simp, .comment hbody hbefore, hbody'⟩

/-- Trivia begin with a blank or a comment, if there are any. -/
theorem Trivia.begins {cs rest : List Char} (h : Trivia cs) (hne : cs ≠ []) :
    BeginsTrivia (cs ++ rest) := by
  cases h with
  | nil => exact absurd rfl hne
  | blank hc _ => exact .inl hc
  | comment _ _ => exact .inr ⟨rfl, rfl⟩

theorem TrailingTrivia.begins {cs : List Char} (h : TrailingTrivia cs) (hne : cs ≠ []) :
    BeginsTrivia cs := by
  rcases h with h | ⟨before, body, rfl, hbefore, -⟩
  · have hbegins := @Trivia.begins _ [] h hne
    rwa [List.append_nil] at hbegins
  · cases before with
    | nil => exact .inr ⟨rfl, rfl⟩
    | cons c before => exact hbefore.begins (by simp)

/-! ### What is split off -/

/-- Inside a comment, the comment goes on to the next newline, and what is split off after it is the
same as outside. -/
theorem splitTrivia_comment {body : List Char} (h : '\n' ∉ body) (cs : List Char) :
    splitTrivia true (body ++ '\n' :: cs) =
      (body ++ '\n' :: (splitTrivia false cs).1, (splitTrivia false cs).2) := by
  induction body with
  | nil => rfl
  | cons c body ih =>
    obtain ⟨hc, hbody⟩ := List.ne_and_not_mem_of_not_mem_cons h
    have hinside : (c != '\n') = true := by
      rw [bne_iff_ne]
      exact Ne.symm hc
    rw [List.cons_append, splitTrivia, hinside, ih hbody, List.cons_append]

/-- Without a newline the comment goes on to the end of the text. -/
theorem splitTrivia_comment_end {body : List Char} (h : '\n' ∉ body) :
    splitTrivia true body = (body, []) := by
  induction body with
  | nil => rfl
  | cons c body ih =>
    obtain ⟨hc, hbody⟩ := List.ne_and_not_mem_of_not_mem_cons h
    have hinside : (c != '\n') = true := by
      rw [bne_iff_ne]
      exact Ne.symm hc
    rw [splitTrivia, hinside, ih hbody]

theorem splitTrivia_blank {c : Char} (hc : isBlank c = true) (cs : List Char) :
    splitTrivia false (c :: cs) = (c :: (splitTrivia false cs).1, (splitTrivia false cs).2) := by
  rw [splitTrivia, if_pos hc]

theorem splitTrivia_slashes (cs : List Char) :
    splitTrivia false ('/' :: '/' :: cs) =
      ('/' :: '/' :: (splitTrivia true cs).1, (splitTrivia true cs).2) := by
  rw [splitTrivia, if_neg (by decide), if_pos ⟨rfl, rfl⟩, splitTrivia]
  rfl

/-- Where neither a blank nor a comment begins, nothing is split off. -/
theorem splitTrivia_of_not_begins {cs : List Char} (h : ¬ BeginsTrivia cs) :
    splitTrivia false cs = ([], cs) := by
  cases cs with
  | nil => rfl
  | cons c cs =>
    rw [splitTrivia, if_neg fun hc => h (.inl hc), if_neg fun hslash => h (.inr hslash)]

/-- Trivia in front of other text are split off to the last character. -/
theorem Trivia.splitTrivia_append {gap : List Char} (h : Trivia gap) (cs : List Char) :
    splitTrivia false (gap ++ cs) =
      (gap ++ (splitTrivia false cs).1, (splitTrivia false cs).2) := by
  induction h with
  | nil => rfl
  | blank hc _ ih => rw [List.cons_append, splitTrivia_blank hc, ih, List.cons_append]
  | @comment body gap hbody _ ih =>
    simp only [List.cons_append, List.append_assoc]
    rw [splitTrivia_slashes, splitTrivia_comment hbody, ih]

/-- At the end of a text all trivia are split off, and nothing is left. -/
theorem TrailingTrivia.splitTrivia_eq {gap : List Char} (h : TrailingTrivia gap) :
    splitTrivia false gap = (gap, []) := by
  rcases h with h | ⟨before, body, rfl, hbefore, hbody⟩
  · have hsplit := h.splitTrivia_append []
    rwa [List.append_nil, splitTrivia, List.append_nil] at hsplit
  · rw [hbefore.splitTrivia_append, splitTrivia_slashes, splitTrivia_comment_end hbody]

/-! ### What is split off is trivia -/

/-- Where the trivia at the start of a text end, there is no blank. -/
theorem not_isBlank_of_splitTrivia {inside : Bool} {cs rest : List Char} {c : Char}
    (h : (splitTrivia inside cs).2 = c :: rest) : isBlank c = false := by
  induction cs generalizing inside with
  | nil => cases inside <;> simp [splitTrivia] at h
  | cons a cs ih =>
    cases inside with
    | true => exact ih h
    | false =>
      rw [splitTrivia] at h
      split at h
      · exact ih h
      · next ha =>
        split at h
        · exact ih h
        · obtain ⟨rfl, -⟩ := List.cons.inj h
          exact Bool.eq_false_iff.mpr ha

/-- What is split off is trivia, and if nothing is left then the last comment may go without a
newline. -/
theorem splitTrivia_cases (cs : List Char) :
    Trivia (splitTrivia false cs).1 ∨
      (splitTrivia false cs).2 = [] ∧ TrailingTrivia (splitTrivia false cs).1 := by
  generalize hn : cs.length = n
  induction n using Nat.strongRecOn generalizing cs with
  | ind n ih =>
    by_cases hbegins : BeginsTrivia cs
    · rcases cs with _ | ⟨c, cs⟩
      · exact hbegins.elim
      · rcases hbegins with hc | ⟨rfl, hslash⟩
        · rw [splitTrivia_blank hc]
          have hlt : cs.length < n := by rw [← hn, List.length_cons]; omega
          exact (ih _ hlt cs rfl).imp (.blank hc) fun h => ⟨h.1, h.2.blank hc⟩
        · obtain ⟨cs, rfl⟩ := List.head?_eq_some_iff.mp hslash
          rw [splitTrivia_slashes]
          -- the comment ends at the first newline, or else with the text
          by_cases hmem : '\n' ∈ cs
          · obtain ⟨body, rest, rfl, hbody⟩ := List.eq_append_cons_of_mem hmem
            rw [splitTrivia_comment hbody]
            have hlt : rest.length < n := by
              rw [← hn]
              simp only [List.length_cons, List.length_append]
              omega
            exact (ih _ hlt rest rfl).imp (.comment hbody) fun h => ⟨h.1, h.2.comment hbody⟩
          · rw [splitTrivia_comment_end hmem]
            exact .inr ⟨rfl, .inr ⟨[], cs, rfl, .nil, hmem⟩⟩
    · rw [splitTrivia_of_not_begins hbegins]
      exact .inl .nil

end ExprLang
