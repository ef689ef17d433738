import ExprLang.Parser.Action
import ExprLang.Proofs.Word

/-!
# Passing words

What the parser has read between two states is told by the words that it has passed.  A state is
taken to be *at* its current token, so the first word passed is that of the current token of the
first state, and the last one stands just before the current token of the second.

## Main definitions

* `State.Passes s ws t` — the tokens from the current one of `s` up to that of `t` are `ws`.

## Main results

* `State.passes_append` — passing words one part after another.
* `State.Passes.words_unique` — up to the end there is only one list of words to pass.
* `State.passes_ofTokens`, `State.passes_ofTokens_all` — a source that is a list of tokens lets its
  words be passed.
-/

namespace ExprLang

namespace State

/-- From the current token of the first state up to the current token of the second, not including
that one, the tokens amount to the given words, and the end of the source is not among them. -/
def Passes : State → List Word → State → Prop
  | s, [], t => t = s
  | s, w :: ws, t => s.current.kind ≠ .eof ∧ s.current.word = w ∧ s.advance.Passes ws t

@[simp] theorem passes_nil {s t : State} : s.Passes [] t ↔ t = s := Iff.rfl

theorem passes_cons {s t : State} {w : Word} {ws : List Word} :
    s.Passes (w :: ws) t ↔ s.current.kind ≠ .eof ∧ s.current.word = w ∧ s.advance.Passes ws t :=
  Iff.rfl

theorem passes_append {s u : State} {ws vs : List Word} :
    s.Passes (ws ++ vs) u ↔ ∃ t, s.Passes ws t ∧ t.Passes vs u := by
  induction ws generalizing s with
  | nil => simp
  | cons w ws ih =>
    simp only [List.cons_append, passes_cons, ih]
    constructor
    · rintro ⟨hk, hw, t, ht, hu⟩
      exact ⟨t, ⟨hk, hw, ht⟩, hu⟩
    · rintro ⟨t, ⟨hk, hw, ht⟩, hu⟩
      exact ⟨hk, hw, t, ht, hu⟩

theorem passes_append_cons {s u : State} {w : Word} {ws vs : List Word} :
    s.Passes (ws ++ w :: vs) u ↔ ∃ t, s.Passes (ws ++ [w]) t ∧ t.Passes vs u := by
  rw [List.append_cons, passes_append]

theorem passes_singleton {s t : State} {w : Word} :
    s.Passes [w] t ↔ s.current.kind ≠ .eof ∧ s.current.word = w ∧ t = s.advance := Iff.rfl

namespace Passes

variable {s t u : State} {w : Word} {ws vs : List Word}

theorem trans (h : s.Passes ws t) (h' : t.Passes vs u) : s.Passes (ws ++ vs) u :=
  passes_append.mpr ⟨t, h, h'⟩

theorem kind_eq (h : s.Passes (w :: ws) t) : s.current.kind = w.kind := by
  rw [← (passes_cons.mp h).2.1, Token.kind_word]

/-- The text of an operator and of a word whose kind leaves it open is that of the token. -/
theorem text_eq (h : s.Passes (w :: ws) t) (hw : w.kind.isOperator = true ∨ w.kind.text? = none) :
    s.current.value = w.text := by
  rw [← h.kind_eq] at hw
  rw [← (passes_cons.mp h).2.1, Token.text_word hw]

theorem head (h : s.Passes (w :: ws) t) : s.Passes [w] s.advance :=
  passes_singleton.mpr ⟨h.1, h.2.1, rfl⟩

theorem tail (h : s.Passes (w :: ws) t) : s.advance.Passes ws t := (passes_cons.mp h).2.2

/-- A token of a kind with one word only amounts to this word. -/
theorem of_kind {k : Kind} (hk : s.current.kind = k) (h : k.isMark = true) :
    s.Passes [.mark k] s.advance := by
  simp only [Kind.isMark, Bool.and_eq_true, bne_iff_ne, Bool.not_eq_eq_eq_not, Bool.not_true] at h
  obtain ⟨⟨heof, hop⟩, htext⟩ := h
  obtain ⟨text, htext⟩ := Option.isSome_iff_exists.mp htext
  refine passes_singleton.mpr ⟨hk ▸ heof, ?_, rfl⟩
  simp [Token.word, Word.mark, hk, hop, htext]

/-- Up to the end there is only one list of words to pass. -/
theorem words_unique (h : s.Passes ws t) (ht : t.current.kind = .eof) (h' : s.Passes vs u)
    (hu : u.current.kind = .eof) : ws = vs := by
  induction ws generalizing s vs with
  | nil =>
    rw [passes_nil.mp h] at ht
    cases vs with
    | nil => rfl
    | cons v vs => exact absurd ht h'.1
  | cons w ws ih =>
    cases vs with
    | nil =>
      rw [passes_nil.mp h'] at hu
      exact absurd hu h.1
    | cons v vs =>
      obtain ⟨-, hw, h⟩ := passes_cons.mp h
      obtain ⟨-, hv, h'⟩ := passes_cons.mp h'
      rw [← hw, ← hv, ih h h']

end Passes

theorem current_advance (s : State) : s.advance.current = s.lookahead := rfl

/-- A source of tokens lets the words of all tokens be passed that come before the end, and then it
is at its end. -/
theorem passes_ofTokens {ts rest : List Token} (h : ∀ t ∈ ts, t.kind ≠ .eof)
    (hrest : ∀ t ∈ rest.head?, t.kind = .eof) :
    ∃ d, (State.ofSource (.ofTokens (ts ++ rest))).Passes (ts.map Token.word) d ∧
      d.current.kind = .eof := by
  unfold Source.ofTokens
  generalize ((ts ++ rest).getLast?.map (·.span.stop)).getD .nowhere = stop
  have hend : (State.ofSource (.list rest stop)).current.kind = .eof := by
    cases rest with
    | nil => rfl
    | cons t rest => exact hrest t rfl
  refine ⟨State.ofSource (.list rest stop), ?_, hend⟩
  induction ts with
  | nil => rfl
  | cons t ts ih =>
    refine passes_cons.mpr ⟨h t List.mem_cons_self, rfl, ?_⟩
    exact ih fun x hx => h x (List.mem_cons_of_mem _ hx)

/-- A source of tokens, none of which stands for the end, lets the words of all of them be
passed. -/
theorem passes_ofTokens_all {ts : List Token} (h : ∀ t ∈ ts, t.kind ≠ .eof) :
    ∃ d, (State.ofSource (.ofTokens ts)).Passes (ts.map Token.word) d ∧ d.current.kind = .eof := by
  have hrest : ∀ t ∈ ([] : List Token).head?, t.kind = .eof := by simp
  have hpasses := passes_ofTokens h hrest
  rwa [List.append_nil] at hpasses

end State

end ExprLang
