import ExprLang.Proofs.Locality

/-!
# Places make no difference

The parser looks at the kinds and the values of the tokens, and never at where they are.  So two
lists of tokens that differ in their places only are parsed as the same program, and what is found
in them is about the same tokens.  Here the end may also stand among the tokens: the parser can come
past it after an error.

## Main definitions

* `Token.Alike`, `Diagnostic.Alike` — tokens that differ in their places only, and diagnostics about
  such tokens.

## Main results

* `readProgram_ofTokens` — a list of tokens is read like its tokens with numbers for their places.
* `parse_alike` — lists of tokens that are alike are parsed alike.
-/

namespace ExprLang

open ExprLang.Action State Form
open Grammar (standard)

/-! ### The same tokens at other places -/

/-- The two tokens are of the same kind and have the same value, wherever they are. -/
structure Token.Alike (t u : Token) : Prop where
  kind_eq : t.kind = u.kind
  value_eq : t.value = u.value

/-- The two diagnostics have the same cause, and they are about tokens with the same number, each in
its own list. -/
structure Diagnostic.Alike (ts us : List Token) (d e : Diagnostic) : Prop where
  cause_eq : d.cause = e.cause
  position : ∃ i, d.position = placeOf ts i ∧ e.position = placeOf us i

/-- With numbers for their places, tokens that are alike are the same. -/
theorem numberedFrom_eq {ts us : List Token} (h : List.Forall₂ Token.Alike ts us) (i : Nat) :
    numberedFrom i ts = numberedFrom i us := by
  induction h generalizing i with
  | nil => rfl
  | cons ht _ ih => rw [numberedFrom, numberedFrom, ht.kind_eq, ht.value_eq, ih]

theorem State.numbered_eq {ts us : List Token} (h : List.Forall₂ Token.Alike ts us) :
    State.numbered ts = State.numbered us := by
  rw [numbered, numbered, numberedFrom_eq h, h.length_eq]

/-! ### Numbers and places -/

/-- The run on numbered tokens, and the run on these tokens alone. -/
def Sequel.alone (ts : List Token) : Sequel where
  count := ts.length
  place := placeOf ts
  more := []
  stop := (ts.getLast?.map (·.span.stop)).getD .nowhere
  before := []
  head_more := by simp
  place_count _ := by
    rw [placeOf, List.getElem?_eq_none (Nat.le_refl _)]
    rfl
  early := True
  more_of_early _ := rfl

theorem Sequel.twins_alone (ts : List Token) :
    (Sequel.alone ts).Twins (.numbered ts) (.ofSource (.ofTokens ts)) where
  cursor := by
    refine ⟨numberedFrom 0 ts, ts, rfl, ?_, forall₂_sameToken rfl (absurd trivial) rfl, ?_⟩
    · rw [show (Sequel.alone ts).more = [] from rfl, List.append_nil]
      rfl
    · exact absurd rfl
  diagnostics := ⟨[], rfl, .nil⟩

/-- A list of tokens is read as the program that its tokens are read as when they have numbers for
their places.  What is found is the same, too, at the places of the tokens. -/
theorem readProgram_ofTokens {ts : List Token} {p : Program} {t : State}
    (hp : (program standard (.counting standard maxNesting)).run (.numbered ts) = (.ok p, t)) :
    ∃ u, readProgram.run (.ofSource (.ofTokens ts)) = (.ok p, u) ∧
      u.diagnostics = (blames ts).map (Blame.diagnostic ts) := by
  rcases (Sequel.twins_alone ts).program (Sequel.mirrors_ofRoom maxNesting) with ⟨hne, -⟩ |
    ⟨p', t₁, t', hp', heof, twins, hrest⟩
  · exact absurd rfl hne
  · rw [hp] at hp'
    obtain ⟨hpp, rfl⟩ := Prod.mk.inj hp'
    obtain rfl := Except.ok.inj hpp
    -- where the first run ends, the second one ends too
    have hend : t'.current.kind = .eof := by rw [(twins.current_eq (.inl rfl)).1, heof]
    obtain ⟨ds, hds, hdiag⟩ := twins.diagnostics
    refine ⟨t', ?_, ?_⟩
    · rw [hrest [] t' (readProgram_of_eof hend), List.append_nil]
    · rw [hds, Sequel.diagnostics_eq rfl hdiag, blames, hp]
      rfl

/-- Lists of tokens that differ in their places only are parsed as the same program.  What is found
in the one is found in the other, in the same order and about the same tokens. -/
theorem parse_alike {ts us : List Token} (h : List.Forall₂ Token.Alike ts us) :
    (parse (.ofTokens ts)).program = (parse (.ofTokens us)).program ∧
      List.Forall₂ (Diagnostic.Alike ts us) (parse (.ofTokens ts)).diagnostics
        (parse (.ofTokens us)).diagnostics := by
  obtain ⟨p, t, hp⟩ := run_program_isOk standard (.counting standard maxNesting) (.numbered ts)
  obtain ⟨u, hu, hdu⟩ := readProgram_ofTokens hp
  obtain ⟨v, hv, hdv⟩ := readProgram_ofTokens (State.numbered_eq h ▸ hp)
  have hblames : blames us = blames ts := by rw [blames, blames, State.numbered_eq h]
  rw [parse_eq hu, parse_eq hv, hdu, hdv, hblames]
  refine ⟨rfl, ?_⟩
  rw [List.forall₂_map_left_iff, List.forall₂_map_right_iff, List.forall₂_same]
  intro b _
  exact ⟨rfl, b.index, rfl, rfl⟩

/-- A token that stands for the end after an open parenthesis, and one more statement after it. -/
theorem parse_alike_end_inside :
    let span (i : Nat) : Span := ⟨.at i "a", .at (i + 1) "a"⟩
    let ts : List Token :=
      [⟨.openParen, "(", default⟩, ⟨.eof, "", default⟩, ⟨.letWord, "let", default⟩]
    let us : List Token :=
      [⟨.openParen, "(", span 0⟩, ⟨.eof, "", span 4⟩, ⟨.letWord, "let", span 7⟩]
    List.Forall₂ Token.Alike ts us ∧
      (parse (.ofTokens us)).diagnostics =
        [⟨.noExpression .eof, .at 4 "a"⟩, ⟨.unexpected .ident .eof, .at 8 "a"⟩] ∧
      (parse (.ofTokens ts)).program = (parse (.ofTokens us)).program ∧
      List.Forall₂ (Diagnostic.Alike ts us) (parse (.ofTokens ts)).diagnostics
        (parse (.ofTokens us)).diagnostics := by
  intro span ts us
  have h : List.Forall₂ Token.Alike ts us :=
    .cons ⟨rfl, rfl⟩ (.cons ⟨rfl, rfl⟩ (.cons ⟨rfl, rfl⟩ .nil))
  exact ⟨h, by decide +kernel, parse_alike h⟩

end ExprLang
