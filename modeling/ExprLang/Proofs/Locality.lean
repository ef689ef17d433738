import ExprLang.Proofs.Mirrors

/-!
# Statements are read one after another

What the parser makes of a list of tokens that ends in a semicolon does not depend on what comes
after them, even if some of the statements cannot be read, as long as it does not miss anything at
the end.  So two such lists can be parsed apart.

## Main results

* `diagnostics_parse_ofTokens` — the diagnostics of a list of tokens are its blames, at the places
  of the tokens.
* `parse_append` — parsing two lists one after the other.
-/

namespace ExprLang

open ExprLang.Action State Form
open Grammar (standard)

/-! ### The two runs over a list of tokens -/

/-- The run on numbered tokens, and a run on these tokens with their places and more after them. -/
def Sequel.ofTokens (ts more : List Token) (before : List Diagnostic)
    (hmore : ∀ t ∈ more.head?, t.kind ≠ .semicolon) : Sequel where
  count := ts.length
  place := placeOf ts
  more := more
  stop := ((ts ++ more).getLast?.map (·.span.stop)).getD .nowhere
  before := before
  head_more := hmore
  place_count h := by
    rw [h, List.append_nil, placeOf, List.getElem?_eq_none (Nat.le_refl _)]
    rfl
  early := False
  more_of_early := False.elim

/-- The same tokens with numbers and with places. -/
theorem Sequel.forall₂_sameToken {Q : Sequel} {ts : List Token} (hQ : Q.place = placeOf ts)
    (h : ¬ Q.early → ∀ t ∈ ts, t.kind ≠ .eof) :
    ∀ {i : Nat} {rest : List Token}, ts.drop i = rest →
      List.Forall₂ Q.SameToken (numberedFrom i rest) rest
  | i, [], _ => .nil
  | i, t :: rest, hrest => by
    have hget : ts[i]? = some t := by rw [← List.head?_drop, hrest, List.head?_cons]
    refine .cons ⟨rfl, rfl, ?_, fun he => h he t (List.mem_of_getElem? hget)⟩
      (forall₂_sameToken hQ h (by rw [← List.tail_drop, hrest, List.tail_cons]))
    show t.span.start = Q.place (Position.tally i).index
    rw [Position.index_tally, hQ, placeOf, hget]
    rfl

theorem getLast?_numberedFrom (ts : List Token) (i : Nat) :
    (numberedFrom i ts).getLast?.map Token.kind = ts.getLast?.map Token.kind := by
  induction ts generalizing i with
  | nil => rfl
  | cons t ts ih =>
    cases ts with
    | nil => rfl
    | cons u ts =>
      rw [numberedFrom, numberedFrom, List.getLast?_cons_cons, List.getLast?_cons_cons]
      exact ih (i + 1)

/-- At the first token the two runs are at the same token. -/
theorem Sequel.twins_ofTokens {ts more : List Token} (h : ∀ t ∈ ts, t.kind ≠ .eof)
    (hlast : more ≠ [] → ∀ t ∈ ts.getLast?, t.kind = .semicolon)
    (hmore : ∀ t ∈ more.head?, t.kind ≠ .semicolon) (before : List Diagnostic) :
    (Sequel.ofTokens ts more before hmore).Twins (.numbered ts)
      ⟨.ofSource (.ofTokens (ts ++ more)), before⟩ where
  cursor := by
    refine ⟨numberedFrom 0 ts, ts, rfl, rfl, forall₂_sameToken rfl (fun _ => h) rfl, ?_⟩
    intro hne t ht
    have hkinds := getLast?_numberedFrom ts 0
    rw [ht] at hkinds
    obtain ⟨u, hu, hk⟩ := Option.map_eq_some_iff.mp hkinds.symm
    rw [← hk]
    exact hlast hne u hu
  diagnostics := ⟨[], (List.append_nil before).symm, .nil⟩

/-! ### Parsing two lists -/

/-- Reading a program with all the levels that there are. -/
abbrev readProgram : Action Program := program standard (.ofRoom standard maxNesting)

/-- The same diagnostics, by their numbers and by their places. -/
theorem Sequel.diagnostics_eq {Q : Sequel} {ts : List Token} (hQ : Q.place = placeOf ts)
    {ds ds' : List Diagnostic} (h : List.Forall₂ Q.Same ds ds') :
    ds' = (ds.map Diagnostic.blame).map (Blame.diagnostic ts) := by
  induction h with
  | nil => rfl
  | @cons d d' ds ds' hd _ ih =>
    rw [List.map_cons, List.map_cons, ← ih]
    congr 1
    rcases d' with ⟨cause, position⟩
    obtain ⟨hc, hp⟩ := hd
    rw [Blame.diagnostic, Diagnostic.blame]
    simp_all

/-- The statements of a list of tokens, and then what is read from the tokens after it.  All that is
found in the list is told before. -/
theorem exists_readProgram {ts : List Token} (h : ∀ t ∈ ts, t.kind ≠ .eof) :
    ∃ p, ∀ more before, (∀ t ∈ more.head?, t.kind ≠ .semicolon) →
      (more ≠ [] → (∀ t ∈ ts.getLast?, t.kind = .semicolon) ∧
        ∀ b ∈ blames ts, b.index ≠ ts.length) →
      ∀ q u, readProgram.run
          ⟨.ofSource (.list more (((ts ++ more).getLast?.map (·.span.stop)).getD .nowhere)),
            before ++ (blames ts).map (Blame.diagnostic ts)⟩ = (.ok q, u) →
        readProgram.run ⟨.ofSource (.ofTokens (ts ++ more)), before⟩ = (.ok (p ++ q), u) := by
  obtain ⟨p, t, hp⟩ := run_program_isOk standard (.counting standard maxNesting) (.numbered ts)
  have hblames : blames ts = t.diagnostics.map Diagnostic.blame := by rw [blames, hp]
  refine ⟨p, fun more before hmore hts q u hq => ?_⟩
  have htwins := Sequel.twins_ofTokens h (fun hne => (hts hne).1) hmore before
  rcases htwins.program (Sequel.mirrors_ofRoom maxNesting) with ⟨hne, d, hd, hindex⟩ |
    ⟨p', t₁, t', hp', heof, twins, hrest⟩
  · -- the first run found something at its end
    rw [hp, told_ok] at hd
    exact absurd hindex ((hts hne).2 d.blame (hblames ▸ List.mem_map_of_mem hd))
  · rw [hp] at hp'
    obtain ⟨hpp, rfl⟩ := Prod.mk.inj hp'
    obtain rfl := Except.ok.inj hpp
    obtain ⟨us, us', hs, hs', hsame, -⟩ := twins.cursor
    obtain ⟨ds, hds, hdiag⟩ := twins.diagnostics
    rw [Sequel.diagnostics_eq rfl hdiag, ← hblames] at hds
    -- the first run has passed all its tokens
    cases hsame with
    | cons ht _ =>
      rw [current, hs] at heof
      exact absurd heof (ht.kind_ne id)
    | nil =>
      refine hrest q u (Eq.trans ?_ hq)
      obtain ⟨cursor, diagnostics⟩ := t'
      obtain rfl : cursor = _ := hs'
      obtain rfl : diagnostics = _ := hds
      rfl

/-- The end is read as a program without statements. -/
theorem readProgram_of_eof {s : State} (h : s.current.kind = .eof) :
    readProgram.run s = (.ok [], s) := by
  have hend : (programEntries (.ofRoom standard maxNesting)).run s = (.ok [], s) := by
    rw [run_programEntries, if_pos h]
  rw [run_program, run_bind_of_ok hend]
  rfl

theorem readProgram_nil (stop : Position) (ds : List Diagnostic) :
    readProgram.run ⟨.ofSource (.list [] stop), ds⟩ = (.ok [], ⟨.ofSource (.list [] stop), ds⟩) :=
  readProgram_of_eof rfl

/-- A list of tokens is read as the same program whatever has been found before, and what is found
are its blames, at the places of the tokens. -/
theorem exists_readProgram_ofTokens {ts : List Token} (h : ∀ t ∈ ts, t.kind ≠ .eof) :
    ∃ p, ∀ before, ∃ u, readProgram.run ⟨.ofSource (.ofTokens ts), before⟩ = (.ok p, u) ∧
      u.diagnostics = before ++ (blames ts).map (Blame.diagnostic ts) := by
  obtain ⟨p, hp⟩ := exists_readProgram h
  refine ⟨p, fun before => ?_⟩
  have hrun := hp [] before (by simp) (by simp) [] _ (readProgram_nil _ _)
  rw [List.append_nil, List.append_nil] at hrun
  exact ⟨_, hrun, rfl⟩

/-- The diagnostics of a list of tokens are its blames, at the places of the tokens. -/
theorem diagnostics_parse_ofTokens {ts : List Token} (h : ∀ t ∈ ts, t.kind ≠ .eof) :
    (parse (.ofTokens ts)).diagnostics = (blames ts).map (Blame.diagnostic ts) := by
  obtain ⟨p, hp⟩ := exists_readProgram_ofTokens h
  obtain ⟨u, hu, hds⟩ := hp []
  rw [parse_eq hu]
  exact hds

/-- Two lists of tokens of which the first ends in a semicolon, and the second does not begin with
one, are parsed apart: what is made of them together are the statements and the diagnostics of the
first and then those of the second.  Only at the end of the first list nothing may be found, since
there the second one would go on with what is still open. -/
theorem parse_append {as bs : List Token} (ha : ∀ t ∈ as, t.kind ≠ .eof)
    (hb : ∀ t ∈ bs, t.kind ≠ .eof) (hlast : as.getLast?.map Token.kind = some .semicolon)
    (hend : ∀ b ∈ blames as, b.index ≠ as.length) (hhead : ∀ t ∈ bs.head?, t.kind ≠ .semicolon) :
    parse (.ofTokens (as ++ bs)) =
      ⟨(parse (.ofTokens as)).program ++ (parse (.ofTokens bs)).program,
        (parse (.ofTokens as)).diagnostics ++ (parse (.ofTokens bs)).diagnostics⟩ := by
  have hsemicolon : ∀ t ∈ as.getLast?, t.kind = .semicolon := by
    intro t ht
    rw [ht] at hlast
    exact Option.some.inj hlast
  obtain ⟨p, hp⟩ := exists_readProgram ha
  obtain ⟨q, hq⟩ := exists_readProgram_ofTokens hb
  -- the second list on its own, and after all that is found in the first
  obtain ⟨u, hu, hdu⟩ := hq []
  obtain ⟨v, hv, hdv⟩ := hq ((blames as).map (Blame.diagnostic as))
  have hstop : Source.list bs (((as ++ bs).getLast?.map (·.span.stop)).getD .nowhere) =
      .ofTokens bs ∨ bs = [] := by
    cases bs with
    | nil => exact .inr rfl
    | cons b bs =>
      left
      rw [Source.ofTokens, List.getLast?_append_of_ne_nil _ (List.cons_ne_nil b bs)]
  have hfirst := hp [] [] (by simp) (by simp) [] _ (readProgram_nil _ _)
  rw [List.append_nil, List.append_nil] at hfirst
  rw [parse_eq hfirst]
  rcases hstop with hstop | rfl
  · have hboth := hp bs [] hhead (fun _ => ⟨hsemicolon, hend⟩) q v (by rw [hstop]; exact hv)
    rw [parse_eq hboth, parse_eq hu, hdu, hdv]
    rfl
  · have hnil : parse (.ofTokens []) = ⟨[], []⟩ := parse_eq (readProgram_nil _ _)
    rw [List.append_nil, parse_eq hfirst, hnil, List.append_nil, List.append_nil]

/-- A statement that cannot be read, one that can, and after them the same again. -/
theorem parse_append_assignments :
    let as : List Token := [⟨.letWord, "let", default⟩, ⟨.assign, "=", default⟩,
      ⟨.ident, "a", default⟩, ⟨.semicolon, ";", default⟩]
    parse (.ofTokens (as ++ as)) =
      ⟨(parse (.ofTokens as)).program ++ (parse (.ofTokens as)).program,
        (parse (.ofTokens as)).diagnostics ++ (parse (.ofTokens as)).diagnostics⟩ :=
  parse_append (by decide) (by decide) (by decide) (by decide +kernel) (by decide)

end ExprLang
