import ExprLang.Proofs.Forms

/-!
# What is accepted is a spelling, or the beginning of one

What holds of the forms of expression holds of statements, and of lists of them.  So it holds of a
level if it holds of the level below, and at the bottom nothing is read at all.

## Main definitions

* `Form.SpellsClauses`, `Form.MaySpellClauses` — from the current token on, statements are spelled,
  or the beginning of some.

## Main results

* `Form.yields_program` — what is read of a program is spelled by statements, or the beginning of
  some.
* `Level.sound_ofRoom`, `Level.sound_counting` — every level is sound.
* `exists_clauses_of_isClean` — a source that is parsed without diagnostics is spelled by clauses.
-/

namespace ExprLang

open ExprLang.Action State
open Word (mark)
open Grammar (standard)

namespace Form

variable {L : Level} {n : Nat} {fair : Diagnostic → Prop} {s t : State}

/-! ### Statements -/

/-- From the current token on, a statement is passed, and it ends before the token after it. -/
def SpellsClause (s : State) (n : Nat) (c : Stmt) (t : State) : Prop :=
  ∃ d : Clause, d.tree = c ∧ s.Passes d.words t.advance ∧ d.EndsBefore t.lookahead.kind ∧
    ∀ v ∈ d.value?, v.Fits .lowest n

/-- The beginning of a statement is passed, which can be the last one of its list. -/
def MaySpellClause (s : State) (n : Nat) (d : Diagnostic) : Prop :=
  ∃ c : Clause, s.Completes d c.words ∧ c.EndsBefore .eof ∧ ∀ v ∈ c.value?, v.Fits .lowest n

theorem yields_semicolons (s : State) :
    semicolons.Yields s
      (fun _ t => ∃ m, s.advance.Passes (semicolonWords m) t.advance ∧
        t.lookahead.kind ≠ .semicolon ∧ (m = 0 → t = s))
      (fun _ => False) := by
  refine Yields.bind_pure ?_ (fun _ h => h) fun _ _ h => h
  apply Yields.repeatWhile (R := fun s _ u => s.advance.Passes [mark .semicolon] u.advance)
    (.of_lookahead (by decide))
  case hround =>
    intro s hs
    have hk : s.advance.current.kind = .semicolon := beq_iff_eq.mp hs
    exact .advance_bind (.pure (.of_kind hk rfl))
  case hnil =>
    intro s hs
    exact ⟨0, rfl, by simpa [semicolonAhead] using hs, fun _ => rfl⟩
  case hcons =>
    rintro s _ u _ t hfirst ⟨m, hm, ht, -⟩
    exact ⟨m + 1, hfirst.trans hm, ht, by simp⟩
  case hlater => exact fun _ _ _ _ _ h => h

theorem yields_semicolon (s : State) :
    semicolon.Yields s
      (fun _ t => ∃ m, s.advance.Passes (semicolonWords m) t.advance ∧
        (m = 1 ∨ m = 0 ∧ t = s ∧ s.lookahead.kind ≠ .semicolon))
      (fun _ => False) := by
  refine .state_bind ?_
  split
  · next hk =>
    have hsemicolon : s.advance.current.kind = .semicolon := hk
    have hpass := Passes.of_kind hsemicolon rfl
    exact (Yields.pure (a := ()) ⟨1, hpass, .inl rfl⟩).of_run_eq rfl rfl
  · next hk => exact .pure ⟨0, rfl, .inr ⟨rfl, rfl, hk⟩⟩

theorem yields_binding (hL : L.Sound n fair) (hs : s.current.kind = .letWord) :
    (binding L).Yields s (SpellsClause s n) fun d => fair d → MaySpellClause s n d := by
  have hword := Passes.of_kind hs rfl
  have hclosed : ∀ name v, (Clause.binding name v 0).EndsBefore .eof := fun _ _ =>
    ⟨by decide, fun _ => rfl⟩
  -- a name stands for the value as long as it is missing
  have hmissing : ∀ d, fair d → ∀ v ∈ some Spelling.filler, v.Fits .lowest n := by
    intro d hd
    simpa using Spelling.fits_filler (by decide) (hL.pos d hd)
  refine .expect_bind (fun c hd => ?_) fun hname => .currentValue_bind ?_
  · have hrest : s.advance.Completes ⟨c, s.advance.position⟩
        (⟨.ident, "x"⟩ :: mark .assign :: Spelling.filler.words) := .here rfl (by decide)
    exact ⟨.binding "x" .filler 0, by simpa [Clause.words, semicolonWords] using hrest.after hword,
      hclosed _ _, hmissing _ hd⟩
  have hhead := hword.trans (passes_name hname)
  refine .expect_bind (fun c hd => ?_) fun hassign => .advance_bind ?_
  · have hrest : s.advance.advance.Completes ⟨c, s.advance.advance.position⟩
        (mark .assign :: Spelling.filler.words) := .here rfl (by decide)
    exact ⟨.binding s.advance.current.value .filler 0,
      by simpa [Clause.words, semicolonWords] using hrest.after hhead, hclosed _ _, hmissing _ hd⟩
  have hsign := hhead.trans (Passes.of_kind hassign rfl)
  refine (hL.expr s.advance.advance.advance (by decide)).bind ?_ ?_
  · intro d h hd
    obtain ⟨v, hv, hfits⟩ := h hd
    exact ⟨.binding s.advance.current.value v 0,
      by simpa [Clause.words, semicolonWords] using hv.after hsign, hclosed _ _,
      by simpa [Clause.value?] using hfits⟩
  rintro e t ⟨v, rfl, hv, hfits, hend⟩
  refine (yields_semicolons t).bind_pure (fun _ h => h.elim) ?_
  rintro _ u ⟨m, hm, hu, hzero⟩
  refine ⟨.binding s.advance.current.value v m, rfl, ?_, ⟨hu, fun h0 => ?_⟩,
    by simpa [Clause.value?] using hfits⟩
  · simpa [Clause.words] using (hsign.trans hv).trans hm
  · rw [hzero h0]
    exact hend

theorem yields_ret (hL : L.Sound n fair) (hs : s.current.kind = .returnWord) :
    (ret L).Yields s (SpellsClause s n) fun d => fair d → MaySpellClause s n d := by
  have hword := Passes.of_kind hs rfl
  have hnone : ∀ v ∈ (none : Option Spelling), v.Fits .lowest n := by simp
  refine .state_bind ?_
  split
  · next hk =>
    have hsemicolon : s.advance.current.kind = .semicolon := hk
    exact .advance_bind (.pure ⟨.ret none 1, rfl,
      hword.trans (.of_kind hsemicolon rfl), .inl rfl, hnone⟩)
  split
  · next hk => exact .pure ⟨.ret none 0, rfl, hword, .inr ⟨rfl, hk⟩, hnone⟩
  refine .advance_bind ((hL.expr s.advance (by decide)).bind ?_ ?_)
  · intro d h hd
    obtain ⟨v, hv, hfits⟩ := h hd
    refine ⟨.ret (some v) 0, by simpa [Clause.words, semicolonWords] using hv.after hword,
      ⟨by decide, fun _ => rfl⟩, by simpa [Clause.value?] using hfits⟩
  rintro e t ⟨v, rfl, hv, hfits, hend⟩
  refine (yields_semicolons t).bind_pure (fun _ h => h.elim) ?_
  rintro _ u ⟨m, hm, hu, hzero⟩
  refine ⟨.ret (some v) m, rfl, (hword.trans hv).trans hm, ⟨hu, fun h0 => ?_⟩,
    by simpa [Clause.value?] using hfits⟩
  rw [hzero h0]
  exact hend

theorem yields_expression (hL : L.Sound n fair) (s : State) :
    (expression L).Yields s (SpellsClause s n) fun d => fair d → MaySpellClause s n d := by
  refine (hL.expr s (by decide)).bind ?_ ?_
  · intro d h hd
    obtain ⟨v, hv, hfits⟩ := h hd
    refine ⟨.expr v 0, by simpa [Clause.words, semicolonWords] using hv,
      .inr ⟨rfl, by decide, rfl⟩, by simpa [Clause.value?] using hfits⟩
  rintro e t ⟨v, rfl, hv, hfits, hend⟩
  refine (yields_semicolon t).bind_pure (fun _ h => h.elim) ?_
  rintro _ u ⟨m, hm, hcases⟩
  refine ⟨.expr v m, rfl, hv.trans hm, ?_, by simpa [Clause.value?] using hfits⟩
  rcases hcases with h1 | ⟨h0, rfl, hne⟩
  · exact .inl h1
  · exact .inr ⟨h0, hne, hend⟩

/-- A statement is spelled by a clause. -/
theorem yields_statement (hL : L.Sound n fair) (s : State) :
    (statement standard L).Yields s (SpellsClause s n) fun d => fair d → MaySpellClause s n d := by
  refine .state_bind ?_
  cases hrule : standard.statement s.current.kind with
  | none => exact yields_expression hL s
  | some rule =>
    rcases Grammar.kind_of_statement hrule with ⟨hk, rfl⟩ | ⟨hk, rfl⟩
    · exact yields_binding hL hk
    · exact yields_ret hL hk

/-! ### Lists of statements -/

/-- From the current token up to that of the second state, statements are passed.  They end before
one another. -/
def SpellsClauses (s : State) (n : Nat) (p : List Stmt) (t : State) : Prop :=
  ∃ cs : List Clause, clauseTrees cs = p ∧ s.Passes (clauseWords cs) t ∧
    SpacedClauses cs t.current.kind ∧ ∀ c ∈ cs, ∀ v ∈ c.value?, v.Fits .lowest n

/-- The beginning of some statements is passed.  The first one begins with the current token, so
that they can come after what ends before it. -/
def MaySpellClauses (s : State) (n : Nat) (d : Diagnostic) : Prop :=
  ∃ cs : List Clause, s.Completes d (clauseWords cs) ∧ SpacedClauses cs .eof ∧
    (∀ w ∈ (clauseWords cs).head?, w.kind = s.current.kind) ∧
      ∀ c ∈ cs, ∀ v ∈ c.value?, v.Fits .lowest n

/-- Where the current token is to blame, no statement needs to come. -/
theorem MaySpellClauses.here {d : Diagnostic} (hd : s.position.index = d.position.index) :
    MaySpellClauses s n d :=
  ⟨[], .here hd (by simp [clauseWords]), trivial, by simp [clauseWords], by simp⟩

theorem MaySpellClause.clauses {d : Diagnostic} (h : MaySpellClause s n d) :
    MaySpellClauses s n d := by
  obtain ⟨c, hc, hends, hfits⟩ := h
  -- either nothing of the statement is there, or it begins with the current token
  rcases hc.head with hd | hhead
  · exact .here hd
  · exact ⟨[c], by simpa [clauseWords] using hc, ⟨hends, trivial⟩,
      by simpa [clauseWords] using hhead, by simpa using hfits⟩

theorem SpellsClause.cons {c : Stmt} {p : List Stmt} {u : State} (hc : SpellsClause s n c u)
    (h : SpellsClauses u.advance n p t) : SpellsClauses s n (c :: p) t := by
  obtain ⟨d, rfl, hd, hends, hfits⟩ := hc
  obtain ⟨cs, rfl, hcs, hspaced, hall⟩ := h
  refine ⟨d :: cs, rfl, hd.trans hcs, ⟨?_, hspaced⟩, List.forall_mem_cons.mpr ⟨hfits, hall⟩⟩
  rwa [← hcs.kind_eq_kindBefore]

theorem SpellsClause.consMay {c : Stmt} {d : Diagnostic} {u : State} (hc : SpellsClause s n c u)
    (h : MaySpellClauses u.advance n d) : MaySpellClauses s n d := by
  obtain ⟨e, -, he, hends, hfits⟩ := hc
  obtain ⟨cs, hcs, hspaced, hhead, hall⟩ := h
  refine ⟨e :: cs, hcs.after he, ⟨?_, hspaced⟩, ?_, List.forall_mem_cons.mpr ⟨hfits, hall⟩⟩
  · -- the next statement begins with the token that comes next, or no statement follows
    unfold kindBefore
    cases hws : clauseWords cs with
    | nil => exact hends.closed (.inr rfl)
    | cons w ws =>
      have hw : w.kind = u.lookahead.kind := hhead w (by rw [hws]; rfl)
      simpa [hw] using hends
  · obtain ⟨w, ws, hws, -⟩ := e.exists_words_eq_cons
    rw [hws] at he
    simpa [clauseWords, hws] using he.kind_eq.symm

/-- A list of statements is spelled by clauses, up to where it ends.  No statement is left out of
it, because an attempt that had failed would have been recorded. -/
theorem yields_entries {again : State → Bool} {entry : Action (Option Stmt)}
    (progress : Progresses again entry.thenAdvance)
    (hentry : ∀ s, again s = true → entry.Yields s
      (fun o t => ∃ c, o = some c ∧ SpellsClause s n c t) fun d => fair d → MaySpellClauses s n d)
    (s : State) :
    (repeatWhile again entry.thenAdvance progress).Yields s
      (fun os t => again t = false ∧ SpellsClauses s n (os.filterMap id) t)
      fun d => fair d → MaySpellClauses s n d := by
  apply Yields.repeatWhile (R := fun s o u => ∃ c v, o = some c ∧ SpellsClause s n c v ∧
    u = v.advance) progress
  case hround =>
    intro s hs
    refine (hentry s hs).thenAdvance.mono ?_ fun d h => h
    rintro o u ⟨v, ⟨c, rfl, hc⟩, rfl⟩
    exact ⟨c, v, rfl, hc, rfl⟩
  case hnil => exact fun s hs => ⟨hs, [], rfl, rfl, trivial, by simp⟩
  case hcons =>
    rintro s o u os t ⟨c, v, rfl, hc, rfl⟩ ⟨hend, hrest⟩
    exact ⟨hend, hc.cons hrest⟩
  case hlater =>
    rintro s o u d ⟨c, v, -, hc, rfl⟩ h hd
    exact hc.consMay (h hd)

theorem yields_attempt (hL : L.Sound n fair) (s : State) :
    (statement standard L).attempt.Yields s (fun o t => ∃ c, o = some c ∧ SpellsClause s n c t)
      fun d => fair d → MaySpellClauses s n d :=
  (yields_statement hL s).attempt.mono (fun _ _ h => h) fun _ h hd => (h hd).clauses

theorem yields_blockEntry (hL : L.Sound n fair) (s : State) :
    (blockEntry standard L).Yields s (fun o t => ∃ c, o = some c ∧ SpellsClause s n c t)
      fun d => fair d → MaySpellClauses s n d := by
  have hopen : stillOpen.Yields s (fun _ t => t = s) fun d => fair d → MaySpellClauses s n d := by
    refine .state_bind ?_
    split
    · exact .failHere fun _ => .here rfl
    · exact .pure rfl
  refine hopen.bind (fun _ h => h) ?_
  rintro _ _ rfl
  exact yields_attempt hL _

theorem yields_blockBody (hL : L.Sound n fair) (hs : s.current.kind = .openCurly) :
    (blockBody standard L).Yields s (s.SpellsBlock (n + 1))
      fun d => fair d → s.MaySpellBlock (n + 1) d := by
  have hopen := Passes.of_kind hs rfl
  refine .advance_bind ((yields_entries (blockEntry_progresses standard L)
    (fun s _ => yields_blockEntry hL s) s.advance).bind_pure ?_ ?_)
  · intro d h hd
    obtain ⟨cs, hcs, hspaced, -, hall⟩ := h hd
    refine ⟨cs, ?_, .of_fits (hspaced.closed (.inl rfl)) hall⟩
    have hend : ∀ w ∈ [mark .closeCurly], w.Writable := by decide
    simpa using (hcs.after hopen).append hend
  · rintro os t ⟨hend, cs, hcs, hpass, hspaced, hall⟩
    have hclose : t.current.kind = .closeCurly := by simpa [insideBlock] using hend
    exact ⟨cs, hcs, (hopen.trans hpass).trans (.of_kind hclose rfl),
      .of_fits (hclose ▸ hspaced) hall⟩

/-- A program is spelled by clauses, up to the end. -/
theorem yields_program (hL : L.Sound n fair) (s : State) :
    (program standard L).Yields s
      (fun p t => t.current.kind = .eof ∧ SpellsClauses s n p t)
      fun d => fair d → MaySpellClauses s n d := by
  refine (yields_entries (programEntry_progresses standard L)
    (fun s _ => yields_attempt hL s) s).bind_pure (fun _ h => h) ?_
  rintro os t ⟨hend, h⟩
  exact ⟨by simpa [beforeEnd] using hend, h⟩

end Form

/-! ### Levels -/

namespace Level

/-- At the bottom only an expression that is there already is kept, and nothing fair is found. -/
theorem sound_bottom {fair : Diagnostic → Prop} (h : ∀ d, ¬ fair d) :
    (bottom standard).Sound 0 fair where
  pos d hd := absurd hd (h d)
  expr s hp := .failHere fun hd => absurd hd (h _)
  climb {p w r s m} hp hw := by
    refine .state_bind ?_
    split
    · next hnone => exact .pure ⟨w, rfl, hw.passes, hw.fits, hnone⟩
    · exact .failHere fun hd => absurd hd (h _)
  block hs := .failHere fun hd => absurd hd (h _)

/-- A level is sound if the one below it is. -/
theorem Sound.above {L : Level} {n : Nat} {fair : Diagnostic → Prop} (hL : L.Sound n fair) :
    (above standard L).Sound (n + 1) fair where
  pos _ _ := Nat.succ_pos n
  expr {p} s hp := by
    change (exprAbove standard L p).Yields s _ _
    refine .state_bind ?_
    split
    · exact .failHere fun _ => .here rfl hp (Nat.succ_pos n)
    · next rule hrule =>
      refine (Form.yields_head hL hrule hp).bind (fun _ h => h) ?_
      rintro e t ⟨w, rfl, hw⟩
      exact hL.climb hp hw
  climb {p w r s m} hp hw := by
    change (climbAbove standard L p w.tree).Yields s _ _
    refine .state_bind ?_
    split
    · next hnone => exact .pure ⟨w, rfl, hw.passes, hw.fits, hnone⟩
    · next q rule hcont =>
      refine .advance_bind ((Form.yields_tail hL hp hw hcont).bind (fun _ h => h) ?_)
      rintro e t ⟨v, rfl, hv⟩
      exact hL.climb hp hv
  block hs := Form.yields_blockBody hL hs

theorem Sound.counted {L : Level} {n : Nat} {fair fair' : Diagnostic → Prop} (hL : L.Sound n fair)
    (hfair : ∀ d, fair' d.notch → fair d) (hpos : ∀ d, fair' d → 0 < n) :
    L.counted.Sound n fair' where
  pos := hpos
  expr s hp := (hL.expr s hp).counted fun d h hd => by
    obtain ⟨w, hw, hfits⟩ := h (hfair d hd)
    exact ⟨w, hw.notch, hfits⟩
  climb hp hw := (hL.climb hp hw).counted fun d h hd => by
    obtain ⟨w, hw, hfits⟩ := h (hfair d hd)
    exact ⟨w, hw.notch, hfits⟩
  block hs := (hL.block hs).counted fun d h hd => by
    obtain ⟨cs, hcs, hfit⟩ := h (hfair d hd)
    exact ⟨cs, hcs.notch, hfit⟩

/-- Every level is sound. -/
theorem sound_ofRoom (n : Nat) : (ofRoom standard n).Sound n fun _ => False := by
  induction n with
  | zero => exact sound_bottom fun _ h => h
  | succ n ih => exact ih.above

/-- Every level that leaves notches is sound.  What it finds is fair as long as a level is left. -/
theorem sound_counting (n : Nat) :
    (counting standard n).Sound n fun d => d.position.notches < n := by
  induction n with
  | zero => exact sound_bottom fun d => Nat.not_lt_zero _
  | succ n ih =>
    refine ih.above.counted (fun d hd => ?_) fun d hd => Nat.succ_pos n
    simpa using hd

end Level

/-! ### Programs -/

/-- A source that is parsed without diagnostics is spelled by clauses, from its start to its end. -/
theorem exists_clauses_of_isClean {src : Source} (h : (parse src).diagnostics = []) :
    ∃ cs d, clauseTrees cs = (parse src).program ∧
      (State.ofSource src).Passes (clauseWords cs) d ∧ d.current.kind = .eof := by
  obtain ⟨p, t, hrun⟩ := Form.run_program_isOk standard (Level.ofRoom standard maxNesting)
    (.ofSource src)
  have hparse := parse_eq hrun
  rw [hparse] at h ⊢
  have hyields := Form.yields_program (Level.sound_ofRoom maxNesting) (.ofSource src)
  obtain ⟨hend, cs, hcs, hpass, -⟩ := hyields.of_clean p t ⟨hrun, h⟩
  exact ⟨cs, t, hcs, hpass, hend⟩

end ExprLang
