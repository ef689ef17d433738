import ExprLang.Proofs.Reading
import ExprLang.Proofs.Twins

/-!
# All that is read is read in both runs

Each form of the language is read in the same way by two runs of the parser that only differ in what
comes after the last semicolon, given that the parts inside it are.  So all levels do the same in
both runs, and so do programs up to the end of the first run.

## Main definitions

* `Sequel.Mirrors L L'` — the two levels do the same.

## Main results

* `Sequel.mirrors_ofRoom` — the levels of `Level.counting` and of `Level.ofRoom` do the same.
* `Sequel.Twins.program` — a program is read in both runs up to the end of the first.
-/

namespace ExprLang

open ExprLang.Action State Form
open Grammar (standard)

namespace Sequel

/-- The two levels do the same in both runs. -/
structure Mirrors (Q : Sequel) (L L' : Level) : Prop where
  expr : ∀ p {s s'}, Q.Twins s s' → Q.Agree (L.expr p) (L'.expr p) s s' Q.Firm
  climb : ∀ p e {s s'}, Q.Twins s s' → Q.Firm s.current.kind →
    Q.Agree (L.climb p e) (L'.climb p e) s s' Q.Firm
  block : ∀ {s s'}, Q.Twins s s' → Q.Firm s.current.kind → Q.Agree L.block L'.block s s' Q.Firm

variable {Q : Sequel} {L L' : Level} {s s' : State}

theorem firm_of {k l : Kind} (h : k = l) (hl : l ≠ .eof ∧ l ≠ .semicolon) : Q.Firm k :=
  .inr (h ▸ hl)

/-! ### Lists -/

/-- Whether a comma comes next is the same for both. -/
theorem commaAhead_eq (h : Q.Twins s s') (hf : Q.Firm s.current.kind) :
    commaAhead s' = commaAhead s := by
  rw [commaAhead, commaAhead, (h.lookahead_eq hf).1]

/-- A token of this kind comes next, and the one after it is the same in both runs. -/
theorem firm_of_lookahead {k : Kind} (h : s.lookahead.kind = k) (hk : k ≠ .eof ∧ k ≠ .semicolon) :
    Q.Firm s.advance.current.kind := firm_of h hk

theorem agree_moreItems (hL : Q.Mirrors L L') (h : Q.Twins s s') (hf : Q.Firm s.current.kind) :
    Q.Agree (repeatWhile commaAhead (nextItem L) (nextItem_progresses L))
      (repeatWhile commaAhead (nextItem L') (nextItem_progresses L')) s s' Q.Firm := by
  refine Agree.repeatWhile _ _ (fun s s' h hf => .inr ⟨commaAhead_eq h hf, fun hcomma => ?_⟩)
    (fun _ hf _ => hf) h hf
  have hnext : s.lookahead.kind = .comma := by simpa [commaAhead] using hcomma
  refine .advance_bind h hf.live fun h => ?_
  exact .advance_bind h (firm_of_lookahead hnext (by decide)).live fun h => hL.expr _ h

theorem agree_items (hL : Q.Mirrors L L') {close : Kind} (hc : close ≠ .eof ∧ close ≠ .semicolon)
    (h : Q.Twins s s') (hf : Q.Firm s.current.kind) :
    Q.Agree (items L close) (items L' close) s s' Q.Firm := by
  refine .state_bind ?_
  rw [(h.lookahead_eq hf).1]
  split
  · next hk => exact .advance_bind h hf.live fun h => .pure h [] (firm_of_lookahead hk hc)
  · refine .advance_bind h hf.live fun h => (hL.expr _ h).bind fun first t t' h hf => ?_
    refine (agree_moreItems hL h hf).bind fun more t t' h hf => ?_
    exact .expect_bind h hf fun t t' h hk => .pure h _ (firm_of hk hc)

theorem agree_moreNames (h : Q.Twins s s') (hf : Q.Firm s.current.kind) :
    Q.Agree (repeatWhile commaAhead nextName nextName_progresses)
      (repeatWhile commaAhead nextName nextName_progresses) s s' Q.Firm := by
  refine Agree.repeatWhile _ _ (fun s s' h hf => .inr ⟨commaAhead_eq h hf, fun hcomma => ?_⟩)
    (fun _ hf _ => hf) h hf
  have hnext : s.lookahead.kind = .comma := by simpa [commaAhead] using hcomma
  refine .advance_bind h hf.live fun h => ?_
  refine .expect_bind h (firm_of_lookahead hnext (by decide)) fun t t' h hk => ?_
  have hname : Q.Firm t.current.kind := firm_of hk (by decide)
  exact .currentValue_bind (f := Pure.pure) (g := Pure.pure) h hname.live (.pure h _ hname)

theorem agree_names (h : Q.Twins s s') (hf : Q.Firm s.current.kind) :
    Q.Agree Form.names Form.names s s' Q.Firm := by
  refine .state_bind ?_
  rw [(h.lookahead_eq hf).1]
  split
  · next hk =>
    exact .advance_bind h hf.live fun h => .pure h [] (firm_of_lookahead hk (by decide))
  · refine .expect_bind h hf fun t t' h hk => ?_
    have hname : Q.Firm t.current.kind := firm_of hk (by decide)
    refine .currentValue_bind h hname.live ?_
    refine (agree_moreNames h hname).bind fun more t t' h hf => ?_
    exact .expect_bind h hf fun t t' h hk => .pure h _ (firm_of hk (by decide))

theorem agree_commaOrClose (h : Q.Twins s s') (hf : Q.Firm s.current.kind) :
    Q.Agree commaOrClose commaOrClose s s' Q.Firm := by
  refine .state_bind ?_
  rw [(h.lookahead_eq hf).1]
  split
  · exact .pure h () hf
  · exact (Agree.expect h hf .comma).mono fun k hk => firm_of hk (by decide)

theorem agree_pair (hL : Q.Mirrors L L') (h : Q.Twins s s') (hf : Q.Firm s.current.kind) :
    Q.Agree (pair L) (pair L') s s' Q.Firm := by
  refine .advance_bind h hf.live fun h => (hL.expr _ h).bind fun key t t' h hf => ?_
  refine .expect_bind h hf fun t t' h hk => ?_
  have hcolon : Q.Firm t.current.kind := firm_of hk (by decide)
  refine .advance_bind h hcolon.live fun h => (hL.expr _ h).bind fun value t t' h hf => ?_
  exact (agree_commaOrClose h hf).bind_pure

theorem agree_pairs (hL : Q.Mirrors L L') (h : Q.Twins s s') (hf : Q.Firm s.current.kind) :
    Q.Agree (pairs L) (pairs L') s s' Q.Firm := by
  have hloop : Q.Agree (repeatWhile pairAhead (pair L) (pair_progresses L))
      (repeatWhile pairAhead (pair L') (pair_progresses L')) s s' Q.Firm := by
    refine Agree.repeatWhile _ _ (fun s s' h hf => .inr ⟨?_, fun _ => agree_pair hL h hf⟩)
      (fun _ hf _ => hf) h hf
    rw [pairAhead, pairAhead, (h.lookahead_eq hf).1]
  refine hloop.bind fun ps t t' h hf => ?_
  exact .expect_bind h hf fun t t' h hk => .pure h _ (firm_of hk (by decide))

/-! ### Forms of expressions -/

theorem agree_literal (h : Q.Twins s s') (hf : Q.Firm s.current.kind) :
    Q.Agree literal literal s s' Q.Firm := by
  obtain ⟨hk, hv, -⟩ := h.current_eq hf.live
  refine .state_bind ?_
  simp only [hk, hv]
  split
  · exact .pure h _ hf
  · split
    · exact .pure h _ hf
    · exact .failHere h _
  · exact .pure h _ hf
  · exact .pure h _ hf
  · exact .pure h _ hf
  · exact .failHere h _

theorem agree_unary (hL : Q.Mirrors L L') (h : Q.Twins s s') (hf : Q.Firm s.current.kind) :
    Q.Agree (unary L) (unary L') s s' Q.Firm :=
  .currentValue_bind h hf.live (.advance_bind h hf.live fun h => (hL.expr _ h).bind_pure)

theorem agree_group (hL : Q.Mirrors L L') (h : Q.Twins s s') (hf : Q.Firm s.current.kind) :
    Q.Agree (group L) (group L') s s' Q.Firm := by
  refine .advance_bind h hf.live fun h => (hL.expr _ h).bind fun e t t' h hf => ?_
  exact .expect_bind h hf fun t t' h hk => .pure h e (firm_of hk (by decide))

theorem agree_alternative (hL : Q.Mirrors L L') (h : Q.Twins s s') (hf : Q.Firm s.current.kind) :
    Q.Agree (alternative L) (alternative L') s s' Q.Firm := by
  refine .state_bind ?_
  rw [(h.lookahead_eq hf).1]
  split
  · next hk =>
    refine .advance_bind h hf.live fun h => ?_
    refine .expect_bind h (firm_of_lookahead hk (by decide)) fun t t' h hk => ?_
    exact (hL.block h (firm_of hk (by decide))).bind_pure
  · exact .pure h none hf

theorem agree_conditional (hL : Q.Mirrors L L') (h : Q.Twins s s') (hf : Q.Firm s.current.kind) :
    Q.Agree (conditional L) (conditional L') s s' Q.Firm := by
  refine .expect_bind h hf fun t t' h hk => ?_
  have hopen : Q.Firm t.current.kind := firm_of hk (by decide)
  refine .advance_bind h hopen.live fun h => (hL.expr _ h).bind fun condition t t' h hf => ?_
  refine .expect_bind h hf fun t t' h hk => .expect_bind h (firm_of hk (by decide)) ?_
  intro t t' h hk
  refine (hL.block h (firm_of hk (by decide))).bind fun consequence t t' h hf => ?_
  exact (agree_alternative hL h hf).bind_pure

theorem agree_function (hL : Q.Mirrors L L') (h : Q.Twins s s') (hf : Q.Firm s.current.kind) :
    Q.Agree (function L) (function L') s s' Q.Firm := by
  refine .expect_bind h hf fun t t' h hk => ?_
  refine (agree_names h (firm_of hk (by decide))).bind fun parameters t t' h hf => ?_
  exact .expect_bind h hf fun t t' h hk => (hL.block h (firm_of hk (by decide))).bind_pure

theorem agree_head (hL : Q.Mirrors L L') (rule : HeadRule) (h : Q.Twins s s')
    (hf : Q.Firm s.current.kind) : Q.Agree (rule.read L) (rule.read L') s s' Q.Firm := by
  cases rule with
  | literal => exact agree_literal h hf
  | unary => exact agree_unary hL h hf
  | group => exact agree_group hL h hf
  | conditional => exact agree_conditional hL h hf
  | function => exact agree_function hL h hf
  | array => exact (agree_items hL (by decide) h hf).bind_pure
  | hash => exact (agree_pairs hL h hf).bind_pure

theorem agree_tail (hL : Q.Mirrors L L') (rule : TailRule) (p : Power) (left : Expr)
    (h : Q.Twins s s') (hf : Q.Firm s.current.kind) :
    Q.Agree (rule.read L p left) (rule.read L' p left) s s' Q.Firm := by
  cases rule with
  | binary =>
    exact .currentValue_bind h hf.live (.advance_bind h hf.live fun h => (hL.expr _ h).bind_pure)
  | call => exact (agree_items hL (by decide) h hf).bind_pure
  | index =>
    refine .advance_bind h hf.live fun h => (hL.expr _ h).bind fun place t t' h hf => ?_
    exact .expect_bind h hf fun t t' h hk => .pure h _ (firm_of hk (by decide))

/-! ### Statements -/

theorem agree_semicolons (h : Q.Twins s s') (hl : Q.Live s.current.kind) :
    Q.Agree semicolons semicolons s s' Q.Live := by
  refine (Agree.repeatWhile _ _ (fun s s' h hl => .inr ⟨?_, fun hsemicolon => ?_⟩)
    (fun _ hl _ => hl) h hl).bind_pure
  · rw [semicolonAhead, semicolonAhead, Bool.eq_iff_iff, beq_iff_eq, beq_iff_eq]
    exact h.semicolonAhead_eq hl
  · have hnext : s.lookahead.kind = .semicolon := by simpa [semicolonAhead] using hsemicolon
    exact .advance_bind h hl fun h => .pure h () (.inr (hnext ▸ (by decide)))

theorem agree_semicolon (h : Q.Twins s s') (hl : Q.Live s.current.kind) :
    Q.Agree semicolon semicolon s s' Q.Live := by
  refine .state_bind ?_
  simp only [h.semicolonAhead_eq hl]
  split
  · next hk => exact .ok rfl rfl (h.advance hl) (.inr (by rw [current_advance, hk]; decide))
  · exact .pure h () hl

theorem agree_binding (hL : Q.Mirrors L L') (h : Q.Twins s s') (hf : Q.Firm s.current.kind) :
    Q.Agree (binding L) (binding L') s s' Q.Live := by
  refine .expect_bind h hf fun t t' h hk => ?_
  have hname : Q.Firm t.current.kind := firm_of hk (by decide)
  refine .currentValue_bind h hname.live (.expect_bind h hname fun t t' h hk => ?_)
  have hassign : Q.Firm t.current.kind := firm_of hk (by decide)
  refine .advance_bind h hassign.live fun h => (hL.expr _ h).bind fun value t t' h hf => ?_
  exact (agree_semicolons h hf.live).bind_pure

theorem agree_ret (hL : Q.Mirrors L L') (h : Q.Twins s s') (hf : Q.Firm s.current.kind) :
    Q.Agree (ret L) (ret L') s s' Q.Live := by
  refine .state_bind ?_
  rw [(h.lookahead_eq hf).1]
  split
  · next hk =>
    exact .advance_bind h hf.live fun h => .pure h _ (.inr (by rw [current_advance, hk]; decide))
  · split
    · exact .pure h _ hf.live
    · refine .advance_bind h hf.live fun h => (hL.expr _ h).bind fun value t t' h hf => ?_
      exact (agree_semicolons h hf.live).bind_pure

theorem agree_expression (hL : Q.Mirrors L L') (h : Q.Twins s s') :
    Q.Agree (expression L) (expression L') s s' Q.Live :=
  (hL.expr _ h).bind fun _ _ _ h hf => (agree_semicolon h hf.live).bind_pure

theorem agree_statement (hL : Q.Mirrors L L') (h : Q.Twins s s') (hl : Q.Live s.current.kind) :
    Q.Agree (statement standard L) (statement standard L') s s' Q.Live := by
  refine .state_bind ?_
  rw [(h.current_eq hl).1]
  cases hrule : standard.statement s.current.kind with
  | none => exact agree_expression hL h
  | some rule =>
    have hf : Q.Firm s.current.kind := .inr (Grammar.ne_of_statement hrule)
    cases rule with
    | binding => exact agree_binding hL h hf
    | ret => exact agree_ret hL h hf
    | expression => exact agree_expression hL h
    | block => exact ((hL.block h hf).mono fun _ hf => hf.live).bind_pure

/-! ### Blocks -/

/-- A block that is still open where the first run ends has it say so. -/
theorem lost_blockEntry (h : Q.Twins s s') (hl : ¬ Q.Live s.current.kind) :
    Q.Lost (blockEntry standard L) s := by
  have heof : s.current.kind = .eof := (not_live.mp hl).2
  have hopen : Q.Lost stillOpen s := by
    refine (h.lost_failHere (α := Unit) hl .unclosedBlock).of_told_eq ?_
    rw [stillOpen, run_state_bind, if_pos heof]
  exact hopen.bind _

theorem agree_blockEntry (hL : Q.Mirrors L L') (h : Q.Twins s s') (hl : Q.Live s.current.kind) :
    Q.Agree (blockEntry standard L) (blockEntry standard L') s s' Q.Live := by
  have hopen : Q.Agree stillOpen stillOpen s s' Q.Live := by
    refine .state_bind ?_
    rw [(h.current_eq hl).1]
    split
    · exact .failHere h _
    · exact .pure h () hl
  exact hopen.bind fun _ t t' h hl => (agree_statement hL h hl).attempt

theorem agree_blockBody (hL : Q.Mirrors L L') (h : Q.Twins s s') (hf : Q.Firm s.current.kind) :
    Q.Agree (blockBody standard L) (blockBody standard L') s s' Q.Firm := by
  refine .advance_bind h hf.live fun h => Agree.bind_pure ?_
  refine Agree.repeatWhile (I := fun _ => True) _ _ ?_ ?_ h trivial
  · intro s s' h _
    by_cases hl : Q.Live s.current.kind
    · right
      rw [insideBlock, insideBlock, (h.current_eq hl).1]
      exact ⟨rfl, fun _ => (agree_blockEntry hL h hl).thenAdvance⟩
    · -- the second run may close the block at once, but the first one is lost
      have heof : s.current.kind = .eof := (not_live.mp hl).2
      exact .inl ⟨by simp [insideBlock, heof], (lost_blockEntry h hl).bind _⟩
  · intro s _ hstop
    have hclose : s.current.kind = .closeCurly := by simpa [insideBlock] using hstop
    exact firm_of hclose (by decide)

/-! ### Levels -/

theorem mirrors_bottom : Q.Mirrors (Level.bottom standard) (Level.bottom standard) where
  expr _ _ _ h := .failHere h _
  climb p e s s' h hf := by
    refine .state_bind ?_
    rw [(h.lookahead_eq hf).1]
    split
    · exact .pure h e hf
    · exact .failHere h _
  block h _ := .failHere h _

/-- A level does the same in both runs if the one below it does. -/
theorem Mirrors.above (hL : Q.Mirrors L L') :
    Q.Mirrors (Level.above standard L) (Level.above standard L') where
  expr p s s' h := by
    refine Agree.state_bind ?_
    by_cases hl : Q.Live s.current.kind
    · rw [(h.current_eq hl).1]
      split
      · exact .failHere h _
      · next rule hrule =>
        have hf : Q.Firm s.current.kind := .inr (Grammar.ne_of_head hrule)
        exact (agree_head hL rule h hf).bind fun left t t' h hf => hL.climb p left h hf
    · -- the first run finds no expression at its end
      have heof : s.current.kind = .eof := (not_live.mp hl).2
      refine .lost ((h.lost_failHere (α := Expr) hl (.noExpression .eof)).of_told_eq ?_)
      rw [heof]
      rfl
  climb p e s s' h hf := by
    refine Agree.state_bind ?_
    rw [(h.lookahead_eq hf).1]
    split
    · exact .pure h e hf
    · next q rule hrule =>
      have hnext : Q.Firm s.advance.current.kind := .inr (Grammar.ne_of_continuation? hrule)
      refine .advance_bind h hf.live fun h => (agree_tail hL rule q e h hnext).bind ?_
      exact fun left t t' h hf => hL.climb p left h hf
  block h hf := agree_blockBody hL h hf

/-- A level that leaves notches does the same as one that does not. -/
theorem Mirrors.counted (hL : Q.Mirrors L L') : Q.Mirrors L.counted L' where
  expr p _ _ h := (hL.expr p h).counted
  climb p e _ _ h hf := (hL.climb p e h hf).counted
  block h hf := (hL.block h hf).counted

theorem mirrors_ofRoom (n : Nat) :
    Q.Mirrors (Level.counting standard n) (Level.ofRoom standard n) := by
  induction n with
  | zero => exact mirrors_bottom
  | succ n ih => exact ih.above.counted

end Sequel

/-! ### Programs -/

namespace Form

/-- The statements of a program, with nothing in place of those that could not be read. -/
def programEntries (L : Level) : Action (List (Option Stmt)) :=
  repeatWhile beforeEnd (programEntry standard L).thenAdvance (programEntry_progresses standard L)

theorem run_program (L : Level) (s : State) :
    (program standard L).run s = (programEntries L >>= fun as => pure (as.filterMap id)).run s :=
  rfl

theorem run_programEntries (L : Level) (s : State) :
    (programEntries L).run s = if s.current.kind = .eof then (.ok [], s) else
      ((programEntry standard L).thenAdvance >>= fun a =>
        programEntries L >>= fun as => pure (a :: as)).run s := by
  rw [programEntries, run_repeatWhile]
  by_cases heof : s.current.kind = .eof
  · rw [if_neg (by simp [beforeEnd, heof]), if_pos heof]
  · rw [if_pos (by simpa [beforeEnd] using heof), if_neg heof]

end Form

namespace Sequel

variable {Q : Sequel} {L L' : Level} {s s' : State}

theorem agree_programEntry (hL : Q.Mirrors L L') (h : Q.Twins s s') (hl : Q.Live s.current.kind) :
    Q.Agree (programEntry standard L).thenAdvance (programEntry standard L').thenAdvance s s'
      fun _ => True :=
  (agree_statement hL h hl).attempt.thenAdvance

/-- The statements of the first run are the first ones of the second run, which goes on from where
the first one ends. -/
theorem Twins.entries (hL : Q.Mirrors L L') (h : Q.Twins s s') :
    Q.Lost (Form.programEntries L) s ∨
      ∃ as t t', (Form.programEntries L).run s = (.ok as, t) ∧ t.current.kind = .eof ∧
        Q.Twins t t' ∧ (Form.programEntries L').run s' =
          (Form.programEntries L' >>= fun bs => pure (as ++ bs)).run t' := by
  induction s using (programEntry_progresses standard L).induction generalizing s' with
  | round s ih =>
    by_cases heof : s.current.kind = .eof
    · refine .inr ⟨[], s, s', by rw [run_programEntries, if_pos heof], heof, h, ?_⟩
      rw [run_bind]
      rcases (Form.programEntries L').run s' with ⟨_ | _, _⟩ <;> rfl
    · have hcall : beforeEnd s = true := by simpa [beforeEnd] using heof
      have hkind := (h.current_eq (.inr heof)).1
      rw [run_programEntries L s, if_neg heof, run_programEntries L' s',
        if_neg (by rw [hkind]; exact heof)]
      cases agree_programEntry hL h (.inr heof) with
      | lost hlost => exact .inl (hlost.repeatWhile _ hcall)
      | error hr =>
        -- a statement that fails is recorded
        obtain ⟨a, u, ha⟩ := run_attempt_isOk (statement standard L) s
        rw [thenAdvance, programEntry, run_bind_of_ok ha] at hr
        simp at hr
      | @ok a t t' hr hr' twins =>
        rw [run_bind_of_ok hr, run_bind_of_ok hr']
        rcases ih a t hcall hr twins with hlost | ⟨as, u, u', hu, heof', htwins, hu'⟩
        · left
          refine (hlost.bind fun as => pure (a :: as)).of_told_eq ?_
          rw [run_programEntries, if_neg heof, run_bind_of_ok hr]
        · refine .inr ⟨a :: as, u, u', by rw [run_bind_of_ok hu, run_pure], heof', htwins, ?_⟩
          rw [run_bind, hu', run_bind, run_bind]
          rcases (Form.programEntries L').run u' with ⟨_ | _, _⟩ <;> rfl

/-- A program is read in both runs up to the end of the first, and the second run goes on from
there. -/
theorem Twins.program (hL : Q.Mirrors L L') (h : Q.Twins s s') :
    Q.Lost (program standard L) s ∨
      ∃ p t t', (program standard L).run s = (.ok p, t) ∧ t.current.kind = .eof ∧ Q.Twins t t' ∧
        ∀ q u, (program standard L').run t' = (.ok q, u) →
          (program standard L').run s' = (.ok (p ++ q), u) := by
  rcases h.entries hL with hlost | ⟨as, t, t', hr, heof, twins, hr'⟩
  · exact .inl (hlost.bind _)
  · refine .inr ⟨as.filterMap id, t, t', by rw [run_program, run_bind_of_ok hr, run_pure], heof,
      twins, fun q u hq => ?_⟩
    rw [run_program, run_bind] at hq ⊢
    rw [hr', run_bind]
    rcases hrest : (Form.programEntries L').run t' with ⟨d | bs, v⟩
    · rw [hrest] at hq
      simp at hq
    · simp only [hrest, run_pure] at hq ⊢
      obtain ⟨hbs, rfl⟩ := Prod.mk.inj hq
      rw [List.filterMap_append, Except.ok.inj hbs]

end Sequel

end ExprLang
