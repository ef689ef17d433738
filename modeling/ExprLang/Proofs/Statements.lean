import ExprLang.Proofs.Reading

/-!
# Reading lists of statements

A statement is read with the semicolons after it, and a list of statements one after another up to
the token that closes it.  The loop over a block and the one over a whole program differ in what
closes the list and in what they check before each statement; as long as there is a statement to
read, they do the same.

Semicolons are not the only thing that keeps statements apart: a statement also ends where the next
token does not go on with its expression.

## Main definitions

* `Clause.EndsBefore` — the tokens that a statement ends before.
* `SpacedClauses` — lists of statements that end before one another.

## Main results

* `Form.leadsTo_statement` — a statement is read from its words up to where it ends.
* `Form.leadsTo_repeatEntry` — a list of statements is read, inside a block and at the top.
* `Form.leadsTo_blockBody` — a block is read, given that the level below reads its expressions.
-/

namespace ExprLang

open ExprLang.Action State Form
open Word (mark listed)
open Grammar (standard)

/-- A statement begins neither with the end, nor with what closes a block, nor with a semicolon. -/
theorem Clause.exists_words_eq_cons (c : Clause) : ∃ w ws, c.words = w :: ws ∧
    w.kind ≠ .eof ∧ w.kind ≠ .closeCurly ∧ w.kind ≠ .semicolon ∧ w.kind ≠ .elseWord := by
  rcases c with ⟨_, v, _⟩ | ⟨_ | v, _⟩ | ⟨v, n⟩
  · exact ⟨_, _, rfl, by decide⟩
  · exact ⟨_, _, rfl, by decide⟩
  · exact ⟨_, _, rfl, by decide⟩
  · obtain ⟨w, ws, rule, hws, hw⟩ := v.exists_words_eq_cons
    refine ⟨w, ws ++ semicolonWords n, by rw [words, hws, List.cons_append], ?_⟩
    refine ⟨?_, ?_, ?_, ?_⟩ <;> rintro hk <;> rw [hk] at hw <;> simp [standard] at hw

/-! ### Where statements end -/

/-- A statement ends before a token of this kind.  It takes all the semicolons that come, or no more
than one, and without any the token does not go on with its expression. -/
def Clause.EndsBefore : Clause → Kind → Prop
  | .ret none n, k => n = 1 ∨ n = 0 ∧ (k = .closeCurly ∨ k = .eof)
  | .binding _ _ n, k | .ret (some _) n, k =>
    k ≠ .semicolon ∧ (n = 0 → standard.continuation? .lowest k = none)
  | .expr _ n, k => n = 1 ∨ n = 0 ∧ k ≠ .semicolon ∧ standard.continuation? .lowest k = none

/-- The kind of the first word of a list of statements, or else of what comes after it. -/
def kindBefore (cs : List Clause) (k : Kind) : Kind :=
  ((clauseWords cs).head?.map Word.kind).getD k

/-- Every statement of a list ends before the next one, and the last one before a token of this
kind. -/
def SpacedClauses : List Clause → Kind → Prop
  | [], _ => True
  | c :: cs, k => c.EndsBefore (kindBefore cs k) ∧ SpacedClauses cs k

theorem kindBefore_cons (c : Clause) (cs : List Clause) (k l : Kind) :
    kindBefore (c :: cs) k = kindBefore (c :: cs) l := by
  obtain ⟨w, ws, hws, -⟩ := c.exists_words_eq_cons
  simp [kindBefore, clauseWords, hws]

/-- What closes a list of statements, or a token that begins one, begins no second block. -/
theorem kindBefore_ne_elseWord (cs : List Clause) {k : Kind} (hk : k = .closeCurly ∨ k = .eof) :
    kindBefore cs k ≠ .elseWord := by
  cases cs with
  | nil => rcases hk with rfl | rfl <;> simp [kindBefore, clauseWords]
  | cons c cs =>
    obtain ⟨w, ws, hws, -, -, -, helse⟩ := c.exists_words_eq_cons
    simpa [kindBefore, clauseWords, hws] using helse

/-- Where statements are passed, the current token is of the kind of their first word. -/
theorem State.Passes.kind_eq_kindBefore {s d : State} {cs : List Clause}
    (h : s.Passes (clauseWords cs) d) : s.current.kind = kindBefore cs d.current.kind := by
  unfold kindBefore
  cases hws : clauseWords cs with
  | nil =>
    rw [hws] at h
    rw [passes_nil.mp h]
    rfl
  | cons w ws =>
    rw [hws] at h
    exact h.kind_eq

/-- A statement that ends somewhere also ends where its list is closed. -/
theorem Clause.EndsBefore.closed {c : Clause} {k l : Kind} (h : c.EndsBefore k)
    (hl : l = .closeCurly ∨ l = .eof) : c.EndsBefore l := by
  have hclose : l ≠ .semicolon ∧ standard.continuation? .lowest l = none := by
    rcases hl with rfl | rfl <;> decide
  rcases c with ⟨_, _, _⟩ | ⟨_ | _, _⟩ | ⟨_, _⟩
  · exact ⟨hclose.1, fun _ => hclose.2⟩
  · exact h.imp_right fun h => ⟨h.1, hl⟩
  · exact ⟨hclose.1, fun _ => hclose.2⟩
  · exact h.imp_right fun h => ⟨h.1, hclose⟩

/-- Where the end can come after statements, what closes a block can. -/
theorem SpacedClauses.closed {cs : List Clause} {k l : Kind} (h : SpacedClauses cs k)
    (hl : l = .closeCurly ∨ l = .eof) : SpacedClauses cs l := by
  induction cs with
  | nil => trivial
  | cons c cs ih =>
    refine ⟨?_, ih h.2⟩
    cases cs with
    | nil => exact h.1.closed hl
    | cons c' cs => exact kindBefore_cons c' cs k l ▸ h.1

/-- A legal statement ends before one that is not begun by a semicolon, and before what closes its
list. -/
theorem Clause.Legal.endsBefore {c : Clause} {last : Bool} {k : Kind} (h : c.Legal last)
    (hk : k ≠ .semicolon) (hlast : last = true → k = .closeCurly ∨ k = .eof) : c.EndsBefore k := by
  rcases c with ⟨_, _, n⟩ | ⟨_ | _, n⟩ | ⟨_, n⟩
  · have hn : 0 < n := h.1
    exact ⟨hk, fun h0 => by omega⟩
  · exact Or.imp_right (fun h0 => ⟨h0.1, hlast h0.2⟩) h
  · have hn : 0 < n := h.1
    exact ⟨hk, fun h0 => by omega⟩
  · refine h.1.imp_right fun h0 => ⟨h0.1, ?_⟩
    rcases hlast h0.2 with rfl | rfl <;> decide

/-- Legal statements end before one another. -/
theorem LegalClauses.spaced {cs : List Clause} {k : Kind} (h : LegalClauses cs)
    (hk : k = .closeCurly ∨ k = .eof) : SpacedClauses cs k := by
  induction cs with
  | nil => trivial
  | cons c cs ih =>
    refine ⟨h.1.endsBefore ?_ ?_, ih h.2⟩
    · cases cs with
      | nil => rcases hk with rfl | rfl <;> simp [kindBefore, clauseWords]
      | cons c' cs =>
        obtain ⟨w, ws, hws, -, -, hsemicolon, -⟩ := c'.exists_words_eq_cons
        simpa [kindBefore, clauseWords, hws] using hsemicolon
    · intro hlast
      rw [List.isEmpty_iff.mp hlast]
      exact hk

theorem LegalElse.spaced {other : Option (List Clause)} (h : LegalElse other) :
    ∀ cs ∈ other, SpacedClauses cs .closeCurly := by
  rintro cs rfl
  exact LegalClauses.spaced h (.inl rfl)

/-- What begins an expression begins no other statement. -/
theorem Grammar.statement_of_head {k : Kind} {rule : HeadRule} (h : standard.head k = some rule) :
    standard.statement k = none := by
  cases k <;> simp_all [standard]

namespace Form

variable {L : Level} {s d m : State} {fits : Prop} {e : Expr} {ws : List Word}

/-! ### Semicolons -/

theorem leadsTo_semicolons {n : Nat} (hs : Before m s) (hp : m.Passes (semicolonWords n) d)
    (hd : d.current.kind ≠ .semicolon) : LeadsTo semicolons s True (pure ()) (Before d) := by
  suffices h : LeadsTo (repeatWhile semicolonAhead (Action.advance >>= pure)
      (.of_lookahead (by decide))) s True (pure (List.replicate n ())) (Before d) from h.bind_pure
  induction n generalizing s m with
  | zero =>
    rw [passes_nil.mp hp] at hd ⊢
    have hstop : semicolonAhead s = false := by
      simpa [semicolonAhead, hs.current_eq] using hd
    exact LeadsTo.repeat_nil _ hstop hs
  | succ n ih =>
    have hagain : semicolonAhead s = true := by
      simpa [semicolonAhead, hs.current_eq] using hp.kind_eq
    have hround : LeadsTo (Action.advance >>= pure) s True (pure ()) (Before m.advance) :=
      .advance_bind (.refl (by rw [Before, hs]))
    exact (LeadsTo.repeat_cons _ hagain hround fun t ht => ih ht hp.tail).congr
      (and_self True).symm.to_iff

theorem leadsTo_semicolon {n : Nat} (hn : n = 1 ∨ n = 0 ∧ d.current.kind ≠ .semicolon)
    (hs : Before m s) (hp : m.Passes (semicolonWords n) d) :
    LeadsTo semicolon s True (pure ()) (Before d) := by
  refine .state_bind ?_
  rcases hn with rfl | ⟨rfl, hd⟩
  · rw [if_pos (by rw [hs.current_eq]; exact hp.kind_eq)]
    refine LeadsTo.of_run_eq (t := s.advance) rfl rfl (.refl ?_)
    rw [Before, hs]
    exact hp.before
  · rw [if_neg (by rw [hs.current_eq, ← passes_nil.mp hp]; exact hd)]
    exact .refl (by rw [passes_nil.mp hp]; exact hs)

/-- After an expression the semicolons end it, or else what comes after them. -/
theorem ends_of_semicolons {n : Nat} (hp : m.Passes (semicolonWords n) d)
    (h : n = 0 → d.current.kind.Ends .lowest) : m.current.kind.Ends .lowest := by
  cases n with
  | zero => rw [← passes_nil.mp hp]; exact h rfl
  | succ n => rw [hp.kind_eq]; decide

/-! ### Statements -/

theorem leadsTo_binding {name : String} {n : Nat} (h : L.ReadsExpr .lowest ws fits e)
    (hn : n = 0 → d.current.kind.Ends .lowest)
    (hp : s.Passes (mark .letWord :: ⟨.ident, name⟩ :: mark .assign :: ws ++ semicolonWords n) d)
    (hd : d.current.kind ≠ .semicolon) :
    LeadsTo (binding L) s fits (pure (.binding name e)) (Before d) := by
  simp only [List.cons_append] at hp
  have hname := hp.tail.text_eq (.inr rfl)
  obtain ⟨m, hm, hrest⟩ := passes_append.mp hp.tail.tail.tail
  have hends := ends_of_semicolons hrest hn
  refine .expect_bind rfl hp.tail.kind_eq (.currentValue_bind (hname ▸ ?_))
  refine .expect_bind rfl hp.tail.tail.kind_eq (.advance_bind ?_)
  exact (h _ m hm hends).bind_sure fun t ht => (leadsTo_semicolons ht hrest hd).bind_pure

theorem leadsTo_ret_none {n : Nat}
    (hn : n = 1 ∨ n = 0 ∧ (d.current.kind = .closeCurly ∨ d.current.kind = .eof))
    (hp : s.Passes (mark .returnWord :: semicolonWords n) d) :
    LeadsTo (ret L) s True (pure (.ret none)) (Before d) := by
  refine .state_bind ?_
  rcases hn with rfl | ⟨rfl, hd⟩
  · have hnext : s.lookahead.kind = .semicolon := hp.tail.kind_eq
    rw [if_pos hnext]
    exact .advance_bind (.refl hp.tail.before)
  · have hsd : Before d s := hp.before
    rw [if_neg (by rw [hsd.current_eq]; rcases hd with h | h <;> rw [h] <;> decide),
      if_pos (by rw [hsd.current_eq]; exact hd)]
    exact .refl hsd

theorem leadsTo_ret_some {v : Spelling} {n : Nat} (h : L.ReadsExpr .lowest v.words fits v.tree)
    (hn : n = 0 → d.current.kind.Ends .lowest)
    (hp : s.Passes (mark .returnWord :: v.words ++ semicolonWords n) d)
    (hd : d.current.kind ≠ .semicolon) :
    LeadsTo (ret L) s fits (pure (.ret (some v.tree))) (Before d) := by
  rw [List.cons_append] at hp
  obtain ⟨rule, hrule⟩ := hp.tail.isSome_head
  obtain ⟨m, hm, hrest⟩ := passes_append.mp hp.tail
  have hends := ends_of_semicolons hrest hn
  -- what begins an expression is no end of a statement
  have hnext : s.lookahead.kind ≠ .semicolon ∧
      ¬ (s.lookahead.kind = .closeCurly ∨ s.lookahead.kind = .eof) := by
    rw [current_advance] at hrule
    refine ⟨?_, ?_⟩
    · intro hk
      rw [hk] at hrule
      simp [standard] at hrule
    · rintro (hk | hk) <;> rw [hk] at hrule <;> simp [standard] at hrule
  refine .state_bind ?_
  rw [if_neg hnext.1, if_neg hnext.2]
  refine .advance_bind ((h _ m hm hends).bind_sure fun t ht => ?_)
  exact (leadsTo_semicolons ht hrest hd).bind_pure

theorem leadsTo_expression {n : Nat} (h : L.ReadsExpr .lowest ws fits e)
    (hn : n = 1 ∨ n = 0 ∧ d.current.kind ≠ .semicolon)
    (hends : n = 0 → d.current.kind.Ends .lowest) (hp : s.Passes (ws ++ semicolonWords n) d) :
    LeadsTo (expression L) s fits (pure (.expr e)) (Before d) := by
  obtain ⟨m, hm, hrest⟩ := passes_append.mp hp
  refine (h s m hm (ends_of_semicolons hrest hends)).bind_sure fun t ht => ?_
  exact (leadsTo_semicolon hn ht hrest).bind_pure

/-- A statement is read up to where it ends, given that the level reads its expression. -/
theorem leadsTo_statement {c : Clause} {fit : Spelling → Prop}
    (hc : c.EndsBefore d.current.kind) (helse : d.current.kind ≠ .elseWord)
    (h : ∀ v ∈ c.value?, L.ReadsExpr .lowest v.words (fit v) v.tree) (hp : s.Passes c.words d) :
    LeadsTo (statement standard L) s (∀ v ∈ c.value?, fit v) (pure c.tree) (Before d) := by
  refine .state_bind ?_
  rcases c with ⟨name, v, n⟩ | ⟨_ | v, n⟩ | ⟨v, n⟩
  · rw [hp.kind_eq]
    exact (leadsTo_binding (h v rfl) (fun h0 => ⟨hc.2 h0, helse⟩) hp hc.1).congr
      (by simp [Clause.value?])
  · rw [hp.kind_eq]
    exact (leadsTo_ret_none hc hp).congr (by simp [Clause.value?])
  · rw [hp.kind_eq]
    exact (leadsTo_ret_some (h v rfl) (fun h0 => ⟨hc.2 h0, helse⟩) hp hc.1).congr
      (by simp [Clause.value?])
  · obtain ⟨rule, hrule⟩ := State.Passes.isSome_head hp
    rw [Grammar.statement_of_head hrule]
    have hends : n = 0 → d.current.kind.Ends .lowest := by
      intro h0
      rcases hc with h1 | ⟨-, -, hcont⟩
      · omega
      · exact ⟨hcont, helse⟩
    exact (leadsTo_expression (h v rfl) (hc.imp_right fun h0 => ⟨h0.1, h0.2.1⟩) hends hp).congr
      (by simp [Clause.value?])

/-! ### Lists of statements -/

/-- A list of statements is read one by one, up to a token that closes it. -/
theorem leadsTo_repeatEntry {again : State → Bool} {entry : Action (Option Stmt)}
    (progress : Progresses again entry.thenAdvance) {cs : List Clause} {fit : Spelling → Prop}
    (hentry : ∀ s : State, s.current.kind ≠ .eof →
      entry.run s = (statement standard L).attempt.run s)
    (hagain : ∀ s : State, s.current.kind ≠ .eof → s.current.kind ≠ .closeCurly → again s = true)
    (hl : SpacedClauses cs d.current.kind)
    (h : ∀ c ∈ cs, ∀ v ∈ c.value?, L.ReadsExpr .lowest v.words (fit v) v.tree)
    (hp : s.Passes (clauseWords cs) d) (hstop : again d = false)
    (hd : d.current.kind = .closeCurly ∨ d.current.kind = .eof) :
    LeadsTo (repeatWhile again entry.thenAdvance progress) s (∀ c ∈ cs, ∀ v ∈ c.value?, fit v)
      (pure (cs.map fun c => some c.tree)) (· = d) := by
  induction cs generalizing s with
  | nil =>
    have hsd : s = d := (passes_nil.mp hp).symm
    refine LeadsTo.congr (LeadsTo.repeat_nil progress (hsd ▸ hstop) hsd) ?_
    simp
  | cons c cs ih =>
    obtain ⟨m, hm, hrest⟩ := passes_append.mp hp
    obtain ⟨w, ws, hws, heof, hcurly, -, -⟩ := c.exists_words_eq_cons
    have hkind : s.current.kind = w.kind := by
      rw [hws] at hm
      exact hm.kind_eq
    have hnext := hrest.kind_eq_kindBefore
    have hread := leadsTo_statement (hnext ▸ hl.1) (hnext ▸ kindBefore_ne_elseWord cs hd)
      (h c List.mem_cons_self) hm
    have hfirst := (hread.attempt.of_run_eq (hentry s (hkind ▸ heof)) rfl).thenAdvance
    refine (LeadsTo.repeat_cons progress (hagain s (hkind ▸ heof) (hkind ▸ hcurly)) hfirst
      fun t ht => ?_).congr List.forall_mem_cons
    exact ih hl.2 (fun x hx => h x (List.mem_cons_of_mem _ hx)) (ht ▸ hrest)

/-- The statements that could be read are all there are if none was left out. -/
theorem filterMap_tree (cs : List Clause) :
    (cs.map fun c => some c.tree).filterMap id = clauseTrees cs := by
  rw [clauseTrees_eq_map, List.filterMap_map, ← List.filterMap_eq_map]
  rfl

/-- A block is read, from its opening brace to its closing one. -/
theorem leadsTo_blockBody {cs : List Clause} {fit : Spelling → Prop}
    (hl : SpacedClauses cs .closeCurly)
    (h : ∀ c ∈ cs, ∀ v ∈ c.value?, L.ReadsExpr .lowest v.words (fit v) v.tree)
    (hp : s.Passes (mark .openCurly :: clauseWords cs ++ [mark .closeCurly]) d) :
    LeadsTo (blockBody standard L) s (∀ c ∈ cs, ∀ v ∈ c.value?, fit v) (pure (clauseTrees cs))
      (Before d) := by
  obtain ⟨m, hm, hd⟩ := passes_append.mp hp.tail
  have hentry : ∀ s : State, s.current.kind ≠ .eof →
      (blockEntry standard L).run s = (statement standard L).attempt.run s := by
    intro s hs
    have hopen : stillOpen.run s = (.ok (), s) := by
      rw [stillOpen, run_state_bind, if_neg hs, run_pure]
    rw [blockEntry, run_bind_of_ok hopen]
  have hloop := leadsTo_repeatEntry (blockEntry_progresses standard L) hentry
    (fun s _ hk => by simpa [insideBlock] using hk) (hd.kind_eq ▸ hl) h hm
    (by simpa [insideBlock] using hd.kind_eq) (.inl hd.kind_eq)
  refine .advance_bind (hloop.bind_sure fun t ht => ?_)
  rw [filterMap_tree]
  exact .refl (ht ▸ hd.before)

end Form

end ExprLang
