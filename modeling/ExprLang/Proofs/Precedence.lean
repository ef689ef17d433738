import ExprLang.Parser.Basic
import ExprLang.Proofs.Statements

/-!
# Legal spellings are read

Reading an expression is climbing: a first form is read, and as long as the next token binds tighter
than asked for, what has been read becomes its left operand.  So reading the words of a spelling is
not over after its last word; it goes on with the spelling as a left operand.  The invariant says
just this: from the first word, a level comes to the climb on from the tree, below as many further
levels as the spelling leaves open.  The climb stops when the token after the words binds no tighter
than asked for.

## Main definitions

* `Spelling.leastPower`, `Spelling.openPower` — what a spelling can be read under, and what it would
  still take from the right.
* `Spelling.IsRead` — reading the words of a spelling comes to the climb on from its tree.

## Main results

* `Spelling.Legal.isRead` — legal spellings are read.
* `Form.leadsTo_program` — lists of legal statements are read as programs.
* `parse_spelling` — a legal spelling of an expression is parsed as just this expression.
-/

namespace ExprLang

open ExprLang.Action State
open Word (mark listed)
open Grammar (standard)

/-! ### Powers at the two ends of a spelling -/

namespace Spelling

/-- A level that asks for less than this reads the whole spelling, not only a part of it. -/
def leastPower (t : Spelling) : Power := t.infixPower?.getD .call

/-- A token that binds tighter than this takes a part of the spelling as its left operand. -/
def openPower (t : Spelling) : Power :=
  t.infixPower?.getD (if t.isUnary then .unary else .index)

/-- A bare operation between operands asks for its own power, and everything else for less than
that of a call. -/
theorem lt_leastPower {t : Spelling} {p : Power} (hp : p < .call) (h : ∀ q ∈ t.infixPower?, p < q) :
    p < t.leastPower := by
  unfold leastPower
  cases hq : t.infixPower? with
  | none => exact hp
  | some q => exact h q hq

/-- What follows takes a part of an operation only if it binds tighter than this does. -/
theorem le_openPower {t : Spelling} {p : Power} (hp : p ≤ .unary) (h : ∀ q ∈ t.infixPower?, p ≤ q) :
    p ≤ t.openPower := by
  unfold openPower
  cases hq : t.infixPower? with
  | some q => exact h q hq
  | none =>
    cases t.isUnary with
    | true => exact hp
    | false => exact Nat.le_trans hp (by decide)

theorem le_openPower_of_lt {t : Spelling} {p : Power} (h : p < t.leastPower) :
    p ≤ t.openPower := by
  unfold leastPower at h
  cases hq : t.infixPower? with
  | some q =>
    rw [hq] at h
    rw [openPower, hq]
    exact Nat.le_of_lt h
  | none =>
    rw [hq] at h
    exact le_openPower (Nat.le_of_lt_succ h) (by simp [hq])

/-- Nothing takes a part of what is no bare operation. -/
theorem openPower_eq_index {t : Spelling} (hq : t.infixPower? = none) (hu : t.isUnary = false) :
    t.openPower = .index := by
  rw [openPower, hq, hu]
  rfl

/-- From the first word of the spelling, every level comes to the climb on from its tree.  This
takes as many levels as are open at the same time, and those that the spelling leaves open are not
there for the climb. -/
def IsRead (t : Spelling) : Prop :=
  ∀ p s d n, p < t.leastPower → s.Passes t.words d → d.current.kind.Ends t.openPower →
    LeadsTo ((Level.ofRoom standard n).expr p) s (t.peak < n)
      ((Level.ofRoom standard (n - 1 - t.folds)).climb p t.tree) (Before d)

end Spelling

/-! ### Climbing -/

/-- The climb stops at a token that binds no tighter than asked for, even if no level is left. -/
theorem Level.leadsTo_climb_of_ends {p : Power} {e : Expr} {s d : State} (hs : Before d s)
    (hd : d.current.kind.Ends p) (n : Nat) :
    LeadsTo ((ofRoom standard n).climb p e) s True (pure e) (Before d) := by
  cases n with
  | zero =>
    refine .state_bind ?_
    rw [hs.current_eq, hd.1]
    exact .refl hs
  | succ n =>
    refine .state_bind ?_
    rw [hs.current_eq, hd.1]
    exact .refl hs

/-- The climb goes on at a token that binds tighter, if there is one more level. -/
theorem Level.leadsTo_climb_of_continues {p q : Power} {rule : TailRule} {k : Kind}
    (hk : standard.tail k = some (q, rule)) (hpq : p < q) {e e' : Expr} {s m d : State}
    (hs : Before m s) (hm : m.current.kind = k) {n c : Nat}
    (hread : ∀ j, LeadsTo (rule.read (ofRoom standard j) q e) m (c ≤ j) (pure e') (Before d)) :
    LeadsTo ((ofRoom standard n).climb p e) s (c < n) ((ofRoom standard (n - 1)).climb p e')
      (Before d) := by
  have hcont : standard.continuation? p s.lookahead.kind = some (q, rule) := by
    rw [hs.current_eq, hm]
    exact Grammar.continuation?_eq_some hk hpq
  cases n with
  | zero =>
    have hrun : ((ofRoom standard 0).climb p e).run s = (refuseLevel : Action Expr).run s := by
      rw [ofRoom, bottom, run_state_bind, hcont]
    refine ⟨fun hf => absurd hf (Nat.not_lt_zero c), fun _ => ?_⟩
    exact (trips_refuseLevel s).of_told_eq rfl (by rw [hrun])
  | succ n =>
    refine .state_bind ?_
    rw [hcont]
    refine .advance_bind (hs.symm ▸ ?_)
    exact ((hread n).bind_sure fun t ht => .refl ht).congr Nat.lt_succ_iff

namespace Spelling

variable {t l : Spelling} {p q : Power}

/-- Where something that ends the spelling follows, the climb on from the tree stops at once. -/
theorem IsRead.readsExpr (h : t.IsRead) (hp : p < t.leastPower) (n : Nat) :
    (Level.ofRoom standard n).ReadsExpr p t.words (t.peak < n) t.tree := by
  intro s d hs hd
  refine ((h p s d n hp hs (hd.mono (le_openPower_of_lt hp))).trans fun u hu _ => ?_).congr
    (and_true _).symm.to_iff
  exact Level.leadsTo_climb_of_ends hu hd _

/-- A form that is known by its first token, given how a level reads it. -/
theorem isRead_of_head {rule : HeadRule} {w : Word} {ws : List Word} (hw : t.words = w :: ws)
    (hrule : standard.head w.kind = some rule) (hfolds : t.folds = 0)
    (hread : ∀ n s d, s.Passes t.words d → d.current.kind.Ends t.openPower →
      LeadsTo (rule.read (Level.ofRoom standard n)) s (t.peak ≤ n) (pure t.tree) (Before d)) :
    t.IsRead := by
  intro p s d n hp hs hd
  cases n with
  | zero => exact ⟨fun hf => absurd hf (Nat.not_lt_zero _), fun _ => trips_refuseLevel s⟩
  | succ n =>
    have hkind : s.current.kind = w.kind := by
      rw [hw] at hs
      exact hs.kind_eq
    rw [hfolds]
    refine .state_bind ?_
    rw [hkind, hrule]
    exact ((hread n s d hs hd).bind_sure fun u hu => .refl hu).congr Nat.lt_succ_iff

/-- A form that is known by the token after its left operand.  The climb on from the left operand
goes on at this token, and comes to the climb on from the whole. -/
theorem isRead_of_tail (hl : l.IsRead) {rule : TailRule} {w : Word} {ws : List Word} {c : Nat}
    (hw : t.words = l.words ++ w :: ws) (hrule : standard.tail w.kind = some (q, rule))
    (hleast : ∀ p, p < t.leastPower → p < l.leastPower ∧ p < q)
    (hopen : w.kind.Ends l.openPower) (hfolds : t.folds = l.folds + 1)
    (hpeak : t.peak = max l.peak (l.folds + 1 + c))
    (hread : ∀ n s d, s.Passes (w :: ws) d → d.current.kind.Ends t.openPower →
      LeadsTo (rule.read (Level.ofRoom standard n) q l.tree) s (c ≤ n) (pure t.tree)
        (Before d)) :
    t.IsRead := by
  intro p s d n hp hs hd
  rw [hw] at hs
  obtain ⟨m, hm, hrest⟩ := passes_append.mp hs
  obtain ⟨hpl, hpq⟩ := hleast p hp
  -- the left operand is read first, and the climb from it goes on at the token
  have hleft := hl p s m n hpl hm (hrest.kind_eq ▸ hopen)
  -- its own level and those it leaves open are not there for what comes next
  have hfits : t.peak < n ↔ l.peak < n ∧ c < n - 1 - l.folds := by omega
  have hroom : n - 1 - t.folds = n - 1 - l.folds - 1 := by omega
  rw [hroom]
  refine (hleft.trans fun u hu _ => ?_).congr hfits
  exact Level.leadsTo_climb_of_continues hrule hpq hu hrest.kind_eq fun j =>
    hread j m d hrest hd

end Spelling

/-! ### Blocks -/

theorem Spelling.lowest_lt_leastPower (t : Spelling) : .lowest < t.leastPower := by
  apply lt_leastPower (by decide)
  intro q hq
  cases t with
  | binary left op right => exact Option.some.inj hq ▸ (Grammar.tail_binary op.tail_eq).1
  | _ => simp [infixPower?] at hq

namespace Level

/-- A level reads a block if one more can be opened, and its statements from there. -/
theorem readsBlock_ofRoom {cs : List Clause} (hl : SpacedClauses cs .closeCurly)
    (h : ∀ c ∈ cs, ∀ v ∈ c.value?, v.IsRead) (n : Nat) :
    (ofRoom standard n).ReadsBlock (clauseWords cs) (1 + clausesCost cs ≤ n)
      (clauseTrees cs) := by
  intro s d hp
  cases n with
  | zero => exact ⟨fun hf => absurd hf (by omega), fun _ => trips_refuseLevel s⟩
  | succ n =>
    have hbody := Form.leadsTo_blockBody (L := ofRoom standard n) hl
      (fun c hc v hv => (h c hc v hv).readsExpr v.lowest_lt_leastPower n) hp
    exact hbody.congr (by rw [← clausesCost_le_iff]; omega)

theorem readsElse_ofRoom {other : Option (List Clause)}
    (hl : ∀ cs ∈ other, SpacedClauses cs .closeCurly)
    (h : ∀ cs ∈ other, ∀ c ∈ cs, ∀ v ∈ c.value?, v.IsRead) (n : Nat) :
    Form.ReadsElse (ofRoom standard n) (elseWords other) (elseCost other ≤ n)
      (elseTree other) := by
  cases other with
  | none =>
    intro s t d hp ht hd
    exact (Form.readsElse_none s t d hp ht hd).congr (by simp [elseCost])
  | some cs => exact Form.readsElse_some (readsBlock_ofRoom (hl cs rfl) (h cs rfl) n)

end Level

/-! ### Every form -/

namespace Spelling

variable {t l r : Spelling}

theorem isRead_literal {w : Word} (hw : t.words = [w]) (ht : w.literal? = some t.tree)
    (hk : standard.head w.kind = some .literal) (hfolds : t.folds = 0) (hpeak : t.peak = 0) :
    t.IsRead := by
  apply isRead_of_head hw hk hfolds
  intro n s d hs _
  rw [hw] at hs
  exact (Form.leadsTo_literal hs ht).congr (by simp [hpeak])

theorem isRead_group (h : t.IsRead) : (group t).IsRead := by
  apply isRead_of_head rfl rfl rfl
  intro n s d hs _
  refine (Form.leadsTo_group (h.readsExpr t.lowest_lt_leastPower n) hs).congr ?_
  rw [peak]
  omega

theorem isRead_unary (op : PrefixOp) (hq : t.infixPower? = none) (h : t.IsRead) :
    (unary op t).IsRead := by
  have hleast : Power.unary < t.leastPower := lt_leastPower (by decide) (by simp [hq])
  apply isRead_of_head rfl op.head_eq rfl
  intro n s d hs hd
  refine (Form.leadsTo_unary (h.readsExpr hleast n) hs hd).congr ?_
  rw [peak]
  omega

theorem isRead_binary (op : InfixOp) (hql : ∀ q ∈ l.infixPower?, op.power ≤ q)
    (hqr : ∀ q ∈ r.infixPower?, op.power < q) (hl : l.IsRead) (hr : r.IsRead) :
    (binary l op r).IsRead := by
  have hop : op.power < .unary := (Grammar.tail_binary op.tail_eq).2.1
  have hcall : op.power < .call := Nat.lt_trans hop (by decide)
  have hleast : ∀ p, p < op.power → p < l.leastPower ∧ p < op.power := by
    intro p hp
    refine ⟨lt_leastPower (Nat.lt_trans hp hcall) fun q hq => ?_, hp⟩
    exact Nat.lt_of_lt_of_le hp (hql q hq)
  have hright : op.power < r.leastPower := lt_leastPower hcall hqr
  -- the operator binds no tighter than what the left operand leaves open
  have hopen : op.power ≤ l.openPower := le_openPower (Nat.le_of_lt hop) hql
  have hends : op.word.kind.Ends l.openPower := by
    refine Kind.Ends.mono ⟨?_, ?_⟩ hopen
    · rw [Grammar.continuation?, op.tail_eq]
      split
      · rfl
      · exact Option.filter_eq_none_iff.mpr (by simp [Power.lt_def])
    · intro hk
      have := op.tail_eq
      rw [hk] at this
      simp [standard] at this
  refine isRead_of_tail (c := r.peak + 1) hl rfl op.tail_eq hleast hends rfl ?_ ?_
  · rw [peak]
    omega
  · intro n s d hs hd
    exact Form.leadsTo_binary l.tree (hr.readsExpr hright n) hs hd

/-- What is called or indexed ends before the parenthesis or the bracket. -/
theorem ends_openPower {k : Kind} (hq : t.infixPower? = none) (hu : t.isUnary = false)
    (hk : k ≠ .elseWord) : k.Ends t.openPower := by
  rw [openPower_eq_index hq hu]
  exact ⟨Grammar.continuation?_index k, hk⟩

theorem leastPower_eq_call (hq : t.infixPower? = none) : t.leastPower = .call := by
  rw [leastPower, hq]
  rfl

theorem isRead_call {es : List Spelling} (hq : t.infixPower? = none) (hu : t.isUnary = false)
    (h : t.IsRead) (hes : ∀ e ∈ es, e.IsRead) : (call t es).IsRead := by
  have hleast : ∀ p, p < (call t es).leastPower → p < t.leastPower ∧ p < .call := by
    intro p hp
    rw [leastPower_eq_call hq]
    exact ⟨hp, hp⟩
  have hw : (call t es).words = t.words ++
      mark .openParen :: listed false (es.map Spelling.words) ++ [mark .closeParen] := by
    rw [words, itemWords_eq_map]
  rw [List.append_assoc] at hw
  apply isRead_of_tail h hw rfl hleast (ends_openPower hq hu (by decide)) rfl rfl
  intro n s d hs _
  rw [tree, itemTrees_eq_map]
  refine (Form.leadsTo_call t.tree (fun e he => ?_) hs).congr itemsCost_le_iff
  exact (hes e he).readsExpr e.lowest_lt_leastPower n

theorem isRead_index (hq : t.infixPower? = none) (hu : t.isUnary = false) (h : t.IsRead)
    (hr : r.IsRead) : (index t r).IsRead := by
  have hleast : ∀ p, p < (index t r).leastPower → p < t.leastPower ∧ p < .index := by
    intro p hp
    rw [leastPower_eq_call hq]
    exact ⟨hp, Nat.lt_trans hp (show Power.call < Power.index by decide)⟩
  have hw : (index t r).words = t.words ++
      (mark .openBracket :: r.words ++ [mark .closeBracket]) := by
    rw [words, List.append_assoc]
  refine isRead_of_tail (c := r.peak + 1) h hw rfl hleast (ends_openPower hq hu (by decide)) rfl
    ?_ ?_
  · rw [peak]
    omega
  · intro n s d hs _
    exact Form.leadsTo_index t.tree (hr.readsExpr r.lowest_lt_leastPower n) hs

theorem isRead_array {es : List Spelling} (hes : ∀ e ∈ es, e.IsRead) : (array es).IsRead := by
  apply isRead_of_head rfl rfl rfl
  intro n s d hs _
  rw [words, itemWords_eq_map] at hs
  rw [tree, itemTrees_eq_map]
  refine (Form.leadsTo_array (fun e he => ?_) hs).congr itemsCost_le_iff
  exact (hes e he).readsExpr e.lowest_lt_leastPower n

theorem isRead_hash {ps : List (Spelling × Spelling)} (comma : Bool)
    (hps : ∀ q ∈ ps, q.1.IsRead ∧ q.2.IsRead) : (hash ps comma).IsRead := by
  apply isRead_of_head rfl rfl rfl
  intro n s d hs _
  rw [words, pairWords_eq_map] at hs
  rw [tree, pairTrees_eq_map]
  refine (Form.leadsTo_hash (·.peak < n) (fun q hq => ?_) hs).congr pairsCost_le_iff
  obtain ⟨hkey, hvalue⟩ := hps q hq
  exact ⟨hkey.readsExpr q.1.lowest_lt_leastPower n, hvalue.readsExpr q.2.lowest_lt_leastPower n⟩

theorem isRead_function (names : List String) {cs : List Clause}
    (hl : SpacedClauses cs .closeCurly)
    (h : ∀ c ∈ cs, ∀ v ∈ c.value?, v.IsRead) : (function names cs).IsRead := by
  apply isRead_of_head rfl rfl rfl
  intro n s d hs _
  exact Form.leadsTo_function (Level.readsBlock_ofRoom hl h n) hs

theorem isRead_conditional {cs : List Clause} {other : Option (List Clause)} (h : t.IsRead)
    (hl : SpacedClauses cs .closeCurly) (hcs : ∀ c ∈ cs, ∀ v ∈ c.value?, v.IsRead)
    (ho : ∀ cs ∈ other, SpacedClauses cs .closeCurly)
    (hother : ∀ cs ∈ other, ∀ c ∈ cs, ∀ v ∈ c.value?, v.IsRead) :
    (conditional t cs other).IsRead := by
  apply isRead_of_head rfl rfl rfl
  intro n s d hs hd
  have hread := Form.leadsTo_conditional (h.readsExpr t.lowest_lt_leastPower n)
    (Level.readsBlock_ofRoom hl hcs n) (Level.readsElse_ofRoom ho hother n) hs hd.2
  refine hread.congr ?_
  rw [peak]
  omega

end Spelling

mutual

/-- Legal spellings are read. -/
theorem Spelling.Legal.isRead : ∀ {t : Spelling}, t.Legal → t.IsRead
  | .ident _, _ => Spelling.isRead_literal rfl rfl rfl rfl rfl
  | .int value text reads, _ =>
    Spelling.isRead_literal rfl (by simp [Word.literal?, reads, Spelling.tree]) rfl rfl rfl
  | .str _, _ => Spelling.isRead_literal rfl rfl rfl rfl rfl
  | .bool true, _ => Spelling.isRead_literal rfl rfl rfl rfl rfl
  | .bool false, _ => Spelling.isRead_literal rfl rfl rfl rfl rfl
  | .group _, h => Spelling.isRead_group (Spelling.Legal.isRead h)
  | .unary op _, ⟨hq, h⟩ => Spelling.isRead_unary op hq h.isRead
  | .binary _ op _, ⟨hql, hqr, hl, hr⟩ => Spelling.isRead_binary op hql hqr hl.isRead hr.isRead
  | .conditional .., ⟨h, hcs, ho⟩ =>
    Spelling.isRead_conditional h.isRead (hcs.spaced (.inl rfl)) hcs.isRead ho.spaced ho.isRead
  | .function names _, h =>
    Spelling.isRead_function names (LegalClauses.spaced h (.inl rfl)) (LegalClauses.isRead h)
  | .call .., ⟨hq, hu, h, hes⟩ => Spelling.isRead_call hq hu h.isRead hes.isRead
  | .array _, h => Spelling.isRead_array (LegalItems.isRead h)
  | .index .., ⟨hq, hu, h, hr⟩ => Spelling.isRead_index hq hu h.isRead hr.isRead
  | .hash _ comma, h => Spelling.isRead_hash comma (LegalPairs.isRead h)

/-- The statement of a list, by its expression. -/
theorem Clause.Legal.isRead : ∀ {c : Clause} {last : Bool}, c.Legal last → ∀ v ∈ c.value?, v.IsRead
  | .binding .., _, ⟨_, h⟩, _, rfl => h.isRead
  | .ret (some _) _, _, ⟨_, h⟩, _, rfl => h.isRead
  | .expr .., _, ⟨_, h⟩, _, rfl => h.isRead

theorem LegalClauses.isRead : ∀ {cs : List Clause}, LegalClauses cs →
    ∀ c ∈ cs, ∀ v ∈ c.value?, v.IsRead
  | [], _ => List.forall_mem_nil _
  | _ :: _, ⟨h, hcs⟩ => List.forall_mem_cons.mpr ⟨h.isRead, hcs.isRead⟩

theorem LegalElse.isRead : ∀ {other : Option (List Clause)}, LegalElse other →
    ∀ cs ∈ other, ∀ c ∈ cs, ∀ v ∈ c.value?, v.IsRead
  | some _, h, _, rfl => LegalClauses.isRead h

theorem LegalItems.isRead : ∀ {es : List Spelling}, LegalItems es → ∀ e ∈ es, e.IsRead
  | [], _ => List.forall_mem_nil _
  | _ :: _, ⟨h, hes⟩ => List.forall_mem_cons.mpr ⟨h.isRead, hes.isRead⟩

theorem LegalPairs.isRead : ∀ {ps : List (Spelling × Spelling)}, LegalPairs ps →
    ∀ q ∈ ps, q.1.IsRead ∧ q.2.IsRead
  | [], _ => List.forall_mem_nil _
  | _ :: _, ⟨hk, hv, hps⟩ => List.forall_mem_cons.mpr ⟨⟨hk.isRead, hv.isRead⟩, hps.isRead⟩

end

/-! ### Programs -/

/-- A list of statements is read as a program, up to the end. -/
theorem Form.leadsTo_program {cs : List Clause} {s d : State} (hl : SpacedClauses cs .eof)
    (h : ∀ c ∈ cs, ∀ v ∈ c.value?, v.IsRead) (hp : s.Passes (clauseWords cs) d)
    (hd : d.current.kind = .eof) (n : Nat) :
    LeadsTo (program standard (Level.ofRoom standard n)) s (clausesCost cs ≤ n)
      (pure (clauseTrees cs)) (· = d) := by
  have hloop := leadsTo_repeatEntry (L := Level.ofRoom standard n) (programEntry_progresses _ _)
    (fun _ _ => rfl) (fun s hs _ => by simpa [beforeEnd] using hs) (hd ▸ hl)
    (fun c hc v hv => (h c hc v hv).readsExpr v.lowest_lt_leastPower n) hp
    (by simp [beforeEnd, hd]) (.inr hd)
  refine (hloop.bind_sure fun t ht => ?_).congr clausesCost_le_iff
  rw [filterMap_tree]
  exact .refl ht

/-- A source whose words are those of statements that end before one another is parsed as these
statements, unless they are nested too deeply.  In that case this is the first thing that is
found. -/
theorem parse_spacedClauses {src : Source} {cs : List Clause} {d : State}
    (hl : SpacedClauses cs .eof) (h : ∀ c ∈ cs, ∀ v ∈ c.value?, v.IsRead)
    (hp : (State.ofSource src).Passes (clauseWords cs) d) (hd : d.current.kind = .eof) :
    (clausesCost cs ≤ maxNesting → parse src = ⟨clauseTrees cs, []⟩) ∧
      (maxNesting < clausesCost cs → ∃ e rest, (parse src).diagnostics = e :: rest ∧
        e.cause = .tooDeep maxNesting) := by
  have hread := Form.leadsTo_program hl h hp hd maxNesting
  constructor
  · intro hfits
    obtain ⟨t, -, hdt, hr⟩ := hread.of_fits hfits
    rw [parse_eq (hr.trans (run_pure _ t)), hdt]
    rfl
  · intro hfits
    obtain ⟨e, rest, he, htold⟩ := hread.of_not_fits (Nat.not_le_of_lt hfits)
    obtain ⟨p, t, hr⟩ := Form.run_program_isOk standard (Level.ofRoom standard maxNesting)
      (.ofSource src)
    refine ⟨e, rest, ?_, he⟩
    rw [parse_eq hr]
    rw [hr] at htold
    exact htold

/-- A source whose words are those of legal statements is parsed as these statements, unless they
are nested too deeply. -/
theorem parse_clauses {src : Source} {cs : List Clause} {d : State} (hl : LegalClauses cs)
    (hp : (State.ofSource src).Passes (clauseWords cs) d) (hd : d.current.kind = .eof) :
    (clausesCost cs ≤ maxNesting → parse src = ⟨clauseTrees cs, []⟩) ∧
      (maxNesting < clausesCost cs → ∃ e rest, (parse src).diagnostics = e :: rest ∧
        e.cause = .tooDeep maxNesting) :=
  parse_spacedClauses (hl.spaced (.inr rfl)) hl.isRead hp hd

/-- A list of tokens that amounts to a legal spelling of an expression, perhaps with a semicolon
after it, is parsed as this expression, unless it is nested too deeply.  Tokens after the first one
that stands for the end make no difference. -/
theorem parse_spelling {t : Spelling} (ht : t.Legal) {ts rest : List Token}
    (heof : ∀ x ∈ ts, x.kind ≠ .eof) (hrest : ∀ x ∈ rest.head?, x.kind = .eof)
    (hw : ts.map Token.word = t.words ∨ ts.map Token.word = t.words ++ [mark .semicolon]) :
    (t.peak < maxNesting → parse (.ofTokens (ts ++ rest)) = ⟨[.expr t.tree], []⟩) ∧
      (maxNesting ≤ t.peak → ∃ e more, (parse (.ofTokens (ts ++ rest))).diagnostics = e :: more ∧
        e.cause = .tooDeep maxNesting) := by
  obtain ⟨n, hn, hws⟩ : ∃ n, (n = 1 ∨ n = 0) ∧
      ts.map Token.word = clauseWords [.expr t n] := by
    rcases hw with hw | hw
    · exact ⟨0, .inr rfl, by simp [clauseWords, Clause.words, semicolonWords, hw]⟩
    · exact ⟨1, .inl rfl, by simp [clauseWords, Clause.words, semicolonWords, hw]⟩
  have hl : LegalClauses [.expr t n] := ⟨⟨hn.imp_right fun h0 => ⟨h0, rfl⟩, ht⟩, trivial⟩
  have hcost : clausesCost [.expr t n] = 1 + t.peak := Nat.max_zero _
  obtain ⟨d, hp, hd⟩ := passes_ofTokens heof hrest
  rw [hws] at hp
  obtain ⟨hfits, hdeep⟩ := parse_clauses hl hp hd
  rw [hcost] at hfits hdeep
  exact ⟨fun h => hfits (by omega), fun h => hdeep (by omega)⟩

/-- In `a * (01 + b);` the parentheses have to be there. -/
theorem parse_spelling_product :
    parse (.ofTokens ([⟨.ident, "a", default⟩, ⟨.asterisk, "*", default⟩,
      ⟨.openParen, "(", default⟩, ⟨.int, "01", default⟩, ⟨.plus, "+", default⟩,
      ⟨.ident, "b", default⟩, ⟨.closeParen, ")", default⟩, ⟨.semicolon, ";", default⟩] ++
      [.eof .nowhere])) =
    ⟨[.expr (.binary (.ident "a") "*" (.binary (.int 1) "+" (.ident "b")))], []⟩ := by
  let sum : Spelling := .binary (.int 1 "01" (by decide)) ⟨mark .plus, .sum, rfl⟩ (.ident "b")
  let product : Spelling := .binary (.ident "a") ⟨mark .asterisk, .product, rfl⟩ (.group sum)
  have hlegal : product.Legal := by simp [product, sum, Spelling.Legal, Spelling.infixPower?]
  exact (parse_spelling (t := product) hlegal (by decide) (by decide) (.inr (by decide))).1
    (by decide)

end ExprLang
