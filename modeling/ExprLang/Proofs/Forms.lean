import ExprLang.Proofs.Fitting
import ExprLang.Proofs.Yielding

/-!
# The forms of expressions, and their spellings

If the parser reads an expression and has nothing to say about it, then it has passed the words of
a spelling of this expression: every token that it moved over has its place in the spelling, and
none is left out or taken twice.  If it has something to say, then the words up to the first token
that it blames are the beginning of a spelling, which more words complete.  Both spellings are such
that they are read again.  Here this is shown of each form of expression, given that it holds of the
parts inside it.

To complete an expression can take one more level than are open, for the block of a function.  So it
is done only for *fair* diagnostics, which are found while a level is left.

## Main definitions

* `State.Spells`, `State.MaySpell` — from the current token on, an expression is spelled, or the
  beginning of one.
* `Level.Sound` — what a level reads is a spelling, or the beginning of one.

## Main results

* `Form.yields_head`, `Form.yields_tail` — what the forms of expression read is a spelling, or the
  beginning of one.
-/

namespace ExprLang

open ExprLang.Action State
open Word (mark listed)
open Grammar (standard)

/-! ### Spelling between two states -/

namespace State

/-- From the current token of the first state up to and with that of the second, a spelling of the
expression is passed, and the token after it does not go on with it. -/
def Spells (s : State) (p : Power) (n : Nat) (e : Expr) (t : State) : Prop :=
  ∃ w : Spelling, w.tree = e ∧ s.Passes w.words t.advance ∧ w.Fits p n ∧
    standard.continuation? p t.lookahead.kind = none

/-- Up to the token that the diagnostic is about, the beginning of a spelling is passed. -/
def MaySpell (s : State) (p : Power) (n : Nat) (d : Diagnostic) : Prop :=
  ∃ w : Spelling, s.Completes d w.words ∧ w.Fits p n

/-- The words of a block with its braces are passed. -/
def SpellsBlock (s : State) (n : Nat) (b : Block) (t : State) : Prop :=
  ∃ cs : List Clause, clauseTrees cs = b ∧
    s.Passes (mark .openCurly :: clauseWords cs ++ [mark .closeCurly]) t.advance ∧
      ClausesFit cs .closeCurly n

/-- The beginning of a block is passed. -/
def MaySpellBlock (s : State) (n : Nat) (d : Diagnostic) : Prop :=
  ∃ cs : List Clause, s.Completes d (mark .openCurly :: clauseWords cs ++ [mark .closeCurly]) ∧
    ClausesFit cs .closeCurly n

/-- Where an expression is missing, a name can stand. -/
theorem MaySpell.here {s : State} {p : Power} {n : Nat} {d : Diagnostic}
    (hd : s.position.index = d.position.index) (hp : p < .call) (hn : 0 < n) : s.MaySpell p n d :=
  ⟨.filler, .here hd (by decide), Spelling.fits_filler hp hn⟩

end State

/-- From the first state up to the second, the spelling is passed that a climb goes on from.  There
are `n` more levels for it, and `m` together with those that the spelling leaves open. -/
structure Spelling.Stands (w : Spelling) (r s : State) (p : Power) (n m : Nat) : Prop where
  passes : r.Passes w.words s.advance
  fits : w.Fits p (m + 1)
  /-- What the spelling leaves open is closed again only at the end of the climb. -/
  room : w.folds + n = m
  /-- Nothing inside the spelling takes the next token. -/
  ends : standard.continuation? w.openPower s.lookahead.kind = none

/-- A spelling of the expression is passed that a climb goes on from. -/
def State.SpellsOperand (r : State) (p : Power) (n m : Nat) (e : Expr) (s : State) : Prop :=
  ∃ w : Spelling, w.tree = e ∧ w.Stands r s p n m

/-- What the level reads is a spelling, or the beginning of one if it finds something fair. -/
structure Level.Sound (L : Level) (n : Nat) (fair : Diagnostic → Prop) : Prop where
  /-- There is a level for what is missing. -/
  pos : ∀ d, fair d → 0 < n
  expr : ∀ {p} s, p < .call →
    (L.expr p).Yields s (s.Spells p n) fun d => fair d → s.MaySpell p n d
  climb : ∀ {p w r s m}, p < .call → Spelling.Stands w r s p n m →
    (L.climb p w.tree).Yields s (r.Spells p (m + 1)) fun d => fair d → r.MaySpell p (m + 1) d
  block : ∀ {s}, s.current.kind = .openCurly →
    L.block.Yields s (s.SpellsBlock n) fun d => fair d → s.MaySpellBlock n d

/-! ### What the standard grammar says -/

/-- The kind of the tokens that lead to a form, if it is the only one. -/
def HeadRule.kind? : HeadRule → Option Kind
  | literal | unary => none
  | group => some .openParen
  | conditional => some .ifWord
  | function => some .fnWord
  | array => some .openBracket
  | hash => some .openCurly

namespace Grammar

variable {k : Kind} {q : Power}

/-- The kind that leads to a form known by its first token. -/
theorem kind_of_head {rule : HeadRule} {l : Kind} (h : standard.head k = some rule)
    (hl : rule.kind? = some l) : k = l := by
  have hall : ∀ k ∈ Kind.all, ∀ l ∈ (standard.head k).bind HeadRule.kind?, k = l := by decide
  exact hall k k.mem_all l (by rw [h]; exact hl)

/-- The token that a call or an index is known by, and its power. -/
theorem kind_of_tail_call (h : standard.tail k = some (q, .call)) : k = .openParen ∧ q = .call := by
  have hall : ∀ k ∈ Kind.all, ∀ r ∈ standard.tail k, r.2 = .call →
      k = .openParen ∧ r.1 = .call := by decide
  exact hall k k.mem_all _ h rfl

theorem kind_of_tail_index (h : standard.tail k = some (q, .index)) :
    k = .openBracket ∧ q = .index := by
  have hall : ∀ k ∈ Kind.all, ∀ r ∈ standard.tail k, r.2 = .index →
      k = .openBracket ∧ r.1 = .index := by decide
  exact hall k k.mem_all _ h rfl

/-- The words that begin the statements with forms of their own. -/
theorem kind_of_statement {rule : StmtRule} (h : standard.statement k = some rule) :
    k = .letWord ∧ rule = .binding ∨ k = .returnWord ∧ rule = .ret := by
  have hall : ∀ k ∈ Kind.all, ∀ rule ∈ standard.statement k,
      k = .letWord ∧ rule = .binding ∨ k = .returnWord ∧ rule = .ret := by decide
  exact hall k k.mem_all rule h

/-- What continues an expression is in the table. -/
theorem tail_of_continuation? {p : Power} {rule : TailRule}
    (h : standard.continuation? p k = some (q, rule)) : standard.tail k = some (q, rule) := by
  rw [continuation?] at h
  split at h
  · simp at h
  · exact (Option.filter_eq_some_iff.mp h).1

end Grammar

/-- A comma after an entry is followed by the other entries, or it is the one after the last. -/
theorem Word.exists_listed_cons (trailing : Bool) (ws : List Word) (entries : List (List Word)) :
    ∃ trailing',
      listed trailing' (ws :: entries) = ws ++ mark .comma :: listed trailing entries := by
  cases entries with
  | nil => exact ⟨true, rfl⟩
  | cons vs entries => exact ⟨trailing, rfl⟩

namespace Form

variable {L : Level} {n : Nat} {fair : Diagnostic → Prop} {p : Power} {s t : State}

/-! ### Lists -/

/-- A comma that comes next is passed. -/
theorem passes_comma (hs : commaAhead s = true) :
    s.advance.Passes [mark .comma] s.advance.advance :=
  .of_kind (beq_iff_eq.mp hs : s.lookahead.kind = .comma) rfl

/-- The entries of a list after its first one, each with a comma before it. -/
theorem yields_moreItems (hL : L.Sound n fair) (s : State) :
    (repeatWhile commaAhead (nextItem L) (nextItem_progresses L)).Yields s
      (fun es t => ∃ ws : List Spelling, itemTrees ws = es ∧
        s.advance.Passes ((itemWords ws).flatMap (mark .comma :: ·)) t.advance ∧
          ∀ w ∈ ws, w.Fits .lowest n)
      (fun d => fair d → ∃ ws : List Spelling,
        s.advance.Completes d ((itemWords ws).flatMap (mark .comma :: ·)) ∧
          ∀ w ∈ ws, w.Fits .lowest n) := by
  apply Yields.repeatWhile (R := fun s e u => ∃ w : Spelling, w.tree = e ∧
    s.advance.Passes (mark .comma :: w.words) u.advance ∧ w.Fits .lowest n) (nextItem_progresses L)
  case hround =>
    intro s hs
    have hcomma := passes_comma hs
    refine .advance_bind (.advance_bind ((hL.expr s.advance.advance (by decide)).mono ?_ ?_))
    · rintro e u ⟨w, hw, hpass, hfits, -⟩
      exact ⟨w, hw, hcomma.trans hpass, hfits⟩
    · intro d h hd
      obtain ⟨w, hw, hfits⟩ := h hd
      exact ⟨[w], by simpa [itemWords] using hw.after hcomma, by simpa using hfits⟩
  case hnil => exact fun s _ => ⟨[], rfl, rfl, by simp⟩
  case hcons =>
    rintro s e u es t ⟨w, rfl, hw, hfits⟩ ⟨ws, rfl, hws, hall⟩
    exact ⟨w :: ws, rfl, hw.trans hws, List.forall_mem_cons.mpr ⟨hfits, hall⟩⟩
  case hlater =>
    rintro s e u d ⟨w, -, hw, hfits⟩ h hd
    obtain ⟨ws, hws, hall⟩ := h hd
    exact ⟨w :: ws, hws.after hw, List.forall_mem_cons.mpr ⟨hfits, hall⟩⟩

/-- A list of expressions from the token that opens it to the one that closes it. -/
theorem yields_items (hL : L.Sound n fair) {opening close : Kind} (hs : s.current.kind = opening)
    (hkinds : opening = .openParen ∧ close = .closeParen ∨
      opening = .openBracket ∧ close = .closeBracket) :
    (items L close).Yields s
      (fun es t => ∃ ws : List Spelling, itemTrees ws = es ∧
        s.Passes (mark opening :: listed false (itemWords ws) ++ [mark close]) t.advance ∧
          ∀ w ∈ ws, w.Fits .lowest n)
      (fun d => fair d → ∃ ws : List Spelling,
        s.Completes d (mark opening :: listed false (itemWords ws) ++ [mark close]) ∧
          ∀ w ∈ ws, w.Fits .lowest n) := by
  have hopen : s.Passes [mark opening] s.advance := by
    rcases hkinds with ⟨rfl, -⟩ | ⟨rfl, -⟩ <;> exact .of_kind hs rfl
  have hend : ∀ {u : State}, u.current.kind = close → u.Passes [mark close] u.advance := by
    intro u hu
    rcases hkinds with ⟨-, rfl⟩ | ⟨-, rfl⟩ <;> exact .of_kind hu rfl
  have hclose : ∀ w ∈ [mark close], w.Writable := by
    rcases hkinds with ⟨-, rfl⟩ | ⟨-, rfl⟩ <;> decide
  refine .state_bind ?_
  split
  · next hk =>
    exact .advance_bind (.pure ⟨[], rfl, hopen.trans (hend hk), by simp⟩)
  · refine .advance_bind ((hL.expr s.advance (by decide)).bind ?_ ?_)
    · intro d h hd
      obtain ⟨w, hw, hfits⟩ := h hd
      refine ⟨[w], ?_, by simpa using hfits⟩
      simpa [itemWords, Word.listed_singleton] using (hw.after hopen).append hclose
    · rintro e u ⟨w, rfl, hw, hfits, -⟩
      refine (yields_moreItems hL u).bind ?_ ?_
      · intro d h hd
        obtain ⟨ws, hws, hall⟩ := h hd
        refine ⟨w :: ws, ?_, List.forall_mem_cons.mpr ⟨hfits, hall⟩⟩
        rw [itemWords, Word.listed_false_cons]
        exact ((hws.after hw).after hopen).append hclose
      · rintro es v ⟨ws, rfl, hws, hall⟩
        have hlist := hopen.trans (hw.trans hws)
        have hboth : ∀ x ∈ w :: ws, x.Fits .lowest n := List.forall_mem_cons.mpr ⟨hfits, hall⟩
        refine .expect_bind (fun c _ => ⟨w :: ws, ?_, hboth⟩)
          fun hk => .pure ⟨w :: ws, rfl, ?_, hboth⟩
        · rw [itemWords, Word.listed_false_cons]
          refine .after hlist ?_
          exact .here rfl hclose
        · rw [itemWords, Word.listed_false_cons]
          exact hlist.trans (hend hk)

/-- A token that is a name is passed as this name. -/
theorem passes_name (hs : s.current.kind = .ident) :
    s.Passes [⟨.ident, s.current.value⟩] s.advance := by
  refine passes_singleton.mpr ⟨hs ▸ by decide, ?_, rfl⟩
  rw [← Token.text_word (.inr (hs ▸ rfl)), ← hs]
  rfl

/-- The names of a list after its first one, each with a comma before it. -/
theorem yields_moreNames (s : State) :
    (repeatWhile commaAhead nextName nextName_progresses).Yields s
      (fun names t => s.advance.Passes ((nameWords names).flatMap (mark .comma :: ·)) t.advance)
      (fun d => ∃ names, s.advance.Completes d ((nameWords names).flatMap (mark .comma :: ·))) := by
  apply Yields.repeatWhile (R := fun s name u =>
    s.advance.Passes [mark .comma, ⟨.ident, name⟩] u.advance) nextName_progresses
  case hround =>
    intro s hs
    have hcomma := passes_comma hs
    have hmissing : ∀ c, s.advance.Completes ⟨c, s.advance.advance.position⟩
        ([mark .comma] ++ [⟨.ident, "x"⟩]) := fun c => .after hcomma (.here rfl (by decide))
    refine .advance_bind (.expect_bind (fun c => ⟨["x"], hmissing c⟩) fun hk => ?_)
    exact .currentValue_bind (f := Pure.pure) (.pure (hcomma.trans (passes_name hk)))
  case hnil => exact fun s _ => rfl
  case hcons => exact fun s name u names t hname hnames => hname.trans hnames
  case hlater =>
    rintro s name u d hname ⟨names, hnames⟩
    exact ⟨name :: names, hnames.after hname⟩

/-- The parameters of a function, from the opening parenthesis to the closing one. -/
theorem yields_names (hs : s.current.kind = .openParen) :
    Form.names.Yields s
      (fun names t =>
        s.Passes (mark .openParen :: listed false (nameWords names) ++ [mark .closeParen])
          t.advance)
      (fun d => ∃ names,
        s.Completes d
          (mark .openParen :: listed false (nameWords names) ++ [mark .closeParen])) := by
  have hopen := Passes.of_kind hs rfl
  refine .state_bind ?_
  split
  · next hk =>
    have hend : s.advance.current.kind = .closeParen := hk
    exact .advance_bind (.pure (hopen.trans (.of_kind hend rfl)))
  · refine .expect_bind (fun c => ⟨[], ?_⟩) fun hname => .currentValue_bind ?_
    · refine .after hopen ?_
      exact .here rfl (by decide)
    · have hfirst := hopen.trans (passes_name hname)
      refine (yields_moreNames s.advance).bind ?_ ?_
      · rintro d ⟨names, hnames⟩
        refine ⟨s.advance.current.value :: names, ?_⟩
        rw [nameWords, List.map_cons, Word.listed_false_cons]
        exact (hnames.after hfirst).append (by decide)
      · intro names t hnames
        have hlist := hfirst.trans hnames
        refine .expect_bind (fun c => ⟨s.advance.current.value :: names, ?_⟩) fun hk => .pure ?_
        · rw [nameWords, List.map_cons, Word.listed_false_cons]
          refine .after hlist ?_
          exact .here rfl (by decide)
        · rw [nameWords, List.map_cons, Word.listed_false_cons]
          exact hlist.trans (.of_kind hk rfl)

/-- A comma after a pair is there, or else the brace comes next that closes the list. -/
theorem yields_commaOrClose (s : State) :
    commaOrClose.Yields s
      (fun _ t => s.lookahead.kind = .closeCurly ∧ t = s ∨
        s.advance.current.kind = .comma ∧ t = s.advance)
      (fun d => s.advance.position.index = d.position.index) := by
  refine .state_bind ?_
  split
  · next hk => exact .pure (.inl ⟨hk, rfl⟩)
  · exact .expect (fun _ => rfl) fun hk => .inr ⟨hk, rfl⟩

/-- A key and its value, and the comma after them if the list goes on. -/
theorem yields_pair (hL : L.Sound n fair) (s : State) :
    (pair L).Yields s
      (fun e u => ∃ key value : Spelling, (key.tree, value.tree) = e ∧ key.Fits .lowest n ∧
        value.Fits .lowest n ∧ (u.lookahead.kind = .closeCurly ∧
            s.advance.Passes (key.words ++ mark .colon :: value.words) u.advance ∨
          s.advance.Passes (key.words ++ mark .colon :: value.words ++ [mark .comma]) u.advance))
      (fun d => fair d → ∃ key value : Spelling, key.Fits .lowest n ∧ value.Fits .lowest n ∧
        s.advance.Completes d (key.words ++ mark .colon :: value.words)) := by
  refine .advance_bind ((hL.expr s.advance (by decide)).bind ?_ ?_)
  · intro d h hd
    obtain ⟨key, hkey, hfits⟩ := h hd
    exact ⟨key, .filler, hfits, Spelling.fits_filler (by decide) (hL.pos d hd),
      hkey.append (by decide)⟩
  · rintro e t ⟨key, rfl, hkey, hfits, -⟩
    refine .expect_bind (fun c hd => ?_) fun hcolon => .advance_bind ?_
    · exact ⟨key, .filler, hfits, Spelling.fits_filler (by decide) (hL.pos _ hd),
        .after hkey (.here rfl (by decide))⟩
    have hhead := hkey.trans (Passes.of_kind hcolon rfl)
    refine (hL.expr t.advance.advance (by decide)).bind ?_ ?_
    · intro d h hd
      obtain ⟨value, hvalue, hfits'⟩ := h hd
      exact ⟨key, value, hfits, hfits', by simpa using hvalue.after hhead⟩
    · rintro e u ⟨value, rfl, hvalue, hfits', -⟩
      have hpair : s.advance.Passes (key.words ++ mark .colon :: value.words) u.advance := by
        simpa using hhead.trans hvalue
      refine (yields_commaOrClose u).bind_pure (fun d hd _ => ?_) ?_
      · refine ⟨key, value, hfits, hfits', ?_⟩
        have hend : u.advance.Completes d [] := .here hd (by simp)
        simpa using hend.after hpair
      · rintro _ v (⟨hk, rfl⟩ | ⟨hk, rfl⟩)
        · exact ⟨key, value, rfl, hfits, hfits', .inl ⟨hk, hpair⟩⟩
        · exact ⟨key, value, rfl, hfits, hfits',
            .inr (hpair.trans (.of_kind hk rfl))⟩

/-- The pairs of a list after the token that opens it or the comma after a pair, with the commas
between them and perhaps one after the last. -/
theorem yields_repeatPair (hL : L.Sound n fair) (s : State) :
    (repeatWhile pairAhead (pair L) (pair_progresses L)).Yields s
      (fun es t => (s.lookahead.kind = .closeCurly → es = [] ∧ t = s) ∧
        ∃ ps comma, pairTrees ps = es ∧ s.advance.Passes (listed comma (pairWords ps)) t.advance ∧
          ∀ q ∈ ps, q.1.Fits .lowest n ∧ q.2.Fits .lowest n)
      (fun d => s.lookahead.kind ≠ .closeCurly ∧ (fair d →
        ∃ ps comma, s.advance.Completes d (listed comma (pairWords ps)) ∧
          ∀ q ∈ ps, q.1.Fits .lowest n ∧ q.2.Fits .lowest n)) := by
  apply Yields.repeatWhile (R := fun s e u => s.lookahead.kind ≠ .closeCurly ∧
    ∃ key value : Spelling, (key.tree, value.tree) = e ∧ key.Fits .lowest n ∧
      value.Fits .lowest n ∧ (u.lookahead.kind = .closeCurly ∧
          s.advance.Passes (key.words ++ mark .colon :: value.words) u.advance ∨
        s.advance.Passes (key.words ++ mark .colon :: value.words ++ [mark .comma]) u.advance))
    (pair_progresses L)
  case hround =>
    intro s hs
    have hne : s.lookahead.kind ≠ .closeCurly := by simpa [pairAhead] using hs
    refine (yields_pair hL s).mono (fun e u h => ⟨hne, h⟩) fun d h => ⟨hne, fun hd => ?_⟩
    obtain ⟨key, value, hkey, hvalue, hpair⟩ := h hd
    exact ⟨[(key, value)], false, by simpa [pairWords, Word.listed_singleton] using hpair,
      by simpa using ⟨hkey, hvalue⟩⟩
  case hnil => exact fun s hs => ⟨fun _ => ⟨rfl, rfl⟩, [], false, rfl, rfl, by simp⟩
  case hcons =>
    rintro s e u es t ⟨hne, key, value, rfl, hkey, hvalue, hpair⟩ ⟨hend, ps, comma, rfl, hps, hall⟩
    refine ⟨fun hk => absurd hk hne, ?_⟩
    have hboth : ∀ q ∈ (key, value) :: ps, q.1.Fits .lowest n ∧ q.2.Fits .lowest n :=
      List.forall_mem_cons.mpr ⟨⟨hkey, hvalue⟩, hall⟩
    -- without a comma the pair is the last one, and with it the other pairs follow
    rcases hpair with ⟨hk, hpair⟩ | hpair
    · obtain ⟨hnil, rfl⟩ := hend hk
      refine ⟨[(key, value)], false, by rw [hnil]; rfl, ?_, by simpa using ⟨hkey, hvalue⟩⟩
      simpa [pairWords, Word.listed_singleton] using hpair
    · obtain ⟨comma', hlisted⟩ := Word.exists_listed_cons comma
        (key.words ++ mark .colon :: value.words) (pairWords ps)
      refine ⟨(key, value) :: ps, comma', rfl, ?_, hboth⟩
      rw [pairWords, hlisted]
      simpa using hpair.trans hps
  case hlater =>
    rintro s e u d ⟨hne, key, value, rfl, hkey, hvalue, hpair⟩ ⟨hne', h⟩
    refine ⟨hne, fun hd => ?_⟩
    obtain ⟨ps, comma, hps, hall⟩ := h hd
    rcases hpair with ⟨hk, -⟩ | hpair
    · exact absurd hk hne'
    · obtain ⟨comma', hlisted⟩ := Word.exists_listed_cons comma
        (key.words ++ mark .colon :: value.words) (pairWords ps)
      refine ⟨(key, value) :: ps, comma', ?_, List.forall_mem_cons.mpr ⟨⟨hkey, hvalue⟩, hall⟩⟩
      rw [pairWords, hlisted]
      simpa using hps.after hpair

theorem yields_hash (hL : L.Sound n fair) (hs : s.current.kind = .openCurly) (hp : p < .call) :
    (hash L).Yields s (s.SpellsOperand p n n)
      fun d => fair d → s.MaySpell p (n + 1) d := by
  have hopen := Passes.of_kind hs rfl
  have hpairs : (pairs L).Yields s
      (fun es t => ∃ ps comma, pairTrees ps = es ∧
        s.Passes (mark .openCurly :: listed comma (pairWords ps) ++ [mark .closeCurly]) t.advance ∧
          ∀ q ∈ ps, q.1.Fits .lowest n ∧ q.2.Fits .lowest n)
      fun d => fair d → s.MaySpell p (n + 1) d := by
    refine (yields_repeatPair hL s).bind ?_ ?_
    · rintro d ⟨-, h⟩ hd
      obtain ⟨ps, comma, hps, hall⟩ := h hd
      exact ⟨.hash ps comma, (hps.after hopen).append (by decide), .hash comma hall hp⟩
    · rintro es t ⟨-, ps, comma, rfl, hps, hall⟩
      refine .expect_bind (fun c _ => ?_) fun hk => ?_
      · exact ⟨.hash ps comma, .after (hopen.trans hps) (.here rfl (by decide)),
          .hash comma hall hp⟩
      · exact .pure ⟨ps, comma, rfl, (hopen.trans hps).trans (.of_kind hk rfl), hall⟩
  refine hpairs.bind_pure (fun _ h => h) ?_
  rintro es t ⟨ps, comma, rfl, hps, hall⟩
  exact ⟨.hash ps comma, rfl, hps, .hash comma hall hp, Nat.zero_add n,
    Grammar.continuation?_index _⟩

/-! ### Forms that are known by their first token -/

theorem yields_literal (hp : p < .call) :
    literal.Yields s (s.SpellsOperand p n n)
      fun d => fair d → s.MaySpell p (n + 1) d := by
  -- all literals are words of their own, and only their kinds tell them apart
  have hstands : ∀ w : Spelling, s.Passes w.words s.advance → w.IsRead → w.infixPower? = none →
      w.isUnary = false → w.folds = 0 → w.peak = 0 → w.Stands s s p n n := by
    intro w hw hread hq hu hfolds hpeak
    refine ⟨hw, .of_infixPower?_eq_none hread hq hp (by omega), by omega, ?_⟩
    rw [Spelling.openPower_eq_index hq hu]
    exact Grammar.continuation?_index _
  have hword : ∀ k, s.current.kind = k → k ≠ .eof → k.text? = none →
      s.Passes [⟨k, s.current.value⟩] s.advance := by
    intro k hk heof htext
    refine passes_singleton.mpr ⟨hk ▸ heof, ?_, rfl⟩
    rw [← Token.text_word (.inr (hk ▸ htext)), ← hk]
    rfl
  refine .state_bind ?_
  split
  · next hk =>
    exact .pure ⟨.ident _, rfl, hstands _ (hword _ hk (by decide) rfl)
      (Spelling.isRead_literal rfl rfl rfl rfl rfl) rfl rfl rfl rfl⟩
  · next hk =>
    split
    · next m hm =>
      exact .pure ⟨.int m _ hm, rfl, hstands _ (hword _ hk (by decide) rfl)
        (Spelling.isRead_literal rfl (by simp [Word.literal?, hm, Spelling.tree]) rfl rfl rfl)
        rfl rfl rfl rfl⟩
    · exact .failHere fun _ => .here rfl hp (Nat.succ_pos n)
  · next hk =>
    exact .pure ⟨.str _, rfl, hstands _ (hword _ hk (by decide) rfl)
      (Spelling.isRead_literal rfl rfl rfl rfl rfl) rfl rfl rfl rfl⟩
  · next hk =>
    exact .pure ⟨.bool true, rfl, hstands _ (.of_kind hk rfl)
      (Spelling.isRead_literal rfl rfl rfl rfl rfl) rfl rfl rfl rfl⟩
  · next hk =>
    exact .pure ⟨.bool false, rfl, hstands _ (.of_kind hk rfl)
      (Spelling.isRead_literal rfl rfl rfl rfl rfl) rfl rfl rfl rfl⟩
  · exact .failHere fun _ => .here rfl hp (Nat.succ_pos n)

theorem yields_group (hL : L.Sound n fair) (hs : s.current.kind = .openParen) (hp : p < .call) :
    (group L).Yields s (s.SpellsOperand p n n)
      fun d => fair d → s.MaySpell p (n + 1) d := by
  have hopen := Passes.of_kind hs rfl
  refine .advance_bind ((hL.expr s.advance (by decide)).bind ?_ ?_)
  · intro d h hd
    obtain ⟨w, hw, hfits⟩ := h hd
    exact ⟨.group w, (hw.after hopen).append (by decide), hfits.group hp⟩
  · rintro e u ⟨w, rfl, hw, hfits, -⟩
    have hinside := hopen.trans hw
    refine .expect_bind (fun c _ => ⟨.group w, ?_, hfits.group hp⟩) fun hk => .pure ?_
    · exact .after hinside (.here rfl (by decide))
    · exact ⟨.group w, rfl, hinside.trans (.of_kind hk rfl), hfits.group hp,
        Nat.zero_add n, Grammar.continuation?_index _⟩

theorem yields_unary (hL : L.Sound n fair) (hs : standard.head s.current.kind = some .unary)
    (hp : p < .call) :
    (unary L).Yields s (s.SpellsOperand p n n)
      fun d => fair d → s.MaySpell p (n + 1) d := by
  have hop : s.current.kind.isOperator = true := Grammar.head_unary hs
  have heof : s.current.kind ≠ .eof := by
    intro hk
    rw [hk] at hs
    simp [standard] at hs
  have hword : s.Passes [s.current.word] s.advance := ⟨heof, rfl, rfl⟩
  refine .currentValue_bind (.advance_bind ((hL.expr s.advance (by decide)).bind_pure ?_ ?_))
  · intro d h hd
    obtain ⟨w, hw, hfits⟩ := h hd
    exact ⟨.unary ⟨s.current.word, hs⟩ w, hw.after hword, hfits.unary _ hp⟩
  · rintro e u ⟨w, rfl, hw, hfits, hcont⟩
    refine ⟨.unary ⟨s.current.word, hs⟩ w, ?_, hword.trans hw, hfits.unary _ hp, Nat.zero_add n,
      hcont⟩
    rw [Spelling.tree, Token.text_word (.inl hop)]

theorem yields_array (hL : L.Sound n fair) (hs : s.current.kind = .openBracket) (hp : p < .call) :
    (array L).Yields s (s.SpellsOperand p n n)
      fun d => fair d → s.MaySpell p (n + 1) d := by
  refine (yields_items hL hs (.inr ⟨rfl, rfl⟩)).bind_pure ?_ ?_
  · intro d h hd
    obtain ⟨ws, hws, hall⟩ := h hd
    exact ⟨.array ws, hws, .array hall hp⟩
  · rintro es t ⟨ws, rfl, hws, hall⟩
    exact ⟨.array ws, rfl, hws, .array hall hp, Nat.zero_add n, Grammar.continuation?_index _⟩

theorem yields_function (hL : L.Sound n fair) (hs : s.current.kind = .fnWord) (hp : p < .call) :
    (function L).Yields s (s.SpellsOperand p n n)
      fun d => fair d → s.MaySpell p (n + 1) d := by
  have hword := Passes.of_kind hs rfl
  -- the block that is missing is written without statements
  have hempty : ∀ d, fair d → ClausesFit [] .closeCurly n := fun d hd => .nil _ (hL.pos d hd)
  refine .expect_bind (fun c hd => ⟨.function [] [], ?_, .function [] (hempty _ hd) hp⟩) ?_
  · have hrest : s.advance.Completes ⟨c, s.advance.position⟩
        [mark .openParen, mark .closeParen, mark .openCurly, mark .closeCurly] :=
      .here rfl (by decide)
    simpa [Spelling.words, clauseWords, nameWords] using hrest.after hword
  intro hparen
  refine (yields_names hparen).bind ?_ ?_
  · rintro d ⟨names, hnames⟩ hd
    refine ⟨.function names [], ?_, .function names (hempty d hd) hp⟩
    have hrest : ∀ w ∈ [mark .openCurly, mark .closeCurly], w.Writable := by decide
    simpa [Spelling.words, clauseWords] using (hnames.after hword).append hrest
  · intro names t hnames
    have hhead := hword.trans hnames
    refine .expect_bind (fun c hd => ⟨.function names [], ?_, .function names (hempty _ hd) hp⟩) ?_
    · have hrest : t.advance.Completes ⟨c, t.advance.position⟩
          [mark .openCurly, mark .closeCurly] := .here rfl (by decide)
      simpa [Spelling.words, clauseWords] using hrest.after hhead
    intro hcurly
    refine (hL.block hcurly).bind_pure ?_ ?_
    · intro d h hd
      obtain ⟨cs, hcs, hfit⟩ := h hd
      refine ⟨.function names cs, ?_, .function names hfit hp⟩
      simpa [Spelling.words] using hcs.after hhead
    · rintro b u ⟨cs, rfl, hcs, hfit⟩
      refine ⟨.function names cs, rfl, ?_, .function names hfit hp, Nat.zero_add n,
        Grammar.continuation?_index _⟩
      simpa [Spelling.words] using hhead.trans hcs

/-- The second block of a conditional, or its absence. -/
theorem yields_alternative (hL : L.Sound n fair) (s : State) :
    (alternative L).Yields s
      (fun b t => ∃ o, elseTree o = b ∧ s.advance.Passes (elseWords o) t.advance ∧
        ∀ cs ∈ o, ClausesFit cs .closeCurly n)
      (fun d => fair d → ∃ o, s.advance.Completes d (elseWords o) ∧
        ∀ cs ∈ o, ClausesFit cs .closeCurly n) := by
  refine .state_bind ?_
  split
  · next hk =>
    have helse : s.advance.Passes [mark .elseWord] s.advance.advance :=
      .of_kind (show s.advance.current.kind = .elseWord from hk) rfl
    refine .advance_bind (.expect_bind (fun c hd => ⟨some [], ?_, ?_⟩) fun hcurly => ?_)
    · have hrest : s.advance.advance.Completes ⟨c, s.advance.advance.position⟩
          [mark .openCurly, mark .closeCurly] := .here rfl (by decide)
      simpa [elseWords, clauseWords] using hrest.after helse
    · simpa using ClausesFit.nil .closeCurly (hL.pos _ hd)
    refine (hL.block hcurly).bind_pure ?_ ?_
    · intro d h hd
      obtain ⟨cs, hcs, hfit⟩ := h hd
      exact ⟨some cs, by simpa [elseWords] using hcs.after helse, by simpa using hfit⟩
    · rintro b t ⟨cs, rfl, hcs, hfit⟩
      exact ⟨some cs, rfl, helse.trans hcs, by simpa using hfit⟩
  · exact .pure ⟨none, rfl, rfl, by simp⟩

theorem yields_conditional (hL : L.Sound n fair) (hs : s.current.kind = .ifWord) (hp : p < .call) :
    (conditional L).Yields s (s.SpellsOperand p n n)
      fun d => fair d → s.MaySpell p (n + 1) d := by
  have hword := Passes.of_kind hs rfl
  -- the block that is missing is written without statements
  have hempty : ∀ d, fair d → ClausesFit [] .closeCurly n := fun d hd => .nil _ (hL.pos d hd)
  have hnone : ∀ cs ∈ (none : Option (List Clause)), ClausesFit cs .closeCurly n := by simp
  refine .expect_bind (fun c hd => ?_) fun hparen => ?_
  · have hrest : s.advance.Completes ⟨c, s.advance.position⟩ (mark .openParen ::
        Spelling.filler.words ++ [mark .closeParen, mark .openCurly, mark .closeCurly]) :=
      .here rfl (by decide)
    refine ⟨.conditional .filler [] none, ?_, .conditional
      (Spelling.fits_filler (by decide) (hL.pos _ hd)) (hempty _ hd) hnone hp⟩
    simpa [Spelling.words, clauseWords, elseWords] using hrest.after hword
  have hopen := hword.trans (Passes.of_kind hparen rfl)
  refine .advance_bind ((hL.expr s.advance.advance (by decide)).bind ?_ ?_)
  · intro d h hd
    obtain ⟨w, hw, hfits⟩ := h hd
    have hrest : ∀ w ∈ [mark .closeParen, mark .openCurly, mark .closeCurly], w.Writable := by
      decide
    refine ⟨.conditional w [] none, ?_, .conditional hfits (hempty d hd) hnone hp⟩
    simpa [Spelling.words, clauseWords, elseWords] using (hw.after hopen).append hrest
  rintro e t ⟨w, rfl, hw, hfits, -⟩
  have hcondition := hopen.trans hw
  refine .expect_bind (fun c hd => ?_) fun hclose => .expect_bind (fun c hd => ?_) fun hcurly => ?_
  · have hrest : t.advance.Completes ⟨c, t.advance.position⟩
        [mark .closeParen, mark .openCurly, mark .closeCurly] := .here rfl (by decide)
    refine ⟨.conditional w [] none, ?_, .conditional hfits (hempty _ hd) hnone hp⟩
    simpa [Spelling.words, clauseWords, elseWords] using hrest.after hcondition
  · have hrest : t.advance.advance.Completes ⟨c, t.advance.advance.position⟩
        [mark .openCurly, mark .closeCurly] := .here rfl (by decide)
    have hhead := hcondition.trans (Passes.of_kind hclose rfl)
    refine ⟨.conditional w [] none, ?_, .conditional hfits (hempty _ hd) hnone hp⟩
    simpa [Spelling.words, clauseWords, elseWords] using hrest.after hhead
  have hhead := hcondition.trans (Passes.of_kind hclose rfl)
  refine (hL.block hcurly).bind ?_ ?_
  · intro d h hd
    obtain ⟨cs, hcs, hfit⟩ := h hd
    refine ⟨.conditional w cs none, ?_, .conditional hfits hfit hnone hp⟩
    simpa [Spelling.words, elseWords] using hcs.after hhead
  rintro b u ⟨cs, rfl, hcs, hfit⟩
  have hblock := hhead.trans hcs
  refine (yields_alternative hL u).bind_pure ?_ ?_
  · intro d h hd
    obtain ⟨o, ho, hother⟩ := h hd
    refine ⟨.conditional w cs o, ?_, .conditional hfits hfit hother hp⟩
    simpa [Spelling.words] using ho.after hblock
  · rintro other v ⟨o, rfl, ho, hother⟩
    refine ⟨.conditional w cs o, rfl, ?_, .conditional hfits hfit hother hp, Nat.zero_add n,
      Grammar.continuation?_index _⟩
    simpa [Spelling.words] using hblock.trans ho

/-- Every form that is known by its first token. -/
theorem yields_head (hL : L.Sound n fair) {rule : HeadRule}
    (hs : standard.head s.current.kind = some rule) (hp : p < .call) :
    (rule.read L).Yields s (s.SpellsOperand p n n)
      fun d => fair d → s.MaySpell p (n + 1) d := by
  cases rule with
  | literal => exact yields_literal hp
  | unary => exact yields_unary hL hs hp
  | group => exact yields_group hL (Grammar.kind_of_head hs rfl) hp
  | conditional => exact yields_conditional hL (Grammar.kind_of_head hs rfl) hp
  | function => exact yields_function hL (Grammar.kind_of_head hs rfl) hp
  | array => exact yields_array hL (Grammar.kind_of_head hs rfl) hp
  | hash => exact yields_hash hL (Grammar.kind_of_head hs rfl) hp

/-! ### Forms that are known by the token after their left operand -/

/-- Every form that is known by the token after its left operand. -/
theorem yields_tail (hL : L.Sound n fair) {rule : TailRule} {q : Power} {w : Spelling} {r : State}
    {m : Nat} (hp : p < .call) (hw : w.Stands r s p (n + 1) m)
    (hcont : standard.continuation? p s.lookahead.kind = some (q, rule)) :
    (rule.read L q w.tree).Yields s.advance
      (r.SpellsOperand p n m)
      fun d => fair d → r.MaySpell p (m + 1) d := by
  have hpq := Grammar.lt_of_continuation? hcont
  have htail := Grammar.tail_of_continuation? hcont
  have hopen := Spelling.Fits.le_openPower_of_continuation? htail hw.ends
  have hroom := hw.room
  -- the right part has the levels that neither the operator nor the left operand takes
  have hm : w.folds + 1 + n < m + 1 := by omega
  cases rule with
  | binary =>
    let op : InfixOp := ⟨s.advance.current.word, q, htail⟩
    have hop : s.advance.current.word.text = s.advance.current.value :=
      Token.text_word (.inl (Grammar.tail_binary htail).2.2)
    have heof := (Grammar.ne_of_continuation? hcont).1
    have hleft : r.Passes (w.words ++ [s.advance.current.word]) s.advance.advance :=
      hw.passes.trans ⟨heof, rfl, rfl⟩
    have hcall : q < .call := Nat.lt_trans (Grammar.tail_binary htail).2.1 (by decide)
    refine .currentValue_bind (.advance_bind ((hL.expr s.advance.advance hcall).bind_pure ?_ ?_))
    · intro d h hd
      obtain ⟨v, hv, hfits⟩ := h hd
      refine ⟨.binary w op v, ?_, hw.fits.binary op hm hopen hpq hfits⟩
      simpa [Spelling.words] using hv.after hleft
    · rintro e t ⟨v, rfl, hv, hfits, hend⟩
      refine ⟨.binary w op v, ?_, ?_, hw.fits.binary op hm hopen hpq hfits, ?_, hend⟩
      · rw [Spelling.tree, ← hop]
      · simpa [Spelling.words] using hleft.trans hv
      · rw [Spelling.folds]
        omega
  | call =>
    obtain ⟨hk, rfl⟩ := Grammar.kind_of_tail_call htail
    refine (yields_items hL (s := s.advance) hk (.inl ⟨rfl, rfl⟩)).bind_pure ?_ ?_
    · intro d h hd
      obtain ⟨ws, hws, hall⟩ := h hd
      refine ⟨.call w ws, ?_, hw.fits.call hm hopen hp hall⟩
      simpa [Spelling.words] using hws.after hw.passes
    · rintro es t ⟨ws, rfl, hws, hall⟩
      refine ⟨.call w ws, rfl, ?_, hw.fits.call hm hopen hp hall, ?_,
        Grammar.continuation?_index _⟩
      · simpa [Spelling.words] using hw.passes.trans hws
      · rw [Spelling.folds]
        omega
  | index =>
    obtain ⟨hk, rfl⟩ := Grammar.kind_of_tail_index htail
    have hleft := hw.passes.trans (Passes.of_kind (s := s.advance) hk rfl)
    refine .advance_bind ((hL.expr s.advance.advance (by decide)).bind ?_ ?_)
    · intro d h hd
      obtain ⟨v, hv, hfits⟩ := h hd
      refine ⟨.index w v, ?_, hw.fits.index hm hopen hp hfits⟩
      have hend : ∀ w ∈ [mark .closeBracket], w.Writable := by decide
      simpa [Spelling.words] using (hv.after hleft).append hend
    · rintro e t ⟨v, rfl, hv, hfits, -⟩
      have hplace := hleft.trans hv
      refine .expect_bind (fun c _ => ⟨.index w v, ?_, hw.fits.index hm hopen hp hfits⟩)
        fun hclose => .pure ⟨.index w v, rfl, ?_, hw.fits.index hm hopen hp hfits, ?_,
          Grammar.continuation?_index _⟩
      · have hend : t.advance.Completes ⟨c, t.advance.position⟩ [mark .closeBracket] :=
          .here rfl (by decide)
        simpa [Spelling.words] using hend.after hplace
      · have hend := Passes.of_kind hclose rfl
        simpa [Spelling.words] using hplace.trans hend
      · rw [Spelling.folds]
        omega

end Form

end ExprLang
