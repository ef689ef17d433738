import ExprLang.Parser.Nesting
import ExprLang.Proofs.Leading
import ExprLang.Proofs.Spelling

/-!
# Reading the forms of the language

The actions that read a form of expression or of statement do so in terms of the level below them.
Here each of them is shown to read the words of its form, given that the level below reads the parts
inside it.  What the level below can do is left open, and so is the condition on which it can.

## Main definitions

* `Level.ReadsExpr`, `Level.ReadsBlock` — a level reads an expression and a block from its words.

## Main results

* `leadsTo_group`, `leadsTo_unary`, … — the forms that are known by their first token.
* `leadsTo_binary`, `leadsTo_call`, `leadsTo_index` — those known by the token after an operand.
-/

namespace ExprLang

open ExprLang.Action State Form
open Word (mark listed)
open Grammar (standard)

/-! ### What the standard grammar says -/

namespace Grammar

/-- What does not continue an expression does not continue one that asks for more. -/
theorem continuation?_eq_none_of_le {g : Grammar} {p q : Power} (hpq : p ≤ q) {k : Kind}
    (h : g.continuation? p k = none) : g.continuation? q k = none := by
  unfold continuation? at h ⊢
  split at h
  · next hk => rw [if_pos hk]
  · next hk =>
    rw [if_neg hk]
    rw [Option.filter_eq_none_iff] at h ⊢
    intro a ha hlt
    exact h a ha (decide_eq_true (Nat.lt_of_le_of_lt hpq (of_decide_eq_true hlt)))

/-- What continues an expression is told by the table, unless it binds too weakly. -/
theorem continuation?_eq_some {p q : Power} {rule : TailRule} {k : Kind}
    (hk : standard.tail k = some (q, rule)) (hpq : p < q) :
    standard.continuation? p k = some (q, rule) := by
  have hne : k ≠ .semicolon := by
    rintro rfl
    simp [standard] at hk
  rw [continuation?, if_neg hne, hk]
  simpa using hpq

/-- Neither the end nor a semicolon begins an expression. -/
theorem ne_of_head {k : Kind} {rule : HeadRule} (h : standard.head k = some rule) :
    k ≠ .eof ∧ k ≠ .semicolon := by
  cases k <;> simp_all [standard]

/-- Neither the end nor a semicolon begins a statement that is no expression. -/
theorem ne_of_statement {k : Kind} {rule : StmtRule} (h : standard.statement k = some rule) :
    k ≠ .eof ∧ k ≠ .semicolon := by
  cases k <;> simp_all [standard]

/-- Neither the end nor a semicolon continues an expression. -/
theorem ne_of_continuation? {p q : Power} {k : Kind} {rule : TailRule}
    (h : standard.continuation? p k = some (q, rule)) : k ≠ .eof ∧ k ≠ .semicolon := by
  cases k <;> simp_all [continuation?, standard]

/-- Nothing binds tighter than an index. -/
theorem continuation?_index (k : Kind) : standard.continuation? .index k = none := by
  cases k <;> rfl

end Grammar

/-- A token of this kind ends an expression that takes only what binds tighter than `p`.  It does
not continue it, and it does not begin the second block of a conditional. -/
def Kind.Ends (k : Kind) (p : Power) : Prop :=
  standard.continuation? p k = none ∧ k ≠ .elseWord

instance (k : Kind) (p : Power) : Decidable (k.Ends p) := inferInstanceAs (Decidable (_ ∧ _))

theorem Kind.Ends.mono {k : Kind} {p q : Power} (h : k.Ends p) (hpq : p ≤ q) : k.Ends q :=
  ⟨Grammar.continuation?_eq_none_of_le hpq h.1, h.2⟩

/-- What closes a list ends every expression, begins none, and is no comma. -/
theorem Kind.ends_of_close {k : Kind} (h : k = .closeParen ∨ k = .closeBracket) :
    k.Ends .lowest ∧ standard.head k = none ∧ k ≠ .comma := by
  rcases h with rfl | rfl <;> decide

/-- The first word of an expression is one that begins an expression. -/
theorem Spelling.exists_words_eq_cons : ∀ t : Spelling,
    ∃ w ws rule, t.words = w :: ws ∧ standard.head w.kind = some rule
  | .ident _ => ⟨_, _, .literal, rfl, rfl⟩
  | .int .. => ⟨_, _, .literal, rfl, rfl⟩
  | .str _ => ⟨_, _, .literal, rfl, rfl⟩
  | .bool true => ⟨_, _, .literal, rfl, rfl⟩
  | .bool false => ⟨_, _, .literal, rfl, rfl⟩
  | .group _ => ⟨_, _, .group, rfl, rfl⟩
  | .unary op _ => ⟨_, _, .unary, rfl, op.head_eq⟩
  | .conditional .. => ⟨_, _, .conditional, rfl, rfl⟩
  | .function .. => ⟨_, _, .function, rfl, rfl⟩
  | .array _ => ⟨_, _, .array, rfl, rfl⟩
  | .hash .. => ⟨_, _, .hash, rfl, rfl⟩
  | .binary left _ _ => by
    obtain ⟨w, ws, rule, hws, hw⟩ := left.exists_words_eq_cons
    exact ⟨w, _, rule, by rw [words, hws, List.cons_append], hw⟩
  | .call callee _ => by
    obtain ⟨w, ws, rule, hws, hw⟩ := callee.exists_words_eq_cons
    exact ⟨w, _, rule, by rw [words, hws, List.cons_append, List.cons_append], hw⟩
  | .index subject _ => by
    obtain ⟨w, ws, rule, hws, hw⟩ := subject.exists_words_eq_cons
    exact ⟨w, _, rule, by rw [words, hws, List.cons_append, List.cons_append], hw⟩

/-- Where an expression is about to be passed, the current token begins an expression. -/
theorem State.Passes.isSome_head {s d : State} {t : Spelling} {ws : List Word}
    (h : s.Passes (t.words ++ ws) d) : ∃ rule, standard.head s.current.kind = some rule := by
  obtain ⟨w, vs, rule, hws, hw⟩ := t.exists_words_eq_cons
  rw [hws, List.cons_append] at h
  exact ⟨rule, by rw [h.kind_eq, hw]⟩

/-! ### What a level reads -/

/-- The expression that a single word stands for. -/
def Word.literal? (w : Word) : Option Expr :=
  match w.kind with
  | .ident => some (.ident w.text)
  | .int => (Text.readInteger? w.text).map .int
  | .string => some (.str w.text)
  | .trueWord => some (.bool true)
  | .falseWord => some (.bool false)
  | _ => none

/-- The level reads an expression that takes only what binds tighter than `p` from its words, if
the words are followed by something that ends it. -/
def Level.ReadsExpr (L : Level) (p : Power) (ws : List Word) (fits : Prop) (e : Expr) : Prop :=
  ∀ s d, s.Passes ws d → d.current.kind.Ends p →
    LeadsTo (L.expr p) s fits (pure e) (Before d)

/-- The level reads a block from its words, braces included. -/
def Level.ReadsBlock (L : Level) (ws : List Word) (fits : Prop) (b : Block) : Prop :=
  ∀ s d, s.Passes (mark .openCurly :: ws ++ [mark .closeCurly]) d →
    LeadsTo L.block s fits (pure b) (Before d)

theorem State.Passes.before {s d : State} {w : Word} (h : s.Passes [w] d) : Before d s :=
  (passes_singleton.mp h).2.2.symm

/-- An expression and then a word that closes it. -/
theorem Level.ReadsExpr.expect_bind {α : Type} {L : Level} {ws : List Word} {fits : Prop} {e : Expr}
    (h : L.ReadsExpr .lowest ws fits e) {close : Kind} {s m d : State} (hm : s.Passes ws m)
    (hd : m.Passes [mark close] d) (hclose : close.Ends .lowest)
    {f : Expr → Action α} {fits' : Prop} {m' : Action α} {after : State → Prop}
    (hf : LeadsTo (f e) m fits' m' after) :
    LeadsTo (L.expr .lowest >>= fun e => expect close >>= fun _ => f e) s (fits ∧ fits') m' after :=
  (h s m hm (by rw [hd.kind_eq]; exact hclose)).bind fun _ ht =>
    LeadsTo.expect_bind ht hd.kind_eq hf

namespace Form

variable {L : Level} {s d : State} {fits fits' : Prop} {e e' : Expr} {ws vs : List Word}

/-! ### Forms without lists -/

theorem leadsTo_literal {w : Word} (hp : s.Passes [w] d) (hw : w.literal? = some e) :
    LeadsTo literal s True (pure e) (Before d) := by
  have hk := hp.kind_eq
  refine .state_bind ?_
  rcases w with ⟨k, text⟩
  unfold Word.literal? at hw
  cases k <;> simp only [reduceCtorEq, Option.some.injEq] at hk hw
  all_goals simp only [hk]
  case ident => exact hw ▸ hp.text_eq (.inr rfl) ▸ .refl hp.before
  case string => exact hw ▸ hp.text_eq (.inr rfl) ▸ .refl hp.before
  case trueWord => exact hw ▸ .refl hp.before
  case falseWord => exact hw ▸ .refl hp.before
  case int =>
    obtain ⟨n, hn, rfl⟩ := Option.map_eq_some_iff.mp hw
    rw [hp.text_eq (.inr rfl), hn]
    exact .refl hp.before

theorem leadsTo_group (h : L.ReadsExpr .lowest ws fits e)
    (hp : s.Passes (mark .openParen :: ws ++ [mark .closeParen]) d) :
    LeadsTo (group L) s fits (pure e) (Before d) := by
  obtain ⟨m, hm, hd⟩ := passes_append.mp hp.tail
  exact .advance_bind ((h.expect_bind hm hd (by decide) (.refl hd.before)).congr (by simp))

theorem leadsTo_unary {op : PrefixOp} (h : L.ReadsExpr .unary ws fits e)
    (hp : s.Passes (op.word :: ws) d) (hd : d.current.kind.Ends .unary) :
    LeadsTo (unary L) s fits (pure (.unary op.word.text e)) (Before d) := by
  have hop := hp.text_eq (.inl (Grammar.head_unary op.head_eq))
  exact .currentValue_bind (.advance_bind (hop ▸ (h s.advance d hp.tail hd).bind_pure))

theorem leadsTo_binary {op : InfixOp} (left : Expr) (h : L.ReadsExpr op.power ws fits e)
    (hp : s.Passes (op.word :: ws) d) (hd : d.current.kind.Ends op.power) :
    LeadsTo (binary L op.power left) s fits (pure (.binary left op.word.text e)) (Before d) := by
  have hop := hp.text_eq (.inl (Grammar.tail_binary op.tail_eq).2.2)
  exact .currentValue_bind (.advance_bind (hop ▸ (h s.advance d hp.tail hd).bind_pure))

theorem leadsTo_index (left : Expr) (h : L.ReadsExpr .lowest ws fits e)
    (hp : s.Passes (mark .openBracket :: ws ++ [mark .closeBracket]) d) :
    LeadsTo (index L left) s fits (pure (.index left e)) (Before d) := by
  obtain ⟨m, hm, hd⟩ := passes_append.mp hp.tail
  exact .advance_bind ((h.expect_bind hm hd (by decide) (.refl hd.before)).congr (by simp))

/-! ### Lists -/

/-- The expressions of a list after its first one, each with a comma before it. -/
theorem leadsTo_moreItems {es : List Spelling} {fit : Spelling → Prop}
    (h : ∀ e ∈ es, L.ReadsExpr .lowest e.words (fit e) e.tree)
    (hp : s.advance.Passes ((es.map Spelling.words).flatMap (mark .comma :: ·)) d)
    (hd : d.current.kind.Ends .lowest) (hc : d.current.kind ≠ .comma) :
    LeadsTo (repeatWhile commaAhead (nextItem L) (nextItem_progresses L)) s (∀ e ∈ es, fit e)
      (pure (es.map Spelling.tree)) (Before d) := by
  induction es generalizing s with
  | nil =>
    have hsd : Before d s := (passes_nil.mp hp).symm
    have hstop : commaAhead s = false := by
      simpa [commaAhead, hsd.current_eq] using hc
    exact (LeadsTo.repeat_nil _ hstop hsd).congr (by simp)
  | cons e es ih =>
    obtain ⟨m, hm, hrest⟩ := passes_append.mp hp.tail
    have hagain : commaAhead s = true := by
      simpa [commaAhead, ← current_advance] using hp.kind_eq
    have hends : m.current.kind.Ends .lowest := by
      cases es with
      | nil => rwa [← passes_nil.mp hrest]
      | cons e' es => rw [hrest.kind_eq]; decide
    have hfirst : LeadsTo (nextItem L) s (fit e) (pure e.tree) (Before m) :=
      .advance_bind (.advance_bind (h e List.mem_cons_self s.advance.advance m hm hends))
    refine (LeadsTo.repeat_cons (nextItem_progresses L) hagain hfirst fun t ht => ?_).congr
      List.forall_mem_cons
    exact ih (fun x hx => h x (List.mem_cons_of_mem _ hx)) (ht ▸ hrest)

/-- A list of expressions from the token that opens it to the one that closes it. -/
theorem leadsTo_items {es : List Spelling} {fit : Spelling → Prop} {opening close : Kind}
    (hclose : close = .closeParen ∨ close = .closeBracket)
    (h : ∀ e ∈ es, L.ReadsExpr .lowest e.words (fit e) e.tree)
    (hp : s.Passes (mark opening :: listed false (es.map Spelling.words) ++ [mark close]) d) :
    LeadsTo (items L close) s (∀ e ∈ es, fit e) (pure (es.map Spelling.tree)) (Before d) := by
  obtain ⟨hlowest, hhead, hcomma⟩ := Kind.ends_of_close hclose
  cases es with
  | nil =>
    have hnext : s.lookahead.kind = close := hp.tail.kind_eq
    have hread : LeadsTo (items L close) s True (pure []) (Before d) := by
      refine .state_bind ?_
      rw [if_pos hnext]
      exact .advance_bind (.refl hp.tail.before)
    exact hread.congr (by simp)
  | cons e es =>
    rw [List.cons_append] at hp
    replace hp := hp.tail
    rw [List.map_cons, Word.listed_false_cons, List.append_assoc] at hp
    -- what begins an expression does not close the list
    have hnext : s.lookahead.kind ≠ close := by
      obtain ⟨rule, hrule⟩ := hp.isSome_head
      rintro rfl
      rw [current_advance, hhead] at hrule
      simp at hrule
    obtain ⟨m, hm, hrest⟩ := passes_append.mp hp
    obtain ⟨m', hm', hd⟩ := passes_append.mp hrest
    have hends : m.current.kind.Ends .lowest := by
      cases es with
      | nil => rw [hrest.kind_eq]; exact hlowest
      | cons e' es => rw [hrest.kind_eq]; decide
    have hfirst := h e List.mem_cons_self s.advance m hm hends
    refine .congr (.state_bind ?_) List.forall_mem_cons
    rw [if_neg hnext]
    refine .advance_bind (hfirst.bind fun t ht => ?_)
    have hmore := leadsTo_moreItems (L := L) (s := t) (fun x hx => h x (List.mem_cons_of_mem _ hx))
      (ht ▸ hm') (by rw [hd.kind_eq]; exact hlowest) (by rw [hd.kind_eq]; exact hcomma)
    exact hmore.bind_sure fun u hu => .expect_bind hu hd.kind_eq (.refl hd.before)

/-- The arguments of a call. -/
theorem leadsTo_call {es : List Spelling} {fit : Spelling → Prop} (callee : Expr)
    (h : ∀ e ∈ es, L.ReadsExpr .lowest e.words (fit e) e.tree)
    (hp : s.Passes (mark .openParen :: listed false (es.map Spelling.words) ++ [mark .closeParen])
      d) :
    LeadsTo (call L callee) s (∀ e ∈ es, fit e) (pure (.call callee (es.map Spelling.tree)))
      (Before d) :=
  (leadsTo_items (.inl rfl) h hp).bind_pure

theorem leadsTo_array {es : List Spelling} {fit : Spelling → Prop}
    (h : ∀ e ∈ es, L.ReadsExpr .lowest e.words (fit e) e.tree)
    (hp : s.Passes (mark .openBracket :: listed false (es.map Spelling.words) ++
      [mark .closeBracket]) d) :
    LeadsTo (array L) s (∀ e ∈ es, fit e) (pure (.array (es.map Spelling.tree))) (Before d) :=
  (leadsTo_items (.inr rfl) h hp).bind_pure

/-- The first entry of a list is followed by a comma, or else it is the last. -/
theorem passes_listed_cons {comma : Bool} {entries : List (List Word)}
    (hp : s.Passes (listed comma (ws :: entries)) d) :
    ∃ m, s.Passes ws m ∧ (m.current.kind = .comma ∧ m.advance.Passes (listed comma entries) d ∨
      entries = [] ∧ m = d) := by
  cases entries with
  | nil =>
    rw [Word.listed_singleton] at hp
    obtain ⟨m, hm, hd⟩ := passes_append.mp hp
    refine ⟨m, hm, ?_⟩
    cases comma with
    | true => exact .inl ⟨hd.kind_eq, hd.tail⟩
    | false => exact .inr ⟨rfl, (passes_nil.mp hd).symm⟩
  | cons vs entries =>
    rw [Word.listed_cons_cons] at hp
    obtain ⟨m, hm, hd⟩ := passes_append.mp hp
    exact ⟨m, hm, .inl ⟨hd.kind_eq, hd.tail⟩⟩

theorem leadsTo_commaOrClose {m : State} (hs : Before m s)
    (h : m.current.kind = .comma ∧ d = m.advance ∨ m.current.kind = .closeCurly ∧ d = m) :
    LeadsTo commaOrClose s True (pure ()) (Before d) := by
  refine .state_bind ?_
  rcases h with ⟨hk, rfl⟩ | ⟨hk, rfl⟩
  · rw [if_neg (by rw [hs.current_eq, hk]; decide)]
    exact .expect hs hk rfl
  · rw [if_pos (by rw [hs.current_eq, hk])]
    exact .refl hs

/-- The pairs of a list, with the commas after them. -/
theorem leadsTo_repeatPair {ps : List (Spelling × Spelling)} {comma : Bool}
    {fit : Spelling → Prop} (h : ∀ q ∈ ps, L.ReadsExpr .lowest q.1.words (fit q.1) q.1.tree ∧
      L.ReadsExpr .lowest q.2.words (fit q.2) q.2.tree)
    (hp : s.advance.Passes (listed comma (ps.map pairWord)) d) (hd : d.current.kind = .closeCurly) :
    LeadsTo (repeatWhile pairAhead (pair L) (pair_progresses L)) s
      (∀ q ∈ ps, fit q.1 ∧ fit q.2) (pure (ps.map fun q => (q.1.tree, q.2.tree))) (Before d) := by
  induction ps generalizing s with
  | nil =>
    have hsd : Before d s := (passes_nil.mp hp).symm
    have hstop : pairAhead s = false := by
      simpa [pairAhead, hsd.current_eq] using hd
    exact (LeadsTo.repeat_nil _ hstop hsd).congr (by simp)
  | cons q ps ih =>
    obtain ⟨hkey, hvalue⟩ := h q List.mem_cons_self
    obtain ⟨m, hm, hrest⟩ := passes_listed_cons hp
    obtain ⟨c, hc, hv⟩ := passes_append.mp hm
    have hcolon : c.Passes [mark .colon] c.advance := hv.head
    have hagain : pairAhead s = true := by
      obtain ⟨rule, hrule⟩ := hm.isSome_head
      have hne : s.lookahead.kind ≠ .closeCurly := by
        intro hk
        rw [current_advance, hk] at hrule
        simp [standard] at hrule
      simpa [pairAhead] using hne
    -- where the next pair begins, or where the list ends
    obtain ⟨n, hn, hends, hnext⟩ : ∃ n, (m.current.kind = .comma ∧ n = m.advance ∨
        m.current.kind = .closeCurly ∧ n = m) ∧ m.current.kind.Ends .lowest ∧
        n.Passes (listed comma (ps.map pairWord)) d := by
      rcases hrest with ⟨hk, hrest⟩ | ⟨hps, rfl⟩
      · exact ⟨m.advance, .inl ⟨hk, rfl⟩, by rw [hk]; decide, hrest⟩
      · exact ⟨m, .inr ⟨hd, rfl⟩, by rw [hd]; decide, by rw [hps]; rfl⟩
    have hpair : LeadsTo (pair L) s (fit q.1 ∧ fit q.2) (pure (q.1.tree, q.2.tree))
        (Before n) := by
      refine .advance_bind (hkey.expect_bind hc hcolon (by decide) (.advance_bind ?_))
      refine (hvalue c.advance m hv.tail hends).bind_sure fun t ht => ?_
      exact (leadsTo_commaOrClose ht hn).bind_pure
    refine (LeadsTo.repeat_cons (pair_progresses L) hagain hpair fun t ht => ?_).congr
      List.forall_mem_cons
    exact ih (fun x hx => h x (List.mem_cons_of_mem _ hx)) (ht ▸ hnext)

/-- A list of keys and values, from the opening brace to the closing one. -/
theorem leadsTo_hash {ps : List (Spelling × Spelling)} {comma : Bool} (fit : Spelling → Prop)
    (h : ∀ q ∈ ps, L.ReadsExpr .lowest q.1.words (fit q.1) q.1.tree ∧
      L.ReadsExpr .lowest q.2.words (fit q.2) q.2.tree)
    (hp : s.Passes (mark .openCurly :: listed comma (ps.map pairWord) ++ [mark .closeCurly]) d) :
    LeadsTo (hash L) s (∀ q ∈ ps, fit q.1 ∧ fit q.2)
      (pure (.hash (ps.map fun q => (q.1.tree, q.2.tree)))) (Before d) := by
  obtain ⟨m, hm, hd⟩ := passes_append.mp hp.tail
  have hpairs := leadsTo_repeatPair (L := L) (s := s) h hm hd.kind_eq
  exact (hpairs.bind_sure fun t ht => .expect_bind ht hd.kind_eq (.refl hd.before)).bind_pure

/-- The names of a list after its first one, each with a comma before it. -/
theorem leadsTo_moreNames {names : List String}
    (hp : s.advance.Passes ((nameWords names).flatMap (mark .comma :: ·)) d)
    (hc : d.current.kind ≠ .comma) :
    LeadsTo (repeatWhile commaAhead nextName nextName_progresses) s True (pure names)
      (Before d) := by
  induction names generalizing s with
  | nil =>
    have hsd : Before d s := (passes_nil.mp hp).symm
    have hstop : commaAhead s = false := by
      simpa [commaAhead, hsd.current_eq] using hc
    exact LeadsTo.repeat_nil _ hstop hsd
  | cons name names ih =>
    have hagain : commaAhead s = true := by
      simpa [commaAhead, ← current_advance] using hp.kind_eq
    have hname : s.advance.advance.current.value = name := hp.tail.text_eq (.inr rfl)
    have hfirst : LeadsTo nextName s True (pure name) (Before s.advance.advance.advance) :=
      .advance_bind (.expect_bind rfl hp.tail.kind_eq (hname ▸ .currentValue rfl))
    refine (LeadsTo.repeat_cons nextName_progresses hagain hfirst fun t ht => ?_).congr
      (and_self True).symm.to_iff
    exact ih (ht ▸ hp.tail.tail)

/-- The parameters of a function, from the opening parenthesis to the closing one. -/
theorem leadsTo_names {names : List String}
    (hp : s.Passes (mark .openParen :: listed false (nameWords names) ++ [mark .closeParen]) d) :
    LeadsTo Form.names s True (pure names) (Before d) := by
  refine .state_bind ?_
  cases names with
  | nil =>
    have hnext : s.lookahead.kind = .closeParen := hp.tail.kind_eq
    rw [if_pos hnext]
    exact .advance_bind (.refl hp.tail.before)
  | cons name names =>
    rw [List.cons_append] at hp
    replace hp := hp.tail
    rw [nameWords, List.map_cons, Word.listed_false_cons, List.append_assoc, List.cons_append,
      List.nil_append] at hp
    have hkind : s.lookahead.kind = .ident := hp.kind_eq
    have hname : s.advance.current.value = name := hp.text_eq (.inr rfl)
    obtain ⟨m, hm, hd⟩ := passes_append.mp hp.tail
    rw [if_neg (by rw [hkind]; decide)]
    refine .expect_bind rfl hkind (.currentValue_bind (hname ▸ ?_))
    have hmore := leadsTo_moreNames hm (by rw [hd.kind_eq]; decide)
    exact hmore.sure_bind fun t ht => .expect_bind ht hd.kind_eq (.refl hd.before)

/-! ### Forms with blocks -/

/-- A function, given how its body is read. -/
theorem leadsTo_function {names : List String} {b : Block} (h : L.ReadsBlock ws fits b)
    (hp : s.Passes (mark .fnWord :: mark .openParen :: listed false (nameWords names) ++
      mark .closeParen :: mark .openCurly :: ws ++ [mark .closeCurly]) d) :
    LeadsTo (function L) s fits (pure (.function names b)) (Before d) := by
  rw [List.cons_append, List.cons_append, List.append_assoc] at hp
  obtain ⟨m, hm, hd⟩ := passes_append.mp hp.tail
  have hnames := leadsTo_names (hm.trans hd.head)
  refine .expect_bind rfl hm.kind_eq (hnames.sure_bind fun t ht => ?_)
  exact .expect_bind ht hd.tail.kind_eq (h m.advance d hd.tail).bind_pure

/-- The second block of a conditional, or its absence. -/
def ReadsElse (L : Level) (ws : List Word) (fits : Prop) (b : Option Block) : Prop :=
  ∀ s t d, s.Passes ws d → Before s t → d.current.kind ≠ .elseWord →
    LeadsTo (alternative L) t fits (pure b) (Before d)

theorem readsElse_none : ReadsElse L [] True none := by
  intro s t d hp ht hd
  refine .state_bind ?_
  rw [if_neg (by rw [ht.current_eq, ← passes_nil.mp hp]; exact hd)]
  exact .refl (passes_nil.mp hp ▸ ht)

theorem readsElse_some {b : Block} (h : L.ReadsBlock ws fits b) :
    ReadsElse L (mark .elseWord :: mark .openCurly :: ws ++ [mark .closeCurly]) fits (some b) := by
  intro s t d hp ht _
  refine .state_bind ?_
  rw [if_pos (by rw [ht.current_eq]; exact hp.kind_eq)]
  refine .advance_bind (.expect_bind rfl ?_ ?_)
  · rw [ht]
    exact hp.tail.kind_eq
  · rw [ht]
    exact (h s.advance d hp.tail).bind_pure

/-- A conditional, given how its parts are read. -/
theorem leadsTo_conditional {b : Block} {other : Option Block} {us : List Word} {fits'' : Prop}
    (hc : L.ReadsExpr .lowest ws fits e) (hb : L.ReadsBlock vs fits' b)
    (ho : ReadsElse L us fits'' other)
    (hp : s.Passes (mark .ifWord :: mark .openParen :: ws ++ mark .closeParen :: mark .openCurly ::
      vs ++ mark .closeCurly :: us) d) (hd : d.current.kind ≠ .elseWord) :
    LeadsTo (conditional L) s (fits ∧ fits' ∧ fits'') (pure (.conditional e b other))
      (Before d) := by
  simp only [List.append_assoc, List.cons_append] at hp
  obtain ⟨m, hm, hrest⟩ := passes_append.mp hp.tail.tail
  have hclose : m.Passes [mark .closeParen] m.advance := hrest.head
  rw [← List.cons_append] at hrest
  obtain ⟨m', hm', hus⟩ := passes_append_cons.mp hrest.tail
  refine .expect_bind rfl hp.tail.kind_eq (.advance_bind ?_)
  refine hc.expect_bind hm hclose (by decide) (.expect_bind rfl hrest.tail.kind_eq ?_)
  exact (hb m.advance m' hm').bind fun t ht => (ho m' t d hus ht hd).bind_pure

end Form

end ExprLang
