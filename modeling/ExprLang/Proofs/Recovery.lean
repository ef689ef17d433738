import ExprLang.Proofs.Forms
import ExprLang.Proofs.Gist
import ExprLang.Proofs.Reporting

/-!
# What recovery leaves can be written

A program is put together from the statements that could be read, and these need not stand as they
would without the others: a list of statements goes on at whatever token the last failure was.  But
a tree takes its names, numbers, strings and operators from single tokens, each from one of the kind
that is wanted there, and the scanner sees to it that a token has a text of its kind.  So every tree
that comes of a text can be written, whatever has been left out around it and inside it.

## Main definitions

* `Token.IsProper`, `State.Proper` — tokens as the scanner gives them, and states that see only
  such tokens.
* `Action.Makes` — what an action makes, from a state that sees only such tokens.

## Main results

* `Level.makes_ofRoom` — what is read at a level can be written.
* `wellFormed_parse` — the program that comes of proper tokens can be written.
* `wellFormed_parseText` — the program that comes of a text can be written.
-/

namespace ExprLang

open ExprLang.Action Text
open Grammar (standard)

/-! ### Proper tokens -/

/-- The token is the end, or it has a text of its kind. -/
def Token.IsProper (t : Token) : Prop := t.kind = .eof ∨ Word.Proper ⟨t.kind, t.value⟩

/-- All tokens from the current one on are proper. -/
def State.Proper (s : State) : Prop := ∀ n, (s.cursor.skip n).current.IsProper

namespace State.Proper

variable {s t : State}

theorem current (h : s.Proper) : s.current.IsProper := h 0

/-- Going forward meets no other tokens. -/
theorem of_reaches (h : s.Proper) (hst : s.Reaches t) : t.Proper := by
  obtain ⟨m, hm⟩ := hst.cursor
  intro n
  rw [hm, ← Cursor.skip_add]
  exact h (m + n)

end State.Proper

namespace Token.IsProper

variable {t : Token}

/-- A token that is not the end has a text of its kind. -/
theorem word (h : t.IsProper) (hne : t.kind ≠ .eof) : Word.Proper ⟨t.kind, t.value⟩ :=
  h.resolve_left hne

theorem isName (h : t.IsProper) (hk : t.kind = .ident) : IsName t.value := by
  have hword := h.word (by rw [hk]; decide)
  rwa [hk] at hword

theorem wellFormed_str (h : t.IsProper) (hk : t.kind = .string) :
    (Expr.str t.value).WellFormed := by
  have hword := h.word (by rw [hk]; decide)
  rwa [hk] at hword

theorem wellFormed_int (h : t.IsProper) (hk : t.kind = .int) {n : Int}
    (hn : readInteger? t.value = some n) : (Expr.int n).WellFormed := by
  have hword := h.word (by rw [hk]; decide)
  rw [hk] at hword
  have hvalue := readInteger?_of_digits hword.2 hn
  exact ⟨by omega, (le_of_readInteger? hn).2⟩

theorem value_mem_prefixOperators (h : t.IsProper) (hk : standard.head t.kind = some .unary) :
    t.value ∈ prefixOperators := by
  have hne : t.kind ≠ .eof := fun heof => nomatch heof ▸ hk
  exact @PrefixOp.text_mem ⟨⟨t.kind, t.value⟩, hk⟩ (h.word hne)

theorem value_mem_infixOperators (h : t.IsProper) {q : Power}
    (hk : standard.tail t.kind = some (q, .binary)) : t.value ∈ infixOperators := by
  have hne : t.kind ≠ .eof := fun heof => nomatch heof ▸ hk
  exact @InfixOp.text_mem ⟨⟨t.kind, t.value⟩, q, hk⟩ (h.word hne)

end Token.IsProper

/-! ### What an action makes -/

namespace Action

variable {α β : Type}

/-- If the state sees only proper tokens, then the result of the action is `good`. -/
def Makes (m : Action α) (good : α → Prop) (s : State) : Prop :=
  s.Proper → m.Ensures s (fun a _ => good a) fun _ _ => True

namespace Makes

variable {m : Action α} {s : State} {good : α → Prop}

theorem pure {a : α} (h : good a) : (pure a : Action α).Makes good s := fun _ => Ensures.pure h

theorem failHere {c : Cause} : (failHere c : Action α).Makes good s :=
  fun _ => Ensures.failHere trivial

/-- The current token may be taken to be proper. -/
theorem of_current (h : s.current.IsProper → m.Makes good s) : m.Makes good s :=
  fun hs => h hs.current hs

/-- After the action, too, only proper tokens are seen. -/
theorem ensures (h : m.Makes good s) (hs : s.Proper) :
    m.Ensures s (fun a t => good a ∧ t.Proper) fun _ _ => True := by
  refine ⟨fun a t hr => ⟨(h hs).of_ok a t hr, ?_⟩, fun _ _ _ => trivial⟩
  have hreaches := m.reaches s
  rw [hr] at hreaches
  exact hs.of_reaches hreaches

/-- One action after another. -/
theorem bind {m : Action β} {f : β → Action α} {before : β → Prop} (h : m.Makes before s)
    (hf : ∀ b t, before b → (f b).Makes good t) : (m >>= f).Makes good s :=
  fun hs => (h.ensures hs).bind (fun _ _ h => h) fun b t ⟨hb, ht⟩ => hf b t hb ht

/-- Where nothing has to be known about what comes first. -/
theorem after {m : Action β} {f : β → Action α} (hf : ∀ b t, (f b).Makes good t) :
    (m >>= f).Makes good s :=
  have hany : m.Makes (fun _ => True) s := fun _ => ⟨fun _ _ _ => trivial, fun _ _ _ => trivial⟩
  hany.bind fun b t _ => hf b t

/-- The result of an action, changed. -/
theorem bind_pure {m : Action β} {f : β → α} {before : β → Prop} (h : m.Makes before s)
    (hf : ∀ b, before b → good (f b)) : (m >>= fun b => Pure.pure (f b)).Makes good s :=
  h.bind fun b _ hb => pure (hf b hb)

theorem state_bind {f : State → Action α} (h : (f s).Makes good s) :
    (state >>= f).Makes good s := fun hs => (h hs).state_bind

theorem advance_bind {f : Unit → Action α} (h : (f ()).Makes good s.advance) :
    (advance >>= f).Makes good s :=
  fun hs => Ensures.advance_bind (h (hs.of_reaches (.advance s)))

theorem currentValue_bind {f : String → Action α} (h : (f s.current.value).Makes good s) :
    (currentValue >>= f).Makes good s := fun hs => (h hs).currentValue_bind

theorem currentValue {good : String → Prop} (h : good s.current.value) :
    currentValue.Makes good s := currentValue_bind (pure h)

/-- After a token that is expected, it is the current one. -/
theorem expect_bind {k : Kind} {f : Unit → Action α}
    (h : s.advance.current.kind = k → (f ()).Makes good s.advance) :
    (expect k >>= f).Makes good s := by
  intro hs
  refine Ensures.expect_bind (fun _ => trivial) fun hk => ?_
  exact h hk (hs.of_reaches (.advance s))

theorem attempt (h : m.Makes good s) : m.attempt.Makes (fun o => ∀ a ∈ o, good a) s := by
  intro hs
  refine Ensures.attempt ((h hs).mono ?_ ?_)
  · intro a t ha b hb
    exact Option.mem_some.mp hb ▸ ha
  · intro d t _ a ha
    exact absurd ha (Option.not_mem_none a)

theorem thenAdvance (h : m.Makes good s) : m.thenAdvance.Makes good s :=
  h.bind fun _ _ ha => advance_bind (pure ha)

/-- The results of the rounds, about which `all` is known because each of them is `good`. -/
theorem repeatWhile {again : State → Bool} {progress : Progresses again m} (all : List α → Prop)
    (hnil : all []) (hcons : ∀ a as, good a → all as → all (a :: as))
    (h : ∀ s, m.Makes good s) : (Action.repeatWhile again m progress).Makes all s := by
  intro hs
  have hrounds : (Action.repeatWhile again m progress).Ensures s
      (fun as _ => s.Proper → all as) fun _ _ => True := by
    apply Ensures.repeatWhile (R := fun s a u => s.Proper → good a ∧ u.Proper) progress
    case hround =>
      intro s _
      by_cases hs : s.Proper
      · exact ((h s).ensures hs).mono (fun _ _ ha _ => ha) fun _ _ h => h
      · exact ⟨fun _ _ _ hs' => absurd hs' hs, fun _ _ _ => trivial⟩
    case hnil => exact fun _ _ _ => hnil
    case hcons =>
      intro s a u as t hround hrest hs
      obtain ⟨ha, hu⟩ := hround hs
      exact hcons a as ha (hrest hu)
    case hlater => exact fun _ _ _ _ _ _ _ => trivial
  exact hrounds.mono (fun _ _ has => has hs) fun _ _ h => h

end Makes

end Action

/-! ### The forms of the language -/

/-- What is read at the level can be written. -/
structure Level.Makes (L : Level) : Prop where
  expr : ∀ p s, (L.expr p).Makes Expr.WellFormed s
  climb : ∀ p e s, e.WellFormed → (L.climb p e).Makes Expr.WellFormed s
  block : ∀ s, L.block.Makes WellFormedStmts s

namespace Form

variable {L : Level} {s : State}

theorem makes_items (hL : L.Makes) (close : Kind) : (items L close).Makes WellFormedItems s := by
  refine .state_bind ?_
  split
  · exact .advance_bind (.pure trivial)
  · have hnext : ∀ t, (nextItem L).Makes Expr.WellFormed t :=
      fun t => .advance_bind (.advance_bind (hL.expr _ _))
    refine .advance_bind ((hL.expr _ _).bind fun first t hfirst => ?_)
    refine Makes.bind (.repeatWhile WellFormedItems trivial (fun _ _ => .intro) hnext) ?_
    exact fun more u hmore => .expect_bind fun _ => .pure ⟨hfirst, hmore⟩

theorem makes_names : names.Makes (fun xs => ∀ x ∈ xs, IsName x) s := by
  refine .state_bind ?_
  split
  · exact .advance_bind (.pure (List.forall_mem_nil _))
  · have hnext : ∀ t, nextName.Makes IsName t := fun t =>
      .advance_bind (.expect_bind fun hk => .of_current fun h => .currentValue (h.isName hk))
    refine .expect_bind fun hk => .of_current fun h => .currentValue_bind ?_
    refine Makes.bind (.repeatWhile (fun xs => ∀ x ∈ xs, IsName x) (List.forall_mem_nil _)
      (fun _ _ hx hxs => List.forall_mem_cons.mpr ⟨hx, hxs⟩) hnext) fun more t hmore => ?_
    exact .expect_bind fun _ => .pure (List.forall_mem_cons.mpr ⟨h.isName hk, hmore⟩)

theorem makes_pairs (hL : L.Makes) : (pairs L).Makes WellFormedPairs s := by
  have hpair : ∀ t, (pair L).Makes (fun q => q.1.WellFormed ∧ q.2.WellFormed) t := by
    refine fun t => .advance_bind ((hL.expr _ _).bind fun key u hkey => ?_)
    refine .expect_bind fun _ => .advance_bind ((hL.expr _ _).bind fun value v hvalue => ?_)
    exact .after fun _ _ => .pure ⟨hkey, hvalue⟩
  refine Makes.bind (.repeatWhile WellFormedPairs trivial
    (fun _ _ hq hqs => ⟨hq.1, hq.2, hqs⟩) hpair) fun ps t hps => ?_
  exact .expect_bind fun _ => .pure hps

theorem makes_literal : literal.Makes Expr.WellFormed s := by
  refine .of_current fun h => .state_bind ?_
  split
  · next hk => exact .pure (h.isName hk)
  · next hk =>
    split
    · next n hn => exact .pure (h.wellFormed_int hk hn)
    · exact .failHere
  · next hk => exact .pure (h.wellFormed_str hk)
  · exact .pure trivial
  · exact .pure trivial
  · exact .failHere

theorem makes_alternative (hL : L.Makes) : (alternative L).Makes WellFormedElse s := by
  refine .state_bind ?_
  split
  · exact .advance_bind (.expect_bind fun _ => (hL.block _).bind_pure fun _ hbody => hbody)
  · exact .pure trivial

/-- A form that the current token leads to. -/
theorem makes_head (hL : L.Makes) {rule : HeadRule}
    (hrule : standard.head s.current.kind = some rule) :
    (rule.read L).Makes Expr.WellFormed s := by
  cases rule with
  | literal => exact makes_literal
  | unary =>
    refine .of_current fun h => .currentValue_bind (.advance_bind ?_)
    exact (hL.expr _ _).bind_pure fun _ he => ⟨h.value_mem_prefixOperators hrule, he⟩
  | group => exact .advance_bind ((hL.expr _ _).bind fun e t he => .expect_bind fun _ => .pure he)
  | conditional =>
    refine .expect_bind fun _ => .advance_bind ((hL.expr _ _).bind fun condition t hc => ?_)
    refine .expect_bind fun _ => .expect_bind fun _ => (hL.block _).bind fun body u hbody => ?_
    exact (makes_alternative hL).bind_pure fun _ hother => ⟨hc, hbody, hother⟩
  | function =>
    refine .expect_bind fun _ => makes_names.bind fun ps t hps => .expect_bind fun _ => ?_
    exact (hL.block _).bind_pure fun _ hbody => ⟨hps, hbody⟩
  | array => exact (makes_items hL _).bind_pure fun _ hes => hes
  | hash => exact (makes_pairs hL).bind_pure fun _ hps => hps

/-- A form that the current token, after a left operand, leads to. -/
theorem makes_tail (hL : L.Makes) {left : Expr} (hleft : left.WellFormed) {power : Power}
    {rule : TailRule} (hrule : standard.tail s.current.kind = some (power, rule)) :
    (rule.read L power left).Makes Expr.WellFormed s := by
  cases rule with
  | binary =>
    refine .of_current fun h => .currentValue_bind (.advance_bind ?_)
    exact (hL.expr _ _).bind_pure fun _ he => ⟨h.value_mem_infixOperators hrule, hleft, he⟩
  | call => exact (makes_items hL _).bind_pure fun _ hes => ⟨hleft, hes⟩
  | index =>
    exact .advance_bind ((hL.expr _ _).bind fun _ t he => .expect_bind fun _ => .pure ⟨hleft, he⟩)

/-! ### Statements -/

/-- No token leads to a statement that is a block. -/
theorem makes_statement (hL : L.Makes) : (statement standard L).Makes Stmt.WellFormed s := by
  refine .state_bind ?_
  cases hrule : (standard.statement s.current.kind).getD .expression with
  | binding =>
    refine .expect_bind fun hk => .of_current fun h => .currentValue_bind ?_
    refine .expect_bind fun _ => .advance_bind ((hL.expr _ _).bind fun value t hvalue => ?_)
    exact .after fun _ _ => .pure ⟨h.isName hk, hvalue⟩
  | ret =>
    refine .state_bind ?_
    split
    · exact .advance_bind (.pure trivial)
    split
    · exact .pure trivial
    · refine .advance_bind ((hL.expr _ _).bind fun value t hvalue => ?_)
      exact .after fun _ _ => .pure hvalue
  | expression =>
    refine (hL.expr _ _).bind fun value t hvalue => ?_
    exact .after fun _ _ => .pure hvalue
  | block => exact absurd hrule (Grammar.statement_ne_block _)

/-- The statements of a list, of which those that failed have been left out. -/
theorem makes_entries {again : State → Bool} {entry : Action (Option Stmt)}
    {progress : Progresses again entry.thenAdvance}
    (hentry : ∀ s, entry.Makes (fun o => ∀ t ∈ o, t.WellFormed) s) :
    (repeatWhile again entry.thenAdvance progress >>= fun os =>
      (pure (os.filterMap id) : Action (List Stmt))).Makes WellFormedStmts s := by
  refine Makes.bind_pure (.repeatWhile (fun os => WellFormedStmts (os.filterMap id)) trivial ?_
    fun s => (hentry s).thenAdvance) fun os hos => hos
  intro o os ho hos
  cases o with
  | none => exact hos
  | some t => exact ⟨ho t rfl, hos⟩

theorem makes_blockBody (hL : L.Makes) : (blockBody standard L).Makes WellFormedStmts s :=
  .advance_bind (makes_entries fun _ => .after fun _ _ => (makes_statement hL).attempt)

theorem makes_program (hL : L.Makes) : (program standard L).Makes WellFormedStmts s :=
  makes_entries fun _ => (makes_statement hL).attempt

end Form

/-! ### Levels -/

namespace Level

theorem makes_bottom : (bottom standard).Makes where
  expr _ _ := .failHere
  climb p e s he := by
    refine .state_bind ?_
    split
    · exact .pure he
    · exact .failHere
  block _ := .failHere

theorem Makes.above {L : Level} (hL : L.Makes) : (above standard L).Makes where
  expr p s := by
    refine .state_bind ?_
    split
    · exact .failHere
    · next rule hrule => exact (Form.makes_head hL hrule).bind fun e t he => hL.climb p e t he
  climb p e s he := by
    refine .state_bind ?_
    split
    · exact .pure he
    · next power rule hnext =>
      have hrule : standard.tail s.advance.current.kind = some (power, rule) :=
        Grammar.tail_of_continuation? hnext
      exact .advance_bind ((Form.makes_tail hL he hrule).bind fun e t he => hL.climb p e t he)
  block _ := Form.makes_blockBody hL

/-- What is read at a level can be written. -/
theorem makes_ofRoom (n : Nat) : (ofRoom standard n).Makes := by
  induction n with
  | zero => exact makes_bottom
  | succ n ih => exact ih.above

end Level

/-! ### All of a source -/

/-- Of a source that gives only proper tokens there comes a program that can be written. -/
theorem wellFormed_parse {s : Source} (h : (State.ofSource s).Proper) :
    (parse s).program.WellFormed := by
  obtain ⟨_, -, -, hprogram⟩ :=
    exists_of_ensures_program (Form.makes_program (Level.makes_ofRoom maxNesting) h)
  exact hprogram

/-- The scanner gives only proper tokens. -/
theorem State.proper_ofText (source file : String) :
    (State.ofSource (.ofText source file)).Proper := by
  intro n
  rcases Scanner.tokens_cases (Scanner.current_skip (.ofSource source file) n) with
    ⟨-, heof⟩ | ⟨-, hproper⟩
  · exact .inl heof
  · exact .inr hproper

/-- Whatever is found in a text, the program that comes of it can be written: its names are names,
its integers are neither negative nor too large, no string has a quotation mark in it, the operators
are those of the language, and no statement at any depth is a block of its own. -/
theorem wellFormed_parseText (source file : String) :
    (parseText source file).program.WellFormed :=
  wellFormed_parse (State.proper_ofText source file)

/-- The statement that begins with `let` is left out, and the list goes on at the parenthesis. -/
example : (parseText "let ) -x" "shell").program = [.expr (.unary "-" (.ident "x"))] := by
  decide +kernel

end ExprLang
