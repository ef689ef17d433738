import ExprLang.Proofs.Ensuring
import ExprLang.Proofs.Forms

/-!
# Braces, and blocks that are not closed

A block is reported as never closed when the text ends before a brace has closed it.  This can have
two reasons: either the text has more braces that open than braces that close, or the parser has
passed over one that closes.  It does so when it takes the brace for the beginning of an expression:
the brace is reported then, and recovery goes on with the token after it.  Here this is shown by
keeping accounts.  Every opening brace ahead, and every block reported as never closed, counts for
one; every closing brace ahead, and every one that was reported itself, counts against it.  No form
of the language makes the balance larger.

Closing braces are known by the place where they start, because this is what is reported of them.

## Main definitions

* `State.balance` — opening braces ahead and unclosed blocks, less closing and misread braces.
* `Action.Within` — an action that keeps the balance within a bound.
* `Diagnostic.misreads` — a diagnostic that refuses a brace which closes.

## Main results

* `Level.within_ofRoom` — no level makes the balance larger.
* `unclosed_add_closers_le` — blocks that are not closed are made up for in the text.
* `unclosed_le_misread` — in a text with as many braces that close as braces that open, a block is
  reported as never closed only where a closing brace was misread.
-/

namespace ExprLang

open ExprLang.Action
open Grammar (standard)

/-! ### Accounts -/

/-- How many more members of a list have one property than have another. -/
def excess {α : Type} (p q : α → Bool) (xs : List α) : Int := xs.countP p - xs.countP q

theorem excess_cons {α : Type} (p q : α → Bool) (x : α) (xs : List α) :
    excess p q (x :: xs) = (p x).toInt - (q x).toInt + excess p q xs := by
  rw [excess, excess, List.countP_cons, List.countP_cons]
  cases p x <;> cases q x <;> simp <;> omega

theorem excess_append {α : Type} (p q : α → Bool) (xs ys : List α) :
    excess p q (xs ++ ys) = excess p q xs + excess p q ys := by
  rw [excess, excess, excess, List.countP_append, List.countP_append]
  omega

/-- Whether the cause is that the current token is refused, because it begins no expression or
because the nesting is too deep there.  Recovery goes on after this token then. -/
def Cause.isRefusal : Cause → Bool
  | noExpression _ | tooDeep _ => true
  | unexpected .. | badInteger _ | unclosedBlock => false

section

variable (closer : Position → Bool)

/-- Whether the token is a closing brace. -/
def Token.closes (t : Token) : Bool := t.kind == .closeCurly && closer t.span.start

/-- Whether the diagnostic refuses a token, and this is a closing brace. -/
def Diagnostic.misreads (d : Diagnostic) : Bool := d.cause.isRefusal && closer d.position

/-- What a token counts. -/
def Token.braces (t : Token) : Int :=
  (t.kind == .openCurly).toInt - (t.closes closer).toInt

/-- What a diagnostic counts. -/
def Diagnostic.braces (d : Diagnostic) : Int :=
  (d.cause == .unclosedBlock).toInt - (d.misreads closer).toInt

/-- What some tokens count together. -/
def tokenBraces (ts : List Token) : Int := excess (·.kind == .openCurly) (·.closes closer) ts

/-- What is still to come from a source. -/
def Source.braces : Source → Int
  | text sc => tokenBraces closer sc.tokens
  | list ts _ => tokenBraces closer ts

/-- What is still to come, with the tokens in sight. -/
def Cursor.braces (c : Cursor) : Int :=
  c.current.braces closer + c.lookahead.braces closer + c.source.braces closer

/-- What has been found and what is still to come. -/
def State.balance (s : State) : Int :=
  excess (·.cause == .unclosedBlock) (·.misreads closer) s.diagnostics + s.cursor.braces closer

end

variable {closer : Position → Bool} {n : Int}

theorem tokenBraces_cons (closer : Position → Bool) (t : Token) (ts : List Token) :
    tokenBraces closer (t :: ts) = t.braces closer + tokenBraces closer ts :=
  excess_cons _ _ t ts

namespace Token

variable {t : Token}

theorem braces_nonneg (closer : Position → Bool) (h : t.kind ≠ .closeCurly) :
    0 ≤ t.braces closer := by
  have hcloses : t.closes closer = false := by simp [closes, h]
  rw [braces, hcloses]
  cases t.kind == .openCurly <;> decide

theorem braces_openCurly (closer : Position → Bool) (h : t.kind = .openCurly) :
    t.braces closer = 1 := by
  rw [braces, closes, h]
  rfl

theorem braces_eof (closer : Position → Bool) (h : t.kind = .eof) : t.braces closer = 0 := by
  rw [braces, closes, h]
  rfl

/-- A token takes away no more than what is known of its place. -/
theorem neg_le_braces (closer : Position → Bool) (t : Token) :
    -(closer t.span.start).toInt ≤ t.braces closer := by
  rw [braces, closes]
  cases t.kind == .openCurly <;> cases t.kind == .closeCurly <;> cases closer t.span.start <;>
    decide

theorem neg_one_le_braces (closer : Position → Bool) (t : Token) : -1 ≤ t.braces closer := by
  have h := t.neg_le_braces closer
  have hone : (closer t.span.start).toInt ≤ 1 := by cases closer t.span.start <;> decide
  omega

end Token

theorem Diagnostic.braces_unclosedBlock (closer : Position → Bool) (place : Position) :
    Diagnostic.braces closer ⟨.unclosedBlock, place⟩ = 1 := rfl

theorem Diagnostic.braces_of_ne (closer : Position → Bool) {d : Diagnostic}
    (h : d.cause ≠ .unclosedBlock) :
    d.braces closer = -(d.misreads closer).toInt := by
  rw [braces, beq_eq_false_iff_ne.mpr h]
  exact Int.zero_sub _

/-- Tokens for the end count for nothing, however many there are. -/
theorem tokenBraces_of_eof (closer : Position → Bool) {ts : List Token}
    (h : ∀ t ∈ ts, t.kind = .eof) : tokenBraces closer ts = 0 := by
  induction ts with
  | nil => rfl
  | cons t ts ih =>
    obtain ⟨ht, hts⟩ := List.forall_mem_cons.mp h
    rw [tokenBraces_cons, Token.braces_eof closer ht, ih hts]
    rfl

theorem Source.braces_eq_tokens (closer : Position → Bool) (s : Source) :
    s.braces closer = tokenBraces closer s.tokens := by
  cases s <;> rfl

/-- What is still to come from a source is its next token and what comes after it. -/
theorem Source.braces_eq_next (closer : Position → Bool) (s : Source) :
    s.braces closer = s.next.1.braces closer + s.next.2.braces closer := by
  rw [braces_eq_tokens, braces_eq_tokens]
  rcases s.tokens_cases with h | ⟨hk, hall, hnext⟩
  · rw [h, tokenBraces_cons]
  · rw [tokenBraces_of_eof closer hall, tokenBraces_of_eof closer hnext, Token.braces_eof closer hk]
    rfl

theorem Cursor.braces_ofSource (closer : Position → Bool) (s : Source) :
    (ofSource s).braces closer = s.braces closer := by
  rw [s.braces_eq_next, s.next.2.braces_eq_next, ← Int.add_assoc]
  rfl

namespace State

variable {s : State}

/-- Moving on takes the current token off the balance. -/
theorem balance_eq_advance (closer : Position → Bool) (s : State) :
    s.balance closer = s.current.braces closer + s.advance.balance closer := by
  have hnext := s.cursor.source.braces_eq_next closer
  simp only [balance, Cursor.braces, current, advance, Cursor.advance]
  omega

theorem balance_record (s : State) (d : Diagnostic) :
    (s.record d).balance closer = s.balance closer + d.braces closer := by
  have hsingle : excess (·.cause == .unclosedBlock) (·.misreads closer) [d] = d.braces closer := by
    rw [excess_cons]
    exact Int.add_zero _
  simp only [balance, record, excess_append, hsingle]
  omega

/-- What does not tell of an unclosed block leaves no more when it is recorded. -/
theorem balance_record_le {d : Diagnostic} (hc : d.cause ≠ .unclosedBlock)
    (h : s.balance closer ≤ n) : (s.record d).balance closer ≤ n := by
  have hd := Diagnostic.braces_of_ne closer hc
  have hnonneg : 0 ≤ (d.misreads closer).toInt := by cases d.misreads closer <;> decide
  rw [balance_record]
  omega

/-- The same behind the current token, which recording does not move past. -/
theorem balance_advance_record_le {d : Diagnostic} (hc : d.cause ≠ .unclosedBlock)
    (h : s.advance.balance closer ≤ n) : (s.record d).advance.balance closer ≤ n := by
  show (s.advance.record d).balance closer ≤ n
  exact balance_record_le hc h

/-- Moving on past anything but a closing brace leaves no more. -/
theorem balance_advance_le (h : s.balance closer ≤ n) (hk : s.current.kind ≠ .closeCurly) :
    s.advance.balance closer ≤ n := by
  have hmove := s.balance_eq_advance closer
  have hpos := Token.braces_nonneg closer hk
  omega

end State

/-! ### Actions within a bound -/

namespace Action

variable {α β : Type}

/-- After the action, and what stopped it recorded, the balance behind the current token is within
the bound. -/
def Within (closer : Position → Bool) (n : Int) (m : Action α) (s : State) : Prop :=
  m.Ensures s (fun _ t => t.advance.balance closer ≤ n) fun d t =>
    (t.record d).advance.balance closer ≤ n

namespace Within

variable {m : Action α} {s : State}

theorem pure {a : α} (h : s.advance.balance closer ≤ n) :
    (pure a : Action α).Within closer n s := Ensures.pure h

theorem bind {m : Action β} {f : β → Action α} (h : m.Within closer n s)
    (hf : ∀ b t, t.advance.balance closer ≤ n → (f b).Within closer n t) :
    (m >>= f).Within closer n s :=
  Ensures.bind h (fun _ _ hd => hd) hf

theorem bind_pure {m : Action β} {f : β → α} (h : m.Within closer n s) :
    (m >>= fun b => Pure.pure (f b)).Within closer n s := h.bind fun _ _ ht => pure ht

theorem state_bind {f : State → Action α} (h : (f s).Within closer n s) :
    (state >>= f).Within closer n s := Ensures.state_bind h

theorem advance_bind {f : Unit → Action α} (h : (f ()).Within closer n s.advance) :
    (advance >>= f).Within closer n s := Ensures.advance_bind h

theorem currentValue_bind {f : String → Action α} (h : (f s.current.value).Within closer n s) :
    (currentValue >>= f).Within closer n s := Ensures.currentValue_bind h

/-- Once the current token has been passed. -/
theorem failHere {c : Cause} (hc : c ≠ .unclosedBlock) (h : s.advance.balance closer ≤ n) :
    (failHere c : Action α).Within closer n s :=
  Ensures.failHere (State.balance_advance_record_le hc h)

/-- Even if the current token is a closing brace, because this is reported then. -/
theorem failHere_of_isRefusal {c : Cause} (hc : c.isRefusal = true)
    (h : s.balance closer ≤ n) : (Action.failHere c : Action α).Within closer n s := by
  apply Ensures.failHere
  have hne : c ≠ .unclosedBlock := by rintro rfl; simp [Cause.isRefusal] at hc
  have hmove := s.balance_eq_advance closer
  have htoken := s.current.neg_le_braces closer
  show (s.advance.record ⟨c, s.position⟩).balance closer ≤ n
  rw [State.balance_record, Diagnostic.braces_of_ne closer hne, Diagnostic.misreads, hc,
    Bool.true_and]
  show s.advance.balance closer + -(closer s.current.span.start).toInt ≤ n
  omega

theorem expect {k : Kind} (hk : k ≠ .closeCurly) (h : s.advance.balance closer ≤ n) :
    (expect k).Within closer n s :=
  Ensures.expect (fun _ => State.balance_advance_record_le (by simp) h) fun hnext =>
    State.balance_advance_le h (hnext ▸ hk)

/-- A token that is expected, unless it is a closing brace. -/
theorem expect_bind {k : Kind} {f : Unit → Action α} (h : s.advance.balance closer ≤ n)
    (hf : s.lookahead.kind = k → (f ()).Within closer n s.advance) :
    (Action.expect k >>= f).Within closer n s :=
  Ensures.expect_bind (fun _ => State.balance_advance_record_le (by simp) h) hf

/-- Rounds of a repeated action that begin and end behind what they read. -/
theorem repeatWhile {again : State → Bool} {progress : Progresses again m}
    (hround : ∀ t, t.advance.balance closer ≤ n → again t = true → m.Within closer n t)
    (h : s.advance.balance closer ≤ n) :
    (Action.repeatWhile again m progress).Within closer n s :=
  (Ensures.repeatWhile_of_invariant progress hround h).mono (fun _ _ ht => ht.1) fun _ _ hd => hd

/-- Rounds that move on past what they read, or past where they were stopped. -/
theorem attempt_thenAdvance (h : m.Within closer n s) :
    m.attempt.thenAdvance.Ensures s (fun _ t => t.balance closer ≤ n) fun _ _ => True :=
  Ensures.thenAdvance (Ensures.attempt h)

end Within

end Action

/-! ### The forms of the language -/

/-- Whatever is read at the level leaves no more than there was. -/
structure Level.Within (closer : Position → Bool) (L : Level) : Prop where
  expr : ∀ p {s n}, s.balance closer ≤ n → (L.expr p).Within closer n s
  climb : ∀ p e {s n}, s.advance.balance closer ≤ n → (L.climb p e).Within closer n s
  block : ∀ {s n}, s.balance closer ≤ n → s.current.kind = .openCurly → L.block.Within closer n s

namespace Form

variable {L : Level} {s : State}

theorem kind_lookahead_of_commaAhead (h : commaAhead s = true) : s.lookahead.kind = .comma :=
  beq_iff_eq.mp h

/-- Moving on to a token that is no closing brace, and past it. -/
theorem balance_lookahead_le {k : Kind} (h : s.advance.balance closer ≤ n)
    (hnext : s.lookahead.kind = k) (hk : k ≠ .closeCurly := by decide) :
    s.advance.advance.balance closer ≤ n :=
  State.balance_advance_le h (hnext ▸ hk)

theorem within_items (hL : L.Within closer) {close : Kind} (hclose : close ≠ .closeCurly)
    (h : s.advance.balance closer ≤ n) : (items L close).Within closer n s := by
  refine .state_bind ?_
  split
  · next hnext => exact .advance_bind (.pure (balance_lookahead_le h hnext hclose))
  · refine .advance_bind ((hL.expr _ h).bind fun first t ht => ?_)
    refine Within.bind (.repeatWhile (fun u hu hcomma => ?_) ht) fun more u hu => ?_
    · have hpast := balance_lookahead_le hu (kind_lookahead_of_commaAhead hcomma)
      exact .advance_bind (.advance_bind (hL.expr _ hpast))
    · exact .expect_bind hu fun hnext => .pure (balance_lookahead_le hu hnext hclose)

theorem within_names (h : s.advance.balance closer ≤ n) : names.Within closer n s := by
  refine .state_bind ?_
  split
  · next hnext => exact .advance_bind (.pure (balance_lookahead_le h hnext))
  · refine .expect_bind h fun hnext => .currentValue_bind ?_
    have hfirst := balance_lookahead_le h hnext
    refine Within.bind (.repeatWhile (fun u hu hcomma => ?_) hfirst) fun more u hu => ?_
    · have hpast := balance_lookahead_le hu (kind_lookahead_of_commaAhead hcomma)
      refine .advance_bind (.expect_bind hpast fun hname => .currentValue_bind (.pure ?_))
      exact balance_lookahead_le hpast hname
    · exact .expect_bind hu fun hnext => .pure (balance_lookahead_le hu hnext)

theorem within_commaOrClose (h : s.advance.balance closer ≤ n) :
    commaOrClose.Within closer n s := by
  refine .state_bind ?_
  split
  · exact .pure h
  · exact .expect (by decide) h

theorem within_pair (hL : L.Within closer) (h : s.advance.balance closer ≤ n) :
    (pair L).Within closer n s := by
  refine .advance_bind ((hL.expr _ h).bind fun key t ht => .expect_bind ht fun hcolon => ?_)
  have hpast := balance_lookahead_le ht hcolon
  exact .advance_bind ((hL.expr _ hpast).bind fun value u hu => (within_commaOrClose hu).bind_pure)

/-- Keys and values in braces.  The brace that closes them has been made up for by the one that
opens them. -/
theorem within_pairs (hL : L.Within closer) (h : s.advance.balance closer ≤ n - 1) :
    (pairs L).Within closer n s := by
  have hrounds : (Action.repeatWhile pairAhead (pair L) (pair_progresses L)).Within closer (n - 1)
      s := .repeatWhile (fun t ht _ => within_pair hL ht) h
  refine Ensures.bind hrounds (fun _ _ hd => by omega) fun ps t ht => ?_
  refine Within.expect_bind (by omega) fun hclose => .pure ?_
  have hmove := t.advance.balance_eq_advance closer
  have htoken := Token.neg_one_le_braces closer t.advance.current
  omega

theorem within_literal (h : s.advance.balance closer ≤ n) : literal.Within closer n s := by
  refine .state_bind ?_
  split
  · exact .pure h
  · split
    · exact .pure h
    · exact .failHere (by simp) h
  · exact .pure h
  · exact .pure h
  · exact .pure h
  · exact .failHere (by simp) h

theorem within_alternative (hL : L.Within closer) (h : s.advance.balance closer ≤ n) :
    (alternative L).Within closer n s := by
  refine .state_bind ?_
  split
  · next helse =>
    have hpast := balance_lookahead_le h helse
    exact .advance_bind (.expect_bind hpast fun hopen => (hL.block hpast hopen).bind_pure)
  · exact .pure h

theorem within_head (hL : L.Within closer) {rule : HeadRule}
    (hrule : standard.head s.current.kind = some rule) (h : s.balance closer ≤ n) :
    (rule.read L).Within closer n s := by
  have hne : s.current.kind ≠ .closeCurly := by
    intro hk
    rw [hk] at hrule
    exact absurd hrule (by simp [standard])
  have hpast := State.balance_advance_le h hne
  cases rule with
  | literal => exact within_literal hpast
  | unary => exact .currentValue_bind (.advance_bind (hL.expr _ hpast).bind_pure)
  | group =>
    refine .advance_bind ((hL.expr _ hpast).bind fun e t ht => .expect_bind ht fun hclose => ?_)
    exact .pure (balance_lookahead_le ht hclose)
  | conditional =>
    refine .expect_bind hpast fun hopen => .advance_bind ?_
    have hinside := balance_lookahead_le hpast hopen
    refine (hL.expr _ hinside).bind fun c t ht => .expect_bind ht fun hclose => ?_
    have hbehind := balance_lookahead_le ht hclose
    refine .expect_bind hbehind fun hcurly => (hL.block hbehind hcurly).bind fun b u hu => ?_
    exact (within_alternative hL hu).bind_pure
  | function =>
    refine .expect_bind hpast fun hopen => ?_
    have hinside := balance_lookahead_le hpast hopen
    refine (within_names hinside).bind fun ps t ht => .expect_bind ht fun hcurly => ?_
    exact (hL.block ht hcurly).bind_pure
  | array => exact (within_items hL (by decide) hpast).bind_pure
  | hash =>
    have hopen := Token.braces_openCurly closer (Grammar.kind_of_head hrule rfl)
    have hmove := s.balance_eq_advance closer
    exact (within_pairs hL (by omega)).bind_pure

theorem within_tail (hL : L.Within closer) (power : Power) (left : Expr) (rule : TailRule)
    (h : s.advance.balance closer ≤ n) : (rule.read L power left).Within closer n s := by
  cases rule with
  | binary => exact .currentValue_bind (.advance_bind (hL.expr _ h).bind_pure)
  | call => exact (within_items hL (by decide) h).bind_pure
  | index =>
    refine .advance_bind ((hL.expr _ h).bind fun place t ht => .expect_bind ht fun hclose => ?_)
    exact .pure (balance_lookahead_le ht hclose)

/-! ### Statements -/

theorem within_semicolons (h : s.advance.balance closer ≤ n) : semicolons.Within closer n s := by
  refine Within.bind_pure (.repeatWhile (fun t ht hnext => .advance_bind (.pure ?_)) h)
  exact balance_lookahead_le ht (beq_iff_eq.mp hnext)

theorem within_semicolon (h : s.advance.balance closer ≤ n) : semicolon.Within closer n s := by
  refine .state_bind ?_
  split
  · next hnext => exact .advance_bind (.pure (balance_lookahead_le h hnext))
  · exact .pure h

theorem within_statement (hL : L.Within closer) (h : s.balance closer ≤ n) :
    (statement standard L).Within closer n s := by
  refine .state_bind ?_
  cases hrule : standard.statement s.current.kind with
  | none => exact (hL.expr _ h).bind fun value t ht => (within_semicolon ht).bind_pure
  | some rule =>
    rcases Grammar.kind_of_statement hrule with ⟨hk, rfl⟩ | ⟨hk, rfl⟩
    · have hpast := State.balance_advance_le h (by rw [hk]; decide)
      refine .expect_bind hpast fun hname => .currentValue_bind ?_
      have hbehind := balance_lookahead_le hpast hname
      refine .expect_bind hbehind fun hassign => .advance_bind ?_
      have hvalue := balance_lookahead_le hbehind hassign
      refine (hL.expr _ hvalue).bind fun value t ht => ?_
      exact (within_semicolons ht).bind_pure
    · have hpast := State.balance_advance_le h (by rw [hk]; decide)
      refine .state_bind ?_
      split
      · next hnext => exact .advance_bind (.pure (balance_lookahead_le hpast hnext))
      split
      · exact .pure hpast
      · refine .advance_bind ((hL.expr _ hpast).bind fun value t ht => ?_)
        exact (within_semicolons ht).bind_pure

/-- A statement of a block that ends before the block does. -/
theorem within_blockEntry (hL : L.Within closer) (h : s.balance closer ≤ n - 1) :
    (blockEntry standard L).thenAdvance.Ensures s (fun _ t => t.balance closer ≤ n - 1)
      fun d t => (t.record d).advance.balance closer ≤ n := by
  have hopen : stillOpen.Ensures s (fun _ t => t = s)
      fun d t => (t.record d).advance.balance closer ≤ n := by
    refine .state_bind ?_
    split
    · next heof =>
      -- the brace that opens the block has not been made up for by one that closes it
      apply Ensures.failHere
      have hmove := s.balance_eq_advance closer
      have hnone := Token.braces_eof closer heof
      show (s.advance.record ⟨.unclosedBlock, s.position⟩).balance closer ≤ n
      have hone := Diagnostic.braces_unclosedBlock closer s.position
      rw [State.balance_record, hone]
      omega
    · exact .pure rfl
  refine Ensures.thenAdvance (hopen.bind (fun _ _ hd => hd) ?_)
  rintro _ _ rfl
  exact .attempt (within_statement hL h)

theorem within_blockBody (hL : L.Within closer) (h : s.balance closer ≤ n)
    (hopen : s.current.kind = .openCurly) : (blockBody standard L).Within closer n s := by
  have hcurly := Token.braces_openCurly closer hopen
  have hmove := s.balance_eq_advance closer
  have hinside : s.advance.balance closer ≤ n - 1 := by omega
  refine .advance_bind ?_
  have hrounds := Ensures.repeatWhile_of_invariant (blockEntry_progresses standard L)
    (fun t ht _ => within_blockEntry hL ht) hinside
  refine hrounds.bind_pure fun entries t ⟨ht, _⟩ => ?_
  have hclose := t.balance_eq_advance closer
  have htoken := Token.neg_one_le_braces closer t.current
  omega

/-- A program leaves no more than there was, and ends at the end. -/
theorem within_program (hL : L.Within closer) (h : s.balance closer ≤ n) :
    (program standard L).Ensures s (fun _ t => t.balance closer ≤ n ∧ t.current.kind = .eof)
      fun _ _ => True := by
  have hrounds := Ensures.repeatWhile_of_invariant (programEntry_progresses standard L)
    (fun t ht _ => (within_statement hL ht).attempt_thenAdvance) h
  refine hrounds.bind_pure fun entries t ⟨ht, hend⟩ => ⟨ht, ?_⟩
  simpa [beforeEnd] using hend

end Form

/-! ### Levels -/

namespace Level

theorem within_bottom : (bottom standard).Within closer where
  expr _ _ _ h := .failHere_of_isRefusal rfl h
  climb p e s n h := by
    refine .state_bind ?_
    split
    · exact .pure h
    · exact .failHere (by simp) h
  block h _ := .failHere_of_isRefusal rfl h

theorem Within.above {L : Level} (hL : L.Within closer) : (above standard L).Within closer where
  expr p s n h := by
    refine .state_bind ?_
    split
    · exact .failHere_of_isRefusal rfl h
    · next rule hrule => exact (Form.within_head hL hrule h).bind fun e t ht => hL.climb p e ht
  climb p e s n h := by
    refine .state_bind ?_
    split
    · exact .pure h
    · next power rule hrule =>
      have hne : s.lookahead.kind ≠ .closeCurly := by
        intro hk
        rw [hk] at hrule
        exact absurd (Grammar.tail_of_continuation? hrule) (by simp [standard])
      refine .advance_bind ?_
      have hpast := Form.balance_lookahead_le h rfl hne
      exact (Form.within_tail hL power e rule hpast).bind fun e t ht => hL.climb p e ht
  block h hopen := Form.within_blockBody hL h hopen

/-- No level leaves more than there was. -/
theorem within_ofRoom (closer : Position → Bool) (room : Nat) :
    (ofRoom standard room).Within closer := by
  induction room with
  | zero => exact within_bottom
  | succ room ih => exact ih.above

end Level

/-! ### The braces of a text -/

/-- After some moves the parser sees what comes from a later scanner. -/
theorem Scanner.exists_skip_eq (sc : Scanner) (i : Nat) :
    ∃ sc', (Cursor.ofSource (.text sc)).skip i = .ofSource (.text sc') := by
  induction i generalizing sc with
  | zero => exact ⟨sc, rfl⟩
  | succ i ih => exact ih sc.next.2

/-- At the end of a text nothing is still to come. -/
theorem Scanner.braces_skip_of_eof {sc : Scanner} {i : Nat}
    (h : ((Cursor.ofSource (.text sc)).skip i).current.kind = .eof) :
    ((Cursor.ofSource (.text sc)).skip i).braces closer = 0 := by
  obtain ⟨sc', hsc⟩ := sc.exists_skip_eq i
  rw [hsc] at h ⊢
  have heof : sc'.next.1.kind = .eof := h
  rw [Cursor.braces_ofSource]
  rw [Source.braces_eq_tokens, Source.tokens, Scanner.tokens_of_eof heof]
  exact tokenBraces_of_eof closer (List.forall_mem_singleton.mpr heof)

/-- In every text, the blocks that are reported as never closed and the closing braces are no more
than the opening braces and the closing braces that were misread. -/
theorem unclosed_add_closers_le (source file : String) (closer : Position → Bool) :
    (parseText source file).diagnostics.countP (·.cause == .unclosedBlock) +
        (tokenize source file).countP (·.closes closer) ≤
      (tokenize source file).countP (·.kind == .openCurly) +
        (parseText source file).diagnostics.countP (·.misreads closer) := by
  have hprogram := Form.within_program (Level.within_ofRoom closer maxNesting)
    (Int.le_refl ((State.ofSource (.ofText source file)).balance closer))
  obtain ⟨t, ⟨⟨i, hi⟩, -⟩, hparse, hbalance, heof⟩ := exists_of_ensures_program hprogram
  -- at the end only what was found is left on the balance, and at the beginning there is the text
  have hend : t.cursor.braces closer = 0 := by
    rw [State.current, hi] at heof
    rw [hi]
    exact Scanner.braces_skip_of_eof heof
  have hstart : (State.ofSource (.ofText source file)).balance closer =
      tokenBraces closer (tokenize source file) := by
    show 0 + _ = _
    rw [Int.zero_add]
    exact Cursor.braces_ofSource closer _
  rw [hstart, tokenBraces, State.balance, hend, excess, excess] at hbalance
  rw [parseText, hparse]
  omega

/-- Whether one of the tokens is a closing brace that starts at the place. -/
def startsCloser (ts : List Token) (place : Position) : Bool :=
  ts.any fun t => t.kind == .closeCurly && t.span.start == place

/-- Among the tokens themselves, the closing braces are known by their places. -/
theorem countP_closes_startsCloser (ts : List Token) :
    ts.countP (·.closes (startsCloser ts)) = ts.countP (·.kind == .closeCurly) := by
  refine List.countP_congr fun t ht => ?_
  rw [Token.closes, Bool.and_eq_true, and_iff_left_iff_imp]
  intro hk
  exact List.any_eq_true.mpr ⟨t, ht, by simp [hk]⟩

/-- In a text with as many braces that close as braces that open, the blocks that are reported as
never closed are no more than the diagnostics that refuse a closing brace, because no expression
begins with it or because the nesting is too deep there.  So none is reported if no closing brace is
refused. -/
theorem unclosed_le_misread {source file : String}
    (h : (tokenize source file).countP (·.kind == .closeCurly) =
      (tokenize source file).countP (·.kind == .openCurly)) :
    (parseText source file).diagnostics.countP (·.cause == .unclosedBlock) ≤
        (parseText source file).diagnostics.countP
          (·.misreads (startsCloser (tokenize source file))) ∧
      ((∀ d ∈ (parseText source file).diagnostics,
          d.misreads (startsCloser (tokenize source file)) = false) →
        ∀ d ∈ (parseText source file).diagnostics, d.cause ≠ .unclosedBlock) := by
  have hall := unclosed_add_closers_le source file (startsCloser (tokenize source file))
  rw [countP_closes_startsCloser, h] at hall
  have hle : (parseText source file).diagnostics.countP (·.cause == .unclosedBlock) ≤
      (parseText source file).diagnostics.countP
        (·.misreads (startsCloser (tokenize source file))) := by
    omega
  refine ⟨hle, fun hnone d hd hcause => ?_⟩
  have hzero : (parseText source file).diagnostics.countP
      (·.misreads (startsCloser (tokenize source file))) = 0 :=
    List.countP_eq_zero.mpr fun d hd => by rw [hnone d hd]; exact Bool.false_ne_true
  have hpos : 0 < (parseText source file).diagnostics.countP (·.cause == .unclosedBlock) :=
    List.countP_pos_iff.mpr ⟨d, hd, beq_iff_eq.mpr hcause⟩
  omega

/-- The brace is not what `let` is followed by, and it closes the block nevertheless. -/
theorem unclosed_le_misread_let :
    (tokenize "if (a) \x7b let \x7d" "shell").countP (·.kind == .closeCurly) =
        (tokenize "if (a) \x7b let \x7d" "shell").countP (·.kind == .openCurly) ∧
      ∀ d ∈ (parseText "if (a) \x7b let \x7d" "shell").diagnostics, d.cause ≠ .unclosedBlock :=
  ⟨by decide +kernel, (unclosed_le_misread (by decide +kernel)).2 (by decide +kernel)⟩

/-- The braces are balanced, in every beginning of the text too.  The brace that closes the block is
taken for the operand of the sign, and passed over, and so the block is reported as never closed. -/
theorem unclosed_of_misread_sign :
    (∀ i ≤ (tokenize "fn() \x7b - \x7d" "shell").length,
        ((tokenize "fn() \x7b - \x7d" "shell").take i).countP (·.kind == .closeCurly) ≤
          ((tokenize "fn() \x7b - \x7d" "shell").take i).countP (·.kind == .openCurly)) ∧
      (tokenize "fn() \x7b - \x7d" "shell").countP (·.kind == .closeCurly) =
        (tokenize "fn() \x7b - \x7d" "shell").countP (·.kind == .openCurly) ∧
      (parseText "fn() \x7b - \x7d" "shell").diagnostics =
        [⟨.noExpression .closeCurly, .at 9 "shell"⟩, ⟨.unclosedBlock, .at 10 "shell"⟩] := by
  decide +kernel

end ExprLang
