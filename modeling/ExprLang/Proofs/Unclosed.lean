import ExprLang.Proofs.Reporting
import ExprLang.Proofs.Simulation

/-!
# Blocks that are never closed

A block that is still open at the end of a text is given up there.  The statement that it is in
fails with this, and the list that this statement is in records it.  If the list is that of another
block, then this one has come to the end too, and is given up in its turn, and so on outwards.
Nothing else is recorded once this has begun.  So the diagnostics about unclosed blocks come last,
one for each block that was open at the end.

Which blocks were entered, and where they ended, cannot be told from what comes of a text.  So the
text is parsed once more beside, with notes: when a block that has been entered does not come to its
result on a closing brace, the kind of the token that it ends on is recorded among the diagnostics.
A note says that a token was expected that is there, which the parser itself never finds.  So the
notes can be taken out again, and what is left then is what comes of the text without them.

A block that is given up takes two levels from the one around it, its own and that of the
expression that it is in, and so only half as many as there are levels can be open at once.

## Main definitions

* `Action.noted`, `Level.noting`, `parseNoting` — parsing with notes.
* `unfinished` — the kinds of the tokens that blocks ended on otherwise than by a closing brace.
* `State.GivesUp` — what has been recorded while blocks are given up one after another.
* `givingUp` — the runs with and without notes, side by side.

## Main results

* `Level.halves_noting` — at most half as many blocks are given up as there are levels.
* `exists_parseNoting_eq` — parsing with notes comes to the same, but for the notes.
* `unclosed_last` — the unclosed blocks are reported last, at the end, once for each.
-/

namespace ExprLang

open ExprLang.Action
open Grammar (standard)

/-! ### Notes -/

/-- The note that something ends on the token. -/
def Token.ending (t : Token) : Diagnostic := ⟨.unexpected t.kind t.kind, t.span.start⟩

/-- The kind of the token that a note is about. -/
def Diagnostic.ending? (d : Diagnostic) : Option Kind :=
  match d.cause with
  | .unexpected expected got => if expected = got then some got else none
  | _ => none

/-- What is left without the notes. -/
def withoutNotes (ds : List Diagnostic) : List Diagnostic := ds.filter (·.ending?.isNone)

@[simp] theorem Token.ending?_ending (t : Token) : t.ending.ending? = some t.kind := by
  simp [ending, Diagnostic.ending?]

@[simp] theorem Diagnostic.ending?_unclosedBlock (p : Position) :
    (⟨.unclosedBlock, p⟩ : Diagnostic).ending? = none := rfl

theorem Diagnostic.ending?_of_ne {k l : Kind} (h : l ≠ k) (p : Position) :
    (⟨.unexpected k l, p⟩ : Diagnostic).ending? = none := if_neg h.symm

theorem Diagnostic.ending?_of_refuses {c : Cause} (h : c.refuses = true) (p : Position) :
    (⟨c, p⟩ : Diagnostic).ending? = none := by
  cases c with
  | unexpected | unclosedBlock => cases h
  | noExpression | badInteger | tooDeep => rfl

@[simp] theorem withoutNotes_append (ds es : List Diagnostic) :
    withoutNotes (ds ++ es) = withoutNotes ds ++ withoutNotes es := List.filter_append ds es

/-- Do an action.  Unless it comes to its result on a closing brace, note the token that it ends
on. -/
def Action.noted {α : Type} (m : Action α) : Action α where
  run s :=
    match m.run s with
    | (.ok a, t) => (.ok a, if t.current.kind = .closeCurly then t else t.record t.current.ending)
    | (.error d, t) => (.error d, t.record t.current.ending)
  reaches s := by
    have h := m.reaches s
    split
    · next a t heq =>
      rw [heq] at h
      split
      · exact h
      · exact h.trans (.record t _)
    · next d t heq =>
      rw [heq] at h
      exact h.trans (.record t _)

theorem Action.run_noted_of_ok {α : Type} {m : Action α} {s t : State} {a : α}
    (h : m.run s = (.ok a, t)) (hk : t.current.kind = .closeCurly) :
    m.noted.run s = (.ok a, t) := by
  simp only [noted, h, if_pos hk]

theorem Action.run_noted_of_error {α : Type} {m : Action α} {s t : State} {d : Diagnostic}
    (h : m.run s = (.error d, t)) :
    m.noted.run s = (.error d, t.record t.current.ending) := by
  simp only [noted, h]

/-- The level from which `n` more can be opened, where it is noted of every block that is entered
how it ends. -/
def Level.noting (g : Grammar) : Nat → Level
  | 0 => bottom g
  | n + 1 => { above g (noting g n) with block := (Form.blockBody g (noting g n)).noted }

/-- Parse a source of tokens, and note how its blocks end. -/
def parseNoting (s : Source) : Parsed :=
  let r := (Form.program .standard (.noting .standard maxNesting)).run (.ofSource s)
  ⟨r.1.toOption.getD [], r.2.diagnostics⟩

/-- The kinds of the tokens on which the blocks of a source end that do not come to their result on
a closing brace, in the order in which they end. -/
def unfinished (s : Source) : List Kind := (parseNoting s).diagnostics.filterMap Diagnostic.ending?

/-! ### What is recorded for the blocks that are given up -/

/-- What is recorded at the end for a number of blocks, one after another. -/
def reports (t : Token) : Nat → List Diagnostic
  | 0 => []
  | k + 1 => reports t k ++ [t.ending, ⟨.unclosedBlock, t.span.start⟩]

theorem withoutNotes_reports (t : Token) (k : Nat) :
    withoutNotes (reports t k) = List.replicate k ⟨.unclosedBlock, t.span.start⟩ := by
  induction k with
  | zero => rfl
  | succ k ih =>
    rw [reports, withoutNotes_append, ih, List.replicate_succ']
    simp [withoutNotes]

theorem filterMap_ending?_reports (t : Token) (k : Nat) :
    (reports t k).filterMap Diagnostic.ending? = List.replicate k t.kind := by
  induction k with
  | zero => rfl
  | succ k ih =>
    rw [reports, List.filterMap_append, ih, List.replicate_succ']
    simp

/-- Neither a note nor about an unclosed block. -/
def Diagnostic.IsEarly (d : Diagnostic) : Prop := d.cause ≠ .unclosedBlock ∧ d.ending? = none

/-- The end comes again and again. -/
def Cursor.Ends (c : Cursor) : Prop :=
  ∀ n, (c.skip n).current.kind = .eof → (c.skip (n + 1)).current = (c.skip n).current

namespace State

/-- At most `n` blocks have been given up, all of them at the end, and nothing else has been
recorded since. -/
structure GivesUp (n : Nat) (s : State) : Prop where
  ends : s.cursor.Ends
  recorded : ∃ ds k, s.diagnostics = ds ++ reports s.current k ∧ (∀ d ∈ ds, d.IsEarly) ∧ k ≤ n ∧
    (0 < k → s.current.kind = .eof)

namespace GivesUp

variable {s : State} {n : Nat}

theorem mono {m : Nat} (h : s.GivesUp n) (hn : n ≤ m) : s.GivesUp m := by
  obtain ⟨ds, k, hd, hearly, hk, hend⟩ := h.recorded
  exact ⟨h.ends, ds, k, hd, hearly, Nat.le_trans hk hn, hend⟩

/-- Before the end no block has been given up. -/
theorem zero_of_ne_eof (h : s.GivesUp n) (hs : s.current.kind ≠ .eof) : s.GivesUp 0 := by
  obtain ⟨ds, k, hd, hearly, -, hend⟩ := h.recorded
  have hk : k = 0 := Nat.eq_zero_of_not_pos fun hpos => hs (hend hpos)
  exact ⟨h.ends, ds, k, hd, hearly, Nat.le_of_eq hk, hend⟩

/-- At the end the current token stays the same. -/
theorem advance (h : s.GivesUp n) : s.advance.GivesUp n := by
  obtain ⟨ds, k, hd, hearly, hk, hend⟩ := h.recorded
  refine ⟨fun m => h.ends (m + 1), ds, k, ?_, hearly, hk, fun hpos => ?_⟩
  · rcases Nat.eq_zero_or_pos k with rfl | hpos
    · exact hd
    · have hsame : s.advance.current = s.current := h.ends 0 (hend hpos)
      rw [hsame]
      exact hd
  · have hsame : s.advance.current = s.current := h.ends 0 (hend hpos)
    rw [hsame]
    exact hend hpos

/-- While no block has been given up, something else may be recorded. -/
theorem record (h : s.GivesUp 0) {d : Diagnostic} (hd : d.IsEarly) : (s.record d).GivesUp n := by
  obtain ⟨ds, k, hds, hearly, hk, -⟩ := h.recorded
  obtain rfl := Nat.le_zero.mp hk
  refine ⟨h.ends, ds ++ [d], 0, ?_, ?_, Nat.zero_le n, fun hpos => absurd hpos (Nat.lt_irrefl 0)⟩
  · show s.diagnostics ++ [d] = _
    rw [hds, reports, List.append_nil, reports, List.append_nil]
  · exact List.forall_mem_append.mpr ⟨hearly, List.forall_mem_singleton.mpr hd⟩

/-- At the end one more block may be given up. -/
theorem giveUp (h : s.GivesUp n) (hs : s.current.kind = .eof) :
    ((s.record s.current.ending).record ⟨.unclosedBlock, s.position⟩).GivesUp (n + 1) := by
  obtain ⟨ds, k, hds, hearly, hk, -⟩ := h.recorded
  refine ⟨h.ends, ds, k + 1, ?_, hearly, Nat.succ_le_succ hk, fun _ => hs⟩
  show (s.diagnostics ++ [_]) ++ [_] = ds ++ (reports s.current k ++ [_, _])
  rw [hds, List.append_assoc, List.append_assoc]
  rfl

end GivesUp

/-- Without the notes of the second state, what they have recorded is the same. -/
structure Unnoted (s t : State) : Prop where
  cursor_eq : s.cursor = t.cursor
  diagnostics_eq : s.diagnostics = withoutNotes t.diagnostics

namespace Unnoted

variable {s t : State}

theorem current_eq (h : s.Unnoted t) : s.current = t.current := congrArg Cursor.current h.cursor_eq

theorem lookahead_eq (h : s.Unnoted t) : s.lookahead = t.lookahead :=
  congrArg Cursor.lookahead h.cursor_eq

theorem advance (h : s.Unnoted t) : s.advance.Unnoted t.advance :=
  ⟨congrArg Cursor.advance h.cursor_eq, h.diagnostics_eq⟩

theorem record (h : s.Unnoted t) {d : Diagnostic} (hd : d.ending? = none) :
    (s.record d).Unnoted (t.record d) := by
  refine ⟨h.cursor_eq, ?_⟩
  show s.diagnostics ++ [d] = withoutNotes (t.diagnostics ++ [d])
  rw [withoutNotes_append, h.diagnostics_eq]
  simp [withoutNotes, hd]

theorem note (h : s.Unnoted t) (u : Token) : s.Unnoted (t.record u.ending) := by
  refine ⟨h.cursor_eq, ?_⟩
  show s.diagnostics = withoutNotes (t.diagnostics ++ [u.ending])
  rw [withoutNotes_append, h.diagnostics_eq]
  simp [withoutNotes]

end Unnoted

end State

/-! ### The two runs -/

/-- The runs without notes and with notes.  Where they stop, at most `n` blocks have been given
up. -/
def givingUp (n : Nat) : Simulation where
  Rel s t := s.Unnoted t ∧ t.GivesUp 0
  Between s t := s.Unnoted t ∧ t.GivesUp n
  Stops d s t := s.Unnoted t ∧ d.ending? = none ∧ (t.record d).GivesUp n
  current_eq h := h.1.current_eq
  lookahead_eq h := h.1.lookahead_eq
  advance h := ⟨h.1.advance, h.2.advance⟩
  unexpected h hk :=
    have hnote := Diagnostic.ending?_of_ne hk _
    ⟨h.1, hnote, h.2.record ⟨nofun, hnote⟩⟩
  refused h hc :=
    have hnote := Diagnostic.ending?_of_refuses hc _
    ⟨h.1, hnote, h.2.record ⟨(by rintro rfl; cases hc), hnote⟩⟩
  between_current_eq h := h.1.current_eq
  between_advance h := ⟨h.1.advance, h.2.advance.mono (Nat.zero_le n)⟩
  between_record h := ⟨(h.1.record h.2.1).advance, h.2.2.advance⟩
  rel_of_between h hs := ⟨h.1, h.2.zero_of_ne_eof (h.1.current_eq ▸ hs)⟩

theorem Simulation.Covers.mono {α : Type} {m m' : Action α} {n n' : Nat}
    (h : (givingUp n).Covers m m') (hn : n ≤ n') : (givingUp n').Covers m m' := by
  intro s t hst
  exact (h s t hst).mono (fun _ _ h => h) fun _ _ _ hd => ⟨hd.1, hd.2.1, hd.2.2.mono hn⟩

/-- A block that is given up is noted, and one that is not leaves no note. -/
theorem covers_noted {m m' : Action Block} {n : Nat}
    (h : ∀ s t, (givingUp n).Rel s t → m.Agree m' s t
      (fun s t => (givingUp n).Between s t ∧ s.current.kind = .closeCurly) (givingUp n).GivenUp) :
    (givingUp (n + 1)).Covers m m'.noted := by
  intro s t hst
  cases h s t hst with
  | ok hs ht hend =>
    obtain ⟨⟨hsame, hgives⟩, hk⟩ := hend
    rw [hsame.current_eq] at hk
    refine .ok hs (run_noted_of_ok ht hk) ⟨hsame, hgives.zero_of_ne_eof ?_⟩
    rw [hk]
    decide
  | error hs ht hend =>
    obtain ⟨⟨hsame, hgives⟩, hk, rfl⟩ := hend
    refine .error hs (run_noted_of_error ht) ⟨hsame.note _, rfl, ?_⟩
    rw [State.position, hsame.current_eq]
    exact hgives.giveUp (hsame.current_eq ▸ hk)

/-! ### Levels -/

theorem covers_statement_standard {L L' : Level} {n : Nat}
    (h : ∀ p, (givingUp n).Covers (L.expr p) (L'.expr p)) :
    (givingUp n).Covers (Form.statement standard L) (Form.statement standard L') :=
  Simulation.covers_statement h fun k hk => absurd hk (Grammar.statement_ne_block k)

/-- The same is read at a level with notes and without.  A block that is given up takes one level,
and the expression around it takes one too. -/
structure Level.Halves (L L' : Level) (n : Nat) : Prop where
  expr : ∀ p, (givingUp (n / 2)).Covers (L.expr p) (L'.expr p)
  climb : ∀ p e, (givingUp (n / 2)).Covers (L.climb p e) (L'.climb p e)
  block : (givingUp ((n + 1) / 2)).Covers L.block L'.block

theorem Level.halves_noting (n : Nat) : (ofRoom standard n).Halves (noting standard n) n := by
  induction n with
  | zero =>
    have hL := (givingUp 0).covers_bottom standard
    exact ⟨hL.expr, hL.climb, hL.block⟩
  | succ n ih =>
    have hle : n / 2 ≤ (n + 1) / 2 := by omega
    have hL : (givingUp ((n + 1) / 2)).CoversLevel (ofRoom standard n) (noting standard n) :=
      ⟨⟨fun p => (ih.expr p).mono hle, ih.block⟩, fun p e => (ih.climb p e).mono hle⟩
    refine ⟨hL.exprAbove standard, hL.climbAbove standard, ?_⟩
    have hhalf : (n + 1 + 1) / 2 = n / 2 + 1 := by omega
    rw [hhalf]
    exact covers_noted fun s t => Simulation.agree_blockBody (covers_statement_standard ih.expr)

/-! ### The end of a text -/

namespace Scanner

/-- At the end of a text the parser is at its last token. -/
theorem getLast?_tokens_of_eof {sc : Scanner} {i : Nat}
    (h : ((Cursor.ofSource (.text sc)).skip i).current.kind = .eof) :
    sc.tokens.getLast? = some ((Cursor.ofSource (.text sc)).skip i).current := by
  fun_induction tokens sc generalizing i with
  | case1 sc heof => rw [current_skip_of_eof heof, List.getLast?_singleton]
  | case2 sc hne hlt ih =>
    cases i with
    | zero => exact absurd h hne
    | succ i =>
      obtain ⟨t, ts, hts⟩ := List.exists_cons_of_ne_nil sc.next.2.tokens_ne_nil
      rw [hts, List.getLast?_cons_cons, ← hts]
      exact ih h

theorem ends_ofSource (sc : Scanner) : (Cursor.ofSource (.text sc)).Ends := by
  intro n
  induction n generalizing sc with
  | zero =>
    intro h
    have hsame : sc.next.2.next.1 = sc.next.1 := by rw [next_next_of_eof h]
    exact hsame
  | succ n ih => exact ih sc.next.2

end Scanner

/-- Parsing a text with notes and without comes to the same end of the text, where at most half as
many blocks have been given up as there are levels. -/
theorem exists_parseNoting_eq (source file : String) :
    ∃ (p : Program) (t : State), parseNoting (.ofText source file) = ⟨p, t.diagnostics⟩ ∧
      parseText source file = ⟨p, withoutNotes t.diagnostics⟩ ∧
      t.GivesUp (maxNesting / 2) ∧ t.current.kind = .eof ∧
      (tokenize source file).getLast? = some t.current := by
  let start := State.ofSource (.ofText source file)
  have hstart : (givingUp (maxNesting / 2)).Between start start :=
    ⟨⟨rfl, rfl⟩, Scanner.ends_ofSource _, [], 0, rfl, List.forall_mem_nil _, Nat.zero_le _,
      fun h => absurd h (Nat.lt_irrefl 0)⟩
  have hexpr := (Level.halves_noting maxNesting).expr
  cases Simulation.agree_program (covers_statement_standard hexpr) hstart with
  | error _ _ h => exact h.elim
  | @ok p u t hs ht hend =>
    obtain ⟨⟨hsame, hgives⟩, hk⟩ := hend
    rw [hsame.current_eq] at hk
    refine ⟨p, t, ?_, ?_, hgives, hk, ?_⟩
    · rw [parseNoting, ht]
      rfl
    · rw [parseText, parse_eq hs, hsame.diagnostics_eq]
    · have hreaches := (Form.program standard (.noting standard maxNesting)).reaches start
      rw [ht] at hreaches
      obtain ⟨i, hi⟩ := hreaches.cursor
      rw [State.current, hi] at hk ⊢
      exact Scanner.getLast?_tokens_of_eof hk

/-- In every text the diagnostics about unclosed blocks come last, all of them at the end of the
text, and there are at most half as many as there are levels.  There is one for every block that was
entered and did not come to its result on a closing brace.  All of these blocks ended at the end of
the text, so nothing that is found inside a block makes the parser leave it before that.  Which
blocks they are is seen by parsing with notes, from which the same comes but for the notes. -/
theorem unclosed_last (source file : String) :
    ∃ early k stop,
      (parseText source file).diagnostics =
        early ++ List.replicate k ⟨.unclosedBlock, stop.span.start⟩ ∧
      (∀ d ∈ early, d.cause ≠ .unclosedBlock) ∧
      (tokenize source file).getLast? = some stop ∧ stop.kind = .eof ∧
      k ≤ maxNesting / 2 ∧
      unfinished (.ofText source file) = List.replicate k .eof ∧
      (parseText source file).program = (parseNoting (.ofText source file)).program ∧
      (parseText source file).diagnostics =
        withoutNotes (parseNoting (.ofText source file)).diagnostics := by
  obtain ⟨p, t, hnoting, hparse, hgives, hk, hlast⟩ := exists_parseNoting_eq source file
  obtain ⟨ds, k, hds, hearly, hle, -⟩ := hgives.recorded
  have hnone : ∀ d ∈ ds, d.ending? = none := fun d hd => (hearly d hd).2
  have hkeep : withoutNotes ds = ds := List.filter_eq_self.mpr fun d hd => by rw [hnone d hd]; rfl
  refine ⟨ds, k, t.current, ?_, fun d hd => (hearly d hd).1, hlast, hk, hle, ?_, ?_, ?_⟩
  · rw [hparse, hds, withoutNotes_append, hkeep, withoutNotes_reports]
  · rw [unfinished, hnoting, hds, List.filterMap_append, List.filterMap_eq_nil_iff.mpr hnone,
      filterMap_ending?_reports, hk, List.nil_append]
  · rw [hparse, hnoting]
  · rw [hparse, hnoting]

/-- The inner block is given up first, and then the one around it. -/
example : unfinished (.ofText "fn() \x7b if (a) \x7b let" "shell") = [.eof, .eof] := by
  decide +kernel

end ExprLang
