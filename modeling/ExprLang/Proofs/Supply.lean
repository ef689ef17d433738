import ExprLang.Proofs.Simulation

/-!
# Where tokens come from

A text can be scanned while it is parsed, or all of it can be scanned first and the list of tokens
be parsed then.  Both sources give the same tokens, also past the end, where each of them makes up
tokens for the end by itself.  The parser takes tokens from its source and does nothing else with
it, so it cannot tell one source from the other.

## Main definitions

* `State.SameAhead` — states that see the same tokens from the current one on, and have found the
  same.
* `sameAhead` — runs from such states, side by side.

## Main results

* `Source.take_ofTokens` — the tokens of a scanner, as a list, are given again one by one.
* `Level.covers_ofRoom` — every level reads the same from states that see the same tokens.
* `parse_congr` — sources that give the same tokens are parsed alike.
* `parse_ofTokens_tokenize` — a text is parsed like the list of its tokens.
-/

namespace ExprLang

/-! ### The same tokens -/

namespace Source

/-- A source that stays as it is gives the same token for ever. -/
theorem take_of_next_eq {s : Source} {t : Token} (h : s.next = (t, s)) (n : Nat) :
    s.take n = List.replicate n t := by
  induction n with
  | zero => rfl
  | succ n ih => rw [take, h, ih, List.replicate_succ]

/-- A list of tokens ends where its last token stops, whatever comes before that one. -/
theorem next_ofTokens_cons (t : Token) {ts : List Token} (h : ts ≠ []) :
    (ofTokens (t :: ts)).next = (t, ofTokens ts) := by
  obtain ⟨u, us, rfl⟩ := List.exists_cons_of_ne_nil h
  rw [ofTokens, List.getLast?_cons_cons]
  rfl

/-- The tokens that a scanner gives are given again, one by one, by the list of them.  The end that
the list makes up is where the scanner has come to. -/
theorem take_ofTokens (sc : Scanner) (n : Nat) :
    (ofTokens sc.tokens).take n = (text sc).take n := by
  induction n generalizing sc with
  | zero => rfl
  | succ n ih =>
    by_cases h : sc.next.1.kind = .eof
    · -- past the last token both sources stay as they are
      have hend := Scanner.next_eq_of_kind_eq_eof h
      have hstays : (text sc.next.2).next = (.eof sc.next.2.position, text sc.next.2) := by
        rw [next, Scanner.next_next_of_eof h, hend]
      have hlist : (ofTokens sc.tokens).next =
          (.eof sc.next.2.position, .list [] sc.next.2.position) := by
        rw [Scanner.tokens, dif_pos h, hend]
        rfl
      rw [take, hlist, take_of_next_eq rfl, take, next, hend, take_of_next_eq hstays]
    · rw [Scanner.tokens, dif_neg h, take, next_ofTokens_cons _ (Scanner.tokens_ne_nil _), ih]
      rfl

end Source

/-- The two states see the same tokens from the current one on, and the same has been found. -/
structure State.SameAhead (s t : State) : Prop where
  tokens : ∀ n, (s.cursor.skip n).current = (t.cursor.skip n).current
  diagnostics : s.diagnostics = t.diagnostics

namespace State.SameAhead

variable {s t : State}

theorem current_eq (h : s.SameAhead t) : s.current = t.current := h.tokens 0

theorem lookahead_eq (h : s.SameAhead t) : s.lookahead = t.lookahead := h.tokens 1

theorem advance (h : s.SameAhead t) : s.advance.SameAhead t.advance :=
  ⟨fun n => h.tokens (n + 1), h.diagnostics⟩

theorem record (h : s.SameAhead t) (d : Diagnostic) : (s.record d).SameAhead (t.record d) :=
  ⟨h.tokens, congrArg (· ++ [d]) h.diagnostics⟩

end State.SameAhead

/-- Two runs that see the same tokens do the same, and so they record the same. -/
def sameAhead : Simulation where
  Rel := State.SameAhead
  Between := State.SameAhead
  Stops _ := State.SameAhead
  current_eq h := h.current_eq
  lookahead_eq h := h.lookahead_eq
  advance h := h.advance
  unexpected h _ := h
  refused h _ := h
  between_current_eq h := h.current_eq
  between_advance h := h.advance
  between_record h := (h.record _).advance
  rel_of_between h _ := h

/-! ### Levels -/

namespace Level

/-- Whatever is read at a level depends only on the tokens that are seen. -/
theorem covers_ofRoom (g : Grammar) (n : Nat) :
    sameAhead.CoversLevel (ofRoom g n) (ofRoom g n) := by
  induction n with
  | zero => exact sameAhead.covers_bottom g
  | succ n ih =>
    refine ⟨⟨ih.exprAbove g, fun s t hst => ?_⟩, ih.climbAbove g⟩
    have hbody := Simulation.agree_blockBody (ih.statement g) hst
    exact hbody.mono (fun _ _ h => h.1) fun _ _ _ h => h.1

end Level

/-! ### Sources -/

/-- After some moves the parser is at the token that its source gives with their number. -/
theorem Source.take_succ_current (s : Source) (n : Nat) :
    s.take (n + 1) = s.take n ++ [((Cursor.ofSource s).skip n).current] := by
  induction n generalizing s with
  | zero => rfl
  | succ n ih =>
    rw [take, ih]
    rfl

/-- Sources that give the same tokens are parsed as the same program, and the same is found in
them. -/
theorem parse_congr {src src' : Source} (h : ∀ n, src.take n = src'.take n) :
    parse src = parse src' := by
  have hsame : (State.ofSource src).SameAhead (.ofSource src') := by
    refine ⟨fun n => ?_, rfl⟩
    have hnext := h (n + 1)
    rw [Source.take_succ_current, Source.take_succ_current, h n] at hnext
    exact List.singleton_inj.mp (List.append_cancel_left hnext)
  have hL := Level.covers_ofRoom .standard maxNesting
  cases Simulation.agree_program (hL.statement .standard) hsame with
  | ok hs ht same => rw [parse_eq hs, parse_eq ht, same.1.diagnostics]
  | error _ _ h => exact h.elim

/-- Scanning a text on demand gives the same tokens as the list of all its tokens, one by one and
for ever, with the same kinds, values and places.  So the two sources are parsed as the same
program, and what is found in them is the same, at the same places. -/
theorem parse_ofTokens_tokenize (source file : String) :
    (∀ n, (Source.ofTokens (tokenize source file)).take n =
      (Source.ofText source file).take n) ∧
    parse (.ofTokens (tokenize source file)) = parseText source file :=
  have htake := Source.take_ofTokens (.ofSource source file)
  ⟨htake, parse_congr htake⟩

end ExprLang
