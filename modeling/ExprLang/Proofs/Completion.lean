import ExprLang.Proofs.Accepting
import ExprLang.Proofs.Locality

/-!
# The first diagnostic comes in time

The parser blames a token as soon as no source without diagnostics begins with the tokens up to it.
So the tokens before the first one that is blamed can be completed to such a source.

## Main results

* `State.Passes.numbered` — how far words lead from the first of some numbered tokens.
* `exists_completion` — what comes before the first blame can be completed.
-/

namespace ExprLang

open ExprLang.Action State

/-- From the first of some numbered tokens, words that are passed are those of the first tokens, and
they lead to the number after those of these tokens. -/
theorem State.Passes.numbered {ts : List Token} {i : Nat} {ds : List Diagnostic} {ws : List Word}
    {x : State}
    (h : State.Passes ⟨.ofSource (.list (numberedFrom i ts) (.tally (i + ts.length))), ds⟩ ws x) :
    ws.length ≤ ts.length ∧ (ts.take ws.length).map Token.word = ws ∧
      x.position.index = i + ws.length := by
  induction ws generalizing ts i with
  | nil =>
    obtain rfl := passes_nil.mp h
    refine ⟨Nat.zero_le _, rfl, ?_⟩
    cases ts with
    | nil => exact Position.index_tally _
    | cons t ts => exact Position.index_tally i
  | cons w ws ih =>
    obtain ⟨hk, hw, hrest⟩ := passes_cons.mp h
    cases ts with
    | nil => exact absurd rfl hk
    | cons t ts =>
      have hlength : i + (t :: ts).length = i + 1 + ts.length := by
        rw [List.length_cons]
        omega
      rw [hlength] at hrest
      obtain ⟨hle, hmap, hindex⟩ := ih hrest
      refine ⟨Nat.succ_le_succ hle, ?_, ?_⟩
      · rw [List.length_cons, List.take_succ_cons, List.map_cons, hmap, ← hw]
        rfl
      · rw [hindex, List.length_cons]
        omega

/-- The tokens before the first one that is blamed are the first ones of a source without
diagnostics, if a level of nesting was left when it was blamed.  So nothing before it is to
blame. -/
theorem exists_completion {ts : List Token} (heof : ∀ t ∈ ts, t.kind ≠ .eof) {b : Blame}
    {rest : List Blame} (hb : blames ts = b :: rest) (hdepth : b.depth < maxNesting) :
    (parse (.ofTokens ts)).diagnostics = (b :: rest).map (Blame.diagnostic ts) ∧
      b.index ≤ ts.length ∧
        ∃ more : List Token, (parse (.ofTokens (ts.take b.index ++ more))).diagnostics = [] := by
  refine ⟨hb ▸ diagnostics_parse_ofTokens heof, ?_⟩
  obtain ⟨p, t, hrun⟩ := Form.run_program_isOk .standard (.counting .standard maxNesting)
    (.numbered ts)
  rw [blames, hrun] at hb
  -- the first blame is the first diagnostic of the run on numbered tokens
  obtain ⟨d, ds, htold, rfl, -⟩ := List.map_eq_cons_iff.mp hb
  have hyields := Form.yields_program (Level.sound_counting maxNesting) (.numbered ts)
  obtain ⟨cs, hcompletes, hspaced, -, hfits⟩ :=
    hyields.of_told d ds (by rw [hrun]; exact htold) hdepth
  obtain ⟨x, vs, more, hpass, hindex, hws, hmore⟩ := hcompletes
  have hpass' : State.Passes ⟨.ofSource (.list (numberedFrom 0 ts) (.tally (0 + ts.length))), []⟩
      vs x := by
    rw [Nat.zero_add]
    exact hpass
  obtain ⟨hle, hmap, hnumber⟩ := hpass'.numbered
  have hd : d.blame.index = vs.length := by
    rw [Diagnostic.blame, ← hindex, hnumber, Nat.zero_add]
  rw [hd]
  refine ⟨hle, more.map Word.token, ?_⟩
  -- the tokens that were passed and those written after them amount to the statements
  have hwritten : (ts.take vs.length ++ more.map Word.token).map Token.word = clauseWords cs := by
    rw [List.map_append, hmap, Word.map_word_token hmore, hws]
  have hall : ∀ t ∈ ts.take vs.length ++ more.map Word.token, t.kind ≠ .eof :=
    List.forall_mem_append.mpr
      ⟨fun t ht => heof t (List.mem_of_mem_take ht), Word.ne_eof_of_mem_map_token hmore⟩
  obtain ⟨u, hu, hend⟩ := passes_ofTokens_all hall
  rw [hwritten] at hu
  have hcost : clausesCost cs ≤ maxNesting :=
    clausesCost_le_iff.mpr fun c hc v hv => (hfits c hc v hv).peak_lt
  rw [(parse_spacedClauses hspaced (fun c hc v hv => (hfits c hc v hv).isRead) hu hend).1 hcost]

/-- In `if (a) b` the block is missing, and what comes before the name can be completed. -/
theorem exists_completion_conditional :
    let ts : List Token := [⟨.ifWord, "if", default⟩, ⟨.openParen, "(", default⟩,
      ⟨.ident, "a", default⟩, ⟨.closeParen, ")", default⟩, ⟨.ident, "b", default⟩]
    (parse (.ofTokens ts)).diagnostics = [⟨.unexpected .openCurly .ident, default⟩] ∧
      4 ≤ ts.length ∧
        ∃ more : List Token, (parse (.ofTokens (ts.take 4 ++ more))).diagnostics = [] := by
  intro ts
  have hb : blames ts = [⟨.unexpected .openCurly .ident, 4, 1⟩] := by decide +kernel
  exact exists_completion (by decide) hb (by decide)

end ExprLang
