import ExprLang.Proofs.Accepting

/-!
# Brackets are nested in what is accepted

Parentheses, brackets and braces are read by many forms of the language, in many ways.  But whatever
is accepted is spelled by clauses, and in a spelling each form writes the bracket that it opens and
the one that closes it with a spelling in between.  So the brackets of a spelling leave what is due
around it as it was.

## Main definitions

* `nested due ks` — brackets that are nested, after some for which closing ones are still due.
* `Neutral ws` — words whose brackets make no difference to what is due.

## Main results

* `Spelling.neutral_words` — the words of a spelling are neutral.
* `nested_of_accepted` — in tokens that are accepted the brackets are nested.
-/

namespace ExprLang

open Word (mark listed)
open Grammar (standard)

/-! ### Nested brackets -/

namespace Kind

/-- The bracket that closes a bracket of this kind, if one of this kind opens something. -/
def closer? : Kind → Option Kind
  | openParen => some closeParen
  | openCurly => some closeCurly
  | openBracket => some closeBracket
  | _ => none

/-- The brackets, of all three types. -/
def isBracket : Kind → Bool
  | openParen | closeParen | openCurly | closeCurly | openBracket | closeBracket => true
  | _ => false

theorem isBracket_of_closer? {o c : Kind} (h : o.closer? = some c) :
    o.isBracket = true ∧ c.isBracket = true ∧ c.closer? = none := by
  unfold closer? at h
  split at h <;> cases h <;> decide

theorem not_isBracket_of_isOperator {k : Kind} (h : k.isOperator = true) : k.isBracket = false := by
  cases k <;> first | rfl | cases h

end Kind

/-- The brackets are nested, where the kinds in `due` are those that still have to close brackets
opened before, the innermost first.  A closing bracket has to be the one that is due next, and in
the end none may be due. -/
def nested : List Kind → List Kind → Bool
  | due, [] => due.isEmpty
  | due, k :: ks =>
    match k.closer? with
    | some c => nested (c :: due) ks
    | none => due.head? == some k && nested due.tail ks

theorem nested_open {o c : Kind} (h : o.closer? = some c) (due ks : List Kind) :
    nested due (o :: ks) = nested (c :: due) ks := by
  rw [nested, h]

theorem nested_close {c : Kind} (h : c.closer? = none) (due ks : List Kind) :
    nested (c :: due) (c :: ks) = nested due ks := by
  simp [nested, h]

/-- Brackets of different types that cross each other are not nested. -/
example : nested [] [.openParen, .openBracket, .closeParen, .closeBracket] = false := rfl

/-! ### Neutral words -/

/-- The brackets among the words. -/
def brackets (ws : List Word) : List Kind := (ws.map Word.kind).filter Kind.isBracket

theorem brackets_append (ws vs : List Word) : brackets (ws ++ vs) = brackets ws ++ brackets vs := by
  rw [brackets, List.map_append, List.filter_append]
  rfl

/-- Whatever is due, and whatever comes after them, the brackets among the words make no
difference. -/
def Neutral (ws : List Word) : Prop :=
  ∀ due ks, nested due (brackets ws ++ ks) = nested due ks

namespace Neutral

theorem nil : Neutral [] := fun _ _ => rfl

theorem append {ws vs : List Word} (hws : Neutral ws) (hvs : Neutral vs) : Neutral (ws ++ vs) := by
  intro due ks
  rw [brackets_append, List.append_assoc, hws, hvs]

/-- A word that is no bracket may come first. -/
theorem cons {w : Word} {ws : List Word} (hw : w.kind.isBracket = false) (hws : Neutral ws) :
    Neutral (w :: ws) := by
  intro due ks
  have hbrackets : brackets (w :: ws) = brackets ws := by simp [brackets, hw]
  rw [hbrackets, hws]

theorem singleton {w : Word} (hw : w.kind.isBracket = false) : Neutral [w] := nil.cons hw

/-- Two brackets that belong together may be put around neutral words. -/
theorem enclosed {o c : Kind} (h : o.closer? = some c) {ws : List Word} (hws : Neutral ws) :
    Neutral (mark o :: ws ++ [mark c]) := by
  intro due ks
  obtain ⟨ho, hc, hnone⟩ := Kind.isBracket_of_closer? h
  have hbrackets : brackets (mark o :: ws ++ [mark c]) = o :: (brackets ws ++ [c]) := by
    simp [brackets, ho, hc]
  rw [hbrackets, List.cons_append, List.append_assoc, nested_open h, hws, List.singleton_append,
    nested_close hnone]

theorem listed {comma : Bool} {entries : List (List Word)} (h : ∀ ws ∈ entries, Neutral ws) :
    Neutral (listed comma entries) := by
  induction entries with
  | nil => exact nil
  | cons ws entries ih =>
    obtain ⟨hws, hentries⟩ := List.forall_mem_cons.mp h
    cases entries with
    | nil =>
      rw [Word.listed_singleton]
      refine hws.append ?_
      cases comma with
      | true => exact singleton rfl
      | false => exact nil
    | cons vs entries =>
      rw [Word.listed_cons_cons]
      exact hws.append ((ih hentries).cons rfl)

theorem semicolonWords (n : Nat) : Neutral (semicolonWords n) := by
  induction n with
  | zero => exact nil
  | succ n ih => exact ih.cons rfl

theorem nameWords (names : List String) : ∀ ws ∈ nameWords names, Neutral ws := by
  intro ws hws
  obtain ⟨name, -, rfl⟩ := List.mem_map.mp hws
  exact singleton rfl

end Neutral

/-! ### Spellings -/

mutual

/-- The words of a spelling are neutral: every form writes its two brackets around spellings. -/
theorem Spelling.neutral_words : ∀ t : Spelling, Neutral t.words
  | .ident _ | .int .. | .str _ => .singleton rfl
  | .bool value => .singleton (by cases value <;> rfl)
  | .group inside => .enclosed rfl (Spelling.neutral_words inside)
  | .unary op operand =>
    (Spelling.neutral_words operand).cons
      (Kind.not_isBracket_of_isOperator (Grammar.head_unary op.head_eq))
  | .binary left op right =>
    (Spelling.neutral_words left).append ((Spelling.neutral_words right).cons
      (Kind.not_isBracket_of_isOperator (Grammar.tail_binary op.tail_eq).2.2))
  | .conditional condition consequence alternative => by
    have hcondition : Neutral (mark .openParen :: condition.words ++ [mark .closeParen]) :=
      .enclosed rfl (Spelling.neutral_words condition)
    have hconsequence :
        Neutral (mark .openCurly :: clauseWords consequence ++ [mark .closeCurly]) :=
      .enclosed rfl (neutral_clauseWords consequence)
    have hall := (hcondition.append hconsequence).append (neutral_elseWords alternative)
    simpa [Spelling.words] using hall.cons (w := mark .ifWord) rfl
  | .function parameters body => by
    have hparameters : Neutral
        (mark .openParen :: listed false (nameWords parameters) ++ [mark .closeParen]) :=
      .enclosed rfl (.listed (Neutral.nameWords parameters))
    have hbody : Neutral (mark .openCurly :: clauseWords body ++ [mark .closeCurly]) :=
      .enclosed rfl (neutral_clauseWords body)
    simpa [Spelling.words] using (hparameters.append hbody).cons (w := mark .fnWord) rfl
  | .call callee arguments => by
    have harguments : Neutral
        (mark .openParen :: listed false (itemWords arguments) ++ [mark .closeParen]) :=
      .enclosed rfl (.listed (neutral_itemWords arguments))
    simpa [Spelling.words] using (Spelling.neutral_words callee).append harguments
  | .array elements => .enclosed rfl (.listed (neutral_itemWords elements))
  | .index subject place => by
    have hplace : Neutral (mark .openBracket :: place.words ++ [mark .closeBracket]) :=
      .enclosed rfl (Spelling.neutral_words place)
    simpa [Spelling.words] using (Spelling.neutral_words subject).append hplace
  | .hash pairs _ => .enclosed rfl (.listed (neutral_pairWords pairs))

theorem Clause.neutral_words : ∀ c : Clause, Neutral c.words
  | .binding _ value n =>
    ((((Spelling.neutral_words value).cons rfl).cons rfl).cons rfl).append (.semicolonWords n)
  | .ret none n => (Neutral.semicolonWords n).cons rfl
  | .ret (some value) n => ((Spelling.neutral_words value).cons rfl).append (.semicolonWords n)
  | .expr value n => (Spelling.neutral_words value).append (.semicolonWords n)

theorem neutral_clauseWords : ∀ cs : List Clause, Neutral (clauseWords cs)
  | [] => .nil
  | c :: cs => (Clause.neutral_words c).append (neutral_clauseWords cs)

theorem neutral_elseWords : ∀ o : Option (List Clause), Neutral (elseWords o)
  | none => .nil
  | some body => by
    have hbody : Neutral (mark .openCurly :: clauseWords body ++ [mark .closeCurly]) :=
      .enclosed rfl (neutral_clauseWords body)
    exact hbody.cons rfl

theorem neutral_itemWords : ∀ es : List Spelling, ∀ ws ∈ itemWords es, Neutral ws
  | [] => List.forall_mem_nil _
  | e :: es => List.forall_mem_cons.mpr ⟨Spelling.neutral_words e, neutral_itemWords es⟩

theorem neutral_pairWords : ∀ ps : List (Spelling × Spelling), ∀ ws ∈ pairWords ps, Neutral ws
  | [] => List.forall_mem_nil _
  | (key, value) :: ps => List.forall_mem_cons.mpr
    ⟨(Spelling.neutral_words key).append ((Spelling.neutral_words value).cons rfl),
      neutral_pairWords ps⟩

end

/-! ### Accepted tokens -/

/-- If nothing is found in some tokens, none of which stands for the end, then their brackets are
nested: each closing bracket closes the last one that is still open, which is of its own type, and
in the end none is open. -/
theorem nested_of_accepted {ts : List Token} (hts : ∀ t ∈ ts, t.kind ≠ .eof)
    (h : (parse (.ofTokens ts)).diagnostics = []) :
    nested [] ((ts.map Token.kind).filter Kind.isBracket) = true := by
  obtain ⟨cs, d, -, hpass, hd⟩ := exists_clauses_of_isClean h
  obtain ⟨u, hu, hend⟩ := State.passes_ofTokens_all hts
  -- the tokens amount to the words of the clauses, which are neutral
  have hwords : clauseWords cs = ts.map Token.word := hpass.words_unique hd hu hend
  have hkinds : (ts.map Token.kind).filter Kind.isBracket = brackets (clauseWords cs) := by
    rw [hwords, brackets, List.map_map]
    rfl
  have hneutral := neutral_clauseWords cs [] []
  rwa [List.append_nil, ← hkinds] at hneutral

/-- A call of an element of a list, in a block, as a value in braces. -/
theorem nested_of_accepted_call :
    let ts : List Token := [⟨.fnWord, "fn", default⟩, ⟨.openParen, "(", default⟩,
      ⟨.closeParen, ")", default⟩, ⟨.openCurly, "\x7b", default⟩, ⟨.openCurly, "\x7b", default⟩,
      ⟨.ident, "a", default⟩, ⟨.colon, ":", default⟩, ⟨.ident, "b", default⟩,
      ⟨.openBracket, "[", default⟩, ⟨.int, "0", default⟩, ⟨.closeBracket, "]", default⟩,
      ⟨.openParen, "(", default⟩, ⟨.closeParen, ")", default⟩, ⟨.closeCurly, "\x7d", default⟩,
      ⟨.closeCurly, "\x7d", default⟩]
    (∀ t ∈ ts, t.kind ≠ .eof) ∧ (parse (.ofTokens ts)).diagnostics = [] ∧
      nested [] ((ts.map Token.kind).filter Kind.isBracket) = true := by
  intro ts
  have hts : ∀ t ∈ ts, t.kind ≠ .eof := by decide
  have h : (parse (.ofTokens ts)).diagnostics = [] := by decide +kernel
  exact ⟨hts, h, nested_of_accepted hts h⟩

end ExprLang
