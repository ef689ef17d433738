import ExprLang.Proofs.Accepting
import ExprLang.Proofs.Gist
import ExprLang.Proofs.Precedence
import ExprLang.Proofs.Rendering

/-!
# Parsing and rendering

The canonical text of a program that can be written is parsed as this program, as long as it takes
no more levels of nesting than there are.  It takes more than another text of the same program may
take, because all its parentheses are nested: a run of signs before a name takes one level for each
sign, and its canonical text two.  So not every text that is accepted has a canonical text that is
accepted too.  But whether it is or not, the canonical text says what the text says, and no other
program has the same.

## Main results

* `parseText_render` — the canonical text of a program is parsed as the program.
* `parseText_render_iff` — when the canonical text of what was accepted is accepted.
* `Program.eq_of_render_eq` — the canonical text tells the program.
* `parseText_signedText` — a run of signs before a name.
* `gist_tokenize_render` — the canonical text of what was accepted says the same.
-/

namespace ExprLang

open ExprLang.Action
open Word (mark listed)
open Grammar (standard)

/-! ### Texts and clauses -/

/-- From the first token of a text up to the end, the words of the text are passed. -/
theorem passes_textWords (source file : String) :
    ∃ d, (State.ofSource (.ofText source file)).Passes (textWords source.toList) d ∧
      d.current.kind = .eof :=
  (Scanner.ofSource source file).passes_words

/-- A text with the words of legal statements is parsed as these statements, unless they are nested
too deeply. -/
theorem parseText_clauses {source : String} {cs : List Clause} (hl : LegalClauses cs)
    (h : textWords source.toList = clauseWords cs) (file : String) :
    (clausesCost cs ≤ maxNesting → parseText source file = ⟨clauseTrees cs, []⟩) ∧
      (maxNesting < clausesCost cs → ∃ d rest, (parseText source file).diagnostics = d :: rest ∧
        d.cause = .tooDeep maxNesting) := by
  obtain ⟨d, hp, hd⟩ := passes_textWords source file
  exact parse_clauses hl (h ▸ hp) hd

theorem diagnostics_parseText_clauses {source : String} {cs : List Clause} (hl : LegalClauses cs)
    (h : textWords source.toList = clauseWords cs) (file : String) :
    (parseText source file).diagnostics = [] ↔ clausesCost cs ≤ maxNesting := by
  obtain ⟨hfits, hdeep⟩ := parseText_clauses hl h file
  constructor
  · intro hd
    apply Nat.le_of_not_lt
    intro hcost
    obtain ⟨d, rest, hcons, -⟩ := hdeep hcost
    rw [hd] at hcons
    simp at hcons
  · intro hcost
    rw [hfits hcost]

/-- The canonical text of a program has the words of a canonical spelling. -/
theorem Program.exists_clauses_render {p : Program} (hp : p.WellFormed) :
    ∃ cs, LegalClauses cs ∧ clauseTrees cs = p ∧ clausesCost cs = p.need ∧
      textWords p.render.toList = clauseWords cs := by
  obtain ⟨cs, hcs⟩ := exists_areCanonical hp
  refine ⟨cs, hcs.legal, hcs.trees_eq, hcs.cost_eq, ?_⟩
  have hwords := textWords_renderStatements hp endsWord_nil
  rwa [List.append_nil, textWords_nil, List.append_nil, ← hcs.words_eq] at hwords

/-- An accepted text has the words of statements, and these can be written. -/
theorem exists_clauses_of_accepted {source file : String}
    (h : (parseText source file).diagnostics = []) :
    ∃ cs, clauseTrees cs = (parseText source file).program ∧
      textWords source.toList = clauseWords cs ∧
      (∀ w ∈ clauseWords cs, w.Proper) ∧ (parseText source file).program.WellFormed := by
  obtain ⟨cs, d, htrees, hp, hd⟩ := exists_clauses_of_isClean h
  obtain ⟨d', hp', hd'⟩ := passes_textWords source file
  have hwords : textWords source.toList = clauseWords cs := hp'.words_unique hd' hp hd
  have hproper : ∀ w ∈ clauseWords cs, w.Proper := by
    intro w hw
    exact proper_of_mem_textWords (hwords ▸ hw)
  exact ⟨cs, htrees, hwords, hproper, htrees ▸ wellFormed_clauses hproper⟩

/-! ### A run of signs -/

/-- A name after a run of signs. -/
def signed (name : String) : Nat → Spelling
  | 0 => .ident name
  | n + 1 => .unary ⟨mark .minus, rfl⟩ (signed name n)

/-- The text of a name after a run of signs. -/
def signedText (name : String) (n : Nat) : String :=
  String.ofList (List.replicate n '-' ++ name.toList)

/-- It is a legal spelling, and takes one level for each sign. -/
theorem legal_signed (name : String) (n : Nat) : (signed name n).Legal ∧
    (signed name n).infixPower? = none ∧ (signed name n).peak = n := by
  induction n with
  | zero => exact ⟨trivial, rfl, rfl⟩
  | succ n ih =>
    obtain ⟨hl, hq, hpeak⟩ := ih
    refine ⟨⟨hq, hl⟩, rfl, ?_⟩
    rw [signed, Spelling.peak, hpeak]
    omega

theorem textWords_signedText {name : String} (h : IsName name) (n : Nat) :
    textWords (signedText name n).toList = (signed name n).words := by
  rw [signedText, String.toList_ofList]
  induction n with
  | zero =>
    have hname := textWords_name h endsWord_nil
    rwa [List.append_nil, textWords_nil] at hname
  | succ n ih =>
    rw [List.replicate_succ, List.cons_append, textWords_plain (by decide), ih]
    rfl

/-- The canonical text has a parenthesis for each sign, and takes two levels. -/
theorem wellFormed_signed {name : String} (h : IsName name) (n : Nat) :
    (signed name n).tree.WellFormed ∧ (signed name n).tree.peak = 2 * n := by
  induction n with
  | zero => exact ⟨h, rfl⟩
  | succ n ih =>
    obtain ⟨hwf, hpeak⟩ := ih
    refine ⟨⟨by decide, hwf⟩, ?_⟩
    rw [signed, Spelling.tree, Expr.peak, hpeak]
    omega

/-- A run of signs before a name is accepted as long as there is a level for each of them. -/
theorem parseText_signedText {name : String} (h : IsName name) {n : Nat} (hn : n < maxNesting)
    (file : String) :
    parseText (signedText name n) file = ⟨[.expr (signed name n).tree], []⟩ := by
  obtain ⟨hl, -, hpeak⟩ := legal_signed name n
  have hclauses : LegalClauses [.expr (signed name n) 0] := ⟨⟨.inr ⟨rfl, rfl⟩, hl⟩, trivial⟩
  have hwords : textWords (signedText name n).toList = clauseWords [.expr (signed name n) 0] := by
    rw [textWords_signedText h]
    simp [clauseWords, Clause.words, semicolonWords]
  have hcost : clausesCost [.expr (signed name n) 0] = 1 + n := by
    rw [clausesCost, clausesCost, Clause.cost, hpeak, Nat.max_zero]
  exact (parseText_clauses hclauses hwords file).1 (by omega)

/-- The canonical text of a run of signs before a name is accepted as long as there are two levels
for each of them. -/
theorem parseText_render_signed {name : String} (h : IsName name) (n : Nat) (file : String) :
    (parseText (Program.render [.expr (signed name n).tree]) file).diagnostics = [] ↔
      2 * n < maxNesting := by
  obtain ⟨hwf, hpeak⟩ := wellFormed_signed h n
  have hprogram : Program.WellFormed [.expr (signed name n).tree] := ⟨hwf, trivial⟩
  obtain ⟨cs, hl, htrees, hcost, hwords⟩ := Program.exists_clauses_render hprogram
  have hneed : clausesCost cs = 1 + 2 * n := by
    rw [hcost, Program.need, stmtsCost, stmtsCost, Stmt.cost, hpeak, Nat.max_zero]
  rw [diagnostics_parseText_clauses hl hwords file, hneed]
  omega

/-! ### Parsing what was rendered -/

/-- The canonical text of a program that can be written is parsed as this program, if it takes no
more levels than there are.  If it takes more, then this is the first thing that is found. -/
theorem parseText_render {p : Program} (hp : p.WellFormed) (file : String) :
    (p.need ≤ maxNesting → parseText p.render file = ⟨p, []⟩) ∧
      (maxNesting < p.need → ∃ d rest, (parseText p.render file).diagnostics = d :: rest ∧
        d.cause = .tooDeep maxNesting) := by
  obtain ⟨cs, hl, htrees, hcost, hwords⟩ := Program.exists_clauses_render hp
  have hparse := parseText_clauses hl hwords file
  rwa [htrees, hcost] at hparse

/-- The canonical text of a statement and an expression. -/
theorem parseText_render_product :
    let p : Program :=
      [.binding "x" (.int 5), .expr (.binary (.unary "-" (.ident "x")) "*" (.int 2))]
    p.WellFormed ∧ p.need ≤ maxNesting ∧ p.render = "let x = 5; ((-x) * 2)" ∧
      parseText p.render "shell" = ⟨p, []⟩ := by
  intro p
  have hwf : p.WellFormed :=
    ⟨⟨by decide, by decide, by decide⟩, ⟨by decide, ⟨by decide, (by decide : IsName "x")⟩,
      by decide, by decide⟩, trivial⟩
  have hneed : p.need ≤ maxNesting := by decide
  exact ⟨hwf, hneed, rfl, (parseText_render hwf "shell").1 hneed⟩

/-- The canonical text of what was accepted is accepted, and gives the same program, just if it
takes no more levels than there are. -/
theorem parseText_render_iff {source file : String} (h : (parseText source file).diagnostics = [])
    (file' : String) :
    (parseText (parseText source file).program.render file' =
        ⟨(parseText source file).program, []⟩ ↔
      (parseText source file).program.need ≤ maxNesting) ∧
    ((parseText (parseText source file).program.render file').diagnostics = [] ↔
      (parseText source file).program.need ≤ maxNesting) := by
  obtain ⟨-, -, -, -, hwf⟩ := exists_clauses_of_accepted h
  obtain ⟨cs, hl, htrees, hcost, hwords⟩ := Program.exists_clauses_render hwf
  have hclean := diagnostics_parseText_clauses hl hwords file'
  have hfits := (parseText_clauses hl hwords file').1
  rw [hcost] at hclean hfits
  rw [htrees] at hfits
  refine ⟨⟨?_, hfits⟩, hclean⟩
  intro heq
  exact hclean.mp (by rw [heq])

/-- One sign takes two levels in the canonical text, which is not too much. -/
theorem parseText_render_iff_sign :
    parseText (parseText (signedText "a" 1) "shell").program.render "shell" =
      ⟨(parseText (signedText "a" 1) "shell").program, []⟩ := by
  have hparse := parseText_signedText (show IsName "a" by decide) (show 1 < maxNesting by decide)
    "shell"
  refine (parseText_render_iff (by rw [hparse]) "shell").1.mpr ?_
  rw [hparse]
  decide

/-- With 128 signs the text is accepted, and its canonical text is not. -/
theorem parseText_render_signed_128 :
    (parseText (signedText "a" 128) "shell").diagnostics = [] ∧
      ¬ (parseText (parseText (signedText "a" 128) "shell").program.render "shell").diagnostics
        = [] := by
  have hname : IsName "a" := by decide
  have hparse := parseText_signedText hname (show 128 < maxNesting by decide) "shell"
  rw [hparse]
  refine ⟨rfl, ?_⟩
  intro h
  have hlt := (parseText_render_signed hname 128 "shell").mp h
  exact absurd hlt (by decide)

/-! ### The text tells the program -/

/-- Legal statements that are written in the same words are the same.  The limit on the levels of
nesting has no part in this: with as many levels as both ways to write them take, tokens with these
words are read as the statements of both. -/
theorem LegalClauses.trees_unique {cs ds : List Clause} (hcs : LegalClauses cs)
    (hds : LegalClauses ds) (h : clauseWords cs = clauseWords ds) {s d : State}
    (hp : s.Passes (clauseWords cs) d) (hd : d.current.kind = .eof) :
    clauseTrees cs = clauseTrees ds := by
  let n := max (clausesCost cs) (clausesCost ds)
  have hread := Form.leadsTo_program (hcs.spaced (.inr rfl)) hcs.isRead hp hd n
  have hread' := Form.leadsTo_program (hds.spaced (.inr rfl)) hds.isRead (h ▸ hp) hd n
  obtain ⟨t, -, -, hrun⟩ := hread.of_fits (Nat.le_max_left _ _)
  obtain ⟨u, -, -, hrun'⟩ := hread'.of_fits (Nat.le_max_right _ _)
  rw [hrun, run_pure, run_pure] at hrun'
  exact Except.ok.inj (Prod.mk.inj hrun').1

/-- Programs that can be written and have the same canonical text are the same, however deeply they
are nested. -/
theorem Program.eq_of_render_eq {p q : Program} (hp : p.WellFormed) (hq : q.WellFormed)
    (h : p.render = q.render) : p = q := by
  obtain ⟨cs, hcs, rfl, -, hwords⟩ := Program.exists_clauses_render hp
  obtain ⟨ds, hds, rfl, -, hwords'⟩ := Program.exists_clauses_render hq
  obtain ⟨d, hpass, hend⟩ := passes_textWords (Program.render (clauseTrees cs)) ""
  -- the one text spells both lists of statements
  have hspells : clauseWords cs = clauseWords ds := by rw [← hwords, h, hwords']
  exact hcs.trees_unique hds hspells (hwords ▸ hpass) hend

/-- A run of signs that is too long for its canonical text to be accepted. -/
theorem Program.eq_of_render_eq_signed :
    let p : Program := [.expr (signed "a" 300).tree]
    let q : Program := [.expr (.unary "-" (signed "a" 299).tree)]
    p.WellFormed ∧ q.WellFormed ∧ maxNesting < p.need ∧ p.render = q.render ∧ p = q := by
  intro p q
  have hname : IsName "a" := by decide
  obtain ⟨hwf, hpeak⟩ := wellFormed_signed hname 300
  have hp : p.WellFormed := ⟨hwf, trivial⟩
  have hq : q.WellFormed := ⟨⟨by decide, (wellFormed_signed hname 299).1⟩, trivial⟩
  have hneed : p.need = 1 + 2 * 300 := by
    rw [Program.need, stmtsCost, stmtsCost, Stmt.cost, hpeak, Nat.max_zero]
  exact ⟨hp, hq, by rw [hneed]; decide, rfl, Program.eq_of_render_eq hp hq rfl⟩

/-! ### What a text says -/

/-- What the tokens of a text say. -/
def gistOfText (source file : String) : List (Kind × (String ⊕ Nat)) :=
  gist ((tokenize source file).map fun t => ⟨t.kind, t.value⟩)

theorem gistOfText_eq (source file : String) :
    gistOfText source file = gist (textWords source.toList ++ [mark .eof]) :=
  congrArg gist (Scanner.ofSource source file).map_tokens

/-- The canonical text of what was accepted says the same as the text that was, whether or not it
would be accepted itself. -/
theorem gist_tokenize_render {source file : String}
    (h : (parseText source file).diagnostics = []) (file' : String) :
    gistOfText (parseText source file).program.render file' = gistOfText source file := by
  obtain ⟨cs, htrees, hwords, hproper, hwf⟩ := exists_clauses_of_accepted h
  have hrender := textWords_renderStatements hwf endsWord_nil
  rw [List.append_nil, textWords_nil, List.append_nil] at hrender
  rw [gistOfText_eq, gistOfText_eq, gist_append, gist_append, hwords, gist_clauseWords hproper,
    htrees]
  exact congrArg (gist · ++ _) hrender

/-- A zero before a number is the only thing that gets lost in `f(1, 07);`, beside the marks. -/
theorem gist_tokenize_render_call :
    (parseText "f(1, 07);" "shell").diagnostics = [] ∧
      gistOfText (parseText "f(1, 07);" "shell").program.render "shell" =
        [(.ident, .inl "f"), (.int, .inr 1), (.int, .inr 7), (.eof, .inl "")] := by
  have hl : LegalClauses [.expr (.call (.ident "f")
      [.int 1 "1" (by decide), .int 7 "07" (by decide)]) 1] := by
    simp [LegalClauses, Clause.Legal, Spelling.Legal, LegalItems, Spelling.infixPower?,
      Spelling.isUnary]
  have hwords : textWords "f(1, 07);".toList = clauseWords [.expr (.call (.ident "f")
      [.int 1 "1" (by decide), .int 7 "07" (by decide)]) 1] := by
    show textWords ("f".toList ++ '(' :: (['1'] ++ ',' :: ' ' :: (['0', '7'] ++
      [')', ';']))) = _
    rw [textWords_name (by decide) (endsWord_cons.mpr rfl), textWords_plain (by decide),
      textWords_digits (by decide) (List.all_eq_true.mp rfl) (endsWord_cons.mpr rfl),
      textWords_plain (by decide), textWords_space,
      textWords_digits (by decide) (List.all_eq_true.mp rfl) (endsWord_cons.mpr rfl),
      textWords_plain (by decide), textWords_plain (by decide), textWords_nil]
    rfl
  have hparse := (parseText_clauses hl hwords "shell").1 (by decide)
  have hclean : (parseText "f(1, 07);" "shell").diagnostics = [] := by rw [hparse]
  refine ⟨hclean, (gist_tokenize_render hclean "shell").trans ?_⟩
  rw [gistOfText_eq, hwords]
  decide

end ExprLang
