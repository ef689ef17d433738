import ExprLang.Proofs.Canonical

/-!
# What a text says

A spelling is made of more than its tree: of parentheses, commas and semicolons, and of zeros before
a number.  The rest of it, in the order in which it is written, is the *gist* of the spelling.  Two
spellings of the same tree may differ in all those ways, but their gists are the same.

This holds of words as the scanner gives them.  Such words also spell only trees that can be
written.

## Main definitions

* `gist` — words without parentheses, commas and semicolons, and with numbers as such.

## Main results

* `Spelling.wellFormed_tree` — proper words spell trees that can be written.
* `Spelling.gist_words` — the gist of a spelling is that of the canonical text of its tree.
-/

namespace ExprLang

open Text
open Word (mark listed)
open Grammar (standard)

/-! ### Lists -/

theorem Word.forall_mem_listed {P : Word → Prop} {comma : Bool} {entries : List (List Word)}
    (h : ∀ w ∈ listed comma entries, P w) : ∀ ws ∈ entries, ∀ w ∈ ws, P w := by
  induction entries with
  | nil => simp
  | cons ws entries ih =>
    cases entries with
    | nil =>
      rw [listed_singleton] at h
      simpa using (List.forall_mem_append.mp h).1
    | cons vs entries =>
      rw [listed_cons_cons, List.forall_mem_append, List.forall_mem_cons] at h
      exact List.forall_mem_cons.mpr ⟨h.1, ih h.2.2⟩

/-! ### Numbers and operators -/

/-- A run of digits that is read as an integer denotes it. -/
theorem Text.readInteger?_of_digits {s : String} {n : Int}
    (hs : ∀ c ∈ s.toList, c.isDigit = true) (h : readInteger? s = some n) :
    n = digitsValue s.toList := by
  have hsigned : signedValue? s.toList = some n := (Option.filter_eq_some_iff.mp h).1
  by_cases hne : s.toList = []
  · rw [hne] at hsigned
    cases hsigned
  · rw [signedValue?_of_digits hne hs] at hsigned
    exact (Option.some.inj hsigned).symm

theorem Word.Proper.text?_eq {w : Word} (h : w.Proper) (hop : w.kind.isOperator = true) :
    w.kind.text? = some w.text := by
  rcases w with ⟨k, text⟩
  cases k <;> simp_all [Proper, Kind.isOperator]

/-- A proper word that may stand before an operand is that of a prefix operator. -/
theorem PrefixOp.text_mem {op : PrefixOp} (h : op.word.Proper) :
    op.word.text ∈ prefixOperators := by
  have hall : ∀ k ∈ Kind.all, standard.head k = some .unary →
      ∀ text ∈ k.text?, text ∈ prefixOperators := by decide
  exact hall _ (Kind.mem_all _) op.head_eq _ (h.text?_eq (Grammar.head_unary op.head_eq))

theorem InfixOp.text_mem {op : InfixOp} (h : op.word.Proper) : op.word.text ∈ infixOperators := by
  have hall : ∀ k ∈ Kind.all, ((standard.tail k).map (·.2) = some .binary) →
      ∀ text ∈ k.text?, text ∈ infixOperators := by decide
  exact hall _ (Kind.mem_all _) (by rw [op.tail_eq]; rfl) _
    (h.text?_eq (Grammar.tail_binary op.tail_eq).2.2)

/-- A proper operator is told by its text. -/
theorem Word.Proper.operatorWord_eq {w : Word} (h : w.Proper) (hop : w.kind.isOperator = true) :
    operatorWord w.text = w := by
  have hall : ∀ k ∈ Kind.all, k.isOperator = true →
      ∀ text ∈ k.text?, operatorWord text = ⟨k, text⟩ := by decide
  exact hall _ w.kind.mem_all hop _ (h.text?_eq hop)

/-! ### Proper words spell trees that can be written -/

mutual

/-- Proper words spell expressions that can be written. -/
theorem Spelling.wellFormed_tree : ∀ {t : Spelling}, (∀ w ∈ t.words, w.Proper) →
    t.tree.WellFormed
  | .ident _, h => h _ List.mem_cons_self
  | .int value text reads, h => by
    have hdigits := (h _ List.mem_cons_self).2
    have hvalue := readInteger?_of_digits hdigits reads
    exact ⟨by omega, (le_of_readInteger? reads).2⟩
  | .str _, h => h _ List.mem_cons_self
  | .bool _, _ => trivial
  | .group inside, h => by
    simp only [Spelling.words, List.forall_mem_append, List.forall_mem_cons] at h
    exact Spelling.wellFormed_tree (t := inside) h.1.2
  | .unary op operand, h => by
    simp only [Spelling.words, List.forall_mem_cons] at h
    exact ⟨PrefixOp.text_mem h.1, Spelling.wellFormed_tree h.2⟩
  | .binary left op right, h => by
    simp only [Spelling.words, List.forall_mem_append, List.forall_mem_cons] at h
    obtain ⟨hl, hop, hr⟩ := h
    exact ⟨InfixOp.text_mem hop, Spelling.wellFormed_tree hl, Spelling.wellFormed_tree hr⟩
  | .conditional condition consequence alternative, h => by
    simp only [Spelling.words, List.forall_mem_append, List.forall_mem_cons] at h
    obtain ⟨⟨⟨-, -, hc⟩, -, -, hb⟩, -, ho⟩ := h
    exact ⟨Spelling.wellFormed_tree hc, wellFormed_clauses hb, wellFormed_else ho⟩
  | .function parameters body, h => by
    simp only [Spelling.words, List.forall_mem_append, List.forall_mem_cons] at h
    obtain ⟨⟨⟨-, -, hnames⟩, -, -, hb⟩, -⟩ := h
    refine ⟨?_, wellFormed_clauses hb⟩
    intro name hname
    exact Word.forall_mem_listed hnames _ (List.mem_map.mpr ⟨name, hname, rfl⟩) _
      List.mem_cons_self
  | .call callee arguments, h => by
    simp only [Spelling.words, List.forall_mem_append, List.forall_mem_cons] at h
    obtain ⟨⟨hc, -, hes⟩, -⟩ := h
    exact ⟨Spelling.wellFormed_tree hc, wellFormed_items (Word.forall_mem_listed hes)⟩
  | .array elements, h => by
    simp only [Spelling.words, List.forall_mem_append, List.forall_mem_cons] at h
    obtain ⟨⟨-, hes⟩, -⟩ := h
    exact wellFormed_items (Word.forall_mem_listed hes)
  | .index subject place, h => by
    simp only [Spelling.words, List.forall_mem_append, List.forall_mem_cons] at h
    obtain ⟨⟨hs, -, hp⟩, -⟩ := h
    exact ⟨Spelling.wellFormed_tree hs, Spelling.wellFormed_tree hp⟩
  | .hash pairs comma, h => by
    simp only [Spelling.words, List.forall_mem_append, List.forall_mem_cons] at h
    obtain ⟨⟨-, hps⟩, -⟩ := h
    exact wellFormed_pairs (Word.forall_mem_listed hps)

theorem Clause.wellFormed_tree : ∀ {c : Clause}, (∀ w ∈ c.words, w.Proper) → c.tree.WellFormed
  | .binding name value n, h => by
    simp only [Clause.words, List.forall_mem_append, List.forall_mem_cons] at h
    obtain ⟨⟨-, hname, -, hv⟩, -⟩ := h
    exact ⟨hname, Spelling.wellFormed_tree hv⟩
  | .ret none _, _ => trivial
  | .ret (some value) n, h => by
    simp only [Clause.words, List.forall_mem_append, List.forall_mem_cons] at h
    obtain ⟨⟨-, hv⟩, -⟩ := h
    exact Spelling.wellFormed_tree hv
  | .expr value n, h => by
    simp only [Clause.words, List.forall_mem_append] at h
    obtain ⟨hv, -⟩ := h
    exact Spelling.wellFormed_tree hv

theorem wellFormed_clauses : ∀ {cs : List Clause}, (∀ w ∈ clauseWords cs, w.Proper) →
    WellFormedStmts (clauseTrees cs)
  | [], _ => trivial
  | c :: cs, h => by
    rw [clauseWords, List.forall_mem_append] at h
    exact ⟨Clause.wellFormed_tree h.1, wellFormed_clauses h.2⟩

theorem wellFormed_else : ∀ {o : Option (List Clause)}, (∀ w ∈ elseWords o, w.Proper) →
    WellFormedElse (elseTree o)
  | none, _ => trivial
  | some body, h => by
    simp only [elseWords, List.forall_mem_append, List.forall_mem_cons] at h
    obtain ⟨⟨-, -, hb⟩, -⟩ := h
    exact wellFormed_clauses hb

theorem wellFormed_items : ∀ {es : List Spelling}, (∀ ws ∈ itemWords es, ∀ w ∈ ws, w.Proper) →
    WellFormedItems (itemTrees es)
  | [], _ => trivial
  | e :: es, h => by
    rw [itemWords, List.forall_mem_cons] at h
    exact ⟨Spelling.wellFormed_tree h.1, wellFormed_items h.2⟩

theorem wellFormed_pairs : ∀ {ps : List (Spelling × Spelling)},
    (∀ ws ∈ pairWords ps, ∀ w ∈ ws, w.Proper) → WellFormedPairs (pairTrees ps)
  | [], _ => trivial
  | (key, value) :: ps, h => by
    simp only [pairWords, List.forall_mem_append, List.forall_mem_cons] at h
    obtain ⟨⟨hk, -, hv⟩, hps⟩ := h
    exact ⟨Spelling.wellFormed_tree hk, Spelling.wellFormed_tree hv, wellFormed_pairs hps⟩

end

/-! ### The gist -/

/-- The kinds of the tokens that group and separate others, and say nothing themselves. -/
def Kind.isSeparator : Kind → Bool
  | openParen | closeParen | comma | semicolon => true
  | _ => false

/-- What a word says: a number if it is one, and else its text. -/
def Word.content (w : Word) : String ⊕ Nat :=
  if w.kind = .int then .inr (digitsValue w.text.toList) else .inl w.text

/-- The kinds and the contents of the words that say something. -/
def gist (ws : List Word) : List (Kind × (String ⊕ Nat)) :=
  (ws.filter fun w => !w.kind.isSeparator).map fun w => (w.kind, w.content)

@[simp] theorem gist_nil : gist [] = [] := rfl

@[simp] theorem gist_append (ws vs : List Word) : gist (ws ++ vs) = gist ws ++ gist vs := by
  simp [gist]

/-- What a single word contributes. -/
def Word.said (w : Word) : List (Kind × (String ⊕ Nat)) :=
  if w.kind.isSeparator then [] else [(w.kind, w.content)]

@[simp] theorem gist_cons (w : Word) (ws : List Word) : gist (w :: ws) = w.said ++ gist ws := by
  unfold gist Word.said
  cases h : w.kind.isSeparator with
  | true => rw [List.filter_cons_of_neg (by simp [h])]; rfl
  | false => rw [List.filter_cons_of_pos (by simp [h])]; rfl

@[simp] theorem Word.said_openParen : (mark .openParen).said = [] := rfl

@[simp] theorem Word.said_closeParen : (mark .closeParen).said = [] := rfl

@[simp] theorem Word.said_comma : (mark .comma).said = [] := rfl

@[simp] theorem Word.said_semicolon : (mark .semicolon).said = [] := rfl

@[simp] theorem gist_semicolonWords (n : Nat) : gist (semicolonWords n) = [] := by
  simp [gist, semicolonWords, Kind.isSeparator]

/-- The commas of a list say nothing. -/
@[simp] theorem gist_listed (comma : Bool) (entries : List (List Word)) :
    gist (listed comma entries) = entries.flatMap gist := by
  induction entries with
  | nil => rfl
  | cons ws entries ih =>
    cases entries with
    | nil =>
      rw [Word.listed_singleton, gist_append]
      cases comma <;> simp
    | cons vs entries => simp [Word.listed_cons_cons, ih]

/-- Two texts for the same number say the same. -/
theorem Word.said_int {value : Int} {text : String} (ht : ∀ c ∈ text.toList, c.isDigit = true)
    (reads : readInteger? text = some value) :
    Word.said ⟨.int, text⟩ = Word.said ⟨.int, toString value⟩ := by
  have hvalue := readInteger?_of_digits ht reads
  have hnonneg : 0 ≤ value := by omega
  have hdigits : ∀ c ∈ (toString value).toList, c.isDigit = true := by
    rw [toList_toString hnonneg]
    exact isDigit_of_mem_toDigits
  have hcanon := readInteger?_of_digits hdigits
    (readInteger?_toString hnonneg (le_of_readInteger? reads).2)
  have hsame : digitsValue text.toList = digitsValue (toString value).toList := by omega
  show [(Kind.int, Sum.inr (digitsValue text.toList))] = _
  rw [hsame]
  rfl

mutual

/-- The gist of a spelling is that of the canonical text of its tree. -/
theorem Spelling.gist_words : ∀ {t : Spelling}, (∀ w ∈ t.words, w.Proper) →
    gist t.words = gist t.tree.words
  | .ident _, _ => rfl
  | .int _ _ reads, h => by
    have hsaid := Word.said_int (h _ List.mem_cons_self).2 reads
    simp only [Spelling.words, Spelling.tree, Expr.words, gist_cons, hsaid]
  | .str _, _ => rfl
  | .bool _, _ => rfl
  | .group inside, h => by
    simp only [Spelling.words, List.forall_mem_append, List.forall_mem_cons] at h
    have hinside := Spelling.gist_words (t := inside) h.1.2
    simpa [Spelling.words, Spelling.tree] using hinside
  | .unary op operand, h => by
    simp only [Spelling.words, List.forall_mem_cons] at h
    have hop := h.1.operatorWord_eq (Grammar.head_unary op.head_eq)
    simp [Spelling.words, Spelling.tree, Expr.words, hop, Spelling.gist_words h.2]
  | .binary left op right, h => by
    simp only [Spelling.words, List.forall_mem_append, List.forall_mem_cons] at h
    obtain ⟨hl, hop, hr⟩ := h
    have hword := hop.operatorWord_eq (Grammar.tail_binary op.tail_eq).2.2
    simp [Spelling.words, Spelling.tree, Expr.words, hword, Spelling.gist_words hl,
      Spelling.gist_words hr]
  | .conditional condition consequence alternative, h => by
    simp only [Spelling.words, List.forall_mem_append, List.forall_mem_cons] at h
    obtain ⟨⟨⟨-, -, hc⟩, -, -, hb⟩, -, ho⟩ := h
    simp [Spelling.words, Spelling.tree, Expr.words, Spelling.gist_words hc,
      gist_clauseWords hb, gist_elseWords ho]
  | .function parameters body, h => by
    simp only [Spelling.words, List.forall_mem_append, List.forall_mem_cons] at h
    obtain ⟨⟨⟨-, -, -⟩, -, -, hb⟩, -⟩ := h
    simp [Spelling.words, Spelling.tree, Expr.words, gist_clauseWords hb]
  | .call callee arguments, h => by
    simp only [Spelling.words, List.forall_mem_append, List.forall_mem_cons] at h
    obtain ⟨⟨hc, -, hes⟩, -⟩ := h
    simp [Spelling.words, Spelling.tree, Expr.words, Spelling.gist_words hc,
      gist_itemWords (Word.forall_mem_listed hes)]
  | .array elements, h => by
    simp only [Spelling.words, List.forall_mem_append, List.forall_mem_cons] at h
    obtain ⟨⟨-, hes⟩, -⟩ := h
    simp [Spelling.words, Spelling.tree, Expr.words, gist_itemWords (Word.forall_mem_listed hes)]
  | .index subject place, h => by
    simp only [Spelling.words, List.forall_mem_append, List.forall_mem_cons] at h
    obtain ⟨⟨hs, -, hp⟩, -⟩ := h
    simp [Spelling.words, Spelling.tree, Expr.words, Spelling.gist_words hs,
      Spelling.gist_words hp]
  | .hash pairs comma, h => by
    simp only [Spelling.words, List.forall_mem_append, List.forall_mem_cons] at h
    obtain ⟨⟨-, hps⟩, -⟩ := h
    simp [Spelling.words, Spelling.tree, Expr.words, gist_pairWords (Word.forall_mem_listed hps)]

theorem Clause.gist_words : ∀ {c : Clause}, (∀ w ∈ c.words, w.Proper) → ∀ last,
    gist c.words = gist (c.tree.words last)
  | .binding name value n, h, last => by
    simp only [Clause.words, List.forall_mem_append, List.forall_mem_cons] at h
    obtain ⟨⟨-, -, -, hv⟩, -⟩ := h
    simp [Clause.words, Clause.tree, Stmt.words, Spelling.gist_words hv]
  | .ret none n, _, last => by simp [Clause.words, Clause.tree, Stmt.words]
  | .ret (some value) n, h, last => by
    simp only [Clause.words, List.forall_mem_append, List.forall_mem_cons] at h
    obtain ⟨⟨-, hv⟩, -⟩ := h
    simp [Clause.words, Clause.tree, Stmt.words, Spelling.gist_words hv]
  | .expr value n, h, last => by
    simp only [Clause.words, List.forall_mem_append] at h
    obtain ⟨hv, -⟩ := h
    cases last <;> simp [Clause.words, Clause.tree, Stmt.words, Spelling.gist_words hv]

theorem gist_clauseWords : ∀ {cs : List Clause}, (∀ w ∈ clauseWords cs, w.Proper) →
    gist (clauseWords cs) = gist (stmtWords (clauseTrees cs))
  | [], _ => rfl
  | c :: cs, h => by
    rw [clauseWords, List.forall_mem_append] at h
    rw [clauseWords, clauseTrees, stmtWords, gist_append, gist_append, Clause.gist_words h.1,
      gist_clauseWords h.2]

theorem gist_elseWords : ∀ {o : Option (List Clause)}, (∀ w ∈ elseWords o, w.Proper) →
    gist (elseWords o) = gist (otherWords (elseTree o))
  | none, _ => rfl
  | some body, h => by
    simp only [elseWords, List.forall_mem_append, List.forall_mem_cons] at h
    obtain ⟨⟨-, -, hb⟩, -⟩ := h
    simp [elseWords, elseTree, otherWords, gist_clauseWords hb]

theorem gist_itemWords : ∀ {es : List Spelling}, (∀ ws ∈ itemWords es, ∀ w ∈ ws, w.Proper) →
    (itemWords es).flatMap gist = (exprWords (itemTrees es)).flatMap gist
  | [], _ => rfl
  | e :: es, h => by
    rw [itemWords, List.forall_mem_cons] at h
    simp [itemWords, itemTrees, exprWords, Spelling.gist_words h.1, gist_itemWords h.2]

theorem gist_pairWords : ∀ {ps : List (Spelling × Spelling)},
    (∀ ws ∈ pairWords ps, ∀ w ∈ ws, w.Proper) →
    (pairWords ps).flatMap gist = (entryWords (pairTrees ps)).flatMap gist
  | [], _ => rfl
  | (key, value) :: ps, h => by
    simp only [pairWords, List.forall_mem_append, List.forall_mem_cons] at h
    obtain ⟨⟨hk, -, hv⟩, hps⟩ := h
    simp [pairWords, pairTrees, entryWords, Spelling.gist_words hk, Spelling.gist_words hv,
      gist_pairWords hps]

end

end ExprLang
