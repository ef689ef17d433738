import ExprLang.Proofs.Scanning
import ExprLang.Proofs.Spelling

/-!
# Canonical spellings

The canonical text of a tree has parentheses around every operation and around every index, and
semicolons only where a statement would otherwise run into the next one.  Here are the words that
this text has, and the levels of nesting that it takes to read them, told by recursion on the tree.
That a tree can be written at all takes that its names are names, its numbers are no larger than a
number may be, and so on.

## Main definitions

* `Expr.WellFormed`, `Stmt.WellFormed` — the trees that can be written.
* `Expr.words`, `stmtWords` — the words of the canonical text.
* `Expr.peak`, `Expr.folds`, `Program.need` — the levels of nesting that reading it takes.
* `Expr.IsCanonical`, `Stmt.IsCanonical` — spellings with just these words and levels.

## Main results

* `exists_isCanonical`, `exists_isCanonical_stmts` — what can be written has a canonical spelling.
-/

namespace ExprLang

open Text
open Word (mark listed)
open Grammar (standard)

/-! ### Trees that can be written -/

/-- The operators that stand before their operand. -/
def prefixOperators : List String := ["!", "-"]

/-- The operators that stand between their operands. -/
def infixOperators : List String := ["+", "-", "*", "/", "<", ">", "==", "!="]

mutual

/-- The expression can be written. -/
def Expr.WellFormed : Expr → Prop
  | .ident name => IsName name
  | .int value => 0 ≤ value ∧ value ≤ maxInteger
  | .str text => '"' ∉ text.toList
  | .bool _ => True
  | .unary op operand => op ∈ prefixOperators ∧ operand.WellFormed
  | .binary left op right => op ∈ infixOperators ∧ left.WellFormed ∧ right.WellFormed
  | .conditional condition consequence alternative =>
    condition.WellFormed ∧ WellFormedStmts consequence ∧ WellFormedElse alternative
  | .function parameters body => (∀ name ∈ parameters, IsName name) ∧ WellFormedStmts body
  | .call callee arguments => callee.WellFormed ∧ WellFormedItems arguments
  | .array elements => WellFormedItems elements
  | .index subject place => subject.WellFormed ∧ place.WellFormed
  | .hash pairs => WellFormedPairs pairs

/-- The statement can be written.  No statement is a block of its own. -/
def Stmt.WellFormed : Stmt → Prop
  | .binding name value => IsName name ∧ value.WellFormed
  | .ret none => True
  | .ret (some value) => value.WellFormed
  | .expr value => value.WellFormed
  | .block _ => False

/-- Every statement of a list can be written. -/
def WellFormedStmts : List Stmt → Prop
  | [] => True
  | s :: ss => s.WellFormed ∧ WellFormedStmts ss

/-- The second block of a conditional can be written. -/
def WellFormedElse : Option (List Stmt) → Prop
  | none => True
  | some body => WellFormedStmts body

/-- Every expression of a list can be written. -/
def WellFormedItems : List Expr → Prop
  | [] => True
  | e :: es => e.WellFormed ∧ WellFormedItems es

/-- Every key and every value of a list can be written. -/
def WellFormedPairs : List (Expr × Expr) → Prop
  | [] => True
  | (key, value) :: ps => key.WellFormed ∧ value.WellFormed ∧ WellFormedPairs ps

end

/-- Every statement of the program can be written. -/
def Program.WellFormed (p : Program) : Prop := WellFormedStmts p

/-! ### The words of the canonical text -/

/-- The word of an operator. -/
def operatorWord (op : String) : Word :=
  ⟨(Kind.all.find? fun k => k.isOperator && k.symbol == op).getD .illegal, op⟩

mutual

/-- The words of the canonical text of an expression. -/
def Expr.words : Expr → List Word
  | .ident name => [⟨.ident, name⟩]
  | .int value => [⟨.int, toString value⟩]
  | .str text => [⟨.string, text⟩]
  | .bool value => [mark (if value then .trueWord else .falseWord)]
  | .unary op operand => mark .openParen :: operatorWord op :: operand.words ++ [mark .closeParen]
  | .binary left op right =>
    mark .openParen :: left.words ++ operatorWord op :: right.words ++ [mark .closeParen]
  | .conditional condition consequence alternative =>
    mark .ifWord :: mark .openParen :: condition.words ++ mark .closeParen :: mark .openCurly ::
      stmtWords consequence ++ mark .closeCurly :: otherWords alternative
  | .function parameters body =>
    mark .fnWord :: mark .openParen :: listed false (nameWords parameters) ++
      mark .closeParen :: mark .openCurly :: stmtWords body ++ [mark .closeCurly]
  | .call callee arguments =>
    callee.words ++ mark .openParen :: listed false (exprWords arguments) ++ [mark .closeParen]
  | .array elements =>
    mark .openBracket :: listed false (exprWords elements) ++ [mark .closeBracket]
  | .index subject place =>
    mark .openParen :: subject.words ++ mark .openBracket :: place.words ++
      [mark .closeBracket, mark .closeParen]
  | .hash pairs => mark .openCurly :: listed false (entryWords pairs) ++ [mark .closeCurly]

/-- The words of the canonical text of a statement.  The flag tells whether it is the last one of
its list. -/
def Stmt.words : Stmt → Bool → List Word
  | .binding name value, _ =>
    mark .letWord :: ⟨.ident, name⟩ :: mark .assign :: value.words ++ [mark .semicolon]
  | .ret none, _ => [mark .returnWord, mark .semicolon]
  | .ret (some value), _ => mark .returnWord :: value.words ++ [mark .semicolon]
  | .expr value, last => value.words ++ if last then [] else [mark .semicolon]
  | .block body, _ => mark .openCurly :: stmtWords body ++ [mark .closeCurly]

/-- The words of statements one after another. -/
def stmtWords : List Stmt → List Word
  | [] => []
  | s :: ss => s.words ss.isEmpty ++ stmtWords ss

/-- The words of the second block of a conditional. -/
def otherWords : Option (List Stmt) → List Word
  | none => []
  | some body => mark .elseWord :: mark .openCurly :: stmtWords body ++ [mark .closeCurly]

/-- The words of every expression of a list. -/
def exprWords : List Expr → List (List Word)
  | [] => []
  | e :: es => e.words :: exprWords es

/-- The words of every key and value of a list. -/
def entryWords : List (Expr × Expr) → List (List Word)
  | [] => []
  | (key, value) :: ps => (key.words ++ mark .colon :: value.words) :: entryWords ps

end

/-! ### Levels of nesting -/

/-- The levels that are still open inside its own one after the canonical text of an expression. -/
def Expr.folds : Expr → Nat
  | .call callee _ => callee.folds + 1
  | _ => 0

mutual

/-- The most levels that are open inside its own one within the canonical text of an expression. -/
def Expr.peak : Expr → Nat
  | .ident _ | .int _ | .str _ | .bool _ => 0
  | .unary _ operand => 2 + operand.peak
  | .binary left _ right => 1 + max left.peak (2 + left.folds + right.peak)
  | .conditional condition consequence alternative =>
    max (1 + condition.peak) (max (1 + stmtsCost consequence) (otherCost alternative))
  | .function _ body => 1 + stmtsCost body
  | .call callee arguments => max callee.peak (callee.folds + 1 + exprsCost arguments)
  | .array elements => exprsCost elements
  | .index subject place => 1 + max subject.peak (2 + subject.folds + place.peak)
  | .hash pairs => entriesCost pairs

/-- The levels that a statement takes. -/
def Stmt.cost : Stmt → Nat
  | .binding _ value => 1 + value.peak
  | .ret none => 0
  | .ret (some value) => 1 + value.peak
  | .expr value => 1 + value.peak
  | .block body => 1 + stmtsCost body

/-- The most levels that one of some statements takes. -/
def stmtsCost : List Stmt → Nat
  | [] => 0
  | s :: ss => max s.cost (stmtsCost ss)

/-- The levels that the second block of a conditional takes. -/
def otherCost : Option (List Stmt) → Nat
  | none => 0
  | some body => 1 + stmtsCost body

/-- The most levels that one of some expressions takes. -/
def exprsCost : List Expr → Nat
  | [] => 0
  | e :: es => max (1 + e.peak) (exprsCost es)

/-- The most levels that one of some keys and values takes. -/
def entriesCost : List (Expr × Expr) → Nat
  | [] => 0
  | (key, value) :: ps => max (max (1 + key.peak) (1 + value.peak)) (entriesCost ps)

end

/-- The levels of nesting that reading the canonical text of a program takes. -/
def Program.need (p : Program) : Nat := stmtsCost p

/-! ### Canonical spellings -/

/-- The spelling has the words of the canonical text of the expression, and takes the levels that
this text takes. -/
structure Expr.IsCanonical (e : Expr) (t : Spelling) : Prop where
  tree_eq : t.tree = e
  words_eq : t.words = e.words
  legal : t.Legal
  peak_eq : t.peak = e.peak
  folds_eq : t.folds = e.folds
  infixPower?_eq : t.infixPower? = none
  isUnary_eq : t.isUnary = false

/-- The same for a statement, which may be the last one of its list. -/
structure Stmt.IsCanonical (s : Stmt) (last : Bool) (c : Clause) : Prop where
  tree_eq : c.tree = s
  words_eq : c.words = s.words last
  legal : c.Legal last
  cost_eq : c.cost = s.cost

/-- The same for a list of statements. -/
structure AreCanonical (ss : List Stmt) (cs : List Clause) : Prop where
  trees_eq : clauseTrees cs = ss
  words_eq : clauseWords cs = stmtWords ss
  legal : LegalClauses cs
  cost_eq : clausesCost cs = stmtsCost ss

/-! ### Numbers and operators -/

theorem Text.isDigit_of_mem_toDigits {n : Nat} :
    ∀ c ∈ Nat.toDigits 10 n, c.isDigit = true := by
  intro c hc
  exact Nat.isDigit_of_mem_toDigits (by decide) (by decide) hc

/-- A number that is not negative is written in digits. -/
theorem Text.toList_toString {n : Int} (h : 0 ≤ n) :
    (toString n).toList = Nat.toDigits 10 n.toNat := by
  obtain ⟨m, rfl⟩ := Int.eq_ofNat_of_zero_le h
  exact Nat.toList_repr

/-- What is written for a number is read as this number, if it is not too large. -/
theorem Text.readInteger?_toString {n : Int} (h : 0 ≤ n) (h' : n ≤ maxInteger) :
    readInteger? (toString n) = some n := by
  have hdigits : ∀ c ∈ Nat.toDigits 10 n.toNat, c.isDigit = true := isDigit_of_mem_toDigits
  have hvalue : digitsValue (Nat.toDigits 10 n.toNat) = n.toNat := Nat.ofDigitChars_ten_toDigits
  have hsigned : signedValue? (Nat.toDigits 10 n.toNat) = some n := by
    rw [signedValue?_of_digits Nat.toDigits_ne_nil hdigits, hvalue, Int.toNat_of_nonneg h]
  rw [readInteger?, toList_toString h, hsigned]
  exact Option.filter_eq_some_iff.mpr ⟨rfl, by
    simpa [h'] using Int.le_trans (by decide : minInteger ≤ 0) h⟩

theorem exists_prefixOp {op : String} (h : op ∈ prefixOperators) :
    ∃ o : PrefixOp, o.word = operatorWord op := by
  have hall : ∀ op ∈ prefixOperators,
      standard.head (operatorWord op).kind = some .unary := by decide
  exact ⟨⟨operatorWord op, hall op h⟩, rfl⟩

theorem exists_infixOp {op : String} (h : op ∈ infixOperators) :
    ∃ o : InfixOp, o.word = operatorWord op := by
  have hall : ∀ op ∈ infixOperators, ∃ q ∈ [Power.equals, .lessGreater, .sum, .product],
      standard.tail (operatorWord op).kind = some (q, .binary) := by decide
  obtain ⟨q, -, hq⟩ := hall op h
  exact ⟨⟨operatorWord op, q, hq⟩, rfl⟩

/-! ### Every form has one -/

namespace Expr.IsCanonical

variable {e f : Expr} {t u : Spelling}

theorem unary (h : e.IsCanonical t) {op : String} {o : PrefixOp} (ho : o.word = operatorWord op) :
    (Expr.unary op e).IsCanonical (.group (.unary o t)) where
  tree_eq := by
    rw [Spelling.tree, Spelling.tree, ho, h.tree_eq]
    rfl
  words_eq := by rw [Spelling.words, Spelling.words, ho, h.words_eq, Expr.words]
  legal := ⟨h.infixPower?_eq, h.legal⟩
  peak_eq := by
    rw [Spelling.peak, Spelling.peak, h.peak_eq, Expr.peak]
    omega
  folds_eq := rfl
  infixPower?_eq := rfl
  isUnary_eq := rfl

theorem binary (h : e.IsCanonical t) (h' : f.IsCanonical u) {op : String} {o : InfixOp}
    (ho : o.word = operatorWord op) :
    (Expr.binary e op f).IsCanonical (.group (.binary t o u)) where
  tree_eq := by
    rw [Spelling.tree, Spelling.tree, ho, h.tree_eq, h'.tree_eq]
    rfl
  words_eq := by
    rw [Spelling.words, Spelling.words, ho, h.words_eq, h'.words_eq, Expr.words]
    rfl
  legal := ⟨by simp [h.infixPower?_eq], by simp [h'.infixPower?_eq], h.legal, h'.legal⟩
  peak_eq := by
    rw [Spelling.peak, Spelling.peak, h.peak_eq, h.folds_eq, h'.peak_eq, Expr.peak]
    omega
  folds_eq := rfl
  infixPower?_eq := rfl
  isUnary_eq := rfl

theorem index (h : e.IsCanonical t) (h' : f.IsCanonical u) :
    (Expr.index e f).IsCanonical (.group (.index t u)) where
  tree_eq := by rw [Spelling.tree, Spelling.tree, h.tree_eq, h'.tree_eq]
  words_eq := by
    simp only [Spelling.words, h.words_eq, h'.words_eq, Expr.words, List.cons_append,
      List.append_assoc, List.nil_append]
  legal := ⟨h.infixPower?_eq, h.isUnary_eq, h.legal, h'.legal⟩
  peak_eq := by
    rw [Spelling.peak, Spelling.peak, h.peak_eq, h.folds_eq, h'.peak_eq, Expr.peak]
    omega
  folds_eq := rfl
  infixPower?_eq := rfl
  isUnary_eq := rfl

end Expr.IsCanonical

mutual

/-- What can be written has a canonical spelling. -/
theorem exists_isCanonical : ∀ {e : Expr}, e.WellFormed → ∃ t, e.IsCanonical t
  | .ident name, _ => ⟨.ident name, rfl, rfl, trivial, rfl, rfl, rfl, rfl⟩
  | .int value, ⟨h, h'⟩ =>
    ⟨.int value _ (readInteger?_toString h h'), rfl, rfl, trivial, rfl, rfl, rfl, rfl⟩
  | .str text, _ => ⟨.str text, rfl, rfl, trivial, rfl, rfl, rfl, rfl⟩
  | .bool value, _ => ⟨.bool value, rfl, rfl, trivial, rfl, rfl, rfl, rfl⟩
  | .unary op operand, ⟨hop, h⟩ => by
    obtain ⟨t, ht⟩ := exists_isCanonical h
    obtain ⟨o, ho⟩ := exists_prefixOp hop
    exact ⟨_, ht.unary ho⟩
  | .binary left op right, ⟨hop, hl, hr⟩ => by
    obtain ⟨t, ht⟩ := exists_isCanonical hl
    obtain ⟨u, hu⟩ := exists_isCanonical hr
    obtain ⟨o, ho⟩ := exists_infixOp hop
    exact ⟨_, ht.binary hu ho⟩
  | .conditional .., ⟨h, hb, ho⟩ => by
    obtain ⟨t, ht⟩ := exists_isCanonical h
    obtain ⟨cs, hcs⟩ := exists_areCanonical hb
    obtain ⟨o, hot, how, hol, hoc⟩ := exists_canonical_else ho
    refine ⟨.conditional t cs o, ?_, ?_, ⟨ht.legal, hcs.legal, hol⟩, ?_, rfl, rfl, rfl⟩
    · rw [Spelling.tree, ht.tree_eq, hcs.trees_eq, hot]
    · rw [Spelling.words, ht.words_eq, hcs.words_eq, how, Expr.words]
    · rw [Spelling.peak, ht.peak_eq, hcs.cost_eq, hoc, Expr.peak]
  | .function names _, ⟨_, hb⟩ => by
    obtain ⟨cs, hcs⟩ := exists_areCanonical hb
    refine ⟨.function names cs, ?_, ?_, hcs.legal, ?_, rfl, rfl, rfl⟩
    · rw [Spelling.tree, hcs.trees_eq]
    · rw [Spelling.words, hcs.words_eq, Expr.words]
    · rw [Spelling.peak, hcs.cost_eq, Expr.peak]
  | .call .., ⟨h, hes⟩ => by
    obtain ⟨t, ht⟩ := exists_isCanonical h
    obtain ⟨ts, htree, hwords, hl, hcost⟩ := exists_canonical_items hes
    refine ⟨.call t ts, ?_, ?_, ⟨ht.infixPower?_eq, ht.isUnary_eq, ht.legal, hl⟩, ?_, ?_, rfl, rfl⟩
    · rw [Spelling.tree, ht.tree_eq, htree]
    · rw [Spelling.words, ht.words_eq, hwords, Expr.words]
    · rw [Spelling.peak, ht.peak_eq, ht.folds_eq, hcost, Expr.peak]
    · rw [Spelling.folds, ht.folds_eq, Expr.folds]
  | .array _, h => by
    obtain ⟨ts, htree, hwords, hl, hcost⟩ := exists_canonical_items h
    refine ⟨.array ts, ?_, ?_, hl, ?_, rfl, rfl, rfl⟩
    · rw [Spelling.tree, htree]
    · rw [Spelling.words, hwords, Expr.words]
    · rw [Spelling.peak, hcost, Expr.peak]
  | .index .., ⟨h, h'⟩ => by
    obtain ⟨t, ht⟩ := exists_isCanonical h
    obtain ⟨u, hu⟩ := exists_isCanonical h'
    exact ⟨_, ht.index hu⟩
  | .hash _, h => by
    obtain ⟨qs, htree, hwords, hl, hcost⟩ := exists_canonical_pairs h
    refine ⟨.hash qs false, ?_, ?_, hl, ?_, rfl, rfl, rfl⟩
    · rw [Spelling.tree, htree]
    · rw [Spelling.words, hwords, Expr.words]
    · rw [Spelling.peak, hcost, Expr.peak]

theorem exists_isCanonical_stmt : ∀ {s : Stmt}, s.WellFormed → ∀ last, ∃ c, s.IsCanonical last c
  | .binding name _, ⟨_, h⟩, _ => by
    obtain ⟨t, ht⟩ := exists_isCanonical h
    refine ⟨.binding name t 1, ?_, ?_, ⟨by decide, ht.legal⟩, ?_⟩
    · rw [Clause.tree, ht.tree_eq]
    · rw [Clause.words, ht.words_eq, Stmt.words]
      rfl
    · rw [Clause.cost, ht.peak_eq, Stmt.cost]
  | .ret none, _, _ => ⟨.ret none 1, rfl, rfl, .inl rfl, rfl⟩
  | .ret (some _), h, _ => by
    obtain ⟨t, ht⟩ := exists_isCanonical (show Expr.WellFormed _ from h)
    refine ⟨.ret (some t) 1, ?_, ?_, ⟨by decide, ht.legal⟩, ?_⟩
    · rw [Clause.tree, ht.tree_eq]
    · rw [Clause.words, ht.words_eq, Stmt.words]
      rfl
    · rw [Clause.cost, ht.peak_eq, Stmt.cost]
  | .expr _, h, last => by
    obtain ⟨t, ht⟩ := exists_isCanonical (show Expr.WellFormed _ from h)
    refine ⟨.expr t (if last then 0 else 1), ?_, ?_, ⟨?_, ht.legal⟩, ?_⟩
    · rw [Clause.tree, ht.tree_eq]
    · rw [Clause.words, ht.words_eq, Stmt.words]
      cases last <;> rfl
    · cases last <;> simp
    · rw [Clause.cost, ht.peak_eq, Stmt.cost]

theorem exists_areCanonical : ∀ {ss : List Stmt}, WellFormedStmts ss → ∃ cs, AreCanonical ss cs
  | [], _ => ⟨[], rfl, rfl, trivial, rfl⟩
  | s :: ss, ⟨h, hss⟩ => by
    obtain ⟨cs, hcs⟩ := exists_areCanonical hss
    obtain ⟨c, hc⟩ := exists_isCanonical_stmt h ss.isEmpty
    have hempty : cs.isEmpty = ss.isEmpty := by
      rw [← hcs.trees_eq, clauseTrees_eq_map, List.isEmpty_map]
    refine ⟨c :: cs, ?_, ?_, ⟨hempty ▸ hc.legal, hcs.legal⟩, ?_⟩
    · rw [clauseTrees, hc.tree_eq, hcs.trees_eq]
    · rw [clauseWords, hc.words_eq, hcs.words_eq, stmtWords]
    · rw [clausesCost, hc.cost_eq, hcs.cost_eq, stmtsCost]

theorem exists_canonical_else : ∀ {other : Option (List Stmt)}, WellFormedElse other →
    ∃ o, elseTree o = other ∧ elseWords o = otherWords other ∧ LegalElse o ∧
      elseCost o = otherCost other
  | none, _ => ⟨none, rfl, rfl, trivial, rfl⟩
  | some _, h => by
    obtain ⟨cs, hcs⟩ := exists_areCanonical (show WellFormedStmts _ from h)
    refine ⟨some cs, ?_, ?_, hcs.legal, ?_⟩
    · rw [elseTree, hcs.trees_eq]
    · rw [elseWords, hcs.words_eq, otherWords]
    · rw [elseCost, hcs.cost_eq, otherCost]

theorem exists_canonical_items : ∀ {es : List Expr}, WellFormedItems es →
    ∃ ts, itemTrees ts = es ∧ itemWords ts = exprWords es ∧ LegalItems ts ∧
      itemsCost ts = exprsCost es
  | [], _ => ⟨[], rfl, rfl, trivial, rfl⟩
  | _ :: _, ⟨h, hes⟩ => by
    obtain ⟨t, ht⟩ := exists_isCanonical h
    obtain ⟨ts, htree, hwords, hl, hcost⟩ := exists_canonical_items hes
    refine ⟨t :: ts, ?_, ?_, ⟨ht.legal, hl⟩, ?_⟩
    · rw [itemTrees, ht.tree_eq, htree]
    · rw [itemWords, ht.words_eq, hwords, exprWords]
    · rw [itemsCost, ht.peak_eq, hcost, exprsCost]

theorem exists_canonical_pairs : ∀ {ps : List (Expr × Expr)}, WellFormedPairs ps →
    ∃ qs, pairTrees qs = ps ∧ pairWords qs = entryWords ps ∧ LegalPairs qs ∧
      pairsCost qs = entriesCost ps
  | [], _ => ⟨[], rfl, rfl, trivial, rfl⟩
  | _ :: _, ⟨h, h', hps⟩ => by
    obtain ⟨t, ht⟩ := exists_isCanonical h
    obtain ⟨u, hu⟩ := exists_isCanonical h'
    obtain ⟨qs, htree, hwords, hl, hcost⟩ := exists_canonical_pairs hps
    refine ⟨(t, u) :: qs, ?_, ?_, ⟨ht.legal, hu.legal, hl⟩, ?_⟩
    · rw [pairTrees, ht.tree_eq, hu.tree_eq, htree]
    · rw [pairWords, ht.words_eq, hu.words_eq, hwords, entryWords]
    · rw [pairsCost, ht.peak_eq, hu.peak_eq, hcost, entriesCost]

end

end ExprLang
