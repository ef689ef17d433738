import ExprLang.Grammar.Basic
import ExprLang.Proofs.Word
import ExprLang.Text.Integer
import ExprLang.Tree.Basic

/-!
# Spellings

The same tree can be written in many ways: with more or fewer parentheses, with leading zeros, with
or without a comma at the end of a list of pairs, with more or fewer semicolons.  A *spelling* is a
tree that keeps what the syntax tree forgets.  It tells both the words that are written and the
tree that they stand for.

Not every spelling is read back as its own tree.  In a *legal* one the parentheses stand where the
binding powers call for them, and the statements of a list are kept apart by semicolons.

## Main definitions

* `Spelling`, `Clause` — how an expression and a statement are written.
* `Spelling.words`, `Spelling.tree` — the words of a spelling, and its tree.
* `Spelling.Legal`, `Clause.Legal` — the parentheses and semicolons that have to be there.
* `Spelling.peak`, `Spelling.folds`, `Clause.cost` — the levels of nesting that reading takes.
-/

namespace ExprLang

open Word (mark listed)

/-! ### Operators -/

/-- Operators between two operands bind something, and weaker than one before its operand. -/
theorem Grammar.tail_binary {k : Kind} {q : Power}
    (h : Grammar.standard.tail k = some (q, .binary)) :
    .lowest < q ∧ q < .unary ∧ k.isOperator = true := by
  cases k <;> simp_all [standard] <;> subst h <;> decide

theorem Grammar.head_unary {k : Kind} (h : Grammar.standard.head k = some .unary) :
    k.isOperator = true := by
  cases k <;> simp_all [standard, Kind.isOperator]

/-- An operator that may stand before its operand. -/
structure PrefixOp where
  word : Word
  head_eq : Grammar.standard.head word.kind = some .unary

/-- An operator that may stand between two operands, and how tightly it binds. -/
structure InfixOp where
  word : Word
  power : Power
  tail_eq : Grammar.standard.tail word.kind = some (power, .binary)

/-! ### Spellings -/

mutual

/-- How an expression is written. -/
inductive Spelling where
  | ident (name : String)
  | int (value : Int) (text : String) (reads : Text.readInteger? text = some value)
  | str (text : String)
  | bool (value : Bool)
  /-- Parentheses that leave no trace in the tree. -/
  | group (inside : Spelling)
  | unary (op : PrefixOp) (operand : Spelling)
  | binary (left : Spelling) (op : InfixOp) (right : Spelling)
  | conditional (condition : Spelling) (consequence : List Clause)
      (alternative : Option (List Clause))
  | function (parameters : List String) (body : List Clause)
  | call (callee : Spelling) (arguments : List Spelling)
  | array (elements : List Spelling)
  | index (subject : Spelling) (place : Spelling)
  /-- The flag asks for a comma after the last pair, if there is one. -/
  | hash (pairs : List (Spelling × Spelling)) (comma : Bool)

/-- How a statement is written, with the number of semicolons after it. -/
inductive Clause where
  | binding (name : String) (value : Spelling) (semicolons : Nat)
  | ret (value : Option Spelling) (semicolons : Nat)
  | expr (value : Spelling) (semicolons : Nat)

end

/-! ### The words of a spelling -/

/-- Semicolons one after another. -/
def semicolonWords (n : Nat) : List Word := List.replicate n (mark .semicolon)

/-- Names, as the entries of a list. -/
def nameWords (names : List String) : List (List Word) := names.map fun name => [⟨.ident, name⟩]

mutual

/-- The words that an expression is written in. -/
def Spelling.words : Spelling → List Word
  | .ident name => [⟨.ident, name⟩]
  | .int _ text _ => [⟨.int, text⟩]
  | .str text => [⟨.string, text⟩]
  | .bool value => [mark (if value then .trueWord else .falseWord)]
  | .group inside => mark .openParen :: inside.words ++ [mark .closeParen]
  | .unary op operand => op.word :: operand.words
  | .binary left op right => left.words ++ op.word :: right.words
  | .conditional condition consequence alternative =>
    mark .ifWord :: mark .openParen :: condition.words ++ mark .closeParen :: mark .openCurly ::
      clauseWords consequence ++ mark .closeCurly :: elseWords alternative
  | .function parameters body =>
    mark .fnWord :: mark .openParen :: listed false (nameWords parameters) ++
      mark .closeParen :: mark .openCurly :: clauseWords body ++ [mark .closeCurly]
  | .call callee arguments =>
    callee.words ++ mark .openParen :: listed false (itemWords arguments) ++ [mark .closeParen]
  | .array elements =>
    mark .openBracket :: listed false (itemWords elements) ++ [mark .closeBracket]
  | .index subject place =>
    subject.words ++ mark .openBracket :: place.words ++ [mark .closeBracket]
  | .hash pairs comma => mark .openCurly :: listed comma (pairWords pairs) ++ [mark .closeCurly]

/-- The words that a statement is written in. -/
def Clause.words : Clause → List Word
  | .binding name value n =>
    mark .letWord :: ⟨.ident, name⟩ :: mark .assign :: value.words ++ semicolonWords n
  | .ret none n => mark .returnWord :: semicolonWords n
  | .ret (some value) n => mark .returnWord :: value.words ++ semicolonWords n
  | .expr value n => value.words ++ semicolonWords n

/-- The words of statements one after another. -/
def clauseWords : List Clause → List Word
  | [] => []
  | c :: cs => c.words ++ clauseWords cs

/-- The words of the second block of a conditional. -/
def elseWords : Option (List Clause) → List Word
  | none => []
  | some body => mark .elseWord :: mark .openCurly :: clauseWords body ++ [mark .closeCurly]

/-- The words of every expression of a list. -/
def itemWords : List Spelling → List (List Word)
  | [] => []
  | e :: es => e.words :: itemWords es

/-- The words of every pair of a list. -/
def pairWords : List (Spelling × Spelling) → List (List Word)
  | [] => []
  | (key, value) :: ps => (key.words ++ mark .colon :: value.words) :: pairWords ps

end

/-- The words of a key and its value. -/
def pairWord (q : Spelling × Spelling) : List Word := q.1.words ++ mark .colon :: q.2.words

theorem itemWords_eq_map (es : List Spelling) : itemWords es = es.map Spelling.words := by
  induction es with
  | nil => rfl
  | cons e es ih => rw [itemWords, ih, List.map_cons]

theorem pairWords_eq_map (ps : List (Spelling × Spelling)) : pairWords ps = ps.map pairWord := by
  induction ps with
  | nil => rfl
  | cons q ps ih => rw [pairWords, ih, List.map_cons, pairWord]

/-! ### The tree of a spelling -/

mutual

/-- The expression that is written. -/
def Spelling.tree : Spelling → Expr
  | .ident name => .ident name
  | .int value _ _ => .int value
  | .str text => .str text
  | .bool value => .bool value
  | .group inside => inside.tree
  | .unary op operand => .unary op.word.text operand.tree
  | .binary left op right => .binary left.tree op.word.text right.tree
  | .conditional condition consequence alternative =>
    .conditional condition.tree (clauseTrees consequence) (elseTree alternative)
  | .function parameters body => .function parameters (clauseTrees body)
  | .call callee arguments => .call callee.tree (itemTrees arguments)
  | .array elements => .array (itemTrees elements)
  | .index subject place => .index subject.tree place.tree
  | .hash pairs _ => .hash (pairTrees pairs)

/-- The statement that is written. -/
def Clause.tree : Clause → Stmt
  | .binding name value _ => .binding name value.tree
  | .ret none _ => .ret none
  | .ret (some value) _ => .ret (some value.tree)
  | .expr value _ => .expr value.tree

/-- The statements that are written. -/
def clauseTrees : List Clause → List Stmt
  | [] => []
  | c :: cs => c.tree :: clauseTrees cs

/-- The second block of a conditional. -/
def elseTree : Option (List Clause) → Option (List Stmt)
  | none => none
  | some body => some (clauseTrees body)

/-- The expressions of a list. -/
def itemTrees : List Spelling → List Expr
  | [] => []
  | e :: es => e.tree :: itemTrees es

/-- The pairs of a list. -/
def pairTrees : List (Spelling × Spelling) → List (Expr × Expr)
  | [] => []
  | (key, value) :: ps => (key.tree, value.tree) :: pairTrees ps

end

theorem itemTrees_eq_map (es : List Spelling) : itemTrees es = es.map Spelling.tree := by
  induction es with
  | nil => rfl
  | cons e es ih => rw [itemTrees, ih, List.map_cons]

theorem pairTrees_eq_map (ps : List (Spelling × Spelling)) :
    pairTrees ps = ps.map fun q => (q.1.tree, q.2.tree) := by
  induction ps with
  | nil => rfl
  | cons q ps ih => rw [pairTrees, ih, List.map_cons]

theorem clauseTrees_eq_map (cs : List Clause) : clauseTrees cs = cs.map Clause.tree := by
  induction cs with
  | nil => rfl
  | cons c cs ih => rw [clauseTrees, ih, List.map_cons]

/-- The expression of a statement, if it has one. -/
def Clause.value? : Clause → Option Spelling
  | .binding _ value _ => some value
  | .ret value _ => value
  | .expr value _ => some value

/-! ### Legal spellings -/

namespace Spelling

/-- The power of the operator between two operands, if they are not in parentheses. -/
def infixPower? : Spelling → Option Power
  | .binary _ op _ => some op.power
  | _ => none

/-- Whether an operator stands before an operand, without parentheses around the two. -/
def isUnary : Spelling → Bool
  | .unary .. => true
  | _ => false

end Spelling

mutual

/-- Parentheses stand where they have to.  What is called or indexed is no bare operation, what
follows an operator that stands first is no bare operation between two operands, and of two
operations of which one is an operand of the other, the inner one binds tighter, or as tightly if it
is on the left. -/
def Spelling.Legal : Spelling → Prop
  | .ident _ | .int .. | .str _ | .bool _ => True
  | .group inside => inside.Legal
  | .unary _ operand => operand.infixPower? = none ∧ operand.Legal
  | .binary left op right =>
    (∀ q ∈ left.infixPower?, op.power ≤ q) ∧ (∀ q ∈ right.infixPower?, op.power < q) ∧
      left.Legal ∧ right.Legal
  | .conditional condition consequence alternative =>
    condition.Legal ∧ LegalClauses consequence ∧ LegalElse alternative
  | .function _ body => LegalClauses body
  | .call callee arguments =>
    callee.infixPower? = none ∧ callee.isUnary = false ∧ callee.Legal ∧ LegalItems arguments
  | .array elements => LegalItems elements
  | .index subject place =>
    subject.infixPower? = none ∧ subject.isUnary = false ∧ subject.Legal ∧ place.Legal
  | .hash pairs _ => LegalPairs pairs

/-- Semicolons stand where they have to.  The flag tells whether the statement is the last one of
its list, where an expression and a return without a result need none. -/
def Clause.Legal : Clause → Bool → Prop
  | .binding _ value n, _ => 0 < n ∧ value.Legal
  | .ret none n, last => n = 1 ∨ n = 0 ∧ last = true
  | .ret (some value) n, _ => 0 < n ∧ value.Legal
  | .expr value n, last => (n = 1 ∨ n = 0 ∧ last = true) ∧ value.Legal

/-- Every statement of a list is legal. -/
def LegalClauses : List Clause → Prop
  | [] => True
  | c :: cs => c.Legal cs.isEmpty ∧ LegalClauses cs

/-- The second block of a conditional is legal. -/
def LegalElse : Option (List Clause) → Prop
  | none => True
  | some body => LegalClauses body

/-- Every expression of a list is legal. -/
def LegalItems : List Spelling → Prop
  | [] => True
  | e :: es => e.Legal ∧ LegalItems es

/-- Every key and every value of a list is legal. -/
def LegalPairs : List (Spelling × Spelling) → Prop
  | [] => True
  | (key, value) :: ps => key.Legal ∧ value.Legal ∧ LegalPairs ps

end

/-! ### Levels of nesting

An expression opens a level.  Each operation that takes what has been read so far as its left
operand opens one more inside it, and these stay open until the whole expression ends. -/

/-- The levels that are still open inside its own one after an expression has been read. -/
def Spelling.folds : Spelling → Nat
  | .binary left _ _ => left.folds + 1
  | .call callee _ => callee.folds + 1
  | .index subject _ => subject.folds + 1
  | _ => 0

mutual

/-- The most levels that are open inside its own one while an expression is read. -/
def Spelling.peak : Spelling → Nat
  | .ident _ | .int .. | .str _ | .bool _ => 0
  | .group inside => 1 + inside.peak
  | .unary _ operand => 1 + operand.peak
  | .binary left _ right => max left.peak (left.folds + 2 + right.peak)
  | .conditional condition consequence alternative =>
    max (1 + condition.peak) (max (1 + clausesCost consequence) (elseCost alternative))
  | .function _ body => 1 + clausesCost body
  | .call callee arguments => max callee.peak (callee.folds + 1 + itemsCost arguments)
  | .array elements => itemsCost elements
  | .index subject place => max subject.peak (subject.folds + 2 + place.peak)
  | .hash pairs _ => pairsCost pairs

/-- The levels that a statement takes. -/
def Clause.cost : Clause → Nat
  | .binding _ value _ => 1 + value.peak
  | .ret none _ => 0
  | .ret (some value) _ => 1 + value.peak
  | .expr value _ => 1 + value.peak

/-- The levels that the statements of a list take. -/
def clausesCost : List Clause → Nat
  | [] => 0
  | c :: cs => max c.cost (clausesCost cs)

/-- The levels that the second block of a conditional takes. -/
def elseCost : Option (List Clause) → Nat
  | none => 0
  | some body => 1 + clausesCost body

/-- The levels that the expressions of a list take. -/
def itemsCost : List Spelling → Nat
  | [] => 0
  | e :: es => max (1 + e.peak) (itemsCost es)

/-- The levels that the pairs of a list take. -/
def pairsCost : List (Spelling × Spelling) → Nat
  | [] => 0
  | (key, value) :: ps => max (max (1 + key.peak) (1 + value.peak)) (pairsCost ps)

end

theorem itemsCost_le_iff {es : List Spelling} {n : Nat} :
    itemsCost es ≤ n ↔ ∀ e ∈ es, e.peak < n := by
  induction es with
  | nil => simp [itemsCost]
  | cons e es ih => rw [itemsCost, Nat.max_le, ih, List.forall_mem_cons, Nat.one_add_le_iff]

theorem pairsCost_le_iff {ps : List (Spelling × Spelling)} {n : Nat} :
    pairsCost ps ≤ n ↔ ∀ q ∈ ps, q.1.peak < n ∧ q.2.peak < n := by
  induction ps with
  | nil => simp [pairsCost]
  | cons q ps ih => simp only [pairsCost, Nat.max_le, ih, List.forall_mem_cons,
      Nat.one_add_le_iff]

theorem Clause.cost_le_iff {c : Clause} {n : Nat} : c.cost ≤ n ↔ ∀ v ∈ c.value?, v.peak < n := by
  rcases c with ⟨_, v, _⟩ | ⟨_ | v, _⟩ | ⟨v, _⟩ <;> simp [cost, value?, Nat.one_add_le_iff]

theorem clausesCost_le_iff {cs : List Clause} {n : Nat} :
    clausesCost cs ≤ n ↔ ∀ c ∈ cs, ∀ v ∈ c.value?, v.peak < n := by
  induction cs with
  | nil => simp [clausesCost]
  | cons c cs ih => rw [clausesCost, Nat.max_le, ih, List.forall_mem_cons, Clause.cost_le_iff]

end ExprLang
