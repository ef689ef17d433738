import ExprLang.Proofs.Height
import ExprLang.Proofs.Precedence
import ExprLang.Proofs.Yielding

/-!
# The highest trees

The bound on the height of what is read from some levels is reached.  With one level there is room
for a name.  With one more level the highest expression from the levels below is put into a list of
one element, and then as many calls without arguments follow as there are levels to continue it; a
call without arguments takes no more than that.

## Main definitions

* `calls s k` — `k` calls one after another.
* `tower n` — an expression of the greatest height from `n + 1` levels.

## Main results

* `parse_tower`, `expr_tower` — a tower is read, if there are the levels for it.
* `parse_height_sharp` — how high the trees of the parser can be.
-/

namespace ExprLang

open Word (mark)

/-- Calls without arguments one after another. -/
def calls (s : Spelling) : Nat → Spelling
  | 0 => s
  | k + 1 => .call (calls s k) []

/-- A list of one element which is a tower itself, with as many calls after it as there can be. -/
def tower : Nat → Spelling
  | 0 => .ident "a"
  | n + 1 => calls (.array [tower n]) (n + 1)

/-! ### How high it is, and how deep -/

theorem legal_calls_array {t : Spelling} (ht : t.Legal) (k : Nat) :
    (calls (.array [t]) k).Legal ∧ (calls (.array [t]) k).infixPower? = none ∧
      (calls (.array [t]) k).isUnary = false := by
  induction k with
  | zero => exact ⟨⟨ht, trivial⟩, rfl, rfl⟩
  | succ k ih =>
    obtain ⟨hl, hq, hu⟩ := ih
    exact ⟨⟨hq, hu, hl, trivial⟩, rfl, rfl⟩

theorem legal_tower (n : Nat) : (tower n).Legal := by
  induction n with
  | zero => exact trivial
  | succ n ih => exact (legal_calls_array ih (n + 1)).1

/-- Each call adds one to the levels that stay open, and it takes no other. -/
theorem peak_calls_array (t : Spelling) (k : Nat) :
    (calls (.array [t]) k).folds = k ∧ (calls (.array [t]) k).peak = max (1 + t.peak) k := by
  induction k with
  | zero => exact ⟨rfl, rfl⟩
  | succ k ih =>
    obtain ⟨hfolds, hpeak⟩ := ih
    refine ⟨by rw [calls, Spelling.folds, hfolds], ?_⟩
    rw [calls, Spelling.peak, hpeak, hfolds, itemsCost]
    omega

theorem peak_tower (n : Nat) : (tower n).peak = n := by
  induction n with
  | zero => rfl
  | succ n ih =>
    rw [tower, (peak_calls_array _ _).2, ih]
    omega

theorem height_calls_array (t : Spelling) (k : Nat) :
    (calls (.array [t]) k).tree.height = t.tree.height + 1 + k := by
  induction k with
  | zero =>
    rw [calls, Spelling.tree, Expr.height, itemTrees, itemTrees, exprsHeight, exprsHeight,
      Nat.max_zero]
  | succ k ih =>
    rw [calls, Spelling.tree, Expr.height, ih, itemTrees, exprsHeight, Nat.max_zero]
    rfl

/-- A tower is as high as an expression from its levels can be. -/
theorem height_tower (n : Nat) : (tower n).tree.height = maxHeight (n + 1) := by
  induction n with
  | zero => rfl
  | succ n ih =>
    rw [tower, height_calls_array, ih, maxHeight_succ (n + 1)]
    omega

/-! ### How it is read -/

theorem writable_calls_array {t : Spelling} (h : ∀ w ∈ t.words, w.Writable) (k : Nat) :
    ∀ w ∈ (calls (.array [t]) k).words, w.Writable := by
  induction k with
  | zero =>
    show ∀ w ∈ mark .openBracket :: (t.words ++ []) ++ [mark .closeBracket], w.Writable
    rw [List.append_nil, List.forall_mem_append, List.forall_mem_cons]
    exact ⟨⟨by decide, h⟩, by decide⟩
  | succ k ih =>
    show ∀ w ∈ (calls (.array [t]) k).words ++ [mark .openParen] ++ [mark .closeParen], w.Writable
    rw [List.forall_mem_append, List.forall_mem_append]
    exact ⟨⟨ih, by decide⟩, by decide⟩

theorem writable_tower (n : Nat) : ∀ w ∈ (tower n).words, w.Writable := by
  induction n with
  | zero => decide
  | succ n ih => exact writable_calls_array ih (n + 1)

/-- A tower is read from tokens with its words, if there are the levels for it. -/
theorem parse_tower {n : Nat} (hn : n < maxNesting) :
    parse (.ofTokens ((tower n).words.map Word.token)) = ⟨[.expr (tower n).tree], []⟩ := by
  have heof := Word.ne_eof_of_mem_map_token (writable_tower n)
  have hwords := Word.map_word_token (writable_tower n)
  have hrest : ∀ t ∈ ([] : List Token).head?, t.kind = .eof := by simp
  have hparse := (parse_spelling (legal_tower n) heof hrest (.inl hwords)).1
    (by rwa [peak_tower])
  rwa [List.append_nil] at hparse

/-- A tower is read as an expression by every parser that has the levels for it. -/
theorem expr_tower {n room : Nat} (hn : n < room) :
    ∃ q, Parser.expr ⟨.standard, room, .ofSource (.ofTokens ((tower n).words.map Word.token))⟩
      .lowest = (.ok (tower n).tree, q) := by
  have heof := Word.ne_eof_of_mem_map_token (writable_tower n)
  obtain ⟨d, hpasses, hd⟩ := State.passes_ofTokens_all heof
  rw [Word.map_word_token (writable_tower n)] at hpasses
  have hreads := (legal_tower n).isRead.readsExpr (tower n).lowest_lt_leastPower room
  have hends : d.current.kind.Ends .lowest := by
    rw [hd]
    decide
  obtain ⟨t, -, -, hrun⟩ := (hreads _ d hpasses hends).of_fits (by rwa [peak_tower])
  refine ⟨⟨.standard, room, t⟩, ?_⟩
  rw [Parser.expr, Parser.perform, Parser.level, hrun]
  rfl

/-- No expression of a program is higher than `256 * 257 / 2`, and there is a list of tokens in
which nothing is found and an expression is as high as that.  An expression that is read while `d`
levels are open is not higher than `(256 - d) * (257 - d) / 2`. -/
theorem parse_height_sharp :
    (∀ s : Source, ∀ e ∈ (parse s).program.exprs, e.height ≤ 256 * 257 / 2) ∧
    (∃ ts : List Token, (parse (.ofTokens ts)).diagnostics = [] ∧
      ∃ e ∈ (parse (.ofTokens ts)).program.exprs, e.height = 256 * 257 / 2) ∧
    ∀ (p q : Parser) (least : Power) (e : Expr) (d : Nat), p.room + d = maxNesting →
      p.expr least = (.ok e, q) → e.height ≤ (256 - d) * (257 - d) / 2 := by
  refine ⟨fun s => ?_, ?_, ?_⟩
  · obtain ⟨p, t, hrun⟩ := Form.run_program_isOk .standard (.ofRoom .standard maxNesting)
      (.ofSource s)
    have hgives := Form.gives_program (Level.bounds_ofRoom .standard maxNesting).reads .standard
    rw [parse_eq hrun]
    exact stmtsHeight_parts_le ((hgives _).of_ok p t hrun)
  · refine ⟨(tower 255).words.map Word.token, ?_⟩
    rw [parse_tower (by decide)]
    refine ⟨rfl, (tower 255).tree, ?_, height_tower 255⟩
    exact List.mem_append_left _ (Expr.mem_parts_self _)
  · intro p q least e d hd hrun
    have hgives := (Level.bounds_ofRoom p.grammar p.room).reads.expr least p.state
    have hheight := hgives.of_ok e _ (Prod.ext (Prod.mk.inj hrun).1 rfl)
    rw [maxNesting] at hd
    have hroom : p.room = 256 - d := by omega
    have hsucc : 257 - d = 256 - d + 1 := by omega
    rwa [hroom, maxHeight, ← hsucc] at hheight

/-- A list of one name, called, with two levels left.  The whole takes the first of them, and the
name the second one, which is closed again behind it.  The call opens that one once more. -/
theorem parse_height_sharp_call :
    let tokens : List Token := [⟨.openBracket, "[", default⟩, ⟨.ident, "a", default⟩,
      ⟨.closeBracket, "]", default⟩, ⟨.openParen, "(", default⟩, ⟨.closeParen, ")", default⟩]
    let p : Parser := ⟨.standard, 2, .ofSource (.ofTokens tokens)⟩
    let e : Expr := .call (.array [.ident "a"]) []
    ∃ q, p.room + 254 = maxNesting ∧ p.expr .lowest = (.ok e, q) ∧ e.height = 3 ∧
      e.height ≤ (256 - 254) * (257 - 254) / 2 := by
  intro tokens p e
  obtain ⟨q, hrun⟩ : ∃ q, p.expr .lowest = (.ok e, q) := expr_tower (n := 1) (by decide)
  exact ⟨q, rfl, hrun, rfl, parse_height_sharp.2.2 p q .lowest e 254 rfl hrun⟩

end ExprLang
