import ExprLang.Proofs.Canonical
import ExprLang.Tree.Render

/-!
# The words of a rendering

The canonical text of a tree that can be written has just the canonical words of the tree.  Two
things could go wrong: a word or a number could run into what is written after it, and an operator
could run into the operand.  The first does not happen because a separator, a parenthesis or a
bracket comes after every expression, and the second because no expression begins with `=`.

## Main results

* `Expr.textWords_render`, `textWords_renderStatements` — the words of the canonical text.
-/

namespace ExprLang

open Word (mark listed)

/-! ### Marks and reserved words -/

/-- A mark that is not part of a longer one. -/
theorem textWords_plain {c : Char} (hc : Kind.ofMark c ≠ .illegal ∧ c ≠ '=' ∧ c ≠ '!' ∧ c ≠ '/')
    (cs : List Char) : textWords (c :: cs) = mark (Kind.ofMark c) :: textWords cs := by
  obtain ⟨hmark, heq, hbang, hslash⟩ := hc
  exact textWords_mark hmark (fun h => (h.elim heq hbang).elim) (fun h => (hslash h).elim)

/-- A mark and a blank after it. -/
theorem textWords_plain_space {c : Char}
    (hc : Kind.ofMark c ≠ .illegal ∧ c ≠ '=' ∧ c ≠ '!' ∧ c ≠ '/') (cs : List Char) :
    textWords (c :: ' ' :: cs) = mark (Kind.ofMark c) :: textWords cs := by
  rw [textWords_plain hc, textWords_space]

theorem textWords_name {name : String} (h : IsName name) {cs : List Char} (hcs : EndsWord cs) :
    textWords (name.toList ++ cs) = ⟨.ident, name⟩ :: textWords cs := by
  have hkind : Kind.ofWord name = .ident := by
    have hnone : Kind.reservedWords.lookup name = none := by
      rw [List.lookup_eq_none_iff]
      intro p hp
      rw [bne_iff_ne]
      intro heq
      apply h.2
      exact List.mem_map.mpr ⟨p, hp, heq.symm⟩
    rw [Kind.ofWord, hnone]
    rfl
  rw [textWords_word h.1 hcs, String.ofList_toList, hkind]

/-- An operator between or before operands. -/
theorem textWords_operator {op : String} (hop : op ∈ prefixOperators ++ infixOperators)
    {cs : List Char} (heq : cs.head? ≠ some '=') (hslash : cs.head? ≠ some '/') :
    textWords (op.toList ++ cs) = operatorWord op :: textWords cs := by
  simp only [prefixOperators, infixOperators, List.cons_append, List.nil_append, List.mem_cons,
    List.not_mem_nil, or_false] at hop
  rcases hop with rfl | rfl | rfl | rfl | rfl | rfl | rfl | rfl | rfl | rfl
  case inr.inr.inr.inr.inr.inr.inr.inr.inl => exact (textWords_comparison cs).1
  case inr.inr.inr.inr.inr.inr.inr.inr.inr => exact (textWords_comparison cs).2
  all_goals exact textWords_mark (by decide) (fun _ => heq) (fun _ => hslash)

/-- No expression begins with `=` or with `/`. -/
theorem Expr.render_head : ∀ {e : Expr}, e.WellFormed → ∃ c cs, e.render.toList = c :: cs ∧
    c ≠ '=' ∧ c ≠ '/'
  | .ident name, h => by
    obtain ⟨hw, -⟩ := h
    unfold isWord at hw
    split at hw
    · simp at hw
    · next c cs hcs =>
      have hnat := toNat_of_isWordStart (Bool.and_eq_true_iff.mp hw).1
      refine ⟨c, cs, hcs, ?_, ?_⟩ <;> rintro rfl <;> simp at hnat
  | .int value, h => by
    have hlist := Text.toList_toString h.1
    cases hdigits : Nat.toDigits 10 value.toNat with
    | nil => exact absurd hdigits Nat.toDigits_ne_nil
    | cons c cs =>
      have hdigit : c.isDigit = true :=
        Text.isDigit_of_mem_toDigits c (hdigits ▸ List.mem_cons_self)
      refine ⟨c, cs, hlist.trans hdigits, ?_, ?_⟩ <;> rintro rfl <;> simp at hdigit
  | .bool true, _ => ⟨_, _, rfl, by decide, by decide⟩
  | .bool false, _ => ⟨_, _, rfl, by decide, by decide⟩
  -- the canonical text of every other form begins with a mark or with a letter of its own
  | .str _, _ | .unary .., _ | .binary .., _ | .conditional .., _ | .function .., _ | .array _, _
  | .index .., _ | .hash _, _ => ⟨_, _, by simp [render]; exact ⟨rfl, rfl⟩, by decide, by decide⟩
  | .call callee _, h => by
    obtain ⟨c, cs, hcs, hc⟩ := callee.render_head h.1
    exact ⟨c, _, by rw [render]; simp [hcs]; rfl, hc⟩

/-! ### Lists -/

/-- Names separated by commas, up to where the last of them ends. -/
theorem textWords_renderNames : ∀ {names : List String}, (∀ name ∈ names, IsName name) →
    ∀ {cs : List Char}, EndsWord cs → textWords ((renderNames names).toList ++ cs) =
      listed false (nameWords names) ++ textWords cs
  | [], _, _, _ => by simp [renderNames, nameWords]
  | [name], h, cs, hcs => by
    rw [renderNames, textWords_name (h name List.mem_cons_self) hcs]
    rfl
  | name :: name' :: names, h, cs, hcs => by
    have hrest := textWords_renderNames (fun x hx => h x (List.mem_cons_of_mem _ hx)) hcs
    simp only [renderNames, String.toList_append, List.append_assoc]
    show textWords (name.toList ++ ',' :: ' ' :: ((renderNames (name' :: names)).toList ++ cs)) = _
    rw [textWords_name (h name List.mem_cons_self) (endsWord_cons.mpr rfl),
      textWords_plain_space (by decide), hrest]
    rfl

/-- What a list of statements is told by, in braces. -/
theorem textWords_braced {body : List Stmt} (h : ∀ {cs : List Char}, EndsWord cs →
      textWords ((renderStatements body).toList ++ cs) = stmtWords body ++ textWords cs)
    (cs : List Char) : textWords ((braced (renderStatements body) body).toList ++ cs) =
      mark .openCurly :: stmtWords body ++ mark .closeCurly :: textWords cs := by
  cases body with
  | nil =>
    show textWords ('\x7b' :: ' ' :: '\x7d' :: cs) = _
    rw [textWords_plain_space (by decide), textWords_plain (by decide)]
    rfl
  | cons s ss =>
    simp only [braced, String.toList_append, List.append_assoc]
    show textWords ('\x7b' :: ' ' :: ((renderStatements (s :: ss)).toList ++
      ' ' :: '\x7d' :: cs)) = _
    rw [textWords_plain_space (by decide), h (endsWord_cons.mpr rfl), textWords_space,
      textWords_plain (by decide)]
    rfl

/-- Between two statements there is the semicolon of the first one and a blank. -/
theorem textWords_separator {s : Stmt} (h : ∀ {cs : List Char}, EndsWord cs →
      textWords (s.render.toList ++ cs) = s.words true ++ textWords cs) (cs : List Char) :
    textWords (s.render.toList ++ (s.separator.toList ++ cs)) =
      s.words false ++ textWords cs := by
  rcases s with ⟨name, value⟩ | ⟨_ | value⟩ | value | body
  case expr =>
    simp only [Stmt.separator]
    show textWords (_ ++ ';' :: ' ' :: cs) = _
    rw [h (endsWord_cons.mpr rfl), textWords_plain_space (by decide)]
    simp [Stmt.words, Kind.ofMark]
  all_goals
    simp only [Stmt.separator]
    show textWords (_ ++ ' ' :: cs) = _
    rw [h (endsWord_cons.mpr rfl), textWords_space]
    simp [Stmt.words]

/-! ### Expressions and statements -/

mutual

/-- The words of the canonical text of an expression, up to where the expression ends. -/
theorem Expr.textWords_render : ∀ {e : Expr}, e.WellFormed → ∀ {cs : List Char}, EndsWord cs →
    textWords (e.render.toList ++ cs) = e.words ++ textWords cs
  | .ident name, h, cs, hcs => textWords_name h hcs
  | .int value, h, cs, hcs => by
    rw [Expr.render, Text.toList_toString h.1, textWords_digits Nat.toDigits_ne_nil
      Text.isDigit_of_mem_toDigits hcs,
      ← Text.toList_toString h.1, String.ofList_toList]
    rfl
  | .str text, h, cs, _ => by
    simp only [Expr.render, String.toList_append, List.append_assoc]
    have hquoted := textWords_string h cs
    rw [String.ofList_toList] at hquoted
    exact hquoted
  | .bool true, _, cs, hcs => textWords_word (show isWord "true".toList by decide) hcs
  | .bool false, _, cs, hcs => textWords_word (show isWord "false".toList by decide) hcs
  | .unary op operand, ⟨hop, h⟩, cs, _ => by
    obtain ⟨c, rest, hrender, heq, hslash⟩ := Expr.render_head h
    simp only [Expr.render, String.toList_append, List.append_assoc]
    show textWords ('(' :: (op.toList ++ (operand.render.toList ++ ')' :: cs))) = _
    rw [textWords_plain (by decide), textWords_operator (List.mem_append_left _ hop)
      (by simp [hrender, heq]) (by simp [hrender, hslash]),
      Expr.textWords_render h (endsWord_cons.mpr rfl), textWords_plain (by decide)]
    simp [Expr.words, Kind.ofMark]
  | .binary left op right, ⟨hop, hl, hr⟩, cs, _ => by
    simp only [Expr.render, String.toList_append, List.append_assoc]
    show textWords ('(' :: (left.render.toList ++ ' ' :: (op.toList ++
      ' ' :: (right.render.toList ++ ')' :: cs)))) = _
    rw [textWords_plain (by decide), Expr.textWords_render hl (endsWord_cons.mpr rfl),
      textWords_space, textWords_operator (List.mem_append_right _ hop) (by simp) (by simp),
      textWords_space, Expr.textWords_render hr (endsWord_cons.mpr rfl),
      textWords_plain (by decide)]
    simp [Expr.words, Kind.ofMark]
  | .conditional condition consequence alternative, ⟨h, hb, ho⟩, cs, hcs => by
    have hword : isWord ['i', 'f'] := by decide
    simp only [Expr.render, String.toList_append, List.append_assoc]
    show textWords (['i', 'f'] ++ ' ' :: '(' :: (condition.render.toList ++ ')' :: ' ' ::
      ((braced (renderStatements consequence) consequence).toList ++
        ((renderElse alternative).toList ++ cs)))) = _
    rw [textWords_word hword (endsWord_cons.mpr rfl), textWords_space, textWords_plain (by decide),
      Expr.textWords_render h (endsWord_cons.mpr rfl), textWords_plain_space (by decide),
      textWords_braced (textWords_renderStatements hb), textWords_renderElse ho hcs]
    simp [Expr.words, Kind.ofMark]
    rfl
  | .function parameters body, ⟨hnames, hb⟩, cs, _ => by
    have hword : isWord ['f', 'n'] := by decide
    simp only [Expr.render, String.toList_append, List.append_assoc]
    show textWords (['f', 'n'] ++ '(' :: ((renderNames parameters).toList ++ ')' :: ' ' ::
      ((braced (renderStatements body) body).toList ++ cs))) = _
    rw [textWords_word hword (endsWord_cons.mpr rfl), textWords_plain (by decide),
      textWords_renderNames hnames (endsWord_cons.mpr rfl), textWords_plain_space (by decide),
      textWords_braced (textWords_renderStatements hb)]
    simp [Expr.words, Kind.ofMark]
    rfl
  | .call callee arguments, ⟨h, hes⟩, cs, _ => by
    simp only [Expr.render, String.toList_append, List.append_assoc]
    show textWords (callee.render.toList ++ '(' :: ((renderItems arguments).toList ++
      ')' :: cs)) = _
    rw [Expr.textWords_render h (endsWord_cons.mpr rfl), textWords_plain (by decide),
      textWords_renderItems hes (endsWord_cons.mpr rfl), textWords_plain (by decide)]
    simp [Expr.words, Kind.ofMark]
  | .array elements, h, cs, _ => by
    simp only [Expr.render, String.toList_append, List.append_assoc]
    show textWords ('[' :: ((renderItems elements).toList ++ ']' :: cs)) = _
    rw [textWords_plain (by decide), textWords_renderItems h (endsWord_cons.mpr rfl),
      textWords_plain (by decide)]
    simp [Expr.words, Kind.ofMark]
  | .index subject place, ⟨h, h'⟩, cs, _ => by
    simp only [Expr.render, String.toList_append, List.append_assoc]
    show textWords ('(' :: (subject.render.toList ++ '[' :: (place.render.toList ++
      ']' :: ')' :: cs))) = _
    rw [textWords_plain (by decide), Expr.textWords_render h (endsWord_cons.mpr rfl),
      textWords_plain (by decide), Expr.textWords_render h' (endsWord_cons.mpr rfl),
      textWords_plain (by decide), textWords_plain (by decide)]
    simp [Expr.words, Kind.ofMark]
  | .hash pairs, h, cs, _ => by
    simp only [Expr.render, String.toList_append, List.append_assoc]
    show textWords ('\x7b' :: ((renderPairs pairs).toList ++ '\x7d' :: cs)) = _
    rw [textWords_plain (by decide), textWords_renderPairs h (endsWord_cons.mpr rfl),
      textWords_plain (by decide)]
    simp [Expr.words, Kind.ofMark]

/-- The words of the canonical text of a statement that is the last one of its list. -/
theorem Stmt.textWords_render : ∀ {s : Stmt}, s.WellFormed → ∀ {cs : List Char}, EndsWord cs →
    textWords (s.render.toList ++ cs) = s.words true ++ textWords cs
  | .binding name value, ⟨hname, h⟩, cs, _ => by
    have hword : isWord ['l', 'e', 't'] := by decide
    simp only [Stmt.render, String.toList_append, List.append_assoc]
    show textWords (['l', 'e', 't'] ++ ' ' :: (name.toList ++ ' ' :: '=' :: ' ' ::
      (value.render.toList ++ ';' :: cs))) = _
    rw [textWords_word hword (endsWord_cons.mpr rfl), textWords_space,
      textWords_name hname (endsWord_cons.mpr rfl), textWords_space,
      textWords_mark (by decide) (by simp) (by simp), textWords_space,
      Expr.textWords_render h (endsWord_cons.mpr rfl), textWords_plain (by decide)]
    simp [Stmt.words, Kind.ofMark]
    rfl
  | .ret none, _, cs, _ => by
    have hword : isWord ['r', 'e', 't', 'u', 'r', 'n'] := by decide
    show textWords (['r', 'e', 't', 'u', 'r', 'n'] ++ ';' :: cs) = _
    rw [textWords_word hword (endsWord_cons.mpr rfl), textWords_plain (by decide)]
    rfl
  | .ret (some value), h, cs, _ => by
    have hword : isWord ['r', 'e', 't', 'u', 'r', 'n'] := by decide
    have hvalue : value.WellFormed := h
    simp only [Stmt.render, String.toList_append, List.append_assoc]
    show textWords (['r', 'e', 't', 'u', 'r', 'n'] ++ ' ' :: (value.render.toList ++
      ';' :: cs)) = _
    rw [textWords_word hword (endsWord_cons.mpr rfl), textWords_space,
      Expr.textWords_render hvalue (endsWord_cons.mpr rfl), textWords_plain (by decide)]
    simp [Stmt.words, Kind.ofMark]
    rfl
  | .expr value, h, cs, hcs => by
    rw [Stmt.render, Expr.textWords_render (show Expr.WellFormed _ from h) hcs]
    simp [Stmt.words]

/-- The words of the canonical text of a list of statements. -/
theorem textWords_renderStatements : ∀ {ss : List Stmt}, WellFormedStmts ss →
    ∀ {cs : List Char}, EndsWord cs →
    textWords ((renderStatements ss).toList ++ cs) = stmtWords ss ++ textWords cs
  | [], _, cs, _ => rfl
  | [s], ⟨h, _⟩, cs, hcs => by
    rw [renderStatements, Stmt.textWords_render h hcs]
    simp [stmtWords]
  | s :: s' :: ss, ⟨h, hss⟩, cs, hcs => by
    have hrest := textWords_renderStatements hss hcs
    simp only [renderStatements, String.toList_append, List.append_assoc]
    rw [textWords_separator (Stmt.textWords_render h), hrest, ← List.append_assoc]
    rfl

/-- The words of the second block of a conditional. -/
theorem textWords_renderElse : ∀ {other : Option (List Stmt)}, WellFormedElse other →
    ∀ {cs : List Char}, EndsWord cs →
    textWords ((renderElse other).toList ++ cs) = otherWords other ++ textWords cs
  | none, _, cs, _ => rfl
  | some body, h, cs, _ => by
    have hword : isWord ['e', 'l', 's', 'e'] := by decide
    simp only [renderElse, String.toList_append, List.append_assoc]
    show textWords (' ' :: (['e', 'l', 's', 'e'] ++ ' ' ::
      ((braced (renderStatements body) body).toList ++ cs))) = _
    rw [textWords_space, textWords_word hword (endsWord_cons.mpr rfl), textWords_space,
      textWords_braced (textWords_renderStatements (show WellFormedStmts _ from h))]
    simp [otherWords]
    rfl

/-- The words of expressions separated by commas. -/
theorem textWords_renderItems : ∀ {es : List Expr}, WellFormedItems es →
    ∀ {cs : List Char}, EndsWord cs →
    textWords ((renderItems es).toList ++ cs) = listed false (exprWords es) ++ textWords cs
  | [], _, cs, _ => rfl
  | [e], ⟨h, _⟩, cs, hcs => by
    rw [renderItems, Expr.textWords_render h hcs]
    simp [exprWords, Word.listed_singleton]
  | e :: e' :: es, ⟨h, hes⟩, cs, hcs => by
    have hrest := textWords_renderItems hes hcs
    simp only [renderItems, String.toList_append, List.append_assoc]
    show textWords (e.render.toList ++ ',' :: ' ' :: ((renderItems (e' :: es)).toList ++ cs)) = _
    rw [Expr.textWords_render h (endsWord_cons.mpr rfl), textWords_plain_space (by decide),
      hrest]
    simp [exprWords, Word.listed_cons_cons, Kind.ofMark]

/-- The words of keys and values separated by commas. -/
theorem textWords_renderPairs : ∀ {ps : List (Expr × Expr)}, WellFormedPairs ps →
    ∀ {cs : List Char}, EndsWord cs →
    textWords ((renderPairs ps).toList ++ cs) = listed false (entryWords ps) ++ textWords cs
  | [], _, cs, _ => rfl
  | [(key, value)], ⟨h, h', _⟩, cs, hcs => by
    simp only [renderPairs, String.toList_append, List.append_assoc]
    show textWords (key.render.toList ++ ':' :: ' ' :: (value.render.toList ++ cs)) = _
    rw [Expr.textWords_render h (endsWord_cons.mpr rfl), textWords_plain_space (by decide),
      Expr.textWords_render h' hcs]
    simp [entryWords, Word.listed_singleton, Kind.ofMark]
  | (key, value) :: q :: ps, ⟨h, h', hps⟩, cs, hcs => by
    have hrest := textWords_renderPairs hps hcs
    simp only [renderPairs, String.toList_append, List.append_assoc]
    show textWords (key.render.toList ++ ':' :: ' ' :: (value.render.toList ++
      ',' :: ' ' :: ((renderPairs (q :: ps)).toList ++ cs))) = _
    rw [Expr.textWords_render h (endsWord_cons.mpr rfl), textWords_plain_space (by decide),
      Expr.textWords_render h' (endsWord_cons.mpr rfl), textWords_plain_space (by decide),
      hrest]
    simp [entryWords, Word.listed_cons_cons, Kind.ofMark]

end

end ExprLang
