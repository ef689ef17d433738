import ExprLang.Proofs.Scanning
import ExprLang.Proofs.Sighting

/-!
# Diagnostics are about the tokens of the text

The parser takes the tokens of a text one after another, and at the end it takes the last one again
and again.  So what it finds in sight is about tokens of the text, in their order.

## Main results

* `Scanner.current_skip` — which token the parser comes to after some moves.
* `diagnostics_parseText_about` — which tokens the diagnostics of a text are about.
-/

namespace ExprLang

open ExprLang.Action State
open Grammar (standard)

/-! ### The tokens that the parser takes -/

namespace Scanner

theorem current_skip_of_eof {sc : Scanner} (h : sc.next.1.kind = .eof) (i : Nat) :
    ((Cursor.ofSource (.text sc)).skip i).current = sc.next.1 := by
  induction i generalizing sc with
  | zero => rfl
  | succ i ih =>
    have hnext := next_next_of_eof h
    have hlater := @ih sc.next.2 (by rw [hnext, h])
    rw [hnext] at hlater
    exact hlater

/-- After some moves the parser is at the token with their number, or at the last one. -/
theorem current_skip (sc : Scanner) (i : Nat) :
    sc.tokens[min i (sc.tokens.length - 1)]? =
      some ((Cursor.ofSource (.text sc)).skip i).current := by
  fun_induction tokens sc generalizing i with
  | case1 sc h =>
    rw [current_skip_of_eof h, List.length_singleton, Nat.sub_self, Nat.min_zero]
    rfl
  | case2 sc h hlt ih =>
    rw [List.length_cons, Nat.add_sub_cancel]
    cases i with
    | zero =>
      rw [Nat.zero_min]
      rfl
    | succ i =>
      have hpos := List.length_pos_iff.mpr sc.next.2.tokens_ne_nil
      have hmin : min (i + 1) sc.next.2.tokens.length =
          min i (sc.next.2.tokens.length - 1) + 1 := by
        omega
      rw [hmin, List.getElem?_cons_succ, ih]
      rfl

/-- The last token stands for the end, and the words of the others are proper. -/
theorem tokens_cases {sc : Scanner} {i : Nat} {t : Token} (h : sc.tokens[i]? = some t) :
    i = sc.tokens.length - 1 ∧ t.kind = .eof ∨
      i < sc.tokens.length - 1 ∧ Word.Proper ⟨t.kind, t.value⟩ := by
  fun_induction tokens sc generalizing i with
  | case1 sc heof =>
    obtain ⟨rfl, rfl⟩ : i = 0 ∧ sc.next.1 = t := by simpa [List.getElem?_singleton] using h
    exact .inl ⟨rfl, heof⟩
  | case2 sc hne hlt ih =>
    have hpos := List.length_pos_iff.mpr sc.next.2.tokens_ne_nil
    rw [List.length_cons, Nat.add_sub_cancel]
    cases i with
    | zero =>
      obtain rfl := Option.some.inj h
      rcases sc.next_cases with ⟨-, heof, -⟩ | ⟨-, hwords⟩
      · exact absurd heof hne
      · exact .inr ⟨hpos, proper_of_mem_textWords (hwords ▸ List.mem_cons_self)⟩
    | succ i =>
      rcases ih h with ⟨hi, heof⟩ | ⟨hi, hproper⟩
      · exact .inl ⟨by omega, heof⟩
      · exact .inr ⟨by omega, hproper⟩

end Scanner

/-! ### The diagnostics of a text -/

/-- An integer that is not read, among the tokens of a text, is too large. -/
theorem Cause.TrueOf.lt_digitsValue {t : Token} {text : String} (h : (badInteger text).TrueOf t)
    (ht : Word.Proper ⟨t.kind, t.value⟩) : Text.maxInteger < Text.digitsValue text.toList := by
  obtain ⟨hk, rfl, hnone⟩ := h
  rw [hk] at ht
  exact Text.lt_of_readInteger?_eq_none ht.1 ht.2 hnone

/-- Numbers below a limit are as often in a list whether or not the numbers above it are cut off. -/
theorem count_map_min {is : List Nat} {i last : Nat} (hi : i < last) :
    (is.map (min · last)).count i = is.count i := by
  rw [List.count_eq_countP, List.countP_map, List.count_eq_countP]
  refine List.countP_congr fun j _ => ?_
  simp only [Function.comp_apply, beq_iff_eq]
  omega

/-- Each diagnostic of a text is about a token of the text.  It is reported where the token begins,
and what it says is true of the token; a number that could not be read is too large for an integer.
The diagnostics come in the order of their tokens, and no token but the end has more than two. -/
theorem diagnostics_parseText_about (source file : String) :
    ∃ is : List Nat,
      List.Forall₂ (fun d i => ∃ t, (tokenize source file)[i]? = some t ∧ d.IsAbout t ∧
        ∀ text, d.cause = .badInteger text → Text.maxInteger < Text.digitsValue text.toList)
        (parseText source file).diagnostics is ∧
      is.Pairwise (· ≤ ·) ∧
      ∀ i t, (tokenize source file)[i]? = some t → t.kind ≠ .eof → is.count i ≤ 2 := by
  obtain ⟨p, u, hrun⟩ := Form.run_program_isOk standard (.ofRoom standard maxNesting)
    (.ofSource (.ofText source file))
  obtain ⟨new, hnew, htrail⟩ :=
    (Form.honest_program (Level.honest_ofRoom maxNesting)).of_ok p u hrun
  have hparse : (parseText source file).diagnostics = new := by
    rw [parseText, parse_eq hrun, hnew]
    rfl
  obtain ⟨is, habout, hsorted, -, htwo⟩ := htrail.exists_numbers
  -- past the end of the text the parser is at its last token
  refine ⟨is.map (min · ((tokenize source file).length - 1)), ?_, ?_, ?_⟩
  · rw [hparse, List.forall₂_map_right_iff]
    refine habout.imp fun d i hd => ⟨_, Scanner.current_skip _ i, hd, fun text hcause => ?_⟩
    have htrue := hcause ▸ hd.true_of
    rcases Scanner.tokens_cases (Scanner.current_skip (.ofSource source file) i) with
      ⟨-, heof⟩ | ⟨-, hproper⟩
    · exact absurd (heof.symm.trans htrue.1) (by decide)
    · exact htrue.lt_digitsValue hproper
  · exact hsorted.map _ fun i j hij => by omega
  · intro i t ht hne
    rcases Scanner.tokens_cases ht with ⟨-, heof⟩ | ⟨hi, -⟩
    · exact absurd heof hne
    · exact Nat.le_trans (Nat.le_of_eq (count_map_min hi)) (htwo i)

/-- The parenthesis is no name, and it begins no statement. -/
example : (parseText "let )" "shell").diagnostics =
    [⟨.unexpected .ident .closeParen, .at 4 "shell"⟩,
      ⟨.noExpression .closeParen, .at 4 "shell"⟩] := by
  decide +kernel

end ExprLang
