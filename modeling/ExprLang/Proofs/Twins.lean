import ExprLang.Proofs.Blame
import Mathlib.Data.List.Forall2

/-!
# Two runs of the parser

Two runs of the parser are compared here.  The first one is on numbered tokens, with levels that
leave notches.  The second one is on tokens with any places, which may come with more tokens after
them; the last token before these is a semicolon then.  It may have found something before.

As long as the first run does not come to the end of its tokens, or there are no more tokens in the
second one, the two do the same: a semicolon ends all that is read up to it, so nothing is decided
by what comes after it.  The only other case is that the first run has something to say about its
end.

## Main definitions

* `Sequel` — how the second run differs from the first.
* `Sequel.Twins` — states that the two runs come to at the same time.
* `Sequel.Agree` — what an action and its counterpart do from there.

## Main results

* `Sequel.Agree.bind`, `Sequel.Agree.expect_bind`, … — actions made of others that agree.
* `Sequel.Agree.repeatWhile` — repeated actions.
* `Sequel.Agree.counted` — leaving notches makes no difference.
-/

namespace ExprLang

open ExprLang.Action State
open Grammar (standard)

/-- How the second of two runs differs from the first. -/
structure Sequel where
  /-- The number of tokens that both runs see. -/
  count : Nat
  /-- Where these tokens are for the second run. -/
  place : Nat → Position
  /-- The tokens that come after them in the second run. -/
  more : List Token
  /-- Where the second run ends. -/
  stop : Position
  /-- What the second run has found before. -/
  before : List Diagnostic
  /-- No semicolon comes right after the last semicolon that both see. -/
  head_more : ∀ t ∈ more.head?, t.kind ≠ .semicolon
  place_count : more = [] → place count = stop
  /-- The end may stand among the tokens that both runs see. -/
  early : Prop
  more_of_early : early → more = []

namespace Sequel

variable (Q : Sequel)

variable {Q} in
theorem not_early (h : Q.more ≠ []) : ¬ Q.early := fun he => h (Q.more_of_early he)

/-! ### The same tokens, diagnostics and states -/

/-- The same token, with its number and with its place. -/
structure SameToken (t t' : Token) : Prop where
  kind_eq : t'.kind = t.kind
  value_eq : t'.value = t.value
  start_eq : t'.span.start = Q.place t.span.start.index
  kind_ne : ¬ Q.early → t.kind ≠ .eof

/-- The same diagnostic, about a number and about its place. -/
structure Same (d d' : Diagnostic) : Prop where
  cause_eq : d'.cause = d.cause
  position_eq : d'.position = Q.place d.position.index

variable {Q} in
/-- Notches make no difference. -/
theorem Same.notch {d d' : Diagnostic} (h : Q.Same d d') : Q.Same d.notch d' :=
  ⟨h.cause_eq, h.position_eq.trans (by simp)⟩

variable {Q} in
theorem forall₂_same_notch {old new ds : List Diagnostic}
    (h : List.Forall₂ Q.Same (old ++ new) ds) :
    List.Forall₂ Q.Same (old ++ new.map Diagnostic.notch) ds := by
  induction old generalizing ds with
  | nil => exact List.forall₂_map_left_iff.mpr (h.imp fun _ _ hd => hd.notch)
  | cons d old ih =>
    obtain ⟨d', ds', hd, hds, rfl⟩ := List.forall₂_cons_left_iff.mp h
    exact .cons hd (ih hds)

/-- The two runs are at the same token, and have found the same. -/
structure Twins (s s' : State) : Prop where
  cursor : ∃ ts ts', s.cursor = .ofSource (.list ts (.tally Q.count)) ∧
    s'.cursor = .ofSource (.list (ts' ++ Q.more) Q.stop) ∧ List.Forall₂ Q.SameToken ts ts' ∧
      (Q.more ≠ [] → ∀ t ∈ ts.getLast?, t.kind = .semicolon)
  diagnostics : ∃ ds, s'.diagnostics = Q.before ++ ds ∧ List.Forall₂ Q.Same s.diagnostics ds

/-- The first run has not come to its end before the second. -/
def Live (k : Kind) : Prop := Q.more = [] ∨ k ≠ .eof

/-- The next token, too, is the same in both runs. -/
def Firm (k : Kind) : Prop := Q.more = [] ∨ k ≠ .eof ∧ k ≠ .semicolon

variable {Q} {s s' : State} {k : Kind}

theorem Firm.live (h : Q.Firm k) : Q.Live k := h.imp_right And.left

/-- The first run has come to its end, and the second has not. -/
theorem not_live : ¬ Q.Live k ↔ Q.more ≠ [] ∧ k = .eof := by
  rw [Live, not_or, not_not]

namespace Twins

theorem advance (h : Q.Twins s s') (hl : Q.Live s.current.kind) : Q.Twins s.advance s'.advance := by
  obtain ⟨ts, ts', hs, hs', hsame, hlast⟩ := h.cursor
  have hcursor : s.advance.cursor = s.cursor.advance := rfl
  have hcursor' : s'.advance.cursor = s'.cursor.advance := rfl
  refine ⟨?_, h.diagnostics⟩
  cases hsame with
  | nil =>
    rcases hl with hmore | hk
    · refine ⟨[], [], by rw [hcursor, hs]; rfl, ?_, .nil, by simp⟩
      rw [hcursor', hs', hmore]
      rfl
    · exact absurd (by rw [current, hs]; rfl) hk
  | @cons t t' ts ts' _ hts =>
    refine ⟨ts, ts', by rw [hcursor, hs]; rfl, by rw [hcursor', hs']; rfl, hts, ?_⟩
    intro hmore u hu
    refine hlast hmore u ?_
    cases ts with
    | nil => simp at hu
    | cons v vs => simpa using hu

/-- Both runs see the same current token. -/
theorem current_eq (h : Q.Twins s s') (hl : Q.Live s.current.kind) :
    s'.current.kind = s.current.kind ∧ s'.current.value = s.current.value ∧
      s'.position = Q.place s.position.index := by
  obtain ⟨ts, ts', hs, hs', hsame, -⟩ := h.cursor
  simp only [position, current] at hl ⊢
  rw [hs] at hl ⊢
  rw [hs']
  cases hsame with
  | nil =>
    rcases hl with hmore | hk
    · rw [hmore]
      refine ⟨rfl, rfl, ?_⟩
      show Q.stop = Q.place (Position.tally Q.count).index
      rw [Position.index_tally, Q.place_count hmore]
    · exact absurd rfl hk
  | cons ht _ => exact ⟨ht.kind_eq, ht.value_eq, ht.start_eq⟩

/-- Where the next token is the same, it is of the same kind and at its place. -/
theorem lookahead_eq (h : Q.Twins s s') (hf : Q.Firm s.current.kind) :
    s'.lookahead.kind = s.lookahead.kind ∧
      s'.lookahead.span.start = Q.place s.lookahead.span.start.index := by
  -- the next token is the current one after moving on
  have hlive : Q.Live s.advance.current.kind := by
    rcases hf with hmore | ⟨heof, hsemicolon⟩
    · exact .inl hmore
    · by_cases hmore : Q.more = []
      · exact .inl hmore
      obtain ⟨ts, ts', hs, -, hsame, hlast⟩ := h.cursor
      simp only [current] at heof hsemicolon
      rw [hs] at heof hsemicolon
      right
      rw [current_advance, lookahead, hs]
      cases hsame with
      | nil => exact absurd rfl heof
      | cons _ hts =>
        -- the last token of the first run is a semicolon, and the current one is none
        cases hts with
        | nil => exact absurd (hlast hmore _ rfl) hsemicolon
        | cons ht _ => exact ht.kind_ne (not_early hmore)
  obtain ⟨hk, -, hp⟩ := (h.advance hf.live).current_eq hlive
  exact ⟨hk, hp⟩

/-- Whether a semicolon comes next is the same for both, even where the first run ends. -/
theorem semicolonAhead_eq (h : Q.Twins s s') (hl : Q.Live s.current.kind) :
    s'.lookahead.kind = .semicolon ↔ s.lookahead.kind = .semicolon := by
  by_cases hlive : Q.Live s.advance.current.kind
  · rw [← current_advance, ← current_advance, ((h.advance hl).current_eq hlive).1]
  · -- the second run is at the first of its own tokens
    obtain ⟨hmore, heof⟩ := not_live.mp hlive
    rw [← current_advance, ← current_advance, heof]
    refine iff_of_false (fun hk => ?_) (by decide)
    obtain ⟨ts, ts', hs, hs', hsame, -⟩ := (h.advance hl).cursor
    rw [current, hs] at heof
    rw [current, hs'] at hk
    cases hsame with
    | nil =>
      obtain ⟨t, more, hcons⟩ := List.exists_cons_of_ne_nil hmore
      rw [hcons] at hk
      exact Q.head_more t (by rw [hcons]; rfl) hk
    | cons ht _ => exact ht.kind_ne (not_early hmore) heof

/-- What is found at the end of the first run has the number of the end. -/
theorem index_of_not_live (h : Q.Twins s s') (hl : ¬ Q.Live s.current.kind) :
    s.position.index = Q.count := by
  obtain ⟨ts, ts', hs, -, hsame, -⟩ := h.cursor
  obtain ⟨hmore, heof⟩ := not_live.mp hl
  rw [position, current, hs]
  rw [current, hs] at heof
  cases hsame with
  | nil => exact Position.index_tally Q.count
  | cons ht _ => exact absurd heof (ht.kind_ne (not_early hmore))

theorem record (h : Q.Twins s s') {d d' : Diagnostic} (hd : Q.Same d d') :
    Q.Twins (s.record d) (s'.record d') := by
  obtain ⟨ds, hds, hsame⟩ := h.diagnostics
  refine ⟨h.cursor, ds ++ [d'], ?_, List.rel_append hsame (.cons hd .nil)⟩
  show s'.diagnostics ++ [d'] = _
  rw [hds, List.append_assoc]

end Twins

/-! ### What actions do in both runs -/

variable {α β : Type}

variable (Q) in
/-- The first run has something to say about its end, where the second one goes on. -/
def Lost (m : Action α) (s : State) : Prop :=
  Q.more ≠ [] ∧ ∃ d ∈ told (m.run s), d.position.index = Q.count

variable (Q) in
/-- An action does the same in both runs, unless the first one is lost at its end. -/
inductive Agree (m m' : Action α) (s s' : State) (post : Kind → Prop) : Prop where
  | lost (h : Q.Lost m s)
  | ok {a : α} {t t' : State} (h : m.run s = (.ok a, t)) (h' : m'.run s' = (.ok a, t'))
      (twins : Q.Twins t t') (hpost : post t.current.kind)
  | error {d d' : Diagnostic} {t t' : State} (h : m.run s = (.error d, t))
      (h' : m'.run s' = (.error d', t')) (same : Q.Same d d') (twins : Q.Twins t t')
      (live : Q.Live t.current.kind)

theorem Lost.bind {m : Action α} (h : Q.Lost m s) (f : α → Action β) : Q.Lost (m >>= f) s := by
  obtain ⟨hmore, d, hd, hindex⟩ := h
  refine ⟨hmore, d, ?_, hindex⟩
  rcases hr : m.run s with ⟨e | a, t⟩
  · rw [run_bind_of_error hr]
    rw [hr] at hd
    exact hd
  · rw [run_bind_of_ok hr]
    rw [hr] at hd
    exact (prefix_told (f a) t).subset hd

theorem Lost.of_told_eq {m : Action α} {m₁ : Action β} {t : State} (h : Q.Lost m₁ t)
    (hr : told (m.run s) = told (m₁.run t)) : Q.Lost m s := by
  obtain ⟨hmore, d, hd, hindex⟩ := h
  exact ⟨hmore, d, hr ▸ hd, hindex⟩

/-- A run that is lost in a round is lost. -/
theorem Lost.repeatWhile {again : State → Bool} {body : Action α} (h : Q.Lost body s)
    (progress : Progresses again body) (hs : again s = true) :
    Q.Lost (repeatWhile again body progress) s := by
  have hround := h.bind fun a => Action.repeatWhile again body progress >>= fun as => pure (a :: as)
  exact hround.of_told_eq (congrArg told (run_repeatWhile_of_again progress hs))

/-- What is found at the current token is lost where the first run ends. -/
theorem Twins.lost_failHere (h : Q.Twins s s') (hl : ¬ Q.Live s.current.kind) (c : Cause) :
    Q.Lost (failHere c : Action α) s := by
  refine ⟨(not_live.mp hl).1, ⟨c, s.position⟩, ?_, h.index_of_not_live hl⟩
  rw [run_failHere, told_error]
  exact List.mem_append_right _ List.mem_cons_self

namespace Agree

variable {m m' m₁ m₁' : Action α} {t t' : State} {post post' : Kind → Prop}

theorem of_run_eq (h : Q.Agree m₁ m₁' t t' post) (hr : m.run s = m₁.run t)
    (hr' : m'.run s' = m₁'.run t') : Q.Agree m m' s s' post := by
  cases h with
  | lost h => exact .lost (h.of_told_eq (by rw [hr]))
  | ok h h' twins hpost => exact .ok (hr.trans h) (hr'.trans h') twins hpost
  | error h h' same twins live => exact .error (hr.trans h) (hr'.trans h') same twins live

theorem mono (h : Q.Agree m m' s s' post) (hpost : ∀ k, post k → post' k) :
    Q.Agree m m' s s' post' := by
  cases h with
  | lost h => exact .lost h
  | ok h h' twins hk => exact .ok h h' twins (hpost _ hk)
  | error h h' same twins live => exact .error h h' same twins live

theorem pure (h : Q.Twins s s') (a : α) (hpost : post s.current.kind) :
    Q.Agree (pure a) (pure a) s s' post := .ok rfl rfl h hpost

/-- One action after another. -/
theorem bind {m m' : Action β} {f f' : β → Action α} (h : Q.Agree m m' s s' post)
    (hf : ∀ b t t', Q.Twins t t' → post t.current.kind → Q.Agree (f b) (f' b) t t' post') :
    Q.Agree (m >>= f) (m' >>= f') s s' post' := by
  cases h with
  | lost h => exact .lost (h.bind f)
  | ok h h' twins hpost =>
    exact (hf _ _ _ twins hpost).of_run_eq (run_bind_of_ok h) (run_bind_of_ok h')
  | error h h' same twins live =>
    exact .error (run_bind_of_error h) (run_bind_of_error h') same twins live

/-- The result of an action, changed. -/
theorem bind_pure {m m' : Action β} {f : β → α} (h : Q.Agree m m' s s' post) :
    Q.Agree (m >>= fun b => Pure.pure (f b)) (m' >>= fun b => Pure.pure (f b)) s s' post :=
  h.bind fun b _ _ twins hpost => .pure twins (f b) hpost

theorem state_bind {f f' : State → Action α} (h : Q.Agree (f s) (f' s') s s' post) :
    Q.Agree (state >>= f) (state >>= f') s s' post :=
  h.of_run_eq (run_state_bind f s) (run_state_bind f' s')

theorem advance_bind {f f' : Unit → Action α} (h : Q.Twins s s') (hl : Q.Live s.current.kind)
    (hf : Q.Twins s.advance s'.advance → Q.Agree (f ()) (f' ()) s.advance s'.advance post) :
    Q.Agree (advance >>= f) (advance >>= f') s s' post :=
  (hf (h.advance hl)).of_run_eq (run_advance_bind f s) (run_advance_bind f' s')

theorem currentValue_bind {f g : String → Action α} (h : Q.Twins s s')
    (hl : Q.Live s.current.kind)
    (hf : Q.Agree (f s.current.value) (g s.current.value) s s' post) :
    Q.Agree (currentValue >>= f) (currentValue >>= g) s s' post := by
  refine hf.of_run_eq (run_currentValue_bind f s) ?_
  rw [run_currentValue_bind, (h.current_eq hl).2.1]

/-- What is found at the current token is the same, unless the first run is lost. -/
theorem failHere (h : Q.Twins s s') (c : Cause) :
    Q.Agree (Action.failHere c : Action α) (Action.failHere c) s s' post := by
  by_cases hl : Q.Live s.current.kind
  · exact .error (run_failHere c s) (run_failHere c s') ⟨rfl, (h.current_eq hl).2.2⟩ h hl
  · exact .lost (h.lost_failHere hl c)

theorem expect (h : Q.Twins s s') (hf : Q.Firm s.current.kind) (k : Kind) :
    Q.Agree (Action.expect k) (Action.expect k) s s' (· = k) := by
  obtain ⟨hkind, hstart⟩ := h.lookahead_eq hf
  by_cases hk : s.lookahead.kind = k
  · refine .ok ((run_expect k s).trans (if_pos hk)) ((run_expect k s').trans (if_pos ?_))
      (h.advance hf.live) hk
    rw [hkind, hk]
  · refine .error ((run_expect k s).trans (if_neg hk)) ((run_expect k s').trans (if_neg ?_))
      ⟨?_, hstart⟩ h hf.live
    · rwa [hkind]
    · rw [hkind]

/-- The token that is expected comes next in both runs, or in none. -/
theorem expect_bind {f f' : Unit → Action α} (h : Q.Twins s s') (hf : Q.Firm s.current.kind)
    {k : Kind} (hrest : ∀ t t', Q.Twins t t' → t.current.kind = k →
      Q.Agree (f ()) (f' ()) t t' post) :
    Q.Agree (Action.expect k >>= f) (Action.expect k >>= f') s s' post :=
  (expect h hf k).bind fun _ => hrest

/-- What an action finds is recorded in both runs. -/
theorem attempt (h : Q.Agree m m' s s' Q.Live) : Q.Agree m.attempt m'.attempt s s' Q.Live := by
  cases h with
  | lost h =>
    refine .lost (h.of_told_eq ?_)
    rw [run_attempt]
    rcases m.run s with ⟨_ | _, t⟩ <;> rfl
  | ok h h' twins hpost =>
    exact .ok (by rw [run_attempt, h]) (by rw [run_attempt, h']) twins hpost
  | error h h' same twins live =>
    exact .ok (by rw [run_attempt, h]) (by rw [run_attempt, h']) (twins.record same) live

theorem thenAdvance (h : Q.Agree m m' s s' Q.Live) :
    Q.Agree m.thenAdvance m'.thenAdvance s s' fun _ => True :=
  h.bind fun a _ _ twins hpost => advance_bind twins hpost fun twins => .pure twins a trivial

/-- Leaving notches makes no difference. -/
theorem counted (h : Q.Agree m m' s s' post) : Q.Agree m.counted m' s s' post := by
  obtain ⟨new, hnew⟩ := prefix_told m s
  have htold := told_counted hnew.symm
  cases h with
  | lost h =>
    obtain ⟨hmore, d, hd, hindex⟩ := h
    rw [← hnew, List.mem_append] at hd
    refine .lost ⟨hmore, ?_⟩
    rw [htold]
    -- what was there before has no notch, and what was found has one
    rcases hd with hd | hd
    · exact ⟨d, List.mem_append_left _ hd, hindex⟩
    · exact ⟨d.notch, List.mem_append_right _ (List.mem_map_of_mem hd), by simp [hindex]⟩
  | @ok a t t' h h' twins hpost =>
    obtain ⟨more, hmore⟩ := (m.reaches s).diagnostics
    rw [h] at hmore
    obtain ⟨ds, hds, hsame⟩ := twins.diagnostics
    exact .ok (run_counted h hmore.symm) h'
      ⟨twins.cursor, ds, hds, forall₂_same_notch (hmore ▸ hsame)⟩ hpost
  | @error d d' t t' h h' same twins live =>
    obtain ⟨more, hmore⟩ := (m.reaches s).diagnostics
    rw [h] at hmore
    obtain ⟨ds, hds, hsame⟩ := twins.diagnostics
    exact .error (run_counted h hmore.symm) h' same.notch
      ⟨twins.cursor, ds, hds, forall₂_same_notch (hmore ▸ hsame)⟩ live

/-- Repeated actions agree if each round does, and if both runs go on for as long.  The first run
may also be lost in a round that the second one does not come to. -/
theorem repeatWhile {I : Kind → Prop} {again : State → Bool} {body body' : Action α}
    (progress : Progresses again body) (progress' : Progresses again body')
    (hround : ∀ s s', Q.Twins s s' → I s.current.kind →
      again s = true ∧ Q.Lost body s ∨
        again s' = again s ∧ (again s = true → Q.Agree body body' s s' I))
    (hstop : ∀ s, I s.current.kind → again s = false → post s.current.kind)
    (h : Q.Twins s s') (hs : I s.current.kind) :
    Q.Agree (Action.repeatWhile again body progress) (Action.repeatWhile again body' progress') s s'
      post := by
  induction s using progress.induction generalizing s' with
  | round s ih =>
    rcases hround s s' h hs with ⟨hcall, hlost⟩ | ⟨heq, hbody⟩
    · exact .lost (hlost.repeatWhile progress hcall)
    by_cases hcall : again s = true
    · refine of_run_eq ?_ (run_repeatWhile_of_again progress hcall)
        (run_repeatWhile_of_again progress' (heq.trans hcall))
      cases hbody hcall with
      | lost h => exact .lost (h.bind _)
      | error h h' same twins live =>
        exact .error (run_bind_of_error h) (run_bind_of_error h') same twins live
      | @ok a t t' hr hr' twins ht =>
        -- both runs are at the same token again
        have hrest := ih a t hcall hr twins ht
        exact hrest.bind_pure.of_run_eq (run_bind_of_ok hr) (run_bind_of_ok hr')
    · have hend := hstop s hs (Bool.eq_false_iff.mpr hcall)
      exact (pure h [] hend).of_run_eq (run_repeatWhile_of_not_again progress hcall)
        (run_repeatWhile_of_not_again progress' (heq ▸ hcall))

end Agree

end Sequel

end ExprLang
