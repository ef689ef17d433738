import ExprLang.Proofs.Blame
import ExprLang.Proofs.Passing

/-!
# What an action comes to, or what it finds first

An action is clean if it comes to a result and records nothing.  An action that is made of others is
clean only if these are.  In particular no attempt has failed on the way.

If an action is not clean, then there is something that it finds first.  What is known about the one
and about the other is told together here, because it comes from the same parts: whatever an action
finds first, the parts before it have been clean.

What is found first is about some token.  The words up to this token are there, and more words can
be written after them in place of the token.

## Main definitions

* `Action.Clean m s a t` — from `s` the action comes to `a` at `t`, and records nothing.
* `Action.Yields m s good bad` — `good` holds of a clean end of `m`, and `bad` of what it finds
  first.
* `State.Completes s d ws` — the words up to the token that `d` is about are the first ones of `ws`,
  and the other ones can be written after them.

## Main results

* `Action.Yields.bind`, `Action.Yields.repeatWhile`, … — how these statements are put together.
-/

namespace ExprLang

namespace Action

variable {α β : Type}

/-! ### Clean actions -/

section Clean

variable {s t u : State}

/-- The action comes to a result and records nothing. -/
def Clean (m : Action α) (s : State) (a : α) (t : State) : Prop :=
  m.run s = (.ok a, t) ∧ t.diagnostics = s.diagnostics

theorem clean_pure {a b : α} : (pure a : Action α).Clean s b t ↔ b = a ∧ t = s := by
  constructor
  · rintro ⟨hr, -⟩
    obtain ⟨ha, hs⟩ := Prod.mk.inj hr
    exact ⟨(Except.ok.inj ha).symm, hs.symm⟩
  · rintro ⟨rfl, rfl⟩
    exact ⟨rfl, rfl⟩

/-- Nothing recorded in the end means that nothing was recorded on the way. -/
theorem clean_bind {m : Action α} {f : α → Action β} {b : β} :
    (m >>= f).Clean s b u ↔ ∃ a t, m.Clean s a t ∧ (f a).Clean t b u := by
  constructor
  · rintro ⟨hr, hd⟩
    have hfirst := (m.reaches s).diagnostics
    rcases hm : m.run s with ⟨e | a, t⟩
    · rw [run_bind_of_error hm] at hr
      simp at hr
    · have hthen := ((f a).reaches t).diagnostics
      rw [run_bind_of_ok hm] at hr
      rw [hm] at hfirst
      rw [hr] at hthen
      have hst : t.diagnostics = s.diagnostics :=
        (hd ▸ hthen).eq_of_length_le hfirst.length_le
      exact ⟨a, t, ⟨hm, hst⟩, hr, hd.trans hst.symm⟩
  · rintro ⟨a, t, ⟨hm, hst⟩, hf, htu⟩
    exact ⟨(run_bind_of_ok hm).trans hf, htu.trans hst⟩

/-- A clean attempt is one that succeeded. -/
theorem clean_attempt {m : Action α} {a : Option α} :
    m.attempt.Clean s a t ↔ ∃ b, a = some b ∧ m.Clean s b t := by
  unfold Clean
  rw [run_attempt]
  have hm := (m.reaches s).diagnostics
  rcases hr : m.run s with ⟨e | b, u⟩
  · rw [hr] at hm
    constructor
    · rintro ⟨hu, hd⟩
      -- a failure would have been recorded
      obtain ⟨-, rfl⟩ := Prod.mk.inj hu
      have hmore : u.diagnostics ++ [e] = s.diagnostics := hd
      have hlen : s.diagnostics.length ≤ u.diagnostics.length := hm.length_le
      rw [← hmore, List.length_append, List.length_singleton] at hlen
      omega
    · rintro ⟨b, -, hb, -⟩
      simp at hb
  · constructor
    · rintro ⟨hu, hd⟩
      obtain ⟨ha, rfl⟩ := Prod.mk.inj hu
      exact ⟨b, (Except.ok.inj ha).symm, rfl, hd⟩
    · rintro ⟨c, rfl, hc, hd⟩
      obtain ⟨hb, rfl⟩ := Prod.mk.inj hc
      exact ⟨by rw [Except.ok.inj hb], hd⟩

end Clean

/-! ### What an action yields -/

/-- A clean end of the action is `good`, and what the action finds first is `bad`. -/
structure Yields (m : Action α) (s : State) (good : α → State → Prop) (bad : Diagnostic → Prop) :
    Prop where
  of_clean : ∀ a t, m.Clean s a t → good a t
  of_told : ∀ d rest, told (m.run s) = s.diagnostics ++ d :: rest → bad d

namespace Yields

variable {m : Action α} {s t : State} {good good' : α → State → Prop}
  {bad bad' : Diagnostic → Prop}

theorem mono (h : m.Yields s good bad) (hgood : ∀ a t, good a t → good' a t)
    (hbad : ∀ d, bad d → bad' d) : m.Yields s good' bad' :=
  ⟨fun a t hc => hgood a t (h.of_clean a t hc), fun d rest hd => hbad d (h.of_told d rest hd)⟩

theorem of_run_eq {m' : Action α} (h : m'.Yields t good bad) (hr : m.run s = m'.run t)
    (hd : t.diagnostics = s.diagnostics) : m.Yields s good bad where
  of_clean a u hc := h.of_clean a u ⟨hr ▸ hc.1, hd.symm ▸ hc.2⟩
  of_told d rest htold := h.of_told d rest (by rw [← hr, hd, htold])

theorem pure {a : α} (h : good a s) : (pure a : Action α).Yields s good bad where
  of_clean b t hc := by
    obtain ⟨rfl, rfl⟩ := clean_pure.mp hc
    exact h
  of_told d rest htold := by
    rw [run_pure, told_ok] at htold
    simp at htold

/-- One action after another.  If the first one is not clean, then what it finds is found first. -/
theorem bind {m : Action β} {f : β → Action α} {good' : β → State → Prop}
    (h : m.Yields s good' bad') (hbad : ∀ d, bad' d → bad d)
    (hf : ∀ b t, good' b t → (f b).Yields t good bad) : (m >>= f).Yields s good bad where
  of_clean a u hc := by
    obtain ⟨b, t, hm, hrest⟩ := clean_bind.mp hc
    exact (hf b t (h.of_clean b t hm)).of_clean a u hrest
  of_told d rest htold := by
    obtain ⟨new, hnew⟩ := (m.reaches s).diagnostics
    rcases hr : m.run s with ⟨e | b, t⟩
    · rw [run_bind_of_error hr] at htold
      exact hbad d (h.of_told d rest (by rw [hr]; exact htold))
    · rw [run_bind_of_ok hr] at htold
      rw [hr] at hnew
      cases new with
      | nil =>
        -- the first action was clean, so the second one finds it
        rw [List.append_nil] at hnew
        rw [hnew] at htold
        exact (hf b t (h.of_clean b t ⟨hr, hnew.symm⟩)).of_told d rest htold
      | cons d' new =>
        obtain ⟨more, hmore⟩ := prefix_told (f b) t
        rw [← hmore, ← hnew, List.append_assoc, List.append_cancel_left_eq] at htold
        obtain rfl : d' = d := (List.cons.inj htold).1
        exact hbad d' (h.of_told d' new (by rw [hr, told_ok, hnew]))

/-- The result of an action, changed. -/
theorem bind_pure {m : Action β} {f : β → α} {good' : β → State → Prop}
    (h : m.Yields s good' bad') (hbad : ∀ d, bad' d → bad d)
    (hf : ∀ b t, good' b t → good (f b) t) :
    (m >>= fun b => Pure.pure (f b)).Yields s good bad :=
  h.bind hbad fun b t hb => pure (hf b t hb)

theorem state_bind {f : State → Action α} (h : (f s).Yields s good bad) :
    (state >>= f).Yields s good bad :=
  h.of_run_eq (run_state_bind f s) rfl

theorem advance_bind {f : Unit → Action α} (h : (f ()).Yields s.advance good bad) :
    (advance >>= f).Yields s good bad :=
  h.of_run_eq (run_advance_bind f s) rfl

theorem currentValue_bind {f : String → Action α} (h : (f s.current.value).Yields s good bad) :
    (currentValue >>= f).Yields s good bad :=
  h.of_run_eq (run_currentValue_bind f s) rfl

theorem fail {d : Diagnostic} (h : bad d) : (fail d : Action α).Yields s good bad where
  of_clean a t hc := by simp [Clean] at hc
  of_told e rest htold := by
    rw [run_fail, told_error, List.append_cancel_left_eq] at htold
    exact (List.cons.inj htold).1 ▸ h

theorem failHere {c : Cause} (h : bad ⟨c, s.position⟩) :
    (failHere c : Action α).Yields s good bad :=
  state_bind (fail h)

theorem expect {k : Kind} {good : Unit → State → Prop}
    (hfail : ∀ c, bad ⟨c, s.advance.position⟩)
    (h : s.advance.current.kind = k → good () s.advance) : (expect k).Yields s good bad := by
  refine state_bind ?_
  split
  · next hk => exact (pure (a := ()) (h hk)).of_run_eq (t := s.advance) rfl rfl
  · exact fail (hfail _)

/-- The token that is expected comes next, or else the one that does is to blame. -/
theorem expect_bind {k : Kind} {f : Unit → Action α} (hfail : ∀ c, bad ⟨c, s.advance.position⟩)
    (h : s.advance.current.kind = k → (f ()).Yields s.advance good bad) :
    (Action.expect k >>= f).Yields s good bad :=
  have hnext : (Action.expect k).Yields s (fun _ t => t = s.advance ∧ t.current.kind = k) bad :=
    expect hfail fun hk => ⟨rfl, hk⟩
  hnext.bind (fun _ h => h) fun _ _ ht => ht.1 ▸ h (ht.1 ▸ ht.2)

theorem attempt (h : m.Yields s good bad) :
    m.attempt.Yields s (fun o t => ∃ a, o = some a ∧ good a t) bad where
  of_clean o t hc := by
    obtain ⟨a, rfl, ha⟩ := clean_attempt.mp hc
    exact ⟨a, rfl, h.of_clean a t ha⟩
  of_told d rest htold := by
    refine h.of_told d rest (htold ▸ ?_)
    rw [run_attempt]
    rcases m.run s with ⟨_ | _, t⟩ <;> rfl

theorem thenAdvance (h : m.Yields s good bad) :
    m.thenAdvance.Yields s (fun a t => ∃ u, good a u ∧ t = u.advance) bad :=
  h.bind (fun _ h => h) fun _ t ha => advance_bind (pure ⟨t, ha, rfl⟩)

/-- The rounds of a repeated action, each of which leads on as `R` says.  What is found first is
found in a round after clean ones. -/
theorem repeatWhile {again : State → Bool} {body : Action α} (progress : Progresses again body)
    {R : State → α → State → Prop} {good : State → List α → State → Prop}
    {bad : State → Diagnostic → Prop}
    (hround : ∀ s, again s = true → body.Yields s (R s) (bad s))
    (hnil : ∀ s, again s = false → good s [] s)
    (hcons : ∀ s a u as t, R s a u → good u as t → good s (a :: as) t)
    (hlater : ∀ s a u d, R s a u → bad u d → bad s d) (s : State) :
    (Action.repeatWhile again body progress).Yields s (good s) (bad s) := by
  induction s using progress.induction with
  | round s ih =>
    by_cases hs : again s = true
    · refine of_run_eq ?_ (run_repeatWhile_of_again progress hs) rfl
      have hbody : body.Yields s (fun a u => R s a u ∧ body.run s = (.ok a, u)) (bad s) :=
        ⟨fun a u hc => ⟨(hround s hs).of_clean a u hc, hc.1⟩, (hround s hs).of_told⟩
      refine hbody.bind (fun _ h => h) fun a u ⟨ha, hr⟩ => ?_
      have hrest := ih a u hs hr
      exact hrest.bind_pure (fun d => hlater s a u d ha) fun as t => hcons s a u as t ha
    · have hend := hnil s (Bool.eq_false_iff.mpr hs)
      exact (pure hend).of_run_eq (run_repeatWhile_of_not_again progress hs) rfl

/-- Leaving notches changes nothing but the notches. -/
theorem counted (h : m.Yields s good bad) (hbad : ∀ d, bad d → bad' d.notch) :
    m.counted.Yields s good bad' where
  of_clean a t hc := by
    obtain ⟨hr, hd⟩ := hc
    obtain ⟨new, hnew⟩ := (m.reaches s).diagnostics
    rcases hm : m.run s with ⟨e | b, u⟩
    · rw [run_counted hm (by rw [hm] at hnew; exact hnew.symm)] at hr
      have herror : Except.error e.notch = Except.ok a := (Prod.mk.inj hr).1
      cases herror
    · rw [hm] at hnew
      rw [run_counted hm hnew.symm] at hr
      obtain ⟨hb, rfl⟩ := Prod.mk.inj hr
      -- no notch was left, so nothing was found
      have hnil : new = [] := by simpa using hd
      rw [hnil, List.append_nil] at hnew
      have hu : (⟨u.cursor, s.diagnostics ++ new.map Diagnostic.notch⟩ : State) = u := by
        rw [hnil, List.map_nil, List.append_nil, hnew]
      rw [hu]
      exact h.of_clean a u ⟨hm.trans (by rw [Except.ok.inj hb]), hnew.symm⟩
  of_told d rest htold := by
    obtain ⟨new, hnew⟩ := prefix_told m s
    rw [told_counted hnew.symm, List.append_cancel_left_eq] at htold
    obtain ⟨e, more, rfl, rfl, -⟩ := List.map_eq_cons_iff.mp htold
    exact hbad e (h.of_told e more hnew.symm)

end Yields

end Action

/-! ### Words that complete what is there -/

/-- A token with the text of a word, at no place in particular. -/
def Word.token (w : Word) : Token := ⟨w.kind, w.text, default⟩

/-- There are tokens that amount to the word. -/
def Word.Writable (w : Word) : Prop := w.kind ≠ .eof ∧ w.token.word = w

instance (w : Word) : Decidable w.Writable := inferInstanceAs (Decidable (_ ∧ _))

/-- Words that are written amount to themselves. -/
theorem Word.map_word_token {ws : List Word} (h : ∀ w ∈ ws, w.Writable) :
    (ws.map token).map Token.word = ws := by
  rw [List.map_map]
  calc ws.map (Token.word ∘ token) = ws.map id := List.map_congr_left fun w hw => (h w hw).2
    _ = ws := List.map_id ws

/-- None of the words that are written stands for the end. -/
theorem Word.ne_eof_of_mem_map_token {ws : List Word} (h : ∀ w ∈ ws, w.Writable) :
    ∀ t ∈ ws.map token, t.kind ≠ .eof := by
  intro t ht
  obtain ⟨w, hw, rfl⟩ := List.mem_map.mp ht
  exact (h w hw).1

namespace State

/-- From the current token up to the one that the diagnostic is about, the first ones of the words
are passed, and the other ones can be written after them. -/
def Completes (s : State) (d : Diagnostic) (ws : List Word) : Prop :=
  ∃ x vs more, s.Passes vs x ∧ x.position.index = d.position.index ∧ vs ++ more = ws ∧
    ∀ w ∈ more, w.Writable

namespace Completes

variable {s t : State} {d : Diagnostic} {ws us : List Word}

/-- The current token is to blame, and all the words can be written. -/
theorem here (hd : s.position.index = d.position.index) (h : ∀ w ∈ ws, w.Writable) :
    s.Completes d ws := ⟨s, [], ws, rfl, hd, rfl, h⟩

theorem after (hs : s.Passes us t) (h : t.Completes d ws) : s.Completes d (us ++ ws) := by
  obtain ⟨x, vs, more, hx, hd, rfl, hmore⟩ := h
  exact ⟨x, us ++ vs, more, hs.trans hx, hd, List.append_assoc us vs more, hmore⟩

theorem append (h : s.Completes d ws) (hus : ∀ w ∈ us, w.Writable) :
    s.Completes d (ws ++ us) := by
  obtain ⟨x, vs, more, hx, hd, rfl, hmore⟩ := h
  refine ⟨x, vs, more ++ us, hx, hd, (List.append_assoc vs more us).symm, ?_⟩
  exact List.forall_mem_append.mpr ⟨hmore, hus⟩

theorem notch (h : s.Completes d ws) : s.Completes d.notch ws := by
  obtain ⟨x, vs, more, hx, hd, hws, hmore⟩ := h
  exact ⟨x, vs, more, hx, by simpa using hd, hws, hmore⟩

/-- Either nothing comes before the token to blame, or the first word is that of the current
token. -/
theorem head (h : s.Completes d ws) : s.position.index = d.position.index ∨
    ∀ w ∈ ws.head?, w.kind = s.current.kind := by
  obtain ⟨x, vs, more, hx, hd, rfl, -⟩ := h
  cases vs with
  | nil => exact .inl (passes_nil.mp hx ▸ hd)
  | cons v vs =>
    right
    intro w hw
    obtain rfl : v = w := Option.some.inj hw
    exact hx.kind_eq.symm

end Completes

end State

end ExprLang
