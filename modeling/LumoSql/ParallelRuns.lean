import LumoSql.StateLogic

/-! Computations that run on two related states at once and cannot tell them apart, runs together with
what their steps have returned, and the part of a run that belongs to one component. -/
namespace LumoSql.StateLogic

variable {σ τ ε α β κ κ' : Type}

section Results

variable {m : Prog σ ε α} {f : α → Prog σ ε β} {s s' : σ} {a : α}

theorem bind_of_ok (h : m s = .ok (a, s')) : (m >>= f) s = f a s' := by simp only [bind, h]

theorem bind_of_error {e : ε} (h : m s = .error e) : (m >>= f) s = .error e := by simp only [bind, h]

theorem of_map_ok {g : α → β} {b : β} (h : (g <$> m) s = .ok (b, s')) : ∃ a, m s = .ok (a, s') ∧ b = g a := by
  have hmap : (g <$> m) = m >>= fun a => pure (g a) := rfl
  rw [hmap] at h
  cases hm : m s with
  | ok r =>
    rw [bind_of_ok hm] at h
    cases h
    exact ⟨r.1, rfl, rfl⟩
  | error e =>
    rw [bind_of_error hm] at h
    cases h

theorem bind_return (m : Prog σ ε α) : (m >>= pure) = m := by
  funext s
  cases h : m s with
  | ok r => exact bind_of_ok h
  | error e => exact bind_of_error h

theorem zoom_of_ok {get : τ → σ} {set : τ → σ → τ} {t : τ} (h : m (get t) = .ok (a, s)) :
    Prog.zoom get set m t = .ok (a, set t s) := by
  rw [Prog.zoom, h]

theorem zoom_of_error {get : τ → σ} {set : τ → σ → τ} {t : τ} {e : ε} (h : m (get t) = .error e) :
    Prog.zoom get set m t = .error e := by
  rw [Prog.zoom, h]

end Results

/-- The same result with related states, or the same stop. -/
inductive Matched (R : σ → τ → Prop) : Except ε (α × σ) → Except ε (α × τ) → Prop
  | ok {a : α} {s : σ} {t : τ} (h : R s t) : Matched R (.ok (a, s)) (.ok (a, t))
  | error (e : ε) : Matched R (.error e) (.error e)

theorem Matched.of_ok {R : σ → τ → Prop} {r : Except ε (α × σ)} {r' : Except ε (α × τ)} (h : Matched R r r') {a : α} {s : σ}
    (hr : r = .ok (a, s)) : ∃ t, r' = .ok (a, t) ∧ R s t := by
  cases h with
  | ok h =>
    cases hr
    exact ⟨_, rfl, h⟩
  | error e => cases hr

theorem Matched.of_error {R : σ → τ → Prop} {r : Except ε (α × σ)} {r' : Except ε (α × τ)} (h : Matched R r r') {e : ε}
    (hr : r = .error e) : r' = .error e := by
  cases h with
  | ok h => cases hr
  | error e =>
    cases hr
    rfl

/-- The computation does the same from related states. -/
def Mirrors (R : σ → σ → Prop) (m : Prog σ ε α) : Prop := ∀ s t, R s t → Matched R (m s) (m t)

section Rules

variable {R : σ → σ → Prop}

theorem Mirrors.pure (a : α) : Mirrors R (pure a : Prog σ ε α) := fun _ _ h => .ok h

theorem Mirrors.halt (e : ε) : Mirrors R (Prog.halt e : Prog σ ε α) := fun _ _ _ => .error e

theorem Mirrors.modify {f : σ → σ} (h : ∀ s t, R s t → R (f s) (f t)) : Mirrors R (Prog.modify f : Prog σ ε Unit) :=
  fun s t hst => .ok (h s t hst)

theorem Mirrors.ite {c : Prop} [Decidable c] {m m' : Prog σ ε α} (h : Mirrors R m) (h' : Mirrors R m') :
    Mirrors R (if c then m else m') := by
  by_cases hc : c
  · rw [if_pos hc]
    exact h
  · rw [if_neg hc]
    exact h'

theorem Matched.bind {m : Prog σ ε α} {f : α → Prog σ ε β} {s t : σ} (h : Matched R (m s) (m t)) (h' : ∀ a, Mirrors R (f a)) :
    Matched R ((m >>= f) s) ((m >>= f) t) := by
  cases hs : m s with
  | ok r =>
    obtain ⟨t', ht, hst⟩ := h.of_ok hs
    rw [bind_of_ok hs, bind_of_ok ht]
    exact h' r.1 _ _ hst
  | error e =>
    rw [bind_of_error hs, bind_of_error (h.of_error hs)]
    exact .error e

theorem Mirrors.bind {m : Prog σ ε α} {f : α → Prog σ ε β} (h : Mirrors R m) (h' : ∀ a, Mirrors R (f a)) :
    Mirrors R (m >>= f) := fun s t hst => (h s t hst).bind h'

theorem read_bind_apply (g : σ → β) (f : β → Prog σ ε α) (s : σ) : (Prog.read g >>= f) s = f (g s) s := rfl

/-- What is read may differ if what is done with it does not. -/
theorem Mirrors.read_bind {g : σ → β} {f : β → Prog σ ε α} (hg : ∀ s t, R s t → f (g s) = f (g t)) (h : ∀ b, Mirrors R (f b)) :
    Mirrors R (Prog.read g >>= f) := by
  intro s t hst
  rw [read_bind_apply, read_bind_apply, ← hg s t hst]
  exact h _ s t hst

/-- From two related states it is enough to do the same there. -/
theorem Mirrors.of_state {m : Prog σ ε α} (h : ∀ s t, R s t → ∃ m', Mirrors R m' ∧ m s = m' s ∧ m t = m' t) : Mirrors R m := by
  intro s t hst
  obtain ⟨m', hm, hs, ht⟩ := h s t hst
  rw [hs, ht]
  exact hm s t hst

theorem Mirrors.read {g : σ → α} (hg : ∀ s t, R s t → g s = g t) : Mirrors R (Prog.read g : Prog σ ε α) := by
  intro s t hst
  have hread : ∀ s, (Prog.read g : Prog σ ε α) s = .ok (g s, s) := fun _ => rfl
  rw [hread, hread, hg s t hst]
  exact .ok hst

theorem Mirrors.map {m : Prog σ ε α} (f : α → β) (h : Mirrors R m) : Mirrors R (f <$> m) := h.bind fun a => .pure (f a)

theorem Mirrors.zoom {T : τ → τ → Prop} {get : τ → σ} {set : τ → σ → τ} {m : Prog σ ε α} (h : Mirrors R m)
    (hget : ∀ t t', T t t' → R (get t) (get t')) (hset : ∀ t t' s s', T t t' → R s s' → T (set t s) (set t' s')) :
    Mirrors T (Prog.zoom get set m) := by
  intro t t' htt'
  have hm := h _ _ (hget t t' htt')
  cases hr : m (get t) with
  | ok r =>
    obtain ⟨s', hr', hs⟩ := hm.of_ok hr
    rw [zoom_of_ok hr, zoom_of_ok hr']
    exact .ok (hset _ _ _ _ htt' hs)
  | error e =>
    rw [zoom_of_error hr, zoom_of_error (hm.of_error hr)]
    exact .error e

end Rules

section Traces

variable (step : κ → Prog σ ε α) (cond : κ → α → σ → Prop)

/-- A run with the results of its steps. -/
inductive Trace : σ → List (κ × α) → σ → Prop
  | nil (s : σ) : Trace s [] s
  | cons {s s' s'' : σ} {k : κ} {a : α} {ks : List (κ × α)} (hcond : cond k a s) (hstep : step k s = .ok (a, s'))
      (hrest : Trace s' ks s'') : Trace s ((k, a) :: ks) s''

variable {step cond} {s s' s'' : σ}

/-- The steps of a component, with their results. -/
def ownSteps (own : κ → Option κ') (ks : List (κ × α)) : List (κ' × α) :=
  ks.filterMap fun k => (own k.1).map fun k' => (k', k.2)

/-- When the component does on its own state what it does in the whole, and does not notice the steps of others, it
gets in the whole what it gets when it is alone. -/
theorem Trace.project (step' : κ' → Prog τ ε α) (own : κ → Option κ') (R : σ → τ → Prop)
    (hown : ∀ k k' a s s' t, R s t → cond k a s → own k = some k' → step k s = .ok (a, s') →
      ∃ t', step' k' t = .ok (a, t') ∧ R s' t')
    (hother : ∀ k a s s' t, R s t → cond k a s → own k = none → step k s = .ok (a, s') → R s' t)
    {ks : List (κ × α)} (h : Trace step cond s ks s') {t : τ} (hst : R s t) :
    ∃ t', Trace step' (fun _ _ _ => True) t (ownSteps own ks) t' ∧ R s' t' := by
  induction h generalizing t with
  | nil s => exact ⟨t, .nil t, hst⟩
  | @cons s s₁ s' k a ks hcond hstep _ ih =>
    cases hk : own k with
    | none =>
      obtain ⟨t', htrace, hR⟩ := ih (hother k a s s₁ t hst hcond hk hstep)
      refine ⟨t', ?_, hR⟩
      simpa [ownSteps, hk] using htrace
    | some k' =>
      obtain ⟨t₁, hstep', hR₁⟩ := hown k k' a s s₁ t hst hcond hk hstep
      obtain ⟨t', htrace, hR⟩ := ih hR₁
      refine ⟨t', ?_, hR⟩
      have hcons : ownSteps own ((k, a) :: ks) = (k', a) :: ownSteps own ks := by simp [ownSteps, hk]
      rw [hcons]
      exact .cons trivial hstep' htrace

end Traces

end LumoSql.StateLogic
