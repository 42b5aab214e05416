import Mathlib.Tactic.Common

/-! Computations on a state that may stop, what they ensure, and runs of such computations.
The rules push a statement about a composed computation down to its parts. -/
namespace LumoSql.StateLogic

/-- A computation that ends with a result and a new state, or stops with `ε`. -/
def Prog (σ ε α : Type) : Type := σ → Except ε (α × σ)

variable {σ τ ε α β κ : Type}

namespace Prog

instance : Monad (Prog σ ε) where
  pure a := fun s => .ok (a, s)
  bind m f := fun s =>
    match m s with
    | .ok (a, s') => f a s'
    | .error e => .error e

def halt (e : ε) : Prog σ ε α := fun _ => .error e

def read (f : σ → α) : Prog σ ε α := fun s => .ok (f s, s)

def modify (f : σ → σ) : Prog σ ε Unit := fun s => .ok ((), f s)

/-- Run a computation on a part of the state. -/
def zoom (get : τ → σ) (set : τ → σ → τ) (m : Prog σ ε α) : Prog τ ε α := fun t =>
  match m (get t) with
  | .ok (a, s) => .ok (a, set t s)
  | .error e => .error e

theorem pure_bind (a : α) (f : α → Prog σ ε β) : (pure a >>= f) = f a := rfl

theorem bind_assoc {γ : Type} (m : Prog σ ε α) (f : α → Prog σ ε β) (g : β → Prog σ ε γ) :
    (m >>= f >>= g) = m >>= fun a => f a >>= g := by
  funext s
  have hbind : ∀ {δ : Type} (m : Prog σ ε α) (f : α → Prog σ ε δ), (m >>= f) s = match m s with
    | .ok (a, s') => f a s'
    | .error e => .error e := fun _ _ => rfl
  have hbind' : (m >>= f >>= g) s = match (m >>= f) s with
    | .ok (a, s') => g a s'
    | .error e => .error e := rfl
  rw [hbind', hbind, hbind]
  cases m s with
  | ok p => rfl
  | error e => rfl

end Prog

/-- Every result satisfies `Q`, and a computation that stops does so with `E`. -/
def Ensures (E : ε → Prop) (m : Prog σ ε α) (Q : α → σ → Prop) (s : σ) : Prop :=
  match m s with
  | .ok (a, s') => Q a s'
  | .error e => E e

variable {E E' : ε → Prop} {Q Q' : α → σ → Prop} {s s' : σ}

theorem Ensures.of_ok {m : Prog σ ε α} {a : α} (h : Ensures E m Q s) (hm : m s = .ok (a, s')) :
    Q a s' := by
  rw [Ensures, hm] at h
  exact h

theorem Ensures.of_error {m : Prog σ ε α} {e : ε} (h : Ensures E m Q s) (hm : m s = .error e) :
    E e := by
  rw [Ensures, hm] at h
  exact h

theorem ensures_iff {m : Prog σ ε α} :
    Ensures E m Q s ↔
      (∀ a s', m s = .ok (a, s') → Q a s') ∧ ∀ e, m s = .error e → E e := by
  rw [Ensures]
  cases m s with
  | ok p =>
    obtain ⟨a, s'⟩ := p
    constructor
    · rintro h
      exact ⟨fun a' s'' heq => by cases heq; exact h, fun e heq => by cases heq⟩
    · exact fun h => h.1 a s' rfl
  | error e => simp

theorem ensures_of_ok {m : Prog σ ε α} {a : α} (hm : m s = .ok (a, s')) (h : Q a s') :
    Ensures E m Q s := by
  rw [Ensures, hm]
  exact h

/-- A computation that never stops has a result. -/
theorem Ensures.result {m : Prog σ ε α} (h : Ensures (fun _ => False) m Q s) :
    ∃ a s', m s = .ok (a, s') ∧ Q a s' := by
  cases hm : m s with
  | ok p => exact ⟨p.1, p.2, rfl, h.of_ok hm⟩
  | error e => exact (h.of_error hm).elim

theorem Ensures.mono {m : Prog σ ε α} (h : Ensures E m Q s) (hQ : ∀ a s', Q a s' → Q' a s')
    (hE : ∀ e, E e → E' e) : Ensures E' m Q' s := by
  rw [ensures_iff] at h ⊢
  exact ⟨fun a s' hm => hQ a s' (h.1 a s' hm), fun e hm => hE e (h.2 e hm)⟩

theorem Ensures.imp {m : Prog σ ε α} (h : Ensures E m Q s) (hQ : ∀ a s', Q a s' → Q' a s') :
    Ensures E m Q' s :=
  h.mono hQ fun _ he => he

theorem Ensures.and {m : Prog σ ε α} (h : Ensures E m Q s) (h' : Ensures E m Q' s) :
    Ensures E m (fun a s' => Q a s' ∧ Q' a s') s := by
  rw [ensures_iff] at h h' ⊢
  exact ⟨fun a s' hm => ⟨h.1 a s' hm, h'.1 a s' hm⟩, h.2⟩

/-- What holds of every result, whether the computation may stop or not. -/
theorem Ensures.with {m : Prog σ ε α} (h : Ensures E m Q s) (h' : Ensures E' m Q' s) :
    Ensures E m (fun a s' => Q a s' ∧ Q' a s') s := by
  rw [ensures_iff] at h h' ⊢
  exact ⟨fun a s' hm => ⟨h.1 a s' hm, h'.1 a s' hm⟩, h.2⟩

@[simp] theorem ensures_pure (a : α) : Ensures E (pure a : Prog σ ε α) Q s ↔ Q a s := Iff.rfl

@[simp] theorem ensures_bind (m : Prog σ ε α) (f : α → Prog σ ε β) (Q : β → σ → Prop) :
    Ensures E (m >>= f) Q s ↔ Ensures E m (fun a s' => Ensures E (f a) Q s') s := by
  have hbind : (m >>= f) s = match m s with
    | .ok (a, s') => f a s'
    | .error e => .error e := rfl
  rw [Ensures, hbind, Ensures]
  cases m s with
  | ok p => rfl
  | error e => rfl

@[simp] theorem ensures_halt (e : ε) : Ensures E (Prog.halt e : Prog σ ε α) Q s ↔ E e := Iff.rfl

@[simp] theorem ensures_read (f : σ → α) : Ensures E (Prog.read f : Prog σ ε α) Q s ↔ Q (f s) s :=
  Iff.rfl

@[simp] theorem ensures_modify (f : σ → σ) (Q : Unit → σ → Prop) :
    Ensures E (Prog.modify f : Prog σ ε Unit) Q s ↔ Q () (f s) := Iff.rfl

@[simp] theorem ensures_zoom (get : τ → σ) (set : τ → σ → τ) (m : Prog σ ε α)
    (Q : α → τ → Prop) (t : τ) :
    Ensures E (Prog.zoom get set m) Q t ↔ Ensures E m (fun a s => Q a (set t s)) (get t) := by
  rw [Ensures, Ensures, Prog.zoom]
  cases m (get t) with
  | ok p => rfl
  | error e => rfl

@[simp] theorem ensures_ite (c : Prop) [Decidable c] (m m' : Prog σ ε α) :
    Ensures E (if c then m else m') Q s ↔ if c then Ensures E m Q s else Ensures E m' Q s := by
  split_ifs <;> rfl

theorem Ensures.ite {c : Prop} [Decidable c] {m m' : Prog σ ε α} (h : c → Ensures E m Q s)
    (h' : ¬ c → Ensures E m' Q s) : Ensures E (if c then m else m') Q s := by
  by_cases hc : c
  · rw [if_pos hc]
    exact h hc
  · rw [if_neg hc]
    exact h' hc

section Frames

/-- What relates the states before and after computations that follow each other. -/
class Frame (R : σ → σ → Prop) : Prop where
  refl : ∀ s, R s s
  trans : ∀ {s₁ s₂ s₃}, R s₁ s₂ → R s₂ s₃ → R s₁ s₃

/-- Every result leaves a state related to the one before. -/
def Keeps (R : σ → σ → Prop) (m : Prog σ ε α) : Prop :=
  ∀ s, Ensures (fun _ => True) m (fun _ s' => R s s') s

variable {R : σ → σ → Prop}

theorem Ensures.keep {m : Prog σ ε α} (h : Ensures E m Q s) (hk : Keeps R m) :
    Ensures E m (fun a s' => Q a s' ∧ R s s') s := by
  rw [ensures_iff] at h ⊢
  exact ⟨fun a s' hm => ⟨h.1 a s' hm, (hk s).of_ok hm⟩, h.2⟩

theorem Keeps.modify {f : σ → σ} (h : ∀ s, R s (f s)) : Keeps R (Prog.modify f : Prog σ ε Unit) := h

theorem Keeps.zoom {T : τ → τ → Prop} {get : τ → σ} {set : τ → σ → τ} {m : Prog σ ε α}
    (h : Keeps R m) (hset : ∀ t s, R (get t) s → T t (set t s)) :
    Keeps T (Prog.zoom get set m) := by
  intro t
  rw [ensures_zoom]
  exact (h (get t)).imp fun _ s' hs => hset t s' hs

theorem Keeps.halt (e : ε) : Keeps R (Prog.halt e : Prog σ ε α) := fun _ => trivial

theorem Keeps.ite {c : Prop} [Decidable c] {m m' : Prog σ ε α} (h : Keeps R m) (h' : Keeps R m') :
    Keeps R (if c then m else m') := fun s => .ite (fun _ => h s) fun _ => h' s

variable [Frame R]

theorem Keeps.pure (a : α) : Keeps R (pure a : Prog σ ε α) := fun s =>
  Frame.refl (R := R) s

theorem Keeps.read (f : σ → α) : Keeps R (Prog.read f : Prog σ ε α) := fun s =>
  Frame.refl (R := R) s

theorem Keeps.bind {m : Prog σ ε α} {f : α → Prog σ ε β} (h : Keeps R m) (h' : ∀ a, Keeps R (f a)) :
    Keeps R (m >>= f) := by
  intro s
  rw [ensures_bind]
  exact (h s).imp fun a s' hs => ((h' a) s').imp fun _ _ hs' => Frame.trans hs hs'

end Frames

section Parts

/-- Computations put together from the parts `P`. -/
inductive Built (P : (α : Type) → Prog σ ε α → Prop) : {α : Type} → Prog σ ε α → Prop
  | part {α : Type} {m : Prog σ ε α} (h : P α m) : Built P m
  | pure {α : Type} (a : α) : Built P (pure a : Prog σ ε α)
  | halt {α : Type} (e : ε) : Built P (Prog.halt e : Prog σ ε α)
  | read {α : Type} (f : σ → α) : Built P (Prog.read f)
  | bind {α β : Type} {m : Prog σ ε α} {f : α → Prog σ ε β} (h : Built P m) (h' : ∀ a, Built P (f a)) :
      Built P (m >>= f)
  | ite {α : Type} {c : Prop} [Decidable c] {m m' : Prog σ ε α} (h : Built P m) (h' : Built P m') :
      Built P (if c then m else m')

variable {P P' : (α : Type) → Prog σ ε α → Prop}

/-- What every part keeps is kept by the whole. -/
theorem Built.keeps {R : σ → σ → Prop} [Frame R] {m : Prog σ ε α} (h : Built P m)
    (hP : ∀ {α : Type} {m : Prog σ ε α}, P α m → Keeps R m) : Keeps R m := by
  induction h with
  | part h => exact hP h
  | pure a => exact .pure a
  | halt e => exact .halt e
  | read f => exact .read f
  | bind _ _ ih ih' => exact ih.bind ih'
  | ite _ _ ih ih' => exact ih.ite ih'

/-- Parts that are put together from smaller ones. -/
theorem Built.trans {m : Prog σ ε α} (h : Built P m)
    (hP : ∀ {α : Type} {m : Prog σ ε α}, P α m → Built P' m) : Built P' m := by
  induction h with
  | part h => exact hP h
  | pure a => exact .pure a
  | halt e => exact .halt e
  | read f => exact .read f
  | bind _ _ ih ih' => exact ih.bind ih'
  | ite _ _ ih ih' => exact ih.ite ih'

theorem Built.mono {m : Prog σ ε α} (h : Built P m) (hP : ∀ {α : Type} {m : Prog σ ε α}, P α m → P' α m) :
    Built P' m := h.trans fun h => .part (hP h)

end Parts

section Runs

variable (step : κ → Prog σ ε α) (cond : κ → σ → Prop)

/-- Calls that all return, each made in a state that meets its condition. -/
inductive Run : σ → List κ → σ → Prop
  | nil (s : σ) : Run s [] s
  | cons {s s' s'' : σ} {k : κ} {ks : List κ} {a : α} (hcond : cond k s)
      (hstep : step k s = .ok (a, s')) (hrest : Run s' ks s'') : Run s (k :: ks) s''

/-- Make the calls one after the other. -/
def Prog.sequence : List κ → Prog σ ε Unit
  | [] => pure ()
  | k :: ks => do
    let _ ← step k
    Prog.sequence ks

variable {step cond}

theorem run_of_sequence {ks : List κ} (hcond : ∀ k ∈ ks, ∀ s, cond k s)
    (h : Prog.sequence step ks s = .ok ((), s')) : Run step cond s ks s' := by
  induction ks generalizing s with
  | nil =>
    obtain rfl : s = s' := congrArg Prod.snd (Except.ok.inj h)
    exact .nil s
  | cons k ks ih =>
    have hstep : (Prog.sequence step (k :: ks)) s = match step k s with
      | .ok (_, s₁) => Prog.sequence step ks s₁
      | .error e => .error e := rfl
    rw [hstep] at h
    cases hk : step k s with
    | ok p =>
      rw [hk] at h
      exact .cons (hcond k List.mem_cons_self s) hk
        (ih (fun k' hk' => hcond k' (List.mem_cons_of_mem _ hk')) h)
    | error e =>
      rw [hk] at h
      cases h

/-- What every call keeps holds after every run. -/
theorem Run.invariant {Inv : σ → Prop}
    (hkeep : ∀ k s, Inv s → cond k s → Ensures (fun _ => True) (step k) (fun _ s' => Inv s') s)
    {ks : List κ} (h : Run step cond s ks s') (hs : Inv s) : Inv s' := by
  induction h with
  | nil s => exact hs
  | cons hcond hstep _ ih => exact ih ((hkeep _ _ hs hcond).of_ok hstep)

/-- A run meets every weaker condition. -/
theorem Run.mono {cond' : κ → σ → Prop} {ks : List κ} (h : Run step cond s ks s')
    (hcond : ∀ k s, cond k s → cond' k s) : Run step cond' s ks s' := by
  induction h with
  | nil s => exact .nil s
  | cons hk hstep _ ih => exact .cons (hcond _ _ hk) hstep ih

/-- The steps of a run meet what is known of each of them. -/
theorem Run.of_mem {P : κ → Prop} {ks : List κ} (h : Run step cond s ks s') (hP : ∀ k ∈ ks, P k) :
    Run step (fun k s => cond k s ∧ P k) s ks s' := by
  induction h with
  | nil s => exact .nil s
  | cons hk hstep _ ih =>
    exact .cons ⟨hk, hP _ List.mem_cons_self⟩ hstep (ih fun k hmem => hP k (List.mem_cons_of_mem _ hmem))

theorem Run.append {s₁ s₂ s₃ : σ} {ks ks' : List κ} (h : Run step cond s₁ ks s₂)
    (h' : Run step cond s₂ ks' s₃) : Run step cond s₁ (ks ++ ks') s₃ := by
  induction h with
  | nil s => exact h'
  | cons hcond hstep _ ih => exact .cons hcond hstep (ih h')

end Runs

end LumoSql.StateLogic
