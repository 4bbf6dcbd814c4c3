import Mathlib.Logic.Function.Basic
import RobotCar.Lib.Task

namespace Concurrent
set_option autoImplicit true

/-- Several workers share a state. Each runs one job after another, and any two of their atomic
steps may follow each other. -/
structure Pool (W L σ : Type) (J : W → Type) where
  job : (w : W) → J w → Task L σ Unit
  /-- What a history variable in the state records when a worker begins a job. -/
  arrive : (w : W) → J w → σ → σ := fun _ _ s => s

namespace Pool

structure Config (W L σ : Type) where
  shared : σ
  current : W → Task L σ Unit

inductive Event (W : Type) (J : W → Type) where
  | step (w : W)
  | recv (w : W) (j : J w)

variable {W L σ : Type} {J : W → Type} [DecidableEq W]

/-- One event. A worker takes its next atomic step unless it is blocked, and begins a job only
when it has finished the one before. -/
def step (p : Pool W L σ J) (k : Config W L σ) : Event W J → Config W L σ
  | .step w =>
    match k.current w with
    | .ret _ => k
    | .atomic _ act next =>
      match act k.shared with
      | none => k
      | some s => ⟨s, Function.update k.current w (next k.shared)⟩
  | .recv w j =>
    match k.current w with
    | .ret _ => ⟨p.arrive w j k.shared, Function.update k.current w (p.job w j)⟩
    | .atomic _ _ _ => k

def run (p : Pool W L σ J) (k : Config W L σ) (es : List (Event W J)) : Config W L σ :=
  Transition.run p.step k es

def NextMeets (C : L → σ → Prop) (s : σ) : Task L σ Unit → Prop
  | .ret _ => True
  | .atomic l _ _ => C l s

instance (C : L → σ → Prop) [∀ l s, Decidable (C l s)] (s : σ) :
    (t : Task L σ Unit) → Decidable (NextMeets C s t)
  | .ret _ => instDecidableTrue
  | .atomic l _ _ => inferInstanceAs (Decidable (C l s))

def Meets (C : W → L → σ → Prop) (k : Config W L σ) : Event W J → Prop
  | .step w => NextMeets (C w) k.shared (k.current w)
  | .recv _ _ => True

instance (C : W → L → σ → Prop) [∀ w l s, Decidable (C w l s)] (k : Config W L σ) :
    (e : Event W J) → Decidable (Meets C k e)
  | .step w => inferInstanceAs (Decidable (NextMeets (C w) k.shared (k.current w)))
  | .recv _ _ => instDecidableTrue

/-- A worker relies on what the others guarantee. -/
def Rely (G : W → σ → σ → Prop) (w : W) (s s' : σ) : Prop := ∃ w', w' ≠ w ∧ G w' s s'

section
variable {G : W → σ → σ → Prop} {C : W → L → σ → Prop} {I : σ → Prop} {Q : W → σ → Prop}

/-- What the current program of every worker guarantees, if the others do as well. -/
def Guaranteed (G : W → σ → σ → Prop) (C : W → L → σ → Prop) (I : σ → Prop) (Q : W → σ → Prop)
    (k : Config W L σ) : Prop :=
  ∀ w, Guarantees (Rely G w) (G w) (C w) I (fun _ => Q w) (k.current w) k.shared

theorem Guaranteed.update {k : Config W L σ} (h : Guaranteed G C I Q k) {w : W}
    {t : Task L σ Unit} (hG : G w k.shared s)
    (ht : Guarantees (Rely G w) (G w) (C w) I (fun _ => Q w) t s) :
    Guaranteed G C I Q ⟨s, Function.update k.current w t⟩ := by
  intro w'
  dsimp only
  by_cases hw : w' = w
  · subst hw
    rw [Function.update_self]
    exact ht
  · rw [Function.update_of_ne hw]
    exact (h w').env_step ⟨w, Ne.symm hw, hG⟩

theorem step_guaranteed (p : Pool W L σ J)
    (hjob : ∀ w j s, Q w s → G w s (p.arrive w j s) ∧
      Guarantees (Rely G w) (G w) (C w) I (fun _ => Q w) (p.job w j) (p.arrive w j s))
    {k : Config W L σ} (h : Guaranteed G C I Q k) (e : Event W J) (he : Meets C k e) :
    Guaranteed G C I Q (p.step k e) := by
  cases e with
  | step w =>
    have hw := h w
    rw [Meets] at he
    rw [step]
    cases ht : k.current w with
    | ret a => exact h
    | atomic l act next =>
      rw [ht] at hw he
      cases ha : act k.shared with
      | none => simpa only [ha] using h
      | some s =>
        obtain ⟨hG, hnext⟩ := hw.step he ha
        simpa only [ha] using h.update hG hnext
  | recv w j =>
    have hw := h w
    rw [step]
    cases ht : k.current w with
    | ret a =>
      rw [ht] at hw
      obtain ⟨hG, hj⟩ := hjob w j _ (hw _ .refl).2
      exact h.update hG hj
    | atomic l act next => exact h

/-- If every job does what its worker guarantees, so does every run. -/
theorem run_guaranteed (p : Pool W L σ J)
    (hjob : ∀ w j s, Q w s → G w s (p.arrive w j s) ∧
      Guarantees (Rely G w) (G w) (C w) I (fun _ => Q w) (p.job w j) (p.arrive w j s))
    {k : Config W L σ} (h : Guaranteed G C I Q k) {es : List (Event W J)}
    (hm : Transition.StepsMeet p.step (Meets C) k es) : Guaranteed G C I Q (p.run k es) :=
  Transition.run_invariant_of_meet (fun _ e hk => p.step_guaranteed hjob hk e) h hm

end

/-- The same pool with a history variable beside its state. -/
def history (p : Pool W L σ J) (watch : W → L → σ → H → H)
    (watchJob : (w : W) → J w → σ → H → H) : Pool W L (σ × H) J where
  job w j := (p.job w j).history (watch w)
  arrive w j s := (p.arrive w j s.1, watchJob w j s.1 s.2)

end Pool

end Concurrent
