import Mathlib.Logic.Relation

namespace Transition
set_option autoImplicit true

/-- Run a system whose step function is total: an event that is not enabled leaves the
state as it is. -/
def run (step : S → E → S) (s : S) (es : List E) : S := es.foldl step s

@[simp] theorem run_nil (step : S → E → S) (s : S) : run step s [] = s := rfl

@[simp] theorem run_cons (step : S → E → S) (s : S) (e : E) (es : List E) :
    run step s (e :: es) = run step (step s e) es := rfl

theorem run_append (step : S → E → S) (s : S) (es es' : List E) :
    run step s (es ++ es') = run step (run step s es) es' := List.foldl_append

theorem run_snoc (step : S → E → S) (s : S) (es : List E) (e : E) :
    run step s (es ++ [e]) = step (run step s es) e := by
  rw [run_append]
  rfl

/-- Every step of a run meets a condition on the state before it and on its event. -/
def StepsMeet (step : S → E → S) (C : S → E → Prop) : S → List E → Prop
  | _, [] => True
  | s, e :: es => C s e ∧ StepsMeet step C (step s e) es

instance StepsMeet.decide (step : S → E → S) (C : S → E → Prop) [∀ s e, Decidable (C s e)] :
    (s : S) → (es : List E) → Decidable (StepsMeet step C s es)
  | _, [] => instDecidableTrue
  | s, e :: es =>
    have := StepsMeet.decide step C (step s e) es
    inferInstanceAs (Decidable (C s e ∧ StepsMeet step C (step s e) es))

theorem stepsMeet_of_forall {step : S → E → S} {C : S → E → Prop} (h : ∀ e ∈ es, ∀ s, C s e)
    (s : S) : StepsMeet step C s es := by
  induction es generalizing s with
  | nil => trivial
  | cons e es ih =>
    obtain ⟨he, hes⟩ := List.forall_mem_cons.1 h
    exact ⟨he s, ih hes _⟩

/-- An invariant of the steps that meet `C` holds after every run of such steps. -/
theorem run_invariant_of_meet {step : S → E → S} {C : S → E → Prop} {I : S → Prop}
    (hstep : ∀ s e, I s → C s e → I (step s e)) (h : I s) (hm : StepsMeet step C s es) :
    I (run step s es) := by
  induction es generalizing s with
  | nil => exact h
  | cons e es ih => exact ih (hstep s e h hm.1) hm.2

theorem run_invariant {step : S → E → S} {I : S → Prop} (hstep : ∀ s e, I s → I (step s e))
    (h : I s) (es : List E) : I (run step s es) := by
  induction es generalizing s with
  | nil => exact h
  | cons e es ih => exact ih (hstep s e h)

/-- Where a step that misses `C` shows at once, every moment of a run is good exactly when every
step meets `C`. -/
theorem always_iff_stepsMeet {step : S → E → S} {C : S → E → Prop} {I P : S → Prop}
    (hstep : ∀ s e, I s → C s e → I (step s e)) (hP : ∀ s, I s → P s)
    (hbad : ∀ s e, I s → ¬C s e → ¬P (step s e)) (h : I s) :
    (∀ n, P (run step s (es.take n))) ↔ StepsMeet step C s es := by
  induction es generalizing s with
  | nil =>
    refine ⟨fun _ => trivial, fun _ n => ?_⟩
    rw [List.take_nil]
    exact hP s h
  | cons e es ih =>
    constructor
    · intro hall
      have hC : C s e := Classical.byContradiction fun hC => hbad s e h hC (hall 1)
      exact ⟨hC, (ih (hstep s e h hC)).1 fun n => hall (n + 1)⟩
    · rintro ⟨hC, hm⟩ n
      cases n with
      | zero => exact hP s h
      | succ n => exact (ih (hstep s e h hC)).2 hm n

/-- Two runs stay related by a map of states and events exactly as long as their steps are. -/
theorem run_map_iff_stepsMeet {step : S → E → S} {C : S → E → Prop} {φ : S → S} {ψ : E → E}
    (hstep : ∀ s e, step (φ s) (ψ e) = φ (step s e) ↔ C s e) (s : S) (es : List E) :
    (∀ n, run step (φ s) ((es.map ψ).take n) = φ (run step s (es.take n))) ↔
      StepsMeet step C s es := by
  induction es generalizing s with
  | nil =>
    refine ⟨fun _ => trivial, fun _ n => ?_⟩
    rw [List.map_nil, List.take_nil]
    rfl
  | cons e es ih =>
    constructor
    · intro hall
      have he : step (φ s) (ψ e) = φ (step s e) := hall 1
      refine ⟨(hstep s e).1 he, (ih _).1 fun n => ?_⟩
      rw [← he]
      exact hall (n + 1)
    · rintro ⟨hC, hm⟩ n
      cases n with
      | zero => rfl
      | succ n =>
        change run step (step (φ s) (ψ e)) _ = _
        rw [(hstep s e).2 hC]
        exact (ih _).2 hm n

/-- The results of the steps of a run, for steps that return a result. -/
def outputs (f : E → S → R × S) (s : S) : List E → List R
  | [] => []
  | e :: es => (f e s).1 :: outputs f (f e s).2 es

theorem outputs_append (f : E → S → R × S) (s : S) (es es' : List E) :
    outputs f s (es ++ es') =
      outputs f s es ++ outputs f (run (fun s e => (f e s).2) s es) es' := by
  induction es generalizing s with
  | nil => rfl
  | cons e es ih => exact congrArg ((f e s).1 :: ·) (ih (f e s).2)

theorem forall_outputs {f : E → S → R × S} {C : S → E → Prop} {I : S → Prop} {P : R → Prop}
    (hstep : ∀ s e, I s → C s e → P (f e s).1 ∧ I (f e s).2) (h : I s)
    (hm : StepsMeet (fun s e => (f e s).2) C s es) : ∀ r ∈ outputs f s es, P r := by
  induction es generalizing s with
  | nil => exact List.forall_mem_nil P
  | cons e es ih =>
    obtain ⟨hP, hI⟩ := hstep s e h hm.1
    exact List.forall_mem_cons.2 ⟨hP, ih hI hm.2⟩

/-- Every step of a run of steps that may fail meets a condition. -/
def AllMeet (step : S → E → Option S) (C : S → E → Prop) : S → List E → Prop
  | _, [] => True
  | s, e :: es => C s e ∧ ∀ s', step s e = some s' → AllMeet step C s' es

instance AllMeet.decide (step : S → E → Option S) (C : S → E → Prop) [∀ s e, Decidable (C s e)] :
    (s : S) → (es : List E) → Decidable (AllMeet step C s es)
  | _, [] => instDecidableTrue
  | s, e :: es =>
    match h : step s e with
    | none =>
      decidable_of_iff (C s e) ⟨fun hC => ⟨hC, fun _ hs => nomatch h.symm.trans hs⟩, And.left⟩
    | some s' =>
      have := AllMeet.decide step C s' es
      decidable_of_iff (C s e ∧ AllMeet step C s' es)
        ⟨fun hm => ⟨hm.1, fun _ hs => Option.some.inj (h.symm.trans hs) ▸ hm.2⟩,
          fun hm => ⟨hm.1, hm.2 s' h⟩⟩

theorem AllMeet.and_of_forall {step : S → E → Option S} {C D : S → E → Prop} {s : S}
    (h : AllMeet step C s es) (hD : ∀ e ∈ es, ∀ s, D s e) :
    AllMeet step (fun s e => C s e ∧ D s e) s es := by
  induction es generalizing s with
  | nil => trivial
  | cons e es ih =>
    obtain ⟨he, hes⟩ := List.forall_mem_cons.1 hD
    exact ⟨⟨h.1, he s⟩, fun s' hs => ih (h.2 s' hs) hes⟩

theorem AllMeet.imp {step : S → E → Option S} {C D : S → E → Prop} {s : S}
    (h : AllMeet step C s es) (hCD : ∀ s e, C s e → D s e) : AllMeet step D s es := by
  induction es generalizing s with
  | nil => trivial
  | cons e es ih => exact ⟨hCD s e h.1, fun s' hs => ih (h.2 s' hs)⟩

theorem allMeet_of_forall {step : S → E → Option S} {C : S → E → Prop}
    (h : ∀ e ∈ es, ∀ s, C s e) (s : S) : AllMeet step C s es := by
  induction es generalizing s with
  | nil => trivial
  | cons e es ih =>
    obtain ⟨he, hes⟩ := List.forall_mem_cons.1 h
    exact ⟨he s, fun s' _ => ih hes s'⟩

theorem AllMeet.take {step : S → E → Option S} {C : S → E → Prop} {s : S}
    (h : AllMeet step C s es) (n : Nat) : AllMeet step C s (es.take n) := by
  induction es generalizing s n with
  | nil =>
    rw [List.take_nil]
    trivial
  | cons e es ih =>
    cases n with
    | zero => trivial
    | succ n => exact ⟨h.1, fun s' hs => ih (h.2 s' hs) n⟩

theorem AllMeet.append {step : S → E → Option S} {C : S → E → Prop} {s : S}
    (h : AllMeet step C s es) (hr : es.foldlM step s = some t) (h' : AllMeet step C t es') :
    AllMeet step C s (es ++ es') := by
  induction es generalizing s with
  | nil =>
    obtain rfl := Option.some.inj hr
    exact h'
  | cons e es ih =>
    rw [List.foldlM_cons] at hr
    obtain ⟨s₁, hs, hr⟩ := Option.bind_eq_some_iff.1 hr
    refine ⟨h.1, fun s' hs' => ?_⟩
    obtain rfl := Option.some.inj (hs.symm.trans hs')
    exact ih (h.2 s₁ hs) hr

theorem foldlM_invariant_of_meet {step : S → E → Option S} {C : S → E → Prop} {I : S → Prop}
    (hstep : ∀ s e s', I s → C s e → step s e = some s' → I s') (h : I s)
    (hm : AllMeet step C s es) (hr : es.foldlM step s = some t) : I t := by
  induction es generalizing s with
  | nil => exact Option.some.inj hr ▸ h
  | cons e es ih =>
    rw [List.foldlM_cons] at hr
    obtain ⟨s', hs, hr⟩ := Option.bind_eq_some_iff.1 hr
    exact ih (hstep s e s' h hm.1 hs) (hm.2 s' hs) hr

theorem foldlM_invariant {step : S → E → Option S} {I : S → Prop} {es : List E}
    (hstep : ∀ s e s', I s → step s e = some s' → I s') (h : I s)
    (hr : es.foldlM step s = some t) : I t :=
  foldlM_invariant_of_meet (C := fun _ _ => True) (fun s e s' hi _ => hstep s e s' hi) h
    (allMeet_of_forall (fun _ _ _ => trivial) s) hr

/-- The results of the steps of a run, for steps that may fail. -/
def results (f : S → E → Option (R × S)) : S → List E → Option (List R × S)
  | s, [] => some ([], s)
  | s, e :: es => do
    let (r, s) ← f s e
    let (rs, s) ← results f s es
    return (r :: rs, s)

/-- Runs of what the steps stand for, with their results. -/
inductive Runs (step : A → E → R → A → Prop) : A → List E → List R → A → Prop where
  | nil : Runs step a [] [] a
  | cons : step a e r b → Runs step b es rs c → Runs step a (e :: es) (r :: rs) c

/-- Steps that meet `C` do not fail, and do what they stand for, in each run. -/
theorem exists_runs {f : S → E → Option (R × S)} {step : A → E → R → A → Prop} {C : S → E → Prop}
    {I : S → A → Prop}
    (hstep : ∀ s a e, I s a → C s e → ∃ r s' a', f s e = some (r, s') ∧ step a e r a' ∧ I s' a')
    (h : I s a) (hm : AllMeet (fun s e => (f s e).map Prod.snd) C s es) :
    ∃ rs s' a', results f s es = some (rs, s') ∧ Runs step a es rs a' ∧ I s' a' := by
  induction es generalizing s a with
  | nil => exact ⟨[], s, a, rfl, .nil, h⟩
  | cons e es ih =>
    obtain ⟨r, s₁, a₁, hf, ha, hi⟩ := hstep s a e h hm.1
    obtain ⟨rs, s', a', hr, hrun, hi'⟩ := ih hi (hm.2 s₁ (congrArg (Option.map Prod.snd) hf))
    refine ⟨r :: rs, s', a', ?_, .cons ha hrun, hi'⟩
    rw [results, hf, Option.bind_eq_bind, Option.bind_some]
    simp only [hr, Option.bind_eq_bind, Option.bind_some]
    rfl

/-- Where a step that misses `C` shows at once, the steps of a run that is good at every moment
meet `C`. -/
theorem forall_of_always {step : S → E → Option S} {C : E → Prop} {I P : S → Prop} {es : List E}
    (hstep : ∀ s e s', I s → C e → step s e = some s' → I s')
    (hbad : ∀ s e s', I s → ¬C e → step s e = some s' → ¬P s') (h : I s)
    (hr : es.foldlM step s = some t)
    (hall : ∀ n u, (es.take n).foldlM step s = some u → P u) : ∀ e ∈ es, C e := by
  induction es generalizing s with
  | nil => exact List.forall_mem_nil C
  | cons e es ih =>
    rw [List.foldlM_cons] at hr
    obtain ⟨s', hs, hr⟩ := Option.bind_eq_some_iff.1 hr
    have hfirst : P s' := by
      apply hall 1
      rw [List.take_succ_cons, List.take_zero, List.foldlM_cons, hs]
      rfl
    have hC : C e := Classical.byContradiction fun hC => hbad s e s' h hC hs hfirst
    refine List.forall_mem_cons.2 ⟨hC, ih (hstep s e s' h hC hs) hr fun n u hu => hall (n + 1) u ?_⟩
    rw [List.take_succ_cons, List.foldlM_cons, hs]
    exact hu

end Transition
