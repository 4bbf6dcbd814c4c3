import RobotCar.Lib.Client

namespace Concurrent
set_option autoImplicit true

/-- The opposite of safety: whatever environment steps `R` run between the atomic steps of the
task, `I` fails at some moment of it, or `P` once it has ended. -/
def Fails (R : σ → σ → Prop) (I P : σ → Prop) : Task L σ α → σ → Prop
  | .ret _, s => ∀ s', Relation.ReflTransGen R s s' → ¬(I s' ∧ P s')
  | .atomic _ act next, s =>
    (∀ s', Relation.ReflTransGen R s s' → ¬I s') ∨
      ∀ s', Relation.ReflTransGen R s s' → ∀ s'', act s' = some s'' → Fails R I P (next s') s''

namespace Fails
variable {R : σ → σ → Prop} {I P B : σ → Prop}

theorem env_step {t : Task L σ α} (h : Fails R I P t s) (hR : R s s') : Fails R I P t s' := by
  cases t with
  | ret a => exact fun s'' hs => h s'' (.head hR hs)
  | atomic l act next =>
    rcases h with h | h
    · exact .inl fun s'' hs => h s'' (.head hR hs)
    · exact .inr fun s'' hs => h s'' (.head hR hs)

/-- A stable assertion that excludes `I` fails at once. -/
theorem now {t : Task L σ α} (hB : ∀ s s', B s → R s s' → B s') (h : B s)
    (hI : ∀ s, B s → ¬I s) : Fails R I P t s := by
  cases t with
  | ret a => exact fun s' hs hn => hI s' (stable_closure hB h hs) hn.1
  | atomic l act next => exact .inl fun s' hs => hI s' (stable_closure hB h hs)

theorem access {l : L} {f : σ → σ} {g : σ → β} (hB : ∀ s s', B s → R s s' → B s') (h : B s)
    (hnext : ∀ s, B s → Fails R I P (k (g s)) (f s)) :
    Fails R I P (Task.access l f g >>= k) s := by
  refine .inr fun s' hs s'' ha => ?_
  cases ha
  exact hnext s' (stable_closure hB h hs)

/-- A task whose every step keeps an assertion that excludes `P` fails in the end. -/
theorem of_only {T : L → σ → σ → Prop} {t : Task L σ α} (hB : ∀ s s', B s → R s s' → B s')
    (ht : t.Only T) (hT : ∀ l s s', B s → T l s s' → B s') (h : B s) (hP : ∀ s, B s → ¬P s) :
    Fails R I P t s := by
  induction t generalizing s with
  | ret a => exact fun s' hs hn => hP s' (stable_closure hB h hs) hn.2
  | atomic l act next ih =>
    refine .inr fun s' hs s'' ha => ?_
    obtain ⟨hact, hnext⟩ := ht s'
    exact ih s' hnext (hT l s' s'' (stable_closure hB h hs) (hact s'' ha))

end Fails

/-- The steps of a task decide about it: while they meet `C`, `I` holds at every moment and `Q` in
the end, and the first one that misses `C` makes the task fail. -/
def Decides (R : σ → σ → Prop) (C : L → σ → Prop) (I P : σ → Prop) (Q : α → σ → Prop) :
    Task L σ α → σ → Prop
  | .ret a, s => ∀ s', Relation.ReflTransGen R s s' → I s' ∧ Q a s'
  | .atomic l act next, s => ∀ s', Relation.ReflTransGen R s s' →
      I s' ∧ ∀ s'', act s' = some s'' →
        (C l s' → Decides R C I P Q (next s') s'') ∧ (¬C l s' → Fails R I P (next s') s'')

namespace Decides
variable {R : σ → σ → Prop} {C : L → σ → Prop} {I P A : σ → Prop} {Q : α → σ → Prop}

theorem holds {t : Task L σ α} (h : Decides R C I P Q t s) : I s := by
  cases t with
  | ret a => exact (h s .refl).1
  | atomic l act next => exact (h s .refl).1

theorem env_step {t : Task L σ α} (h : Decides R C I P Q t s) (hR : R s s') :
    Decides R C I P Q t s' := by
  cases t with
  | ret a => exact fun s'' hs => h s'' (.head hR hs)
  | atomic l act next => exact fun s'' hs => h s'' (.head hR hs)

theorem ret (hA : ∀ s s', A s → R s s' → A s') (h : A s) (hIQ : ∀ s, A s → I s ∧ Q a s) :
    Decides R C I P Q (.ret a : Task L σ α) s :=
  fun _ hs => hIQ _ (stable_closure hA h hs)

theorem access {l : L} {f : σ → σ} {g : σ → β} (hA : ∀ s s', A s → R s s' → A s') (h : A s)
    (hI : ∀ s, A s → I s) (hQ : ∀ s, A s → C l s → Decides R C I P Q (k (g s)) (f s))
    (hP : ∀ s, A s → ¬C l s → Fails R I P (k (g s)) (f s)) :
    Decides R C I P Q (Task.access l f g >>= k) s := by
  intro s' hs
  have ha := stable_closure hA h hs
  refine ⟨hI s' ha, fun s'' hact => ?_⟩
  cases hact
  exact ⟨hQ s' ha, hP s' ha⟩

theorem of_safe {t : Task L σ α} (hC : t.Only fun l s _ => C l s) (h : Safe R I Q t s) :
    Decides R C I P Q t s := by
  induction t generalizing s with
  | ret a => exact h
  | atomic l act next ih =>
    intro s' hs
    obtain ⟨hi, hact⟩ := h s' hs
    obtain ⟨hc, hnext⟩ := hC s'
    refine ⟨hi, fun s'' ha => ⟨fun _ => ?_, fun hn => absurd (hc s'' ha) hn⟩⟩
    exact ih s' hnext (hact trivial s'' ha).2

theorem bind_safe {t : Task L σ β} {f : β → Task L σ α} (hC : t.Only fun l s _ => C l s)
    (h : Safe R I (fun b s => Decides R C I P Q (f b) s) t s) :
    Decides R C I P Q (t >>= f) s := by
  change Decides R C I P Q (t.bind f) s
  induction t generalizing s with
  | ret a => exact (h s .refl).2
  | atomic l act next ih =>
    intro s' hs
    obtain ⟨hi, hact⟩ := h s' hs
    obtain ⟨hc, hnext⟩ := hC s'
    refine ⟨hi, fun s'' ha => ⟨fun _ => ?_, fun hn => absurd (hc s'' ha) hn⟩⟩
    exact ih s' hnext (hact trivial s'' ha).2

end Decides

namespace Client

/-- A condition on the steps of the task itself. -/
def Own (D : L → σ → Prop) (k : Config L σ) : Event M E → Prop
  | .step =>
    match k.current with
    | .ret _ => True
    | .atomic l act _ => (act k.shared).isSome → D l k.shared
  | .env _ | .recv _ => True

instance (D : L → σ → Prop) [∀ l s, Decidable (D l s)] (k : Config L σ) (e : Event M E) :
    Decidable (Own D k e) :=
  match k, e with
  | _, .env _ | _, .recv _ => instDecidableTrue
  | ⟨_, .ret _⟩, .step => instDecidableTrue
  | ⟨s, .atomic l act _⟩, .step => inferInstanceAs (Decidable ((act s).isSome → D l s))

/-- What is wanted of every moment, and of those between two messages. -/
def Good (I P : σ → Prop) (k : Config L σ) : Prop :=
  I k.shared ∧ (Idle k → P k.shared)

section
variable {C : σ → E → Prop} {D : L → σ → Prop} {I P Inv : σ → Prop}

theorem fails_step (c : Client L σ M E) (k : Config L σ) (e : Event M E)
    (h : Fails (c.Interference C) I P k.current k.shared) (hg : Good I P k)
    (he : Meets C (fun _ => True) k e) :
    Fails (c.Interference C) I P (c.step k e).current (c.step k e).shared := by
  cases e with
  | env x => exact h.env_step ⟨x, he, rfl⟩
  | step =>
    cases ht : k.current with
    | ret u =>
      rw [ht] at h
      exact absurd ⟨hg.1, hg.2 ⟨u, ht⟩⟩ (h _ .refl)
    | atomic l act next =>
      rw [ht] at h
      cases ha : act k.shared with
      | none => simpa only [step, ht, ha] using h
      | some s' =>
        rcases h with h | h
        · exact absurd hg.1 (h _ .refl)
        · simpa only [step, ht, ha] using h _ .refl s' ha
  | recv m =>
    cases ht : k.current with
    | ret u =>
      rw [ht] at h
      exact absurd ⟨hg.1, hg.2 ⟨u, ht⟩⟩ (h _ .refl)
    | atomic l act next =>
      rw [ht] at h
      simpa only [step, ht] using h

/-- A failing task is found out before it has ended. -/
theorem fails_run (c : Client L σ M E) (k : Config L σ) (es : List (Event M E))
    (h : Fails (c.Interference C) I P k.current k.shared)
    (hes : Transition.StepsMeet c.step (Meets C fun _ => True) k es)
    (hend : Idle (Transition.run c.step k es)) :
    ∃ n, ¬Good I P (Transition.run c.step k (es.take n)) := by
  by_cases hg : Good I P k
  · induction es generalizing k with
    | nil =>
      obtain ⟨u, hu⟩ := hend
      rw [Transition.run_nil] at hu
      rw [hu] at h
      exact absurd ⟨hg.1, hg.2 ⟨u, hu⟩⟩ (h _ .refl)
    | cons e es ih =>
      have hf := c.fails_step k e h hg hes.1
      by_cases hg' : Good I P (c.step k e)
      · obtain ⟨n, hn⟩ := ih _ hf hes.2 hend hg'
        exact ⟨n + 1, hn⟩
      · exact ⟨1, hg'⟩
  · exact ⟨0, hg⟩

theorem decides_step (c : Client L σ M E)
    (hrecv : ∀ m s, Inv s →
      Decides (c.Interference C) D I P (fun _ => Inv) (c.handler m) (c.arrive m s))
    (k : Config L σ) (e : Event M E)
    (h : Decides (c.Interference C) D I P (fun _ => Inv) k.current k.shared)
    (he : Meets C (fun _ => True) k e) :
    (Own D k e →
      Decides (c.Interference C) D I P (fun _ => Inv) (c.step k e).current (c.step k e).shared) ∧
    (¬Own D k e →
      Fails (c.Interference C) I P (c.step k e).current (c.step k e).shared) := by
  cases e with
  | env x => exact ⟨fun _ => h.env_step ⟨x, he, rfl⟩, fun hn => absurd trivial hn⟩
  | step =>
    cases ht : k.current with
    | ret u =>
      have hown : Own D k (.step : Event M E) := by simp only [Own, ht]
      rw [ht] at h
      exact ⟨fun _ => by simpa only [step, ht] using h, fun hn => absurd hown hn⟩
    | atomic l act next =>
      rw [ht] at h
      cases ha : act k.shared with
      | none =>
        have hown : Own D k (.step : Event M E) := by simp [Own, ht, ha]
        exact ⟨fun _ => by simpa only [step, ht, ha] using h, fun hn => absurd hown hn⟩
      | some s' =>
        have hown : Own D k (.step : Event M E) ↔ D l k.shared := by simp [Own, ht, ha]
        obtain ⟨hgood, hbad⟩ := (h _ .refl).2 s' ha
        rw [hown]
        simpa only [step, ht, ha] using And.intro hgood hbad
  | recv m =>
    refine ⟨fun _ => ?_, fun hn => absurd trivial hn⟩
    cases ht : k.current with
    | ret u =>
      rw [ht] at h
      simpa only [step, ht] using hrecv m _ (h _ .refl).2
    | atomic l act next =>
      rw [ht] at h
      simpa only [step, ht] using h

theorem Good.of_decides (hP : ∀ s, Inv s → P s) {R : σ → σ → Prop} {k : Config L σ}
    (h : Decides R D I P (fun _ => Inv) k.current k.shared) : Good I P k := by
  refine ⟨h.holds, ?_⟩
  rintro ⟨u, hu⟩
  rw [hu] at h
  exact hP _ (h _ .refl).2

/-- Steps that meet `D` keep every moment of a run good; and if every moment of a run that has
ended is good, each of its steps met `D`. -/
theorem good_of_own (c : Client L σ M E) (hP : ∀ s, Inv s → P s)
    (hrecv : ∀ m s, Inv s →
      Decides (c.Interference C) D I P (fun _ => Inv) (c.handler m) (c.arrive m s))
    (k : Config L σ) (h : Decides (c.Interference C) D I P (fun _ => Inv) k.current k.shared)
    (es : List (Event M E)) (hes : Transition.StepsMeet c.step (Meets C fun _ => True) k es) :
    (Transition.StepsMeet c.step (Own D) k es →
      ∀ n, Good I P (Transition.run c.step k (es.take n))) ∧
    (Idle (Transition.run c.step k es) →
      (∀ n, Good I P (Transition.run c.step k (es.take n))) →
        Transition.StepsMeet c.step (Own D) k es) := by
  induction es generalizing k with
  | nil =>
    refine ⟨fun _ n => ?_, fun _ _ => trivial⟩
    rw [List.take_nil]
    exact Good.of_decides hP h
  | cons e es ih =>
    obtain ⟨hgood, hbad⟩ := c.decides_step hrecv k e h hes.1
    constructor
    · rintro ⟨hown, hrest⟩ n
      cases n with
      | zero => exact Good.of_decides hP h
      | succ n => exact (ih _ (hgood hown) hes.2).1 hrest n
    · intro hend hall
      have hown : Own D k e := by
        apply Classical.byContradiction
        intro hn
        obtain ⟨n, hn⟩ := c.fails_run _ es (hbad hn) hes.2 hend
        exact hn (hall (n + 1))
      exact ⟨hown, (ih _ (hgood hown) hes.2).2 hend fun n => hall (n + 1)⟩

end

end Client

end Concurrent
