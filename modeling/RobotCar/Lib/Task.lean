import RobotCar.Lib.Transition

namespace Concurrent
set_option autoImplicit true

/-- A program is a sequence of labelled atomic steps on a shared state. A step whose action
is undefined in the current state is blocked there; the rest of the program depends on the
state the step found. -/
inductive Task (L σ α : Type) where
  | ret (a : α)
  | atomic (l : L) (act : σ → Option σ) (next : σ → Task L σ α)

namespace Task

def bind : Task L σ α → (α → Task L σ β) → Task L σ β
  | .ret a, f => f a
  | .atomic l act next, f => .atomic l act fun s => (next s).bind f

instance : Monad (Task L σ) where
  pure := .ret
  bind := Task.bind

theorem bind_assoc (t : Task L σ α) (f : α → Task L σ β) (g : β → Task L σ γ) :
    t >>= f >>= g = t >>= fun a => f a >>= g := by
  change (t.bind f).bind g = t.bind fun a => (f a).bind g
  induction t with
  | ret a => rfl
  | atomic l act next ih => simp only [bind, ih]

/-- One atomic access that changes the state and returns what it found. -/
def access (l : L) (f : σ → σ) (g : σ → α) : Task L σ α :=
  .atomic l (fun s => some (f s)) fun s => .ret (g s)

def update (l : L) (f : σ → σ) : Task L σ Unit := access l f fun _ => ()

def read (l : L) (g : σ → α) : Task L σ α := access l id g

/-- One atomic access that waits until its action is defined. -/
def await (l : L) (act : σ → Option σ) : Task L σ Unit := .atomic l act fun _ => .ret ()

/-- Run a task alone, from start to end. The result is undefined where it would block. -/
def run : Task L σ α → σ → Option (α × σ)
  | .ret a, s => some (a, s)
  | .atomic _ act next, s => (act s).bind fun s' => (next s).run s'

@[simp] theorem run_pure (a : α) (s : σ) : (pure a : Task L σ α).run s = some (a, s) := rfl

@[simp] theorem run_access (l : L) (f : σ → σ) (g : σ → α) (s : σ) :
    (access l f g).run s = some (g s, f s) := rfl

@[simp] theorem run_update (l : L) (f : σ → σ) (s : σ) : (update l f).run s = some ((), f s) := rfl

@[simp] theorem run_read (l : L) (g : σ → α) (s : σ) : (read l g).run s = some (g s, s) := rfl

@[simp] theorem run_await (l : L) (act : σ → Option σ) (s : σ) :
    (await l act).run s = (act s).map fun s' => ((), s') := by
  cases h : act s <;> simp only [await, run, h, Option.bind_none, Option.bind_some, Option.map]

@[simp] theorem run_bind (t : Task L σ α) (f : α → Task L σ β) (s : σ) :
    (t >>= f).run s = (t.run s).bind fun r => (f r.1).run r.2 := by
  change (t.bind f).run s = _
  induction t generalizing s with
  | ret a => rfl
  | atomic l act next ih =>
    simp only [bind, run]
    cases act s with
    | none => rfl
    | some s' => exact ih s s'

/-- The state after running a task alone. A task that would block leaves it as it is. -/
def exec (t : Task L σ α) (s : σ) : σ := ((t.run s).map Prod.snd).getD s

/-- The same task with a history variable beside the state. -/
def history (watch : L → σ → H → H) : Task L σ α → Task L (σ × H) α
  | .ret a => .ret a
  | .atomic l act next =>
    .atomic l (fun s => (act s.1).map fun s' => (s', watch l s.1 s.2)) fun s =>
      (next s.1).history watch

@[simp] theorem history_pure (watch : L → σ → H → H) (a : α) :
    (pure a : Task L σ α).history watch = pure a := rfl

@[simp] theorem history_update (watch : L → σ → H → H) (l : L) (f : σ → σ) :
    (update l f).history watch = update l fun s => (f s.1, watch l s.1 s.2) := rfl

@[simp] theorem history_read (watch : L → σ → H → H) (l : L) (g : σ → α) :
    (read l g).history watch = access l (fun s => (s.1, watch l s.1 s.2)) fun s => g s.1 := rfl

@[simp] theorem history_await (watch : L → σ → H → H) (l : L) (act : σ → Option σ) :
    (await l act).history watch =
      await l fun s => (act s.1).map fun s' => (s', watch l s.1 s.2) := rfl

theorem run_history_await (watch : L → σ → H → H) (l : L) (act : σ → Option σ) (s : σ) (h : H) :
    ((await l act).history watch).run (s, h) =
      (act s).map fun s' => ((), (s', watch l s h)) := by
  rw [history_await, run_await, Option.map_map]
  rfl

/-- A run with a history is a run. -/
theorem run_of_run_history {watch : L → σ → H → H} {t : Task L σ α} {r : σ × H}
    (h : (t.history watch).run r = some (a, r')) : t.run r.1 = some (a, r'.1) := by
  induction t generalizing r with
  | ret b =>
    cases h
    rfl
  | atomic l act next ih =>
    obtain ⟨r₁, hact, hnext⟩ := Option.bind_eq_some_iff.1 h
    obtain ⟨s₁, hs₁, rfl⟩ := Option.map_eq_some_iff.1 hact
    exact Option.bind_eq_some_iff.2 ⟨s₁, hs₁, ih _ hnext⟩

@[simp] theorem history_bind (watch : L → σ → H → H) (t : Task L σ α) (f : α → Task L σ β) :
    (t >>= f).history watch = t.history watch >>= fun a => (f a).history watch := by
  change (t.bind f).history watch = (t.history watch).bind _
  induction t with
  | ret a => rfl
  | atomic l act next ih => simp only [bind, history, ih]

/-- A component of a state that can be read and replaced. -/
structure Part (σ τ : Type) where
  get : σ → τ
  set : τ → σ → σ
  get_set : ∀ a s, get (set a s) = a
  set_get : ∀ s, set (get s) s = s
  set_set : ∀ a b s, set a (set b s) = set a s

attribute [simp] Part.get_set Part.set_get Part.set_set

/-- The whole state as a component of itself. -/
def Part.whole : Part σ σ where
  get s := s
  set a _ := a
  get_set _ _ := rfl
  set_get _ := rfl
  set_set _ _ _ := rfl

/-- A task on a component, seen as a task on the whole state. -/
def zoom (label : L → L') (p : Part σ τ) : Task L τ α → Task L' σ α
  | .ret a => .ret a
  | .atomic l act next =>
    .atomic (label l) (fun s => (act (p.get s)).map fun a => p.set a s) fun s =>
      (next (p.get s)).zoom label p

@[simp] theorem run_zoom (label : L → L') (p : Part σ τ) (t : Task L τ α) (s : σ) :
    (t.zoom label p).run s = (t.run (p.get s)).map fun r => (r.1, p.set r.2 s) := by
  induction t generalizing s with
  | ret a => simp only [zoom, run, Option.map_some, Part.set_get]
  | atomic l act next ih =>
    simp only [zoom, run]
    cases act (p.get s) with
    | none => rfl
    | some a =>
      simp only [Option.map_some, Option.bind_some, ih, Part.get_set, Part.set_set]

theorem run_history_zoom (label : L → L') (p : Part σ τ) (t : Task L τ α)
    {watch : L' → σ → H → H} (hw : ∀ l s h, watch (label l) s h = h) (s : σ) (h : H) :
    ((t.zoom label p).history watch).run (s, h) =
      (t.run (p.get s)).map fun r => (r.1, (p.set r.2 s, h)) := by
  induction t generalizing s with
  | ret a => simp only [zoom, history, run, Option.map_some, Part.set_get]
  | atomic l act next ih =>
    simp only [zoom, history, run]
    cases act (p.get s) with
    | none => rfl
    | some a =>
      simp only [Option.map_some, Option.bind_some, hw, ih, Part.get_set, Part.set_set]

/-- Every single step of the task keeps `I`, whatever state with `I` it starts from. -/
def Preserves (I : σ → Prop) : Task L σ α → Prop
  | .ret _ => True
  | .atomic _ act next => ∀ s, I s → (∀ s', act s = some s' → I s') ∧ (next s).Preserves I

section
variable {I : σ → Prop}

theorem preserves_access (l : L) {f : σ → σ} (g : σ → α) (h : ∀ s, I s → I (f s)) :
    (access l f g).Preserves I := by
  intro s hs
  constructor
  · intro s' hs'
    cases hs'
    exact h s hs
  · trivial

theorem preserves_update (l : L) {f : σ → σ} (h : ∀ s, I s → I (f s)) :
    (update l f).Preserves I := preserves_access l _ h

theorem preserves_read (l : L) (g : σ → α) : (read l g).Preserves I :=
  preserves_access l g fun _ hs => hs

theorem preserves_bind {t : Task L σ α} {f : α → Task L σ β} (ht : t.Preserves I)
    (hf : ∀ a, (f a).Preserves I) : (t >>= f).Preserves I := by
  change (t.bind f).Preserves I
  induction t with
  | ret a => exact hf a
  | atomic l act next ih => exact fun s hs => ⟨(ht s hs).1, ih s (ht s hs).2⟩

theorem preserves_ite {c : Prop} [Decidable c] {t u : Task L σ α} (ht : t.Preserves I)
    (hu : u.Preserves I) : (if c then t else u).Preserves I := by
  split
  · exact ht
  · exact hu

theorem run_of_preserves {t : Task L σ α} (ht : t.Preserves I) (hs : I s)
    (h : t.run s = some (a, s')) : I s' := by
  induction t generalizing s with
  | ret b =>
    cases h
    exact hs
  | atomic l act next ih =>
    obtain ⟨hact, hnext⟩ := ht s hs
    cases ha : act s with
    | none => simp [run, ha] at h
    | some s₁ =>
      simp only [run, ha, Option.bind_some] at h
      exact ih s hnext (hact s₁ ha) h

end

/-- Every single step of the task is a step of `T`, whatever state it starts from. -/
def Only (T : L → σ → σ → Prop) : Task L σ α → Prop
  | .ret _ => True
  | .atomic l act next => ∀ s, (∀ s', act s = some s' → T l s s') ∧ (next s).Only T

section
variable {T : L → σ → σ → Prop}

theorem only_access {l : L} {f : σ → σ} (g : σ → α) (h : ∀ s, T l s (f s)) :
    (access l f g).Only T := by
  intro s
  constructor
  · intro s' hs'
    cases hs'
    exact h s
  · trivial

theorem only_await {l : L} {act : σ → Option σ} (h : ∀ s s', act s = some s' → T l s s') :
    (await l act).Only T := fun s => ⟨h s, trivial⟩

theorem only_bind {t : Task L σ α} {f : α → Task L σ β} (ht : t.Only T)
    (hf : ∀ a, (f a).Only T) : (t >>= f).Only T := by
  change (t.bind f).Only T
  induction t with
  | ret a => exact hf a
  | atomic l act next ih => exact fun s => ⟨(ht s).1, ih s (ht s).2⟩

theorem only_pure (a : α) : (pure a : Task L σ α).Only T := trivial

theorem only_ite {c : Prop} [Decidable c] {t u : Task L σ α} (ht : t.Only T) (hu : u.Only T) :
    (if c then t else u).Only T := by
  split
  · exact ht
  · exact hu

theorem Only.mono {T' : L → σ → σ → Prop} {t : Task L σ α} (ht : t.Only T)
    (h : ∀ l s s', T l s s' → T' l s s') : t.Only T' := by
  induction t with
  | ret a => trivial
  | atomic l act next ih => exact fun s => ⟨fun s' ha => h l s s' ((ht s).1 s' ha), ih s (ht s).2⟩

theorem only_true (t : Task L σ α) : t.Only fun _ _ _ => True := by
  induction t with
  | ret a => trivial
  | atomic l act next ih => exact fun s => ⟨fun _ _ => trivial, ih s⟩

theorem Only.zoom {t : Task L σ α} (ht : t.Only T) (label : L → L') (p : Part τ σ) :
    (t.zoom label p).Only fun l s s' =>
      ∃ l' a, l = label l' ∧ s' = p.set a s ∧ T l' (p.get s) a := by
  induction t with
  | ret a => trivial
  | atomic l act next ih =>
    intro s
    obtain ⟨hact, hnext⟩ := ht (p.get s)
    refine ⟨fun s' hs' => ?_, ih _ hnext⟩
    obtain ⟨a, ha, rfl⟩ := Option.map_eq_some_iff.1 hs'
    exact ⟨l, a, rfl, rfl, hact a ha⟩

theorem Only.history {t : Task L σ α} (ht : t.Only T) (watch : L → σ → H → H) :
    (t.history watch).Only fun l s s' => T l s.1 s'.1 ∧ s'.2 = watch l s.1 s.2 := by
  induction t with
  | ret a => trivial
  | atomic l act next ih =>
    intro s
    obtain ⟨hact, hnext⟩ := ht s.1
    refine ⟨fun s' hs' => ?_, ih _ hnext⟩
    obtain ⟨a, ha, rfl⟩ := Option.map_eq_some_iff.1 hs'
    exact ⟨hact a ha, rfl⟩

theorem Only.preserves {I : σ → Prop} {t : Task L σ α} (ht : t.Only T)
    (hI : ∀ l s s', I s → T l s s' → I s') : t.Preserves I := by
  induction t with
  | ret a => trivial
  | atomic l act next ih =>
    intro s hs
    obtain ⟨hact, hnext⟩ := ht s
    exact ⟨fun s' ha => hI l s s' hs (hact s' ha), ih s hnext⟩

end

/-- Alone, the task ends only in states that are related to those it starts in. -/
def Leads (R : σ → σ → Prop) (t : Task L σ α) : Prop :=
  ∀ s a s', t.run s = some (a, s') → R s s'

section
variable {R : σ → σ → Prop}

theorem leads_access {l : L} {f : σ → σ} (g : σ → α) (h : ∀ s, R s (f s)) :
    (access l f g).Leads R := by
  intro s a s' hr
  cases hr
  exact h s

theorem leads_await {l : L} {act : σ → Option σ} (h : ∀ s s', act s = some s' → R s s') :
    (await l act).Leads R := by
  intro s a s' hr
  rw [run_await, Option.map_eq_some_iff] at hr
  obtain ⟨s'', ha, he⟩ := hr
  cases he
  exact h s _ ha

theorem leads_pure (hR : ∀ s, R s s) (a : α) : (pure a : Task L σ α).Leads R := by
  intro s a' s' hr
  cases hr
  exact hR s

theorem leads_bind {t : Task L σ α} {f : α → Task L σ β}
    (hR : ∀ s s' s'', R s s' → R s' s'' → R s s'') (ht : t.Leads R) (hf : ∀ a, (f a).Leads R) :
    (t >>= f).Leads R := by
  intro s b s'' hr
  rw [run_bind, Option.bind_eq_some_iff] at hr
  obtain ⟨⟨a, s'⟩, hr₁, hr₂⟩ := hr
  exact hR s s' s'' (ht s a s' hr₁) (hf a s' b s'' hr₂)

end

/-- No step of the task waits, whatever state it finds. -/
def NeverWaits : Task L σ α → Prop
  | .ret _ => True
  | .atomic _ act next => ∀ s, (act s).isSome ∧ (next s).NeverWaits

theorem neverWaits_access (l : L) (f : σ → σ) (g : σ → α) : (access l f g).NeverWaits :=
  fun _ => ⟨rfl, trivial⟩

theorem neverWaits_bind {t : Task L σ α} {f : α → Task L σ β} (ht : t.NeverWaits)
    (hf : ∀ a, (f a).NeverWaits) : (t >>= f).NeverWaits := by
  change (t.bind f).NeverWaits
  induction t with
  | ret a => exact hf a
  | atomic l act next ih => exact fun s => ⟨(ht s).1, ih s (ht s).2⟩

theorem NeverWaits.zoom {t : Task L τ α} (ht : t.NeverWaits) (label : L → L')
    (p : Part σ τ) : (t.zoom label p).NeverWaits := by
  induction t with
  | ret a => trivial
  | atomic l act next ih =>
    intro s
    obtain ⟨hact, hnext⟩ := ht (p.get s)
    constructor
    · rw [Option.isSome_map]
      exact hact
    · exact ih _ hnext

theorem run_of_neverWaits {t : Task L σ α} (ht : t.NeverWaits) (s : σ) :
    ∃ a s', t.run s = some (a, s') := by
  induction t generalizing s with
  | ret a => exact ⟨a, s, rfl⟩
  | atomic l act next ih =>
    obtain ⟨hact, hnext⟩ := ht s
    obtain ⟨s₁, ha⟩ := Option.isSome_iff_exists.1 hact
    obtain ⟨a, s', hr⟩ := ih s hnext s₁
    exact ⟨a, s', by rw [run, ha, Option.bind_some, hr]⟩

theorem run_history_zoom_of_neverWaits {t : Task L τ α} (ht : t.NeverWaits) (label : L → L')
    (p : Part σ τ) {watch : L' → σ → H → H} (hw : ∀ l s h, watch (label l) s h = h) (s : σ)
    (h : H) : ∃ a b, ((t.zoom label p).history watch).run (s, h) = some (a, (p.set b s, h)) := by
  obtain ⟨a, b, hr⟩ := run_of_neverWaits ht (p.get s)
  exact ⟨a, b, by rw [run_history_zoom label p t hw, hr, Option.map_some]⟩

end Task

/-- Weakest precondition under interference: whatever environment steps `R` run between the
atomic steps of the task, `I` holds at every moment, each step that meets `C` is a step of `G`,
and `Q` holds once the task has ended. -/
def Guarantees (R G : σ → σ → Prop) (C : L → σ → Prop) (I : σ → Prop) (Q : α → σ → Prop) :
    Task L σ α → σ → Prop
  | .ret a, s => ∀ s', Relation.ReflTransGen R s s' → I s' ∧ Q a s'
  | .atomic l act next, s => ∀ s', Relation.ReflTransGen R s s' →
      I s' ∧ (C l s' → ∀ s'', act s' = some s'' → G s' s'' ∧ Guarantees R G C I Q (next s') s'')

theorem stable_closure {R : σ → σ → Prop} {P : σ → Prop} (hP : ∀ s s', P s → R s s' → P s')
    (h : P s) (hs : Relation.ReflTransGen R s s') : P s' := by
  induction hs with
  | refl => exact h
  | tail _ hR ih => exact hP _ _ ih hR

namespace Guarantees
variable {R G : σ → σ → Prop} {C : L → σ → Prop} {I I' : σ → Prop} {Q Q' : α → σ → Prop}

theorem holds {t : Task L σ α} (h : Guarantees R G C I Q t s) : I s := by
  cases t with
  | ret a => exact (h s .refl).1
  | atomic l act next => exact (h s .refl).1

theorem env_step {t : Task L σ α} (h : Guarantees R G C I Q t s) (hR : R s s') :
    Guarantees R G C I Q t s' := by
  cases t with
  | ret a => exact fun s'' hs => h s'' (.head hR hs)
  | atomic l act next => exact fun s'' hs => h s'' (.head hR hs)

theorem step {l : L} (h : Guarantees R G C I Q (.atomic l act next) s) (hC : C l s)
    (hs : act s = some s') : G s s' ∧ Guarantees R G C I Q (next s) s' :=
  (h s .refl).2 hC s' hs

theorem mono {t : Task L σ α} (h : Guarantees R G C I Q t s) (hI : ∀ s, I s → I' s)
    (hQ : ∀ a s, Q a s → Q' a s) : Guarantees R G C I' Q' t s := by
  induction t generalizing s with
  | ret a => exact fun s' hs => ⟨hI _ (h s' hs).1, hQ _ _ (h s' hs).2⟩
  | atomic l act next ih =>
    intro s' hs
    obtain ⟨hi, hact⟩ := h s' hs
    refine ⟨hI _ hi, fun hC s'' ha => ?_⟩
    obtain ⟨hG, hnext⟩ := hact hC s'' ha
    exact ⟨hG, ih s' hnext⟩

theorem bind {t : Task L σ β} {f : β → Task L σ α}
    (h : Guarantees R G C I (fun b s => Guarantees R G C I Q (f b) s) t s) :
    Guarantees R G C I Q (t >>= f) s := by
  change Guarantees R G C I Q (t.bind f) s
  induction t generalizing s with
  | ret a => exact (h s .refl).2
  | atomic l act next ih =>
    intro s' hs
    obtain ⟨hi, hact⟩ := h s' hs
    refine ⟨hi, fun hC s'' ha => ?_⟩
    obtain ⟨hG, hnext⟩ := hact hC s'' ha
    exact ⟨hG, ih s' hnext⟩

theorem ret {P : σ → Prop} (hP : ∀ s s', P s → R s s' → P s') (h : P s)
    (hIQ : ∀ s, P s → I s ∧ Q a s) : Guarantees R G C I Q (.ret a : Task L σ α) s :=
  fun _ hs => hIQ _ (stable_closure hP h hs)

/-- A stable assertion holds until the next atomic step of the task is taken. -/
theorem atomic {P : σ → Prop} {l : L} (hP : ∀ s s', P s → R s s' → P s') (h : P s)
    (hI : ∀ s, P s → I s)
    (hQ : ∀ s s', P s → C l s → act s = some s' →
      G s s' ∧ Guarantees R G C I Q (next s) s') :
    Guarantees R G C I Q (.atomic l act next) s := by
  intro s' hs
  have hp := stable_closure hP h hs
  exact ⟨hI _ hp, fun hC s'' => hQ s' s'' hp hC⟩

/-- A task whose every step keeps a stable assertion. -/
theorem of_only {T : L → σ → σ → Prop} {t : Task L σ α} {P : σ → Prop}
    (hP : ∀ s s', P s → R s s' → P s') (ht : t.Only T)
    (hT : ∀ l s s', P s → T l s s' → G s s' ∧ P s') (h : P s) :
    Guarantees R G C P (fun _ => P) t s := by
  induction t generalizing s with
  | ret a => exact ret hP h fun s hs => ⟨hs, hs⟩
  | atomic l act next ih =>
    apply atomic hP h fun s hs => hs
    intro s s' hs _ ha
    obtain ⟨hact, hnext⟩ := ht s
    obtain ⟨hG, hp⟩ := hT l s s' hs (hact s' ha)
    exact ⟨hG, ih s hnext hp⟩

end Guarantees

/-- The same of a task alone among environment steps, whose own steps are not restricted. -/
def Safe (R : σ → σ → Prop) (I : σ → Prop) (Q : α → σ → Prop) (t : Task L σ α) (s : σ) : Prop :=
  Guarantees R (fun _ _ => True) (fun _ _ => True) I Q t s

namespace Safe
variable {R : σ → σ → Prop} {I I' : σ → Prop} {Q Q' : α → σ → Prop}

theorem holds {t : Task L σ α} (h : Safe R I Q t s) : I s := Guarantees.holds h

theorem env_step {t : Task L σ α} (h : Safe R I Q t s) (hR : R s s') : Safe R I Q t s' :=
  Guarantees.env_step h hR

theorem step {l : L} (h : Safe R I Q (.atomic l act next) s) (hs : act s = some s') :
    Safe R I Q (next s) s' := (Guarantees.step h trivial hs).2

theorem mono {t : Task L σ α} (h : Safe R I Q t s) (hI : ∀ s, I s → I' s)
    (hQ : ∀ a s, Q a s → Q' a s) : Safe R I' Q' t s := Guarantees.mono h hI hQ

theorem bind {t : Task L σ β} {f : β → Task L σ α}
    (h : Safe R I (fun b s => Safe R I Q (f b) s) t s) : Safe R I Q (t >>= f) s :=
  Guarantees.bind h

theorem ret {P : σ → Prop} (hP : ∀ s s', P s → R s s' → P s') (h : P s)
    (hIQ : ∀ s, P s → I s ∧ Q a s) : Safe R I Q (.ret a : Task L σ α) s :=
  Guarantees.ret hP h hIQ

theorem atomic {P : σ → Prop} {l : L} (hP : ∀ s s', P s → R s s' → P s') (h : P s)
    (hI : ∀ s, P s → I s)
    (hQ : ∀ s s', P s → act s = some s' → Safe R I Q (next s) s') :
    Safe R I Q (.atomic l act next) s :=
  Guarantees.atomic hP h hI fun s s' hs _ ha => ⟨trivial, hQ s s' hs ha⟩

theorem access {P : σ → Prop} {l : L} {f : σ → σ} {g : σ → β}
    (hP : ∀ s s', P s → R s s' → P s') (h : P s) (hI : ∀ s, P s → I s)
    (hQ : ∀ s, P s → Safe R I Q (k (g s)) (f s)) : Safe R I Q (Task.access l f g >>= k) s := by
  apply atomic hP h hI
  intro s s' hp ha
  cases ha
  exact hQ s hp

/-- A task whose every step keeps a stable invariant is safe for it. -/
theorem of_preserves {t : Task L σ α} {P : σ → Prop} (hP : ∀ s s', P s → R s s' → P s')
    (ht : t.Preserves P) (h : P s) : Safe R P (fun _ => P) t s := by
  induction t generalizing s with
  | ret a => exact ret hP h fun s hs => ⟨hs, hs⟩
  | atomic l act next ih =>
    apply atomic hP h fun s hs => hs
    intro s s' hs ha
    obtain ⟨hact, hnext⟩ := ht s hs
    exact ih s hnext (hact s' ha)

end Safe

end Concurrent
