import RobotCar.Lib.Task

namespace Concurrent
set_option autoImplicit true

/-- One task handles messages one after another, while environment steps preempt it between
any two of its atomic steps. -/
structure Client (L σ M E : Type) where
  handler : M → Task L σ Unit
  env : E → σ → σ
  /-- What a history variable in the state records when a message arrives. -/
  arrive : M → σ → σ := fun _ s => s

namespace Client

structure Config (L σ : Type) where
  shared : σ
  current : Task L σ Unit

inductive Event (M E : Type) where
  | env (e : E)
  | step
  | recv (m : M)

/-- One event. The task takes its next atomic step unless it is blocked, and receives a message
only when it has finished the one before. -/
def step (c : Client L σ M E) (k : Config L σ) : Event M E → Config L σ
  | .env e => { k with shared := c.env e k.shared }
  | .step =>
    match k.current with
    | .ret _ => k
    | .atomic _ act next =>
      match act k.shared with
      | none => k
      | some s => ⟨s, next k.shared⟩
  | .recv m =>
    match k.current with
    | .ret _ => ⟨c.arrive m k.shared, c.handler m⟩
    | .atomic _ _ _ => k

def start (s : σ) : Config L σ := ⟨s, .ret ()⟩

def Idle (k : Config L σ) : Prop := ∃ u, k.current = .ret u

instance : (k : Config L σ) → Decidable (Idle k)
  | ⟨_, .ret u⟩ => .isTrue ⟨u, rfl⟩
  | ⟨_, .atomic _ _ _⟩ => .isFalse nofun

def run (c : Client L σ M E) (s : σ) (es : List (Event M E)) : Config L σ :=
  Transition.run c.step (start s) es

/-- A condition on the environment steps and on the messages of a run. -/
def Meets (C : σ → E → Prop) (D : M → Prop) : Config L σ → Event M E → Prop
  | k, .env e => C k.shared e
  | _, .step => True
  | _, .recv m => D m

instance (C : σ → E → Prop) (D : M → Prop) [∀ s e, Decidable (C s e)] [∀ m, Decidable (D m)]
    (k : Config L σ) (e : Event M E) : Decidable (Meets C D k e) :=
  match e with
  | .env e => inferInstanceAs (Decidable (C k.shared e))
  | .step => instDecidableTrue
  | .recv m => inferInstanceAs (Decidable (D m))

/-- The interference that a handler has to withstand. -/
def Interference (c : Client L σ M E) (C : σ → E → Prop) (s s' : σ) : Prop :=
  ∃ e, C s e ∧ s' = c.env e s

theorem safe_start (c : Client L σ M E) {C : σ → E → Prop} {I Inv : σ → Prop}
    (henv : ∀ s e, Inv s → C s e → Inv (c.env e s)) (hI : ∀ s, Inv s → I s) (h : Inv s) :
    Safe (c.Interference C) I (fun _ => Inv) (start (L := L) s).current s := by
  refine Safe.ret (P := Inv) ?_ h fun s hs => ⟨hI s hs, hs⟩
  rintro s s' hs ⟨e, he, rfl⟩
  exact henv s e hs he

theorem safe_event (c : Client L σ M E) {C : σ → E → Prop} {I Inv : σ → Prop} (k : Config L σ)
    (e : Event M E) (hk : Safe (c.Interference C) I (fun _ => Inv) k.current k.shared)
    (henv : ∀ x, e = .env x → C k.shared x)
    (hrecv : ∀ m u, e = .recv m → k.current = .ret u → Inv k.shared →
      Safe (c.Interference C) I (fun _ => Inv) (c.handler m) (c.arrive m k.shared)) :
    Safe (c.Interference C) I (fun _ => Inv) (c.step k e).current (c.step k e).shared := by
  cases e with
  | env x => exact hk.env_step ⟨x, henv x rfl, rfl⟩
  | step =>
    cases ht : k.current with
    | ret a => simpa only [step, ht] using hk
    | atomic l act next =>
      rw [ht] at hk
      cases ha : act k.shared with
      | none => simpa only [step, ht, ha] using hk
      | some s' => simpa only [step, ht, ha] using hk.step ha
  | recv m =>
    cases ht : k.current with
    | ret u =>
      rw [ht] at hk
      simpa only [step, ht] using hrecv m u rfl ht (hk _ .refl).2
    | atomic l act next => simpa only [step, ht] using hk

theorem safe_step (c : Client L σ M E) {C : σ → E → Prop} {D : M → Prop} {I Inv : σ → Prop}
    (hrecv : ∀ m s, D m → Inv s →
      Safe (c.Interference C) I (fun _ => Inv) (c.handler m) (c.arrive m s))
    (k : Config L σ) (e : Event M E)
    (hk : Safe (c.Interference C) I (fun _ => Inv) k.current k.shared) (he : Meets C D k e) :
    Safe (c.Interference C) I (fun _ => Inv) (c.step k e).current (c.step k e).shared := by
  apply c.safe_event k e hk
  · rintro x rfl
    exact he
  · rintro m u rfl - hinv
    exact hrecv m _ he hinv

/-- If every handler keeps `Inv` and maintains `I` under the interference, so does every run. -/
theorem safe_of_meet (c : Client L σ M E) {C : σ → E → Prop} {D : M → Prop} {I Inv : σ → Prop}
    (henv : ∀ s e, Inv s → C s e → Inv (c.env e s)) (hI : ∀ s, Inv s → I s)
    (hrecv : ∀ m s, D m → Inv s →
      Safe (c.Interference C) I (fun _ => Inv) (c.handler m) (c.arrive m s))
    (h : Inv s) (hm : Transition.StepsMeet c.step (Meets C D) (start s) es) :
    Safe (c.Interference C) I (fun _ => Inv) (c.run s es).current (c.run s es).shared :=
  Transition.run_invariant_of_meet
    (I := fun k => Safe (c.Interference C) I (fun _ => Inv) k.current k.shared)
    (c.safe_step hrecv) (c.safe_start henv hI h) hm

/-- Where an environment step that misses `C` shows at once, every moment of a run is good
exactly when every environment step meets `C`. -/
theorem always_iff_meets (c : Client L σ M E) {C : σ → E → Prop} {I P Inv : σ → Prop}
    (henv : ∀ s e, Inv s → C s e → Inv (c.env e s)) (hI : ∀ s, Inv s → I s)
    (hrecv : ∀ m s, Inv s →
      Safe (c.Interference C) I (fun _ => Inv) (c.handler m) (c.arrive m s))
    (hP : ∀ s, I s → P s) (hbad : ∀ s e, I s → ¬C s e → ¬P (c.env e s)) (h : Inv s)
    (es : List (Event M E)) :
    (∀ n, P (c.run s (es.take n)).shared) ↔
      Transition.StepsMeet c.step (Meets C fun _ => True) (start s) es := by
  have hmiss (k : Config L σ) (e : Event M E)
      (hk : Safe (c.Interference C) I (fun _ => Inv) k.current k.shared)
      (he : ¬Meets C (fun _ => True) k e) : ¬P (c.step k e).shared := by
    cases e with
    | env e => exact hbad k.shared e hk.holds he
    | step => exact absurd trivial he
    | recv m => exact absurd trivial he
  exact Transition.always_iff_stepsMeet
    (I := fun k : Config L σ => Safe (c.Interference C) I (fun _ => Inv) k.current k.shared)
    (P := fun k : Config L σ => P k.shared) (c.safe_step fun m s _ => hrecv m s)
    (fun k hk => hP k.shared hk.holds) hmiss (c.safe_start henv hI h)

theorem meets_of_messages (c : Client L σ M E) {D : M → Prop} (k : Config L σ)
    {es : List (Event M E)} (h : ∀ m, .recv m ∈ es → D m) :
    Transition.StepsMeet c.step (Meets (fun _ _ => True) D) k es := by
  apply Transition.stepsMeet_of_forall
  intro e he k
  cases e with
  | env e => trivial
  | step => trivial
  | recv m => exact h m he

theorem safe (c : Client L σ M E) {I Inv : σ → Prop}
    (henv : ∀ s e, Inv s → Inv (c.env e s)) (hI : ∀ s, Inv s → I s)
    (hrecv : ∀ m s, Inv s →
      Safe (c.Interference fun _ _ => True) I (fun _ => Inv) (c.handler m) (c.arrive m s))
    (h : Inv s) (es : List (Event M E)) :
    Safe (c.Interference fun _ _ => True) I (fun _ => Inv)
      (c.run s es).current (c.run s es).shared :=
  c.safe_of_meet (D := fun _ => True) (fun s e hs _ => henv s e hs) hI
    (fun m s _ hs => hrecv m s hs) h (c.meets_of_messages _ fun _ _ => trivial)

/-- An invariant that nothing in the system breaks holds in every state that is reached. -/
theorem run_invariant (c : Client L σ M E) {I : σ → Prop} (henv : ∀ s e, I s → I (c.env e s))
    (hrecv : ∀ m s, I s → I (c.arrive m s)) (hhandler : ∀ m, (c.handler m).Preserves I)
    (h : I s) (es : List (Event M E)) : I (c.run s es).shared := by
  have hstable (s s' : σ) (hs : I s) : c.Interference (fun _ _ => True) s s' → I s' := by
    rintro ⟨e, -, rfl⟩
    exact henv s e hs
  have hsafe := c.safe henv (fun _ hs => hs)
    (fun m s hs => Safe.of_preserves hstable (hhandler m) (hrecv m s hs)) h es
  exact hsafe.holds

def history (c : Client L σ M E) (watch : L → σ → H → H) (watchEnv : E → σ → H → H)
    (watchRecv : M → σ → H → H) : Client L (σ × H) M E where
  handler m := (c.handler m).history watch
  env e s := (c.env e s.1, watchEnv e s.1 s.2)
  arrive m s := (c.arrive m s.1, watchRecv m s.1 s.2)

end Client

end Concurrent
