import RobotCar.Lib.Pool

namespace Concurrent
set_option autoImplicit true

/-- Whatever states it finds, each step of the task is allowed by a monitor, which it moves on, and
its result, or that it waits, is related by `T` to the state. The task ends where the monitor is in
a state of `E`. -/
def Task.Follows (δ : Q → L → Option Q) (T : L → σ → Option σ → Prop) (E : Q → Prop) :
    Task L σ α → Q → Prop
  | .ret _, q => E q
  | .atomic l act next, q => ∃ q', δ q l = some q' ∧
      ∀ s, T l s (act s) ∧ (next s).Follows δ T E q'

namespace Task
variable {δ : Q → L → Option Q} {T : L → σ → Option σ → Prop} {E E' : Q → Prop}

theorem follows_access {l : L} {f : σ → σ} (g : σ → α) (hl : δ q l = some q')
    (hT : ∀ s, T l s (some (f s))) (hE : E q') : (access l f g).Follows δ T E q :=
  ⟨q', hl, fun s => ⟨hT s, hE⟩⟩

theorem follows_await {l : L} {act : σ → Option σ} (hl : δ q l = some q')
    (hT : ∀ s, T l s (act s)) (hE : E q') : (await l act).Follows δ T E q :=
  ⟨q', hl, fun s => ⟨hT s, hE⟩⟩

theorem Follows.bind {t : Task L σ α} {f : α → Task L σ β} (ht : t.Follows δ T E q)
    (hf : ∀ a q', E q' → (f a).Follows δ T E' q') : (t >>= f).Follows δ T E' q := by
  change (t.bind f).Follows δ T E' q
  induction t generalizing q with
  | ret a => exact hf a q ht
  | atomic l act next ih =>
    obtain ⟨q', hl, hnext⟩ := ht
    exact ⟨q', hl, fun s => ⟨(hnext s).1, ih s (hnext s).2⟩⟩

theorem Follows.zoom {δ' : Q → L' → Option Q} {t : Task L τ α} {T : L → τ → Option τ → Prop}
    {T' : L' → σ → Option σ → Prop} (ht : t.Follows δ T E q) (label : L → L') (p : Part σ τ)
    (hδ : ∀ q l, δ' q (label l) = δ q l)
    (hT : ∀ l s o, T l (p.get s) o → T' (label l) s (o.map fun a => p.set a s)) :
    (t.zoom label p).Follows δ' T' E q := by
  induction t generalizing q with
  | ret a => exact ht
  | atomic l act next ih =>
    obtain ⟨q', hl, hnext⟩ := ht
    exact ⟨q', (hδ q l).trans hl, fun s => ⟨hT l s _ (hnext _).1, ih _ (hnext _).2⟩⟩

theorem Follows.history {t : Task L σ α} (ht : t.Follows δ T E q) (watch : L → σ → H → H)
    {T' : L → σ × H → Option (σ × H) → Prop}
    (hT : ∀ l s o, T l s.1 o → T' l s (o.map fun s' => (s', watch l s.1 s.2))) :
    (t.history watch).Follows δ T' E q := by
  induction t generalizing q with
  | ret a => exact ht
  | atomic l act next ih =>
    obtain ⟨q', hl, hnext⟩ := ht
    exact ⟨q', hl, fun s => ⟨hT l s _ (hnext _).1, ih _ (hnext _).2⟩⟩

def Silent (δ : Q → L → Option Q) (T : L → σ → Option σ → Prop) (q : Q) (t : Task L σ α) : Prop :=
  t.Follows δ T (· = q) q

theorem silent_access {l : L} {f : σ → σ} (g : σ → α) (hl : δ q l = some q)
    (hT : ∀ s, T l s (some (f s))) : (access l f g).Silent δ T q := follows_access g hl hT rfl

theorem silent_await {l : L} {act : σ → Option σ} (hl : δ q l = some q)
    (hT : ∀ s, T l s (act s)) : (await l act).Silent δ T q :=
  follows_await hl hT rfl

theorem silent_pure (a : α) : (pure a : Task L σ α).Silent δ T q := rfl

theorem Silent.bind {t : Task L σ α} {f : α → Task L σ β} (ht : t.Silent δ T q)
    (hf : ∀ a, (f a).Silent δ T q) : (t >>= f).Silent δ T q :=
  Follows.bind ht fun a _ hq => hq ▸ hf a

theorem silent_zoom (t : Task L τ α) {label : L → L'} {p : Part σ τ} {δ : Q → L' → Option Q}
    {T : L' → σ → Option σ → Prop} (hl : ∀ l, δ q (label l) = some q)
    (hT : ∀ l s (o : Option τ), T (label l) s (o.map fun a => p.set a s)) :
    (t.zoom label p).Silent δ T q := by
  induction t with
  | ret a => rfl
  | atomic l act next ih => exact ⟨q, hl l, fun s => ⟨hT l s _, ih _⟩⟩

end Task

namespace Pool
variable {W L σ : Type} {J : W → Type} [DecidableEq W] {δ : Q → L → Option Q}
  {T : W → L → σ → Option σ → Prop} {q₀ : Q} {I : σ → (W → Q) → Prop}

/-- Each worker has a monitor, which its program follows, and `I` relates them to the state. -/
def Monitored (δ : Q → L → Option Q) (T : W → L → σ → Option σ → Prop) (q₀ : Q)
    (I : σ → (W → Q) → Prop) (k : Config W L σ) (q : W → Q) : Prop :=
  (∀ w, (k.current w).Follows δ (T w) (· = q₀) (q w)) ∧ I k.shared q

theorem step_monitored (p : Pool W L σ J)
    (hjob : ∀ w j, (p.job w j).Follows δ (T w) (· = q₀) q₀)
    (harrive : ∀ w j s q, I s q → I (p.arrive w j s) q)
    (hI : ∀ w l s s' q q', I s q → δ (q w) l = some q' → T w l s (some s') →
      I s' (Function.update q w q'))
    {k : Config W L σ} {q : W → Q} (h : Monitored δ T q₀ I k q) (e : Event W J) :
    ∃ q', Monitored δ T q₀ I (p.step k e) q' := by
  obtain ⟨hw, hk⟩ := h
  cases e with
  | step w =>
    rw [step]
    cases ht : k.current w with
    | ret a => exact ⟨q, hw, hk⟩
    | atomic l act next =>
      obtain ⟨q', hl, hnext⟩ := ht ▸ hw w
      obtain ⟨hact, hnext⟩ := hnext k.shared
      cases ha : act k.shared with
      | none => exact ⟨q, by simpa only [ha] using hw, by simpa only [ha] using hk⟩
      | some s =>
        simp only [ha]
        refine ⟨Function.update q w q', fun w' => ?_, hI w l _ s q q' hk hl (ha ▸ hact)⟩
        dsimp only
        by_cases hww : w' = w
        · subst hww
          rw [Function.update_self, Function.update_self]
          exact hnext
        · rw [Function.update_of_ne hww, Function.update_of_ne hww]
          exact hw w'
  | recv w j =>
    rw [step]
    cases ht : k.current w with
    | ret a =>
      refine ⟨q, fun w' => ?_, harrive w j _ q hk⟩
      dsimp only
      by_cases hww : w' = w
      · subst hww
        have hq : q w' = q₀ := by
          have hret := hw w'
          rw [ht] at hret
          exact hret
        rw [Function.update_self, hq]
        exact hjob w' j
      · rw [Function.update_of_ne hww]
        exact hw w'
    | atomic l act next => exact ⟨q, hw, hk⟩

/-- An invariant of the steps that the monitors allow holds at every moment of every run. -/
theorem run_monitored (p : Pool W L σ J)
    (hjob : ∀ w j, (p.job w j).Follows δ (T w) (· = q₀) q₀)
    (harrive : ∀ w j s q, I s q → I (p.arrive w j s) q)
    (hI : ∀ w l s s' q q', I s q → δ (q w) l = some q' → T w l s (some s') →
      I s' (Function.update q w q'))
    {k : Config W L σ} (h : ∃ q, Monitored δ T q₀ I k q) (es : List (Event W J)) :
    ∃ q, Monitored δ T q₀ I (p.run k es) q :=
  Transition.run_invariant (I := fun k => ∃ q, Monitored δ T q₀ I k q)
    (fun _ e ⟨_, hk⟩ => step_monitored p hjob harrive hI hk e) h es

/-- The worker, if any, that its monitor sees in possession of a lock. -/
def Owns (owner : Option W) (b : Q → Bool) (q : W → Q) : Prop :=
  ∀ w, b (q w) = true ↔ owner = some w

namespace Owns
variable {b : Q → Bool} {q : W → Q}

theorem take (h : Owns none b q) (w : W) (hp : b p = true) :
    Owns (some w) b (Function.update q w p) := by
  intro w'
  by_cases hw : w' = w
  · subst hw
    rw [Function.update_self]
    exact iff_of_true hp rfl
  · rw [Function.update_of_ne hw]
    exact iff_of_false (fun hb => nomatch (h w').1 hb) fun he => hw (Option.some.inj he).symm

theorem give (h : Owns (some w) b q) (hp : b p = false) : Owns none b (Function.update q w p) := by
  intro w'
  by_cases hw : w' = w
  · subst hw
    rw [Function.update_self, hp]
    exact iff_of_false nofun nofun
  · rw [Function.update_of_ne hw]
    exact iff_of_false (fun hb => hw (Option.some.inj ((h w').1 hb)).symm) nofun

theorem keep (h : Owns owner b q) (hp : b p = b (q w)) :
    Owns owner b (Function.update q w p) := by
  intro w'
  by_cases hw : w' = w
  · subst hw
    rw [Function.update_self, hp]
    exact h w'
  · rw [Function.update_of_ne hw]
    exact h w'

end Owns

end Pool

end Concurrent
