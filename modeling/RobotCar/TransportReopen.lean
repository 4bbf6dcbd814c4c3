import RobotCar.Transport

namespace RobotCar
open Concurrent
set_option autoImplicit true

/-! ### Sessions -/

/-- A session begins whenever the transport is opened. -/
structure Sessions where
  session : Nat := 0
  /-- The session in which the byte of each cell has arrived. -/
  origin : Fin UART_DMA_BUFFER_SIZE → Nat := fun _ => 0
  /-- The bytes that reads have loaded: when each of them arrived, and when it was loaded. -/
  loads : List (Nat × Nat) := []

namespace Sessions

def Fresh (h : Sessions) : Prop := ∀ b ∈ h.loads, b.1 = b.2

instance (h : Sessions) : Decidable h.Fresh := inferInstanceAs (Decidable (∀ b ∈ h.loads, _))

def watch : TransportAccess → Transport → Sessions → Sessions
  | .open, _, h => { h with session := h.session + 1 }
  | .load, t, h => { h with loads := h.loads ++ [(h.origin t.dma_head, h.session)] }
  | .close, _, h | .sample, _, h | .compare, _, h | .advance _, _, h | .returned _ _, _, h => h

def arrival (t : Transport) (h : Sessions) : Sessions :=
  if t.running then { h with origin := Function.update h.origin t.position h.session } else h

end Sessions

def recordedSessions : Client TransportAccess (Transport × Sessions) TransportCall UInt8 :=
  transportClient.history Sessions.watch (fun _ => Sessions.arrival) fun _ _ h => h

def firstOpen : Transport × Sessions :=
  (cubemx_transport_open.exec {}, { session := 1 })

/-- Every call of `cubemx_transport_open` finds the head at the first cell of the ring. -/
def OpensAtStart (k : Client.Config TransportAccess (Transport × Sessions)) :
    Client.Event TransportCall UInt8 → Prop
  | .recv .open => Client.Idle k → k.shared.1.dma_head = 0
  | .recv .close | .recv (.read _ _) | .env _ | .step => True

/-- Events of one session. -/
def WithinSession (es : List (Client.Event TransportCall UInt8)) : Prop :=
  ∀ e ∈ es, e ≠ .recv .open

/-! ### What keeps a session fresh -/

structure Opened (r : Transport × Sessions) : Prop where
  fresh : r.2.Fresh
  past : ∀ i, r.2.origin i ≤ r.2.session
  written : ∀ i, i.val < r.1.received → r.2.origin i = r.2.session
  head : r.1.dma_head.val ≤ r.1.received

/-- The head is short of the sampled tail by `d` bytes at least. -/
def Short (d : Nat) (r : Transport × Sessions) : Prop :=
  Opened r ∧ ∃ m, r.1.dma_tail = m % UART_DMA_BUFFER_SIZE ∧ r.1.dma_head.val + d ≤ m ∧
    m ≤ r.1.received

theorem Opened.congr (h : Opened r) (hreceived : r'.1.received = r.1.received)
    (hhead : r'.1.dma_head = r.1.dma_head) (hhistory : r'.2 = r.2) : Opened r' := by
  obtain ⟨h₁, h₂, h₃, h₄⟩ := h
  constructor <;> simp only [hreceived, hhead, hhistory] <;> assumption

theorem Opened.arrival (h : Opened r) (byte : UInt8) : Opened (recordedSessions.env byte r) := by
  change Opened (r.1.arrival byte, r.2.arrival r.1)
  rw [Transport.arrival, Sessions.arrival]
  split
  · constructor
    · exact h.fresh
    · intro i
      dsimp only
      by_cases hi : i = r.1.position
      · rw [hi, Function.update_self]
      · rw [Function.update_of_ne hi]
        exact h.past i
    · intro i hlt
      dsimp only at hlt ⊢
      by_cases hi : i = r.1.position
      · rw [hi, Function.update_self]
      · rw [Function.update_of_ne hi]
        apply h.written i
        apply Nat.lt_of_le_of_ne (Nat.le_of_lt_succ hlt)
        -- the cell of the last position is the one that is written
        intro he
        apply hi
        apply Fin.ext
        change i.val = r.1.received % UART_DMA_BUFFER_SIZE
        rw [← he, Nat.mod_eq_of_lt i.isLt]
    · exact h.head.trans (Nat.le_succ _)
  · exact h

theorem arrival_indices (byte : UInt8) (r : Transport × Sessions) :
    (recordedSessions.env byte r).1.dma_tail = r.1.dma_tail ∧
      (recordedSessions.env byte r).1.dma_head = r.1.dma_head ∧
      r.1.received ≤ (recordedSessions.env byte r).1.received := by
  change (r.1.arrival byte).dma_tail = _ ∧ (r.1.arrival byte).dma_head = _ ∧
    _ ≤ (r.1.arrival byte).received
  rw [Transport.arrival]
  split
  · exact ⟨rfl, rfl, Nat.le_succ _⟩
  · exact ⟨rfl, rfl, le_rfl⟩

def Anything (_ : Transport × Sessions) (_ : UInt8) : Prop := True

theorem opened_stable (r r' : Transport × Sessions) (h : Opened r)
    (he : recordedSessions.Interference Anything r r') : Opened r' := by
  obtain ⟨byte, -, rfl⟩ := he
  exact h.arrival byte

theorem short_stable (r r' : Transport × Sessions) (h : Short d r)
    (he : recordedSessions.Interference Anything r r') : Short d r' := by
  obtain ⟨byte, -, rfl⟩ := he
  obtain ⟨ho, m, htail, hd, hm⟩ := h
  obtain ⟨htail', hhead', hreceived⟩ := arrival_indices byte r
  refine ⟨ho.arrival byte, m, htail'.trans htail, ?_, hm.trans hreceived⟩
  rw [hhead']
  exact hd

theorem Opened.sample (h : Opened r) :
    Short 0 ({ r.1 with dma_tail := UART_DMA_BUFFER_SIZE - r.1.HAL_DMA_GET_COUNTER }, r.2) :=
  ⟨h.congr rfl rfl rfl, r.1.received, r.1.tail_eq_position, h.head, le_rfl⟩

theorem Short.found (h : Short 0 r) (hne : r.1.dma_head.val ≠ r.1.dma_tail) : Short 1 r := by
  obtain ⟨ho, m, htail, hle, hm⟩ := h
  refine ⟨ho, m, htail, Nat.lt_of_le_of_ne hle ?_, hm⟩
  intro he
  apply hne
  change r.1.dma_head.val = m at he
  rw [htail, ← he, Nat.mod_eq_of_lt r.1.dma_head.isLt]

theorem Short.load (h : Short 1 r) :
    Short 1 (r.1, { r.2 with loads := r.2.loads ++ [(r.2.origin r.1.dma_head, r.2.session)] }) := by
  obtain ⟨ho, m, htail, hle, hm⟩ := h
  refine ⟨⟨?_, ho.past, ho.written, ho.head⟩, m, htail, hle, hm⟩
  intro b hb
  rcases List.mem_append.1 hb with hb | hb
  · exact ho.fresh b hb
  · rw [List.mem_singleton.1 hb]
    exact ho.written _ (Nat.lt_of_lt_of_le hle hm)

theorem Short.advance (h : Short 1 r) :
    Short 0 ({ r.1 with dma_head := r.1.dma_head + 1 }, r.2) := by
  obtain ⟨ho, m, htail, hle, hm⟩ := h
  have hval : (r.1.dma_head + 1).val ≤ r.1.dma_head.val + 1 := by
    rw [Fin.val_add]
    exact Nat.mod_le _ _
  have hhead : (r.1.dma_head + 1).val ≤ m := hval.trans hle
  exact ⟨⟨ho.fresh, ho.past, ho.written, hhead.trans hm⟩, m, htail, hhead, hm⟩

theorem Opened.open (h : Opened r) (hhead : r.1.dma_head = 0) :
    Opened (r.1.HAL_UART_Receive_DMA, { r.2 with session := r.2.session + 1 }) := by
  constructor
  · exact h.fresh
  · exact fun i => (h.past i).trans (Nat.le_succ _)
  · exact fun i hi => absurd hi (Nat.not_lt_zero _)
  · exact Nat.le_of_eq (congrArg Fin.val hhead)

/-! ### The calls -/

theorem wait_data_fresh (turns : Nat) {r : Transport × Sessions} (h : Opened r) :
    Safe (recordedSessions.Interference Anything) Opened (fun _ => Short 0)
      ((wait_data turns).history Sessions.watch) r := by
  induction turns generalizing r with
  | zero =>
    apply Safe.access opened_stable h fun _ h => h
    intro r h
    apply Safe.access short_stable h.sample fun _ h => h.1
    intro r h
    exact Safe.ret short_stable h fun _ h => ⟨h.1, h⟩
  | succ turns ih =>
    rw [wait_data, Task.history_bind]
    apply Safe.access opened_stable h fun _ h => h
    intro r h
    rw [Task.history_bind]
    apply Safe.access short_stable h.sample fun _ h => h.1
    intro r h
    split
    · exact ih h.1
    · exact Safe.ret short_stable h fun _ h => ⟨h.1, h⟩

/-- The comparison does not change, however long the task is preempted after it. -/
theorem copy_data_fresh (room : Nat) (buf : List UInt8) {r : Transport × Sessions}
    (h : Short 0 r) :
    Safe (recordedSessions.Interference Anything) Opened (fun _ => Opened)
      ((copy_data room buf).history Sessions.watch) r := by
  induction room generalizing buf r with
  | zero =>
    rw [copy_data, Task.history_bind]
    apply Safe.access short_stable h fun _ h => h.1
    intro r h
    exact Safe.ret opened_stable h.1 fun _ h => ⟨h, h⟩
  | succ room ih =>
    rw [copy_data, Task.history_bind]
    apply Safe.access short_stable h fun _ h => h.1
    intro r h
    by_cases he : r.1.dma_head.val = r.1.dma_tail
    · rw [if_pos (decide_eq_true he)]
      exact Safe.ret opened_stable h.1 fun _ h => ⟨h, h⟩
    · rw [if_neg fun hd => he (of_decide_eq_true hd), Task.history_bind]
      apply Safe.access short_stable (h.found he) fun _ h => h.1
      intro r h
      rw [Task.history_bind]
      apply Safe.access short_stable h.load fun _ h => h.1
      intro r h
      exact ih _ h.advance

theorem call_fresh (c : TransportCall) {r : Transport × Sessions} (h : Opened r)
    (hopen : c = .open → r.1.dma_head = 0) :
    Safe (recordedSessions.Interference Anything) Opened (fun _ => Opened)
      (recordedSessions.handler c) r := by
  cases c with
  | «open» =>
    let P (r : Transport × Sessions) : Prop := Opened r ∧ r.1.dma_head = 0
    have hP (r r' : Transport × Sessions) (h : P r)
        (he : recordedSessions.Interference Anything r r') : P r' := by
      have ho := opened_stable r r' h.1 he
      obtain ⟨byte, -, rfl⟩ := he
      exact ⟨ho, (arrival_indices byte r).2.1.trans h.2⟩
    apply Safe.atomic hP ⟨h, hopen rfl⟩ fun _ h => h.1
    intro r r' h ha
    cases ha
    exact Safe.ret opened_stable (h.1.open h.2) fun _ h => ⟨h, h⟩
  | close =>
    apply Safe.atomic opened_stable h fun _ h => h
    intro r r' h ha
    cases ha
    exact Safe.ret opened_stable (h.congr rfl rfl rfl) fun _ h => ⟨h, h⟩
  | read len timeout =>
    change Safe _ _ _ (Task.history Sessions.watch (_ >>= _)) r
    rw [Task.history_bind, cubemx_transport_read, Task.history_bind]
    apply Safe.bind
    apply Safe.bind
    apply (wait_data_fresh _ h).mono fun _ h => h
    intro _ r h
    apply (copy_data_fresh len [] h).mono fun _ h => h
    intro buf r h
    apply Safe.access opened_stable h fun _ h => h
    intro r h
    exact Safe.ret opened_stable h fun _ h => ⟨h, h⟩

/-- What every moment of a run of such opens can go on with. -/
def Usable (k : Client.Config TransportAccess (Transport × Sessions)) : Prop :=
  Safe (recordedSessions.Interference Anything) Opened (fun _ => Opened) k.current k.shared

theorem usable_step (k : Client.Config TransportAccess (Transport × Sessions))
    (e : Client.Event TransportCall UInt8) (h : Usable k) (he : OpensAtStart k e) :
    Usable (recordedSessions.step k e) := by
  apply recordedSessions.safe_event k e h
  · exact fun _ _ => trivial
  · rintro c u rfl hret hopened
    apply call_fresh c hopened
    rintro rfl
    exact he ⟨u, hret⟩

theorem usable_firstOpen : Usable (Client.start firstOpen) := by
  have h : Opened firstOpen := ⟨nofun, fun _ => Nat.zero_le 1, nofun, le_rfl⟩
  exact Safe.ret opened_stable h fun _ h => ⟨h, h⟩

theorem usable_fresh (k : Client.Config TransportAccess (Transport × Sessions)) (h : Usable k)
    (es : List (Client.Event TransportCall UInt8)) (hes : WithinSession es) :
    (Transition.run recordedSessions.step k es).shared.2.Fresh := by
  induction es generalizing k with
  | nil => exact h.holds.fresh
  | cons e es ih =>
    have he : OpensAtStart k e := by
      cases e with
      | env byte => trivial
      | step => trivial
      | recv c =>
        cases c with
        | «open» => exact absurd rfl (hes _ List.mem_cons_self)
        | close => trivial
        | read len timeout => trivial
    exact ih _ (usable_step k e h he) fun e' he' => hes e' (List.mem_cons_of_mem _ he')

def readAtOnce : List (Client.Event TransportCall UInt8) :=
  [.step, .recv (.read 1 1), .step, .step, .step, .step]

theorem readAtOnce_loads (t : Transport) (h : Sessions) (hhead : t.dma_head ≠ 0) :
    (Transition.run recordedSessions.step ⟨(t, h), recordedSessions.handler .open⟩
      readAtOnce).shared.2.loads = h.loads ++ [(h.origin t.dma_head, h.session + 1)] := by
  have hne : (decide (t.dma_head.val = 0)) ≠ true :=
    fun he => hhead (Fin.ext (of_decide_eq_true he))
  -- the last step but one compares the head with the start of the ring
  change (recordedSessions.step
    ⟨_, Concurrent.Task.history _ (Concurrent.Task.bind
      (if decide (t.dma_head.val = 0) = true then _ else _) _)⟩
    .step).shared.2.loads = _
  rw [if_neg hne]
  rfl

/-- With the head elsewhere, that read returns a byte of an earlier session. -/
theorem stale_open (k : Client.Config TransportAccess (Transport × Sessions))
    (e : Client.Event TransportCall UInt8) (h : Usable k) (he : ¬OpensAtStart k e) :
    ¬∀ es, WithinSession es →
      (Transition.run recordedSessions.step (recordedSessions.step k e) es).shared.2.Fresh := by
  cases e with
  | env byte => exact absurd trivial he
  | step => exact absurd trivial he
  | recv c =>
    cases c with
    | close => exact absurd trivial he
    | read len timeout => exact absurd trivial he
    | «open» =>
      obtain ⟨u, hret, hhead⟩ : ∃ u, k.current = .ret u ∧ k.shared.1.dma_head ≠ 0 := by
        simpa only [OpensAtStart, Client.Idle, not_forall, exists_prop, ← exists_and_right] using he
      have hpast : k.shared.2.origin k.shared.1.dma_head ≤ k.shared.2.session :=
        h.holds.past k.shared.1.dma_head
      have hstep : recordedSessions.step k (.recv .open) =
          ⟨k.shared, recordedSessions.handler .open⟩ := by
        rw [Client.step, hret]
        rfl
      intro hall
      have hfresh := hall readAtOnce (by simp [WithinSession, readAtOnce])
      rw [hstep, Sessions.Fresh, readAtOnce_loads _ _ hhead] at hfresh
      have heq := hfresh _ List.mem_concat_self
      exact absurd heq (Nat.ne_of_lt (Nat.lt_succ_of_le hpast))

/-- In every session that follows, reads return bytes of that session only, exactly when every
open finds the head at the first cell of the ring. -/
theorem reopen_fresh (es : List (Client.Event TransportCall UInt8)) :
    (∀ n es', WithinSession es' →
      (recordedSessions.run firstOpen (es.take n ++ es')).shared.2.Fresh) ↔
    Transition.StepsMeet recordedSessions.step OpensAtStart (Client.start firstOpen) es := by
  rw [← Transition.always_iff_stepsMeet (P := fun k => ∀ es', WithinSession es' →
    (Transition.run recordedSessions.step k es').shared.2.Fresh) usable_step usable_fresh stale_open
    usable_firstOpen]
  simp only [Client.run, Transition.run_append]

/-- One byte is received and read, and the transport is opened again: the head stays behind the
first cell, which the new session has not filled. -/
theorem reopened_stale :
    ¬∀ es : List (Client.Event TransportCall UInt8),
      (recordedSessions.run firstOpen es).shared.2.Fresh := by
  intro h
  have := h ([.env 7, .recv (.read 1 1)] ++ List.replicate 7 .step ++
    [.recv .close, .step, .recv .open] ++ readAtOnce)
  revert this
  decide +kernel

end RobotCar
