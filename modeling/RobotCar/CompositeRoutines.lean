import RobotCar.Lib.Monitor
import RobotCar.Routines
import RobotCar.ServoRule

namespace RobotCar
open Concurrent
set_option autoImplicit true

/-! ### The routines, and the lock around them -/

inductive Composite where
  | Servo_InitPos
  | Servo_Put1
  | Servo_Put2
  | Servo_Put3
  | Servo_Grab1
  | Servo_Grab2
  | Servo_Grab3
  | Servo_Grab_Upper
  | Servo_Grab_Lower
  | Servo_Grab_Ground
  | Servo_Put_Lower
  | Servo_Camera
  | Servo_Camera1
  | All_Middle
  | Servo_Grab
  | Servo_Release
  deriving DecidableEq

def Composite.routine : Composite → Routine
  | .Servo_InitPos => RobotCar.Servo_InitPos
  | .Servo_Put1 => RobotCar.Servo_Put1
  | .Servo_Put2 => RobotCar.Servo_Put2
  | .Servo_Put3 => RobotCar.Servo_Put3
  | .Servo_Grab1 => RobotCar.Servo_Grab1
  | .Servo_Grab2 => RobotCar.Servo_Grab2
  | .Servo_Grab3 => RobotCar.Servo_Grab3
  | .Servo_Grab_Upper => RobotCar.Servo_Grab_Upper
  | .Servo_Grab_Lower => RobotCar.Servo_Grab_Lower
  | .Servo_Grab_Ground => RobotCar.Servo_Grab_Ground
  | .Servo_Put_Lower => RobotCar.Servo_Put_Lower
  | .Servo_Camera => RobotCar.Servo_Camera
  | .Servo_Camera1 => RobotCar.Servo_Camera1
  | .All_Middle => RobotCar.All_Middle
  | .Servo_Grab => RobotCar.Servo_Grab
  | .Servo_Release => RobotCar.Servo_Release

def actionsOf (rs : List Request) : List act := rs.map fun r => ⟨r.id, r.value⟩

def Composite.actions (c : Composite) : List act := actionsOf c.routine.requests

/-- The variables of the servos, and the recursive mutex: the task that holds it, and how often. -/
structure RoutineState (W : Type) where
  servo : Servo
  last_mode_servo : Int := -1
  Servo_Lock_Upper : Option W := none
  depth : Nat := 0

namespace RoutineState

def servoPart : Task.Part (RoutineState W) Servo where
  get := servo
  set a s := { s with servo := a }
  get_set _ _ := rfl
  set_get _ := rfl
  set_set _ _ _ := rfl

end RoutineState

inductive RoutineAccess where
  /-- a routine takes `Servo_Lock_Upper` -/
  | xSemaphoreTakeRecursive (c : Composite)
  | xSemaphoreGiveRecursive
  | last_mode_servo
  | servo (access : ServoAccess)

section Tasks
variable {W : Type} [DecidableEq W]

def xSemaphoreTakeRecursive (w : W) (c : Composite) : Task RoutineAccess (RoutineState W) Unit :=
  Task.await (.xSemaphoreTakeRecursive c) fun s =>
    if s.Servo_Lock_Upper = none ∨ s.Servo_Lock_Upper = some w then
      some { s with Servo_Lock_Upper := some w, depth := s.depth + 1 }
    else none

/-- Only the task that holds the mutex can give it, and it is free after the last time. -/
def giveRecursive (w : W) (s : RoutineState W) : RoutineState W :=
  if s.Servo_Lock_Upper = some w then
    if s.depth = 1 then { s with Servo_Lock_Upper := none, depth := 0 }
    else { s with depth := s.depth - 1 }
  else s

def xSemaphoreGiveRecursive (w : W) : Task RoutineAccess (RoutineState W) Unit :=
  Task.update .xSemaphoreGiveRecursive (giveRecursive w)

/-- What the allocator and the clock return in one call of `Servo_Add_Action`. -/
structure Returned where
  New : Nat
  storage : Nat
  now : UInt32

def Servo_Add_Actions (returned : Nat → Returned) :
    Nat → List Request → Task ServoAccess Servo Unit
  | _, [] => pure ()
  | i, r :: rs => do
    Servo_Add_Action (returned i).New (returned i).storage (returned i).now r.id r.value r.time
    Servo_Add_Actions returned (i + 1) rs

def Composite.task (w : W) (returned : Nat → Returned) (c : Composite) :
    Task RoutineAccess (RoutineState W) Unit := do
  xSemaphoreTakeRecursive w c
  (Servo_Add_Actions returned 0 c.routine.requests).zoom .servo RoutineState.servoPart
  match c.routine.mode with
  | some mode => Task.update .last_mode_servo fun s => { s with last_mode_servo := mode }
  | none => pure ()
  xSemaphoreGiveRecursive w

end Tasks

/-! ### Runs -/

/-- The servo task, and any tasks that call the routines. -/
inductive Worker (W : Type) where
  | server
  | caller (w : W)
  deriving DecidableEq

inductive RoutineJob : Worker W → Type where
  | Servo_Server (now now' : UInt32) : RoutineJob .server
  | call (c : Composite) (returned : Nat → Returned) (w : W) : RoutineJob (.caller w)

structure RoutineHistory (W : Type) where
  enqueued : List act := []
  /-- the routines in the order in which they took `Servo_Lock_Upper` -/
  begun : List Composite := []
  /-- the task that holds `Servo_Lock` -/
  holder : Option (Worker W) := none

def RoutineHistory.watch (w : Worker W) (l : RoutineAccess) (_ : RoutineState W)
    (h : RoutineHistory W) : RoutineHistory W :=
  match l with
  | .xSemaphoreTakeRecursive c => { h with begun := h.begun ++ [c] }
  | .servo (.enqueue action) => { h with enqueued := h.enqueued ++ [action] }
  | .servo .xSemaphoreTake => { h with holder := some w }
  | .servo .xSemaphoreGive => { h with holder := none }
  | _ => h

section Runs
variable {W : Type} [DecidableEq W]

def RoutineJob.task {w : Worker W} : RoutineJob w → Task RoutineAccess (RoutineState W) Unit
  | .Servo_Server now now' => (RobotCar.Servo_Server now now').zoom .servo RoutineState.servoPart
  | .call c returned w => c.task w returned

variable (W) in
def routinePool : Pool (Worker W) RoutineAccess (RoutineState W) RoutineJob where
  job _ j := j.task

variable (W) in
def recordedRoutines :
    Pool (Worker W) RoutineAccess (RoutineState W × RoutineHistory W) RoutineJob :=
  (routinePool W).history RoutineHistory.watch fun _ _ _ h => h

variable (W) in
def startRoutines (s : Servo) :
    Pool.Config (Worker W) RoutineAccess (RoutineState W × RoutineHistory W) where
  shared := ({ servo := { s with Servo_Lock := false } }, {})
  current _ := .ret ()

end Runs

/-- What has been enqueued are whole lists of routines, and while one of them has
`Servo_Lock_Upper`, the beginning of its list. -/
structure Sequential (r : RoutineState W × RoutineHistory W) : Prop where
  free : r.1.Servo_Lock_Upper = none →
    r.2.enqueued = (r.2.begun.map Composite.actions).flatten
  taken : ∀ w, r.1.Servo_Lock_Upper = some w → ∃ done c part rest,
    r.2.begun = done ++ [c] ∧ c.actions = part ++ rest ∧
      r.2.enqueued = (done.map Composite.actions).flatten ++ part

/-- A task cannot take its next step, which is of this kind. -/
def Waits (P : RoutineAccess → Prop)
    (k : Pool.Config (Worker W) RoutineAccess (RoutineState W × RoutineHistory W))
    (w : Worker W) : Prop :=
  match k.current w with
  | .ret _ => False
  | .atomic l act _ => P l ∧ act k.shared = none

def RoutineAccess.Takes (l : RoutineAccess) : Prop := l = .servo .xSemaphoreTake

def RoutineAccess.TakesUpper (l : RoutineAccess) : Prop := ∃ c, l = .xSemaphoreTakeRecursive c

/-! ### What each task does -/

/-- Which locks a task has, and what it still has to enqueue. -/
structure Place where
  upper : Bool := false
  locked : Bool := false
  rest : List act := []
  deriving DecidableEq

/-- Only under `Servo_Lock` is an action enqueued, and only the next one. -/
def Place.servo (p : Place) : ServoAccess → Option Place
  | .xSemaphoreTake => if p.locked then none else some { p with locked := true }
  | .xSemaphoreGive => if p.locked then some { p with locked := false } else none
  | .enqueue action =>
    if p.locked = true ∧ p.rest.head? = some action then some { p with rest := p.rest.tail }
    else none
  | _ => some p

/-- `Servo_Lock_Upper` is taken by a task that has no lock, and given once all is enqueued. -/
def Place.next (p : Place) : RoutineAccess → Option Place
  | .xSemaphoreTakeRecursive c =>
    if p = {} then some { upper := true, rest := c.actions } else none
  | .xSemaphoreGiveRecursive => if p = { upper := true } then some {} else none
  | .last_mode_servo => some p
  | .servo l => p.servo l

def LockStep (l : ServoAccess) (s : Servo) (o : Option Servo) : Prop :=
  match l with
  | .xSemaphoreTake => o = if s.Servo_Lock then none else some { s with Servo_Lock := true }
  | .xSemaphoreGive => ∀ s', o = some s' → s'.Servo_Lock = false
  | _ => ∀ s', o = some s' → s'.Servo_Lock = s.Servo_Lock

theorem silent_rule (p : Place) : ActuatorRule fun _ t => t.Silent Place.servo LockStep p where
  pure a := Task.silent_pure a
  bind ht hf := ht.bind hf
  read _ := Task.silent_access _ rfl fun _ _ h => by
    cases h
    rfl
  undefined := Task.silent_await rfl fun _ _ h => nomatch h
  issue _ _ := Task.silent_access _ rfl fun _ _ h => by
    cases h
    rfl
  axis t := Task.silent_zoom t (fun _ => rfl) fun _ _ _ _ h => by
    obtain ⟨_, -, rfl⟩ := Option.map_eq_some_iff.1 h
    rfl
  WritePosSCS _ _ _ _ := Task.silent_zoom _ (fun _ => rfl) fun _ _ _ _ h => by
    obtain ⟨_, -, rfl⟩ := Option.map_eq_some_iff.1 h
    rfl
  WritePosSTS _ _ _ _ := Task.silent_zoom _ (fun _ => rfl) fun _ _ _ _ h => by
    obtain ⟨_, -, rfl⟩ := Option.map_eq_some_iff.1 h
    rfl

theorem silent_queue (p : Place) : QueueRule fun _ t => t.Silent Place.servo LockStep p :=
  (silent_rule p).queue fun _ hf => Task.silent_access _ rfl fun s _ h => by
    cases h
    exact (hf s).Servo_Lock

theorem follows_locked {t : Task ServoAccess Servo Unit} {p p' : Place} (hp : p.locked = false)
    (ht : t.Follows Place.servo LockStep (· = { p' with locked := true }) { p with locked := true })
    (hp' : p'.locked = false) :
    (do xSemaphoreTake; t; xSemaphoreGive : Task ServoAccess Servo Unit).Follows Place.servo
      LockStep (· = p') p := by
  apply Task.Follows.bind (E := (· = { p with locked := true }))
  · apply Task.follows_await _ fun _ => rfl
    · rfl
    · rw [Place.servo, hp]
      rfl
  · rintro _ _ rfl
    apply ht.bind
    rintro _ _ rfl
    apply Task.follows_access
    · rfl
    · rintro s s' h
      cases h
      rfl
    · exact congrArg (Place.mk p'.upper · p'.rest) hp'.symm

theorem follows_Servo_Server (now now' : UInt32) :
    (Servo_Server now now').Follows Place.servo LockStep (· = {}) {} :=
  follows_locked rfl ((silent_queue _).Servo_Server_body now now') rfl

theorem follows_Servo_Add_Action (New storage : Nat) (now : UInt32) (action : act) (time : Int)
    (rest : List act) :
    (Servo_Add_Action New storage now action.id action.value time).Follows Place.servo LockStep
      (· = { upper := true, rest := rest }) { upper := true, rest := action :: rest } := by
  apply follows_locked rfl _ rfl
  apply Task.Follows.bind ((silent_queue _).read Servo.Current)
  rintro Current _ rfl
  apply Task.Follows.bind (E := (· = { upper := true, locked := true, rest := rest }))
  · apply Task.follows_await
    · exact if_pos ⟨rfl, rfl⟩
    · intro s s' h
      rw [enqueue_frame h]
    · rfl
  · rintro _ _ rfl
    exact (silent_queue _).begin_queue now Current

theorem follows_Servo_Add_Actions (returned : Nat → Returned) (i : Nat) (rs : List Request) :
    (Servo_Add_Actions returned i rs).Follows Place.servo LockStep (· = { upper := true })
      { upper := true, rest := actionsOf rs } := by
  induction rs generalizing i with
  | nil => exact rfl
  | cons r rs ih =>
    apply Task.Follows.bind (follows_Servo_Add_Action _ _ _ ⟨r.id, r.value⟩ r.time (actionsOf rs))
    rintro _ _ rfl
    exact ih (i + 1)

section Follows
variable {W : Type} [DecidableEq W]

def RoutineStep (w : Worker W) (l : RoutineAccess) (s : RoutineState W)
    (o : Option (RoutineState W)) : Prop :=
  match l, w with
  | .xSemaphoreTakeRecursive _, .caller v => ∀ s', o = some s' →
    (s.Servo_Lock_Upper = none ∨ s.Servo_Lock_Upper = some v) ∧
      s' = { s with Servo_Lock_Upper := some v, depth := s.depth + 1 }
  | .xSemaphoreGiveRecursive, .caller v => o = some (giveRecursive v s)
  | .xSemaphoreTakeRecursive _, .server | .xSemaphoreGiveRecursive, .server => False
  | .last_mode_servo, _ => ∀ s', o = some s' → s' = { s with last_mode_servo := s'.last_mode_servo }
  | .servo l, _ => ∃ o', LockStep l s.servo o' ∧ o = o'.map fun a => { s with servo := a }

theorem Composite.follows (w : W) (returned : Nat → Returned) (c : Composite) :
    (c.task w returned).Follows Place.next (RoutineStep (.caller w)) (· = {}) {} := by
  apply Task.Follows.bind (E := (· = { upper := true, rest := c.actions }))
  · apply Task.follows_await
    · rfl
    · intro s s' h
      split at h
      · rename_i hfree
        cases h
        exact ⟨hfree, rfl⟩
      · cases h
    · rfl
  rintro _ _ rfl
  apply Task.Follows.bind (E := (· = { upper := true }))
  · exact (follows_Servo_Add_Actions returned 0 c.routine.requests).zoom _ _ (fun _ _ => rfl)
      fun l s o h => ⟨o, h, rfl⟩
  rintro _ _ rfl
  have hgive : (xSemaphoreGiveRecursive w).Follows Place.next (RoutineStep (.caller w)) (· = {})
      { upper := true } := Task.follows_access _ rfl (fun _ => rfl) rfl
  cases c.routine.mode with
  | none => exact hgive
  | some mode =>
    apply Task.Follows.bind (E := (· = { upper := true }))
    · apply Task.follows_access
      · rfl
      · intro s s' h
        cases h
        rfl
      · rfl
    · rintro _ _ rfl
      exact hgive

theorem RoutineJob.follows {w : Worker W} (j : RoutineJob w) :
    j.task.Follows Place.next (RoutineStep w) (· = {}) {} := by
  cases j with
  | Servo_Server now now' =>
    exact (follows_Servo_Server now now').zoom _ _ (fun _ _ => rfl) fun l s o h => ⟨o, h, rfl⟩
  | call c returned w => exact c.follows w returned

end Follows

/-! ### Runs keep the routines apart -/

section Coupled
variable {W : Type} {r r' : RoutineState W × RoutineHistory W} {q : Worker W → Place}

structure Locked (r : RoutineState W × RoutineHistory W) (q : Worker W → Place) : Prop where
  taken : r.1.servo.Servo_Lock = r.2.holder.isSome
  owns : Pool.Owns r.2.holder Place.locked q

/-- What has been enqueued lacks what the task under `Servo_Lock_Upper` still has to enqueue. -/
structure Begun (r : RoutineState W × RoutineHistory W) (q : Worker W → Place) : Prop where
  owns : Pool.Owns (r.1.Servo_Lock_Upper.map Worker.caller) Place.upper q
  depth : r.1.depth = if r.1.Servo_Lock_Upper.isSome then 1 else 0
  idle : ∀ w, (q w).upper = false → (q w).rest = []
  free : r.1.Servo_Lock_Upper = none →
    r.2.enqueued = (r.2.begun.map Composite.actions).flatten
  taken : ∀ v, r.1.Servo_Lock_Upper = some v → ∃ done c part,
    r.2.begun = done ++ [c] ∧ c.actions = part ++ (q (.caller v)).rest ∧
      r.2.enqueued = (done.map Composite.actions).flatten ++ part

theorem Begun.sequential (h : Begun r q) : Sequential r where
  free := h.free
  taken v hv := by
    obtain ⟨done, c, part, hbegun, hc, henqueued⟩ := h.taken v hv
    exact ⟨done, c, part, _, hbegun, hc, henqueued⟩

variable [DecidableEq W]

theorem Locked.frame (h : Locked r q) (hp : p.locked = (q w).locked)
    (hlock : r'.1.servo.Servo_Lock = r.1.servo.Servo_Lock) (hholder : r'.2.holder = r.2.holder) :
    Locked r' (Function.update q w p) where
  taken := by rw [hlock, hholder, h.taken]
  owns := by
    rw [hholder]
    exact h.owns.keep hp

theorem Locked.take (h : Locked r q) (w : Worker W) (hp : p.locked = true)
    (hfree : r.1.servo.Servo_Lock = false) (htaken : r'.1.servo.Servo_Lock = true)
    (hholder : r'.2.holder = some w) : Locked r' (Function.update q w p) where
  taken := by
    rw [htaken, hholder]
    rfl
  owns := by
    have hnone := h.taken.symm.trans hfree
    rw [Option.isSome_eq_false_iff, Option.isNone_iff_eq_none] at hnone
    rw [hholder]
    exact Pool.Owns.take (hnone ▸ h.owns) w hp

theorem Locked.give (h : Locked r q) (hq : (q w).locked = true) (hp : p.locked = false)
    (hfree : r'.1.servo.Servo_Lock = false) (hholder : r'.2.holder = none) :
    Locked r' (Function.update q w p) where
  taken := by
    rw [hfree, hholder]
    rfl
  owns := by
    rw [hholder]
    exact Pool.Owns.give ((h.owns w).1 hq ▸ h.owns) hp

theorem rest_update {p : Place} (hp : p.rest = (q w).rest) (w' : Worker W) :
    (Function.update q w p w').rest = (q w').rest := by
  by_cases hw : w' = w
  · rw [hw, Function.update_self, hp]
  · rw [Function.update_of_ne hw]

theorem Begun.frame {p : Place} (h : Begun r q) (hp : p.upper = (q w).upper)
    (hrest : p.rest = (q w).rest) (hlock : r'.1.Servo_Lock_Upper = r.1.Servo_Lock_Upper)
    (hdepth : r'.1.depth = r.1.depth) (hbegun : r'.2.begun = r.2.begun)
    (henqueued : r'.2.enqueued = r.2.enqueued) : Begun r' (Function.update q w p) where
  owns := by
    rw [hlock]
    exact h.owns.keep hp
  depth := by rw [hdepth, hlock, h.depth]
  idle := by
    rw [Function.forall_update_iff q fun _ p => p.upper = false → p.rest = []]
    exact ⟨fun hu => hrest.trans (h.idle w (hp.symm.trans hu)), fun w' _ => h.idle w'⟩
  free := by
    rw [hlock, hbegun, henqueued]
    exact h.free
  taken := by
    intro v
    rw [hlock, hbegun, henqueued, rest_update hrest]
    exact h.taken v

theorem Begun.begin {v : W} (h : Begun r q) (hq : q (.caller v) = {})
    (hfree : r.1.Servo_Lock_Upper = none ∨ r.1.Servo_Lock_Upper = some v) (c : Composite)
    (hlock : r'.1.Servo_Lock_Upper = some v) (hdepth : r'.1.depth = r.1.depth + 1)
    (hbegun : r'.2.begun = r.2.begun ++ [c]) (henqueued : r'.2.enqueued = r.2.enqueued) :
    Begun r' (Function.update q (.caller v) { upper := true, rest := c.actions }) := by
  have hnone : r.1.Servo_Lock_Upper = none := by
    rcases hfree with hfree | hfree
    · exact hfree
    · have hupper := (h.owns (.caller v)).2 (by rw [hfree, Option.map_some])
      rw [hq] at hupper
      cases hupper
  have howns := h.owns
  rw [hnone] at howns
  constructor
  · rw [hlock]
    exact howns.take (.caller v) rfl
  · rw [hdepth, h.depth, hnone, hlock]
    rfl
  · rw [Function.forall_update_iff q fun _ p => p.upper = false → p.rest = []]
    exact ⟨nofun, fun w' _ => h.idle w'⟩
  · intro hn
    rw [hlock] at hn
    cases hn
  · intro v' hv'
    rw [hlock] at hv'
    cases hv'
    rw [Function.update_self]
    exact ⟨r.2.begun, c, [], hbegun, rfl, by rw [henqueued, h.free hnone, List.append_nil]⟩

theorem Begun.finish {v : W} (h : Begun r q) (hq : q (.caller v) = { upper := true })
    (hgive : r'.1 = giveRecursive v r.1) (hbegun : r'.2.begun = r.2.begun)
    (henqueued : r'.2.enqueued = r.2.enqueued) :
    Begun r' (Function.update q (.caller v) {}) := by
  have hupper : r.1.Servo_Lock_Upper = some v := by
    have hmap := (h.owns (.caller v)).1 (by rw [hq])
    obtain ⟨v', hv', he⟩ := Option.map_eq_some_iff.1 hmap
    cases he
    exact hv'
  have hdepth : r.1.depth = 1 := by
    rw [h.depth, hupper]
    rfl
  rw [giveRecursive, if_pos hupper, if_pos hdepth] at hgive
  have howns := h.owns
  rw [hupper] at howns
  constructor
  · rw [hgive]
    exact Pool.Owns.give howns rfl
  · rw [hgive]
    rfl
  · rw [Function.forall_update_iff q fun _ p => p.upper = false → p.rest = []]
    exact ⟨fun _ => rfl, fun w' _ => h.idle w'⟩
  · intro _
    obtain ⟨done, c, part, hb, hc, he⟩ := h.taken v hupper
    rw [hq, List.append_nil] at hc
    rw [hbegun, henqueued, hb, he, List.map_append, List.flatten_append, hc.symm]
    exact congrArg _ (List.append_nil _).symm
  · intro v' hv'
    rw [hgive] at hv'
    cases hv'

theorem Begun.enqueue (h : Begun r q) {action : act} (hq : (q w).rest.head? = some action)
    (hlock : r'.1.Servo_Lock_Upper = r.1.Servo_Lock_Upper) (hdepth : r'.1.depth = r.1.depth)
    (hbegun : r'.2.begun = r.2.begun) (henqueued : r'.2.enqueued = r.2.enqueued ++ [action]) :
    Begun r' (Function.update q w { q w with rest := (q w).rest.tail }) := by
  have hupper : (q w).upper = true := by
    cases hu : (q w).upper with
    | true => rfl
    | false =>
      rw [h.idle w hu] at hq
      cases hq
  obtain ⟨v, hv, rfl⟩ := Option.map_eq_some_iff.1 ((h.owns w).1 hupper)
  constructor
  · rw [hlock]
    exact h.owns.keep rfl
  · rw [hdepth, hlock, h.depth]
  · rw [Function.forall_update_iff q fun _ p => p.upper = false → p.rest = []]
    exact ⟨fun hu => absurd (hupper.symm.trans hu) nofun, fun w' _ => h.idle w'⟩
  · intro hn
    rw [hlock, hv] at hn
    cases hn
  · intro v' hv'
    rw [hlock, hv] at hv'
    cases hv'
    obtain ⟨done, c, part, hb, hc, he⟩ := h.taken v hv
    refine ⟨done, c, part ++ [action], hbegun.trans hb, ?_, ?_⟩
    · rw [Function.update_self, hc, List.append_assoc, List.singleton_append,
        List.cons_head?_tail hq]
    · rw [henqueued, he, List.append_assoc]

def RecordedStep (w : Worker W) (l : RoutineAccess) (r : RoutineState W × RoutineHistory W)
    (o : Option (RoutineState W × RoutineHistory W)) : Prop :=
  ∃ o', RoutineStep w l r.1 o' ∧ o = o'.map fun s => (s, RoutineHistory.watch w l r.1 r.2)

theorem coupled_servo (hl : Locked r q) (hb : Begun r q) {l : ServoAccess} {a : Servo}
    (hnext : (q w).servo l = some p) (hT : LockStep l r.1.servo (some a)) :
    Locked ({ r.1 with servo := a }, RoutineHistory.watch w (.servo l) r.1 r.2)
        (Function.update q w p) ∧
      Begun ({ r.1 with servo := a }, RoutineHistory.watch w (.servo l) r.1 r.2)
        (Function.update q w p) := by
  cases l with
  | xSemaphoreTake =>
    rw [Place.servo] at hnext
    split at hnext
    · cases hnext
    cases hnext
    rw [LockStep] at hT
    split at hT
    · cases hT
    rename_i hfree
    cases hT
    exact ⟨hl.take w rfl (Bool.eq_false_iff.2 hfree) rfl rfl, hb.frame rfl rfl rfl rfl rfl rfl⟩
  | xSemaphoreGive =>
    rw [Place.servo] at hnext
    split at hnext
    · rename_i hlocked
      cases hnext
      exact ⟨hl.give hlocked rfl (hT a rfl) rfl, hb.frame rfl rfl rfl rfl rfl rfl⟩
    · cases hnext
  | enqueue action =>
    rw [Place.servo] at hnext
    split at hnext
    · rename_i hnow
      cases hnext
      exact ⟨hl.frame rfl (hT a rfl) rfl, hb.enqueue hnow.2 rfl rfl rfl rfl⟩
    · cases hnext
  | queue | command | axis | scs =>
    cases hnext
    exact ⟨hl.frame rfl (hT a rfl) rfl, hb.frame rfl rfl rfl rfl rfl rfl⟩

theorem coupled_step (w : Worker W) (l : RoutineAccess) (r r' : RoutineState W × RoutineHistory W)
    (q : Worker W → Place) (p : Place) (h : Locked r q ∧ Begun r q) (hnext : (q w).next l = some p)
    (hT : RecordedStep w l r (some r')) :
    Locked r' (Function.update q w p) ∧ Begun r' (Function.update q w p) := by
  obtain ⟨hl, hb⟩ := h
  obtain ⟨o, hstep, ho⟩ := hT
  obtain ⟨s', rfl, rfl⟩ := Option.map_eq_some_iff.1 ho.symm
  cases l with
  | servo l =>
    obtain ⟨o', hT, he⟩ := hstep
    obtain ⟨a, rfl, rfl⟩ := Option.map_eq_some_iff.1 he.symm
    exact coupled_servo hl hb hnext hT
  | last_mode_servo =>
    cases hnext
    rw [hstep s' rfl]
    exact ⟨hl.frame rfl rfl rfl, hb.frame rfl rfl rfl rfl rfl rfl⟩
  | xSemaphoreTakeRecursive c =>
    cases w with
    | server => exact hstep.elim
    | caller v =>
      rw [Place.next] at hnext
      split at hnext
      · rename_i hq
        cases hnext
        obtain ⟨hfree, rfl⟩ := hstep s' rfl
        exact ⟨hl.frame (by rw [hq]) rfl rfl, hb.begin hq hfree c rfl rfl rfl rfl⟩
      · cases hnext
  | xSemaphoreGiveRecursive =>
    cases w with
    | server => exact hstep.elim
    | caller v =>
      rw [Place.next] at hnext
      split at hnext
      · rename_i hq
        cases hnext
        have hgive := Option.some.inj hstep
        refine ⟨hl.frame (by rw [hq]) ?_ rfl, hb.finish hq hgive rfl rfl⟩
        rw [hgive, giveRecursive]
        split
        · split
          · rfl
          · rfl
        · rfl
      · cases hnext

end Coupled

section Runs
variable {W : Type} [DecidableEq W]

def Coupled (k : Pool.Config (Worker W) RoutineAccess (RoutineState W × RoutineHistory W))
    (q : Worker W → Place) : Prop :=
  Pool.Monitored Place.next RecordedStep {} (fun r q => Locked r q ∧ Begun r q) k q

theorem startRoutines_coupled (s : Servo) : Coupled (startRoutines W s) fun _ => {} := by
  constructor
  · exact fun _ => rfl
  · constructor
    · exact ⟨rfl, fun _ => iff_of_false nofun nofun⟩
    · exact ⟨fun _ => iff_of_false nofun nofun, rfl, fun _ _ => rfl, fun _ => rfl, nofun⟩

theorem run_coupled (s : Servo) (es : List (Pool.Event (Worker W) RoutineJob)) :
    ∃ q, Coupled ((recordedRoutines W).run (startRoutines W s) es) q :=
  Pool.run_monitored (recordedRoutines W)
    (fun _ j => j.follows.history _ fun _ _ o h => ⟨o, h, rfl⟩)
    (fun _ _ _ _ h => h) coupled_step ⟨_, startRoutines_coupled s⟩ es

variable {k : Pool.Config (Worker W) RoutineAccess (RoutineState W × RoutineHistory W)}
  {q : Worker W → Place}

theorem Coupled.free (h : Coupled k q) (hret : ∀ v, k.current (.caller v) = .ret ()) :
    k.shared.1.Servo_Lock_Upper = none := by
  obtain ⟨htasks, -, hb⟩ := h
  cases hv : k.shared.1.Servo_Lock_Upper with
  | none => rfl
  | some v =>
    have hupper := (hb.owns (.caller v)).2 (by rw [hv, Option.map_some])
    have hq := htasks (.caller v)
    rw [hret v] at hq
    have hidle : q (.caller v) = {} := hq
    rw [hidle] at hupper
    cases hupper

/-- A task that waits for `Servo_Lock` waits for one that holds it. -/
theorem Coupled.holder (h : Coupled k q) (hw : Waits RoutineAccess.Takes k w) :
    ∃ w', k.shared.2.holder = some w' := by
  obtain ⟨htasks, hl, -⟩ := h
  specialize htasks w
  rw [Waits] at hw
  cases ht : k.current w with
  | ret a =>
    rw [ht] at hw
    exact hw.elim
  | atomic l act next =>
    rw [ht] at hw htasks
    obtain ⟨rfl, hact⟩ := hw
    obtain ⟨p, -, hsteps⟩ := htasks
    obtain ⟨o, ⟨o', hT, ho'⟩, ho⟩ := (hsteps k.shared).1
    rw [hact] at ho
    have hnone := Option.map_eq_none_iff.1 ho.symm
    rw [hnone] at ho'
    rw [Option.map_eq_none_iff.1 ho'.symm, LockStep] at hT
    split at hT
    · rename_i htaken
      rw [hl.taken] at htaken
      exact Option.isSome_iff_exists.1 htaken
    · cases hT

theorem Coupled.not_waits (h : Coupled k q) (hw : k.shared.2.holder = some w) :
    ¬Waits RoutineAccess.TakesUpper k w := by
  intro hwaits
  obtain ⟨htasks, hl, -⟩ := h
  specialize htasks w
  have hlocked := (hl.owns w).2 hw
  rw [Waits] at hwaits
  cases ht : k.current w with
  | ret a =>
    rw [ht] at hwaits
    exact hwaits
  | atomic l act next =>
    rw [ht] at hwaits htasks
    obtain ⟨⟨c, rfl⟩, -⟩ := hwaits
    obtain ⟨p, hnext, -⟩ := htasks
    rw [Place.next] at hnext
    split at hnext
    · rename_i hq
      rw [hq] at hlocked
      cases hlocked
    · cases hnext

/-- For any tasks that call the routines and every interleaving of their steps with the servo task,
what is enqueued are the whole lists of routines, one after another, and no task that waits for
`Servo_Lock` waits for one that waits for `Servo_Lock_Upper`. -/
theorem routines_not_interleaved (W : Type) [DecidableEq W] (s : Servo)
    (es : List (Pool.Event (Worker W) RoutineJob)) :
    let k := (recordedRoutines W).run (startRoutines W s) es
    Sequential k.shared ∧
      ((∀ v, k.current (.caller v) = .ret ()) → k.shared.1.Servo_Lock_Upper = none) ∧
      ∀ w, Waits RoutineAccess.Takes k w →
        ∃ w', k.shared.2.holder = some w' ∧ ¬Waits RoutineAccess.TakesUpper k w' := by
  obtain ⟨q, h⟩ := run_coupled s es
  refine ⟨h.2.2.sequential, h.free, fun w hw => ?_⟩
  obtain ⟨w', hholder⟩ := h.holder hw
  exact ⟨w', hholder, h.not_waits hholder⟩

/-! ### No deadlock -/

/-- A task is blocked on `Servo_Lock_Upper` only while some task has it. -/
def UpperStep (w : Worker W) (l : RoutineAccess) (s : RoutineState W)
    (o : Option (RoutineState W)) : Prop :=
  match l, w with
  | .xSemaphoreTakeRecursive _, .caller v =>
    o = none → ∃ v', s.Servo_Lock_Upper = some v' ∧ v' ≠ v
  | _, _ => True

theorem xSemaphoreTakeRecursive_silent (w : W) (c : Composite) :
    (xSemaphoreTakeRecursive w c).Silent (fun (_ : Unit) _ => some ()) (UpperStep (.caller w))
      () := by
  apply Task.silent_await rfl
  intro s h
  split at h
  · cases h
  · rename_i hfree
    rw [not_or] at hfree
    obtain ⟨v, hv⟩ := Option.ne_none_iff_exists'.1 hfree.1
    exact ⟨v, hv, fun he => hfree.2 (he ▸ hv)⟩

theorem RoutineJob.silent {w : Worker W} (j : RoutineJob w) :
    j.task.Silent (fun (_ : Unit) _ => some ()) (UpperStep w) () := by
  cases j with
  | Servo_Server now now' => exact Task.silent_zoom _ (fun _ => rfl) fun _ _ _ => trivial
  | call c returned w =>
    apply (xSemaphoreTakeRecursive_silent w c).bind
    intro _
    apply Task.Silent.bind (Task.silent_zoom _ (fun _ => rfl) fun _ _ _ => trivial)
    intro _
    have hgive : (xSemaphoreGiveRecursive w).Silent (fun (_ : Unit) _ => some ())
        (UpperStep (.caller w)) () := Task.silent_access _ rfl fun _ => trivial
    cases c.routine.mode with
    | none => exact hgive
    | some mode =>
      apply Task.Silent.bind (Task.silent_access _ rfl fun _ => trivial)
      exact fun _ => hgive

theorem Coupled.busy (h : Coupled k q) (hw : q w ≠ {}) (u : Unit) : k.current w ≠ .ret u := by
  intro he
  have hret := h.1 w
  rw [he] at hret
  exact hw hret

end Runs

end RobotCar
