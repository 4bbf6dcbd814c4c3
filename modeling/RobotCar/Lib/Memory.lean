import Mathlib.Algebra.Group.Nat.Defs
import Mathlib.Data.List.Basic

namespace Memory
set_option autoImplicit true

abbrev Mem := Nat → UInt8

/-- The word of four bytes at an address, the least significant one first. -/
def load32 (m : Mem) (a : Nat) : UInt32 :=
  UInt32.ofNat ((m a).toNat + 256 * ((m (a + 1)).toNat + 256 * ((m (a + 2)).toNat +
    256 * (m (a + 3)).toNat)))

def store32 (m : Mem) (a : Nat) (v : UInt32) : Mem := fun x =>
  if a ≤ x ∧ x < a + 4 then UInt8.ofNat (v.toNat / 256 ^ (x - a)) else m x

theorem store32_of_outside {m : Mem} {v : UInt32} (h : x < a ∨ a + 4 ≤ x) :
    store32 m a v x = m x := if_neg (by omega)

theorem store32_inside {m : Mem} {v : UInt32} (i : Nat) (h : i < 4) :
    (store32 m a v (a + i)).toNat = v.toNat / 256 ^ i % 256 := by
  rw [store32, if_pos (by omega), Nat.add_sub_cancel_left, UInt8.toNat_ofNat']

theorem load32_congr {m m' : Mem} (h : ∀ i < 4, m' (a + i) = m (a + i)) :
    load32 m' a = load32 m a := by
  have h₀ : m' a = m a := h 0 (by decide)
  have h₁ := h 1 (by decide)
  have h₂ := h 2 (by decide)
  have h₃ := h 3 (by decide)
  rw [load32, h₀, h₁, h₂, h₃, load32]

@[simp] theorem load32_store32 (m : Mem) (a : Nat) (v : UInt32) :
    load32 (store32 m a v) a = v := by
  have h₀ : (store32 m a v a).toNat = _ := store32_inside 0 (by decide)
  have h₁ : (store32 m a v (a + 1)).toNat = _ := store32_inside 1 (by decide)
  have h₂ : (store32 m a v (a + 2)).toNat = _ := store32_inside 2 (by decide)
  have h₃ : (store32 m a v (a + 3)).toNat = _ := store32_inside 3 (by decide)
  have hv := v.toNat_lt
  have hsum : (store32 m a v a).toNat + 256 * ((store32 m a v (a + 1)).toNat +
      256 * ((store32 m a v (a + 2)).toNat + 256 * (store32 m a v (a + 3)).toNat)) = v.toNat := by
    omega
  rw [load32, hsum, UInt32.ofNat_toNat]

theorem load32_store32_of_apart {m : Mem} {v : UInt32} (h : b + 4 ≤ a ∨ a + 4 ≤ b) :
    load32 (store32 m a v) b = load32 m b := by
  apply load32_congr
  intro i hi
  exact store32_of_outside (by omega)

/-- Nothing but these headers of 8 bytes differs. -/
def SameOutside (ps : List Nat) (m m' : Mem) : Prop :=
  ∀ x, (∀ p ∈ ps, x < p ∨ p + 8 ≤ x) → m' x = m x

theorem SameOutside.refl (ps : List Nat) (m : Mem) : SameOutside ps m m := fun _ _ => rfl

theorem SameOutside.trans {m m' m'' : Mem} (h : SameOutside ps m m')
    (h' : SameOutside ps m' m'') : SameOutside ps m m'' := fun x hx => (h' x hx).trans (h x hx)

theorem SameOutside.mono {m m' : Mem} (h : SameOutside ps m m') (hs : ps ⊆ qs) :
    SameOutside qs m m' := fun x hx => h x fun p hp => hx p (hs hp)

theorem sameOutside_store32 {m : Mem} {v : UInt32} (hp : p ∈ ps) (hlo : p ≤ a)
    (hhi : a + 4 ≤ p + 8) : SameOutside ps m (store32 m a v) := by
  intro x hx
  have h := hx p hp
  exact store32_of_outside (by omega)

end Memory
