import Chip8.Memory.Basic
import Mathlib.Logic.Function.Basic

namespace Chip8.Memory

def value (m : Memory) (a : Nat) : Nat :=
  (m.cells[a]?.getD 0).toNat

/-- From `i` upwards `n` cells hold `contents`, past the last cell going on at the first one, and
all other cells are as before. -/
def Stored (old new : Nat → Nat) (i n : Nat) (contents : Nat → Nat) : Prop :=
  (∀ k < n, new ((i + k) % 4096) = contents k) ∧
    ∀ a, (∀ k < n, a ≠ (i + k) % 4096) → new a = old a

theorem Stored.unique {old new new' contents : Nat → Nat} {i n : Nat}
    (h : Stored old new i n contents) (h' : Stored old new' i n contents) : new = new' := by
  funext a
  by_cases ha : ∃ k < n, a = (i + k) % 4096
  · obtain ⟨k, hk, rfl⟩ := ha
    exact (h.1 k hk).trans (h'.1 k hk).symm
  · have ha : ∀ k < n, a ≠ (i + k) % 4096 := fun k hk e ↦ ha ⟨k, hk, e⟩
    exact (h.2 a ha).trans (h'.2 a ha).symm

theorem value_injective : Function.Injective value := by
  rintro ⟨cells⟩ ⟨cells'⟩ h
  congr 1
  ext a ha : 1
  have hv := congrFun h a
  simpa [value, ha, UInt8.toNat_inj] using hv

theorem toNat_read (m : Memory) (a : UInt16) : (m.read a).toNat = m.value (a.toNat % 4096) := by
  have h : a.toNat % 4096 < 4096 := Nat.mod_lt _ (by decide)
  simp [read, value, h]

theorem value_write (m : Memory) (a : UInt16) (x : UInt8) :
    (m.write a x).value = Function.update m.value (a.toNat % 4096) x.toNat := by
  have h : a.toNat % 4096 < 4096 := Nat.mod_lt _ (by decide)
  funext b
  by_cases hb : b = a.toNat % 4096
  · subst hb
    simp [value, write, h]
  · rw [Function.update_of_ne hb]
    simp [value, write, Ne.symm hb]

theorem value_load {m l : Memory} {rom : Array UInt8} (h : m.load rom = .ok l) (a : Nat)
    (ha : a < 4096) :
    l.value a = if a < 512 then m.value a else (rom.getD (a - 512) 0).toNat := by
  simp only [load] at h
  split at h
  case isFalse => cases h
  case isTrue =>
    have hs : programStart.toNat = 512 := rfl
    rw [← Except.ok.inj h]
    simp only [value, Vector.getElem?_ofFn, ha, dite_true, Option.getD_some, Fin.getElem_fin, hs]
    split
    · rw [Vector.getElem?_eq_getElem ha, Option.getD_some]
    · rfl

theorem toNat_add_mod (a : UInt16) (k : Nat) :
    (a + .ofNat k).toNat % 4096 = (a.toNat + k) % 4096 := by
  simp only [UInt16.toNat_add, UInt16.toNat_ofNat']
  omega

theorem toNat_readWord_eq (m : Memory) (a : UInt16) :
    (m.readWord a).toNat =
      256 * m.value (a.toNat % 4096) + m.value ((a.toNat + 1) % 4096) := by
  rw [toNat_readWord, toNat_read, toNat_read, ← toNat_add_mod]
  rfl

@[simp] theorem length_readFrom (m : Memory) (a : UInt16) (n : Nat) :
    (m.readFrom a n).length = n := by
  induction n generalizing a with
  | zero => rfl
  | succ n ih => simp [readFrom, ih]

theorem toNat_getElem_readFrom (m : Memory) (a : UInt16) (n k : Nat)
    (h : k < (m.readFrom a n).length) :
    ((m.readFrom a n)[k]).toNat = m.value ((a.toNat + k) % 4096) := by
  induction n generalizing a k with
  | zero => simp at h
  | succ n ih =>
    cases k with
    | zero => exact toNat_read m a
    | succ k =>
      simp only [readFrom, List.getElem_cons_succ]
      rw [ih]
      congr 1
      simp only [UInt16.toNat_add, UInt16.reduceToNat]
      omega

theorem stored_writeFrom (m : Memory) (a : UInt16) (values : List UInt8)
    (h : values.length ≤ 4096) :
    Stored m.value (m.writeFrom a values).value a.toNat values.length
      (fun k ↦ (values.getD k 0).toNat) := by
  induction values generalizing m a with
  | nil => exact ⟨by simp, fun _ _ ↦ rfl⟩
  | cons x values ih =>
    rw [List.length_cons] at h
    obtain ⟨here, elsewhere⟩ := ih (m.write a x) (a + 1) (by omega)
    have next (k : Nat) : ((a + 1).toNat + k) % 4096 = (a.toNat + (k + 1)) % 4096 := by
      simp only [UInt16.toNat_add, UInt16.reduceToNat]
      omega
    simp only [next] at here elsewhere
    constructor
    · intro k hk
      cases k with
      | zero =>
        -- the first cell is not met again: at most 4095 others follow it
        have first := elsewhere (a.toNat % 4096) (fun k hk ↦ by omega)
        rw [value_write, Function.update_self] at first
        exact first
      | succ k => exact here k (by simpa using hk)
    · intro b hb
      have hb' : ∀ k < values.length, b ≠ (a.toNat + (k + 1)) % 4096 :=
        fun k hk ↦ hb (k + 1) (by simpa using hk)
      have hb₀ : b ≠ a.toNat % 4096 := hb 0 (by simp)
      have other := elsewhere b hb'
      rw [value_write, Function.update_of_ne hb₀] at other
      exact other

end Chip8.Memory
