import Chip8.Proofs.Processor.Effect

namespace Chip8

namespace Memory

/-- The `k`-th cell from address `i` upwards; past the last cell it goes on at the first one. -/
def cell (i : UInt16) (k : Nat) : Nat :=
  (i.toNat + k) % 4096

theorem cell_injective {i : UInt16} {j k : Nat} (hj : j < 4096) (hk : k < 4096)
    (same : cell i j = cell i k) : j = k := by
  simp only [cell] at same
  omega

theorem Stored.eq_of_same {old new contents : Nat → Nat} {i n : Nat}
    (h : Stored old new i n contents) (same : ∀ k < n, contents k = old ((i + k) % 4096)) :
    new = old :=
  h.unique ⟨fun k hk ↦ (same k hk).symm, fun _ _ ↦ rfl⟩

end Memory

namespace Processor

open Memory (cell)

def saved (p : Processor) (x : Fin 16) : Processor :=
  { p with memory := p.memory.writeFrom p.i (p.v.toList.take (x + 1)) }

def restored (p : Processor) (x : Fin 16) : Processor :=
  { p with v := .ofFn fun k ↦ if k ≤ x then p.memory.read (p.i + .ofNat k) else p.get k }

variable {p q : Processor} {x k : Fin 16} {w address : UInt16}

theorem execute_save (p : Processor) (x : Fin 16) : p.execute (.save x) = .ok (p.saved x) :=
  rfl

theorem execute_restore (p : Processor) (x : Fin 16) :
    p.execute (.restore x) = .ok (p.restored x) :=
  rfl

theorem perform_save (word : w.toNat = 0xF055 + 0x100 * x) :
    p.perform w address = .ok (p.saved x, []) := by
  have form : (Instruction.save x).Form w.toNat := by
    simp only [Instruction.Form]
    omega
  exact perform_of_form form (p.execute_save x)

theorem perform_restore (word : w.toNat = 0xF065 + 0x100 * x) :
    p.perform w address = .ok (p.restored x, []) := by
  have form : (Instruction.restore x).Form w.toNat := by
    simp only [Instruction.Form]
    omega
  exact perform_of_form form (p.execute_restore x)

theorem stored_saved (p : Processor) (x : Fin 16) :
    Memory.Stored p.memory.value (p.saved x).memory.value p.i.toNat (x + 1) p.snapshot.v := by
  obtain ⟨memory, stored, same⟩ := effect_execute (p.execute_save x)
  have memory_eq : (p.saved x).memory.value = memory := congrArg Snapshot.memory same
  rwa [memory_eq]

theorem value_saved (hk : k ≤ x) :
    (p.saved x).memory.value (cell p.i k) = (p.get k).toNat := by
  rw [← p.snapshot_v k]
  exact (p.stored_saved x).1 k (Nat.lt_succ_of_le hk)

theorem value_saved_of_ne {a : Nat} (apart : ∀ k ≤ x.val, a ≠ cell p.i k) :
    (p.saved x).memory.value a = p.memory.value a :=
  (p.stored_saved x).2 a fun k hk ↦ apart k (Nat.le_of_lt_succ hk)

theorem get_restored (p : Processor) (x k : Fin 16) :
    (p.restored x).get k = if k ≤ x then p.memory.read (p.i + .ofNat k) else p.get k := by
  simp [restored, get]

theorem toNat_get_restored (hk : k ≤ x) :
    ((p.restored x).get k).toNat = p.memory.value (cell p.i k) := by
  rw [get_restored, if_pos hk, Memory.toNat_read, Memory.toNat_add_mod, cell]

theorem get_restored_of_lt (hk : x < k) : (p.restored x).get k = p.get k := by
  rw [get_restored, if_neg (Fin.not_le.mpr hk)]

theorem saved_eq_self (same : ∀ k ≤ x, (p.get k).toNat = p.memory.value (cell p.i k)) :
    p.saved x = p := by
  have value : (p.saved x).memory.value = p.memory.value := by
    refine (p.stored_saved x).eq_of_same fun k hk ↦ ?_
    have small : k < 16 := by omega
    have here := same ⟨k, small⟩ (Nat.le_of_lt_succ hk)
    rwa [← snapshot_v] at here
  have memory : (p.saved x).memory = p.memory := Memory.value_injective value
  calc
    p.saved x = { p with memory := (p.saved x).memory } := rfl
    _ = p := by rw [memory]

theorem saved_restored (p : Processor) (x : Fin 16) : (p.restored x).saved x = p.restored x := by
  have memory : (p.restored x).memory = p.memory := by rw [restored]
  have index : (p.restored x).i = p.i := by rw [restored]
  refine saved_eq_self fun k hk ↦ ?_
  rw [memory, index, toNat_get_restored hk]

/-- A restore brings back what was saved, if the index and the cells that were written are as they
were then. -/
theorem get_restored_of_saved (index : q.i = p.i)
    (kept : ∀ k ≤ x.val, q.memory.value (cell p.i k) = (p.saved x).memory.value (cell p.i k))
    (hk : k ≤ x) : (q.restored x).get k = p.get k := by
  rw [← UInt8.toNat_inj, toNat_get_restored hk, index, kept k hk, value_saved hk]

/-- Registers that are saved come back with a restore from the same place, whatever becomes of the
registers and of all other cells in between; and what has just been restored is saved in vain.
There are as many cells as registers, wherever they lie. -/
theorem perform_save_restore {save restore : UInt16} (hs : save.toNat = 0xF055 + 0x100 * x)
    (hr : restore.toNat = 0xF065 + 0x100 * x) (p : Processor) (address address' : UInt16) :
    (∀ j ≤ x.val, ∀ k ≤ x.val, cell p.i j = cell p.i k → j = k) ∧
      (∃ s, p.perform save address = .ok (s, []) ∧ s = { p with memory := s.memory } ∧
        (∀ k ≤ x, s.memory.value (cell p.i k) = (p.get k).toNat) ∧
        (∀ a, (∀ k ≤ x.val, a ≠ cell p.i k) → s.memory.value a = p.memory.value a) ∧
        ∀ q : Processor, q.i = p.i →
          (∀ k ≤ x.val, q.memory.value (cell p.i k) = s.memory.value (cell p.i k)) →
          ∃ r, q.perform restore address' = .ok (r, []) ∧ r = { q with v := r.v } ∧
            (∀ k ≤ x, r.get k = p.get k) ∧ ∀ k, x < k → r.get k = q.get k) ∧
      ∃ r, p.perform restore address = .ok (r, []) ∧ r = { p with v := r.v } ∧
        r.perform save address' = .ok (r, []) := by
  refine ⟨fun j hj k hk ↦ Memory.cell_injective (by omega) (by omega), ?_, ?_⟩
  · refine ⟨p.saved x, perform_save hs, rfl, fun k ↦ value_saved, fun a ↦ value_saved_of_ne,
      fun q index kept ↦ ?_⟩
    exact ⟨q.restored x, perform_restore hr, rfl, fun k ↦ get_restored_of_saved index kept,
      fun k ↦ get_restored_of_lt⟩
  · refine ⟨p.restored x, perform_restore hr, rfl, ?_⟩
    rw [perform_save hs, saved_restored]

def stocked : Processor :=
  { new .standard (Seed.key 0) with v := .ofFn fun k ↦ .ofNat (k + 1), i := 0xFFA }

theorem perform_save_restore_stocked :
    ∃ s, stocked.perform 0xFF55 0x200 = .ok (s, []) ∧
      ∃ r, ({ s with v := Vector.replicate 16 7, memory := s.memory.write 0x00A 9 } :
          Processor).perform 0xFF65 0x202 = .ok (r, []) ∧ ∀ k, r.get k = stocked.get k := by
  have hs : (0xFF55 : UInt16).toNat = 0xF055 + 0x100 * (15 : Fin 16) := rfl
  have hr : (0xFF65 : UInt16).toNat = 0xF065 + 0x100 * (15 : Fin 16) := rfl
  obtain ⟨-, ⟨s, saves, rest, -, -, restores⟩, -⟩ :=
    perform_save_restore hs hr stocked 0x200 0x202
  have index : s.i = stocked.i := by rw [rest]
  have kept (k : Nat) (hk : k ≤ 15) : (s.memory.write 0x00A 9).value (cell stocked.i k) =
      s.memory.value (cell stocked.i k) := by
    -- the cells go on at the start of memory and end just before the one written
    have start : stocked.i.toNat = 0xFFA := rfl
    have written : (0x00A : UInt16).toNat % 4096 = 10 := rfl
    have outside : cell stocked.i k ≠ 10 := by
      rw [cell, start]
      omega
    rw [Memory.value_write, written, Function.update_of_ne outside]
  obtain ⟨r, restored, -, back, -⟩ := restores
    { s with v := Vector.replicate 16 7, memory := s.memory.write 0x00A 9 } index kept
  exact ⟨s, saves, r, restored, fun k ↦ back k (Fin.le_last k)⟩

end Processor

end Chip8
