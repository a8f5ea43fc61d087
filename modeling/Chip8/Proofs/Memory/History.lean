import Chip8.Proofs.Memory.Value
import Mathlib.Data.List.Induction

namespace Chip8.Memory

inductive Operation
  | write (address : UInt16) (value : UInt8)
  | load (rom : Array UInt8)
  | reset

def Operation.apply : Operation → Memory → Memory
  | .write address value, m => m.write address value
  | .load rom, m =>
    match m.load rom with
    | .ok l => l
    | .error _ => m
  | .reset, _ => .blank

def driven (m : Memory) (os : List Operation) : Memory :=
  os.foldl (fun m o ↦ o.apply m) m

def Operation.put? (a : Nat) : Operation → Option UInt8
  | .write address value => if address.toNat % 4096 = a then some value else none
  | .load rom => if rom.size ≤ 3584 ∧ 0x200 ≤ a then some (rom.getD (a - 0x200) 0) else none
  | .reset => some (font.toArray.getD a 0)

/-- One of the operations puts `value` into cell `a`, and none after it covers that cell. -/
def PutLast (a : Nat) (value : UInt8) (os : List Operation) : Prop :=
  ∃ before o after, os = before ++ o :: after ∧ o.put? a = some value ∧
    ∀ later ∈ after, later.put? a = none

variable {m l : Memory} {rom : Array UInt8} {os : List Operation} {o : Operation} {a : Nat}
  {value value' : UInt8}

theorem read_blank (address : UInt16) :
    blank.read address = font.toArray.getD (address.toNat % 4096) 0 := by
  simp only [read, blank, Fin.getElem_fin, Vector.getElem_ofFn, Word.val_address]
  split
  case isTrue low => simp [Array.getD, low]
  case isFalse high => simp [Array.getD, high]

theorem read_load (loaded : m.load rom = .ok l) (address : UInt16) :
    l.read address =
      if 0x200 ≤ address.toNat % 4096 then rom.getD (address.toNat % 4096 - 0x200) 0
      else m.read address := by
  have inside : address.toNat % 4096 < 4096 := Nat.mod_lt _ (by decide)
  rw [← UInt8.toNat_inj, toNat_read, value_load loaded _ inside, apply_ite UInt8.toNat, toNat_read,
    ← ite_not]
  simp only [Nat.not_lt]

theorem read_apply (o : Operation) (m : Memory) (address : UInt16) :
    (o.apply m).read address = (o.put? (address.toNat % 4096)).getD (m.read address) := by
  cases o with
  | write b value =>
    simp only [Operation.apply, Operation.put?, read_write, Fin.ext_iff, Word.val_address]
    split <;> rfl
  | load rom =>
    simp only [Operation.apply, Operation.put?]
    by_cases small : rom.size ≤ 3584
    · obtain ⟨l, loaded⟩ := m.exists_load_eq small
      simp only [loaded, read_load loaded, small, true_and]
      split <;> rfl
    · rw [m.load_eq_error (Nat.not_le.mp small)]
      simp [small]
  | reset => exact read_blank address

theorem putLast_concat (os : List Operation) (put : o.put? a = some value) :
    PutLast a value (os ++ [o]) :=
  ⟨os, o, [], rfl, put, by simp⟩

theorem PutLast.concat (h : PutLast a value os) (spared : o.put? a = none) :
    PutLast a value (os ++ [o]) := by
  obtain ⟨before, last, after, rfl, put, later⟩ := h
  refine ⟨before, last, after ++ [o], by simp, put, ?_⟩
  rw [List.forall_mem_append, List.forall_mem_singleton]
  exact ⟨later, spared⟩

theorem PutLast.unique (h : PutLast a value os) (h' : PutLast a value' os) : value = value' := by
  obtain ⟨before, o, after, rfl, put, later⟩ := h
  obtain ⟨before', o', after', same, put', later'⟩ := h'
  -- of two operations at different places the earlier one is not the last to cover the cell
  obtain ⟨between, rfl, split⟩ | ⟨between, rfl, split⟩ := List.append_eq_append_iff.mp same
  · cases between with
    | nil =>
      obtain ⟨rfl, -⟩ := List.cons.inj split
      exact Option.some.inj (put.symm.trans put')
    | cons _ between =>
      obtain ⟨rfl, rfl⟩ := List.cons.inj split
      simp [later o' (by simp)] at put'
  · cases between with
    | nil =>
      obtain ⟨rfl, -⟩ := List.cons.inj split
      exact Option.some.inj (put.symm.trans put')
    | cons _ between =>
      obtain ⟨rfl, rfl⟩ := List.cons.inj split
      simp [later' o (by simp)] at put

theorem driven_concat (m : Memory) (os : List Operation) (o : Operation) :
    m.driven (os ++ [o]) = o.apply (m.driven os) :=
  List.foldl_append

theorem putLast_read (os : List Operation) (address : UInt16) :
    PutLast (address.toNat % 4096) ((blank.driven os).read address) (.reset :: os) := by
  induction os using List.reverseRecOn with
  | nil =>
    refine putLast_concat [] ?_
    rw [driven, List.foldl_nil, read_blank]
    rfl
  | append_singleton os o ih =>
    rw [driven_concat, read_apply]
    cases put : o.put? (address.toNat % 4096) with
    | none => exact ih.concat put
    | some value => exact putLast_concat (.reset :: os) put

/-- Whatever has been done to a memory, an address reads as what was put last into the cell that it
names, where the start counts as a reset. A ROM that is too large puts nothing anywhere. -/
theorem read_eq_iff_putLast (os : List Operation) :
    let m := blank.driven os
    (∀ address value,
      m.read address = value ↔ PutLast (address.toNat % 4096) value (.reset :: os)) ∧
      (∀ address, (m.readWord address).toNat =
        256 * (m.read address).toNat + (m.read (address + 1)).toNat) ∧
      (∀ rom : Array UInt8, rom.size ≤ 3584 → ∃ l, m.load rom = .ok l) ∧
      (∀ rom : Array UInt8, 3584 < rom.size → m.load rom = .error (.tooLarge rom.size)) ∧
      Rom.capacity = 3584 := by
  intro m
  refine ⟨fun address value ↦ ⟨?_, fun last ↦ ?_⟩, m.toNat_readWord, fun _ ↦ m.exists_load_eq,
    fun _ ↦ m.load_eq_error, rfl⟩
  · rintro rfl
    exact putLast_read os address
  · exact (putLast_read os address).unique last

def patched : List Operation :=
  [.load #[0x12, 0x34, 0x56], .write 0x1201 7, .load (Array.replicate 3585 1)]

theorem read_eq_iff_putLast_patched :
    (blank.driven patched).read 0x201 = 7 ∧ (blank.driven patched).read 0xF202 = 0x56 ∧
      (blank.driven patched).load (Array.replicate 3585 1) = .error (.tooLarge 3585) := by
  have large : 3584 < (Array.replicate 3585 (1 : UInt8)).size := by
    rw [Array.size_replicate]
    decide
  have refused (a : Nat) : Operation.put? a (.load (Array.replicate 3585 1)) = none := by
    rw [Operation.put?, if_neg]
    exact fun h ↦ Nat.not_le.mpr large h.1
  obtain ⟨reads, -, -, rejects, -⟩ := read_eq_iff_putLast patched
  have rejected := rejects (Array.replicate 3585 1) large
  rw [Array.size_replicate] at rejected
  refine ⟨(reads 0x201 7).mpr ?_, (reads 0xF202 0x56).mpr ?_, rejected⟩
  · refine ⟨[.reset, .load _], .write 0x1201 7, [.load _], rfl, by decide, ?_⟩
    exact List.forall_mem_singleton.mpr (refused _)
  · refine ⟨[.reset], .load _, [.write 0x1201 7, .load _], rfl, by decide, ?_⟩
    exact List.forall_mem_cons.mpr ⟨by decide, List.forall_mem_singleton.mpr (refused _)⟩

end Chip8.Memory
