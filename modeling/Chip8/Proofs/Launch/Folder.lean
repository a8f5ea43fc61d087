import Chip8.Launch.Folder

namespace Chip8.Folder

/-- What can be the name of a file in the folder: a path of one step that leads neither back to the
folder nor out of it. -/
structure Names (name : String) : Prop where
  whole : '/' ∉ name.toList
  inside : name ∉ ["", ".", ".."]
  short : name.utf8ByteSize ≤ 255

variable {name : String} {path before : List Char}

theorem splitPath_eq_singleton (whole : '/' ∉ path) : splitPath path = [path] := by
  induction path with
  | nil => rfl
  | cons c rest ih =>
    rw [List.mem_cons, not_or] at whole
    rw [splitPath, ih whole.2]
    exact fun slash ↦ absurd slash.symm whole.1

theorem openPath_of_names (f : Folder) (names : Names name) :
    f.openPath name =
      match f.files.lookup name with
      | none => .error missing
      | some contents => .ok [.bytes contents] := by
  have inside := names.inside
  simp only [List.mem_cons, List.not_mem_nil, or_false, not_or] at inside
  obtain ⟨some, here, above⟩ := inside
  have short := Nat.not_lt.mpr names.short
  have steps : (splitPath name.toList).map String.ofList = [name] := by
    rw [splitPath_eq_singleton names.whole, List.map_singleton, String.ofList_toList]
  rw [openPath, if_neg (by omega), steps]
  split
  case h_1 h => exact absurd (List.singleton_inj.mp h) some
  case h_2 h => exact absurd (List.cons.inj h).1 some
  case h_3 =>
    simp only [follow, List.mem_cons, List.not_mem_nil, or_false, some, here, above, short]
    cases f.files.lookup name <;> rfl

end Chip8.Folder
