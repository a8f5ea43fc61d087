import Chip8.Proofs.Machine.Restart

namespace Chip8

namespace Source

/-- The bytes from here to the end of a source, which may come in pieces of any size, with any
number of interruptions before, between and after them. -/
inductive Delivers : Source → Array UInt8 → Prop
  | exhausted : Delivers [] #[]
  | ended (unread : Source) : Delivers (.bytes #[] :: unread) #[]
  | interrupted {rest : Source} {rom : Array UInt8} (later : Delivers rest rom) :
    Delivers (.interrupted :: rest) rom
  | piece {chunk : Array UInt8} {rest : Source} {rom : Array UInt8} (some : chunk ≠ #[])
    (later : Delivers rest rom) : Delivers (.bytes chunk :: rest) (chunk ++ rom)

/-- A read fails for good before the source is at its end. -/
inductive Breaks (reason : String) : Source → Prop
  | failed (unread : Source) : Breaks reason (.failed reason :: unread)
  | interrupted {rest : Source} (later : Breaks reason rest) : Breaks reason (.interrupted :: rest)
  | piece {chunk : Array UInt8} {rest : Source} (some : chunk ≠ #[]) (later : Breaks reason rest) :
    Breaks reason (.bytes chunk :: rest)

variable {source : Source} {rom : Array UInt8} {reason : String}

theorem contentsAfter_piece {chunk : Array UInt8} (some : chunk ≠ #[]) (read : Array UInt8)
    (rest : Source) :
    contentsAfter read (.bytes chunk :: rest) = contentsAfter (read ++ chunk) rest := by
  rw [contentsAfter, if_neg]
  rwa [Array.isEmpty_iff]

theorem Delivers.contentsAfter_eq (h : source.Delivers rom) (read : Array UInt8) :
    source.contentsAfter read = .ok (read ++ rom) := by
  induction h generalizing read with
  | exhausted | ended => rw [Array.append_empty]; rfl
  | interrupted _ ih => exact ih read
  | piece some _ ih => rw [contentsAfter_piece some, ih, Array.append_assoc]

theorem Delivers.unique {rom' : Array UInt8} (h : source.Delivers rom)
    (h' : source.Delivers rom') : rom' = rom := by
  have same := h.contentsAfter_eq #[]
  rwa [h'.contentsAfter_eq, Except.ok.injEq, Array.empty_append, Array.empty_append] at same

theorem delivers_bytes (contents : Array UInt8) : Delivers [.bytes contents] contents := by
  by_cases empty : contents = #[]
  · subst empty
    exact .ended []
  · have whole := Delivers.piece empty .exhausted
    rwa [Array.append_empty] at whole

theorem Breaks.contentsAfter_eq (h : source.Breaks reason) (read : Array UInt8) :
    source.contentsAfter read = .error reason := by
  induction h generalizing read with
  | failed => rfl
  | interrupted _ ih => exact ih read
  | piece some _ ih => rw [contentsAfter_piece some, ih]

theorem delivers_or_breaks (source : Source) :
    (∃ rom, source.Delivers rom) ∨ ∃ reason, source.Breaks reason := by
  induction source with
  | nil => exact .inl ⟨_, .exhausted⟩
  | cons read rest ih =>
    match read with
    | .failed reason => exact .inr ⟨reason, .failed rest⟩
    | .interrupted =>
      obtain ⟨rom, later⟩ | ⟨reason, later⟩ := ih
      · exact .inl ⟨rom, .interrupted later⟩
      · exact .inr ⟨reason, .interrupted later⟩
    | .bytes chunk =>
      by_cases none : chunk = #[]
      · subst none
        exact .inl ⟨_, .ended rest⟩
      · obtain ⟨rom, later⟩ | ⟨reason, later⟩ := ih
        · exact .inl ⟨_, .piece none later⟩
        · exact .inr ⟨reason, .piece none later⟩

end Source

namespace Machine

variable {source : Source} {rom : Array UInt8} {reason : String}

theorem loadFrom_of_delivers (m : Machine) (h : source.Delivers rom) :
    m.loadFrom source = m.load rom := by
  have contents : source.contents = .ok rom := by
    rw [Source.contents, h.contentsAfter_eq, Array.empty_append]
  simp only [loadFrom, contents]

theorem loadFrom_of_breaks (m : Machine) (h : source.Breaks reason) :
    m.loadFrom source = ⟨m, .error (.unreadable reason), []⟩ := by
  have contents : source.contents = .error reason := h.contentsAfter_eq #[]
  simp only [loadFrom, contents]

/-- A machine loads from a source as it loads the bytes that the source delivers, also if they are
too many. A source that breaks changes nothing, however much it has delivered. Every source does
one or the other. -/
theorem loadFrom_eq_load (m : Machine) (source : Source) :
    (∀ rom, source.Delivers rom →
      m.loadFrom source = m.load rom ∧
        (3584 < rom.size → (m.loadFrom source).answer = .error (.tooLarge rom.size))) ∧
      (∀ reason, source.Breaks reason →
        m.loadFrom source = ⟨m, .error (.unreadable reason), []⟩) ∧
      ((∃ rom, source.Delivers rom) ∨ ∃ reason, source.Breaks reason) := by
  refine ⟨fun rom delivers ↦ ?_, fun _ ↦ m.loadFrom_of_breaks, source.delivers_or_breaks⟩
  have same := m.loadFrom_of_delivers delivers
  refine ⟨same, fun large ↦ ?_⟩
  rw [same, m.load_of_lt_size large]

theorem loadFrom_eq_load_slow :
    newborn.loadFrom [.interrupted, .bytes #[0x12], .interrupted, .interrupted, .bytes #[0x00]] =
        newborn.load #[0x12, 0x00] ∧
      (newborn.loadFrom [.bytes (Array.replicate 3584 1), .interrupted, .bytes #[2]]).answer =
        .error (.tooLarge 3585) ∧
      newborn.loadFrom [.bytes (Array.replicate 3584 1), .interrupted, .failed "broken reader"] =
        ⟨newborn, .error (.unreadable "broken reader"), []⟩ := by
  have some (chunk : Array UInt8) (h : 0 < chunk.size) : chunk ≠ #[] := by
    rintro rfl
    exact absurd h (by decide)
  have full : 0 < (Array.replicate 3584 (1 : UInt8)).size := by
    rw [Array.size_replicate]
    decide
  obtain ⟨slow, -, -⟩ := loadFrom_eq_load newborn
    [.interrupted, .bytes #[0x12], .interrupted, .interrupted, .bytes #[0x00]]
  obtain ⟨large, -, -⟩ := loadFrom_eq_load newborn
    [.bytes (Array.replicate 3584 1), .interrupted, .bytes #[2]]
  obtain ⟨-, broken, -⟩ := loadFrom_eq_load newborn
    [.bytes (Array.replicate 3584 1), .interrupted, .failed "broken reader"]
  obtain ⟨same, -⟩ := slow _ (.interrupted (.piece (some _ (by decide)) (.interrupted
    (.interrupted (.piece (some _ (by decide)) .exhausted)))))
  obtain ⟨-, refused⟩ := large _ (.piece (some _ full) (.interrupted
    (.piece (some _ (by decide)) .exhausted)))
  have size : (Array.replicate 3584 (1 : UInt8) ++ (#[2] ++ #[])).size = 3585 := by
    rw [Array.size_append, Array.size_replicate]
    rfl
  rw [size] at refused
  exact ⟨same, refused (by decide), broken _ (.piece (some _ full) (.interrupted (.failed [])))⟩

end Machine

end Chip8
