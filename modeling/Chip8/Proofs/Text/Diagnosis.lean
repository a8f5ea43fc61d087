import Chip8.Event
import Chip8.Proofs.Text.Field

namespace Chip8

namespace Fault

def ofFields? : List String → Option Fault
  | ["unknown", "opcode", opcode, "at", address] =>
    some (.unknownOpcode (.ofNat (Hex.number opcode)) (.ofNat (Hex.number address)))
  | ["call", "stack", "overflow", "at", address] =>
    some (.stackOverflow (.ofNat (Hex.number address)))
  | ["call", "stack", "underflow", "at", address] =>
    some (.stackUnderflow (.ofNat (Hex.number address)))
  | _ => none

def ofMessage? (message : String) : Option Fault :=
  ofFields? (fields message)

theorem shows_prefixed (width n : Nat) : Hex.Shows ("0x" ++ Hex.padded width n) n :=
  (Hex.shows_padded width n).append_left (by decide) (by decide)

theorem shows_addressText (address : UInt16) : Hex.Shows (addressText address) address.toNat :=
  shows_prefixed 3 address.toNat

theorem fields_at (cause : String) (address : UInt16) :
    fields (cause ++ " at " ++ addressText address) =
      fields cause ++ ["at", addressText address] := by
  have blanks : cause ++ " at " ++ addressText address =
      cause ++ " " ++ "at" ++ " " ++ addressText address := by
    apply String.toList_inj.mp
    simp
  have preposition : fields "at" = ["at"] := rfl
  rw [blanks, fields_blank, fields_blank, preposition, (shows_addressText address).fields_eq,
    List.append_assoc]
  rfl

theorem fields_opcode (opcode : UInt16) :
    fields ("unknown opcode 0x" ++ Hex.padded 4 opcode.toNat) =
      ["unknown", "opcode", "0x" ++ Hex.padded 4 opcode.toNat] := by
  have blanks : "unknown opcode 0x" ++ Hex.padded 4 opcode.toNat =
      "unknown opcode" ++ " " ++ ("0x" ++ Hex.padded 4 opcode.toNat) := by
    apply String.toList_inj.mp
    simp
  rw [blanks, fields_blank, (shows_prefixed ..).fields_eq]
  rfl

theorem ofMessage?_message (fault : Fault) : ofMessage? fault.message = some fault := by
  cases fault with
  | unknownOpcode opcode address =>
    have fields : fields (unknownOpcode opcode address).message =
        ["unknown", "opcode", "0x" ++ Hex.padded 4 opcode.toNat, "at", addressText address] := by
      refine (fields_at _ address).trans ?_
      rw [fields_opcode]
      rfl
    simp only [ofMessage?, fields, ofFields?, (shows_prefixed ..).number,
      (shows_addressText address).number, UInt16.ofNat_toNat]
  | stackOverflow address =>
    have fields : fields (stackOverflow address).message =
        ["call", "stack", "overflow", "at", addressText address] :=
      fields_at "call stack overflow" address
    simp only [ofMessage?, fields, ofFields?, (shows_addressText address).number,
      UInt16.ofNat_toNat]
  | stackUnderflow address =>
    have fields : fields (stackUnderflow address).message =
        ["call", "stack", "underflow", "at", addressText address] :=
      fields_at "call stack underflow" address
    simp only [ofMessage?, fields, ofFields?, (shows_addressText address).number,
      UInt16.ofNat_toNat]

example : ofMessage? "unknown opcode 0x5121 at 0x1204" = some (.unknownOpcode 0x5121 0x1204) := by
  decide

theorem message_inj {fault other : Fault} : fault.message = other.message ↔ fault = other := by
  constructor
  · intro same
    have read := fault.ofMessage?_message
    rw [same, ofMessage?_message] at read
    exact (Option.some.inj read).symm
  · exact congrArg message

end Fault

namespace Event

/-- Whether the event tells how an instruction found the processor or which fault halted it. -/
def isDiagnosis (e : Event) : Bool :=
  e.level = .trace ∨ e.level = .error

/-- An instruction by the numbers that are told of it: the word, the registers, `i` and `pc`. -/
def ofNumbers? : List Nat → Option Event
  | [] => none
  | word :: numbers =>
    match numbers.drop 16 with
    | [i, pc] =>
      some (.executing (.ofNat word) (.ofFn fun x ↦ .ofNat (numbers.getD x 0)) (.ofNat i)
        (.ofNat pc))
    | _ => none

def ofLine? (line : String) : Option Event :=
  match fields line with
  | "TRACE" :: rest => ofNumbers? (rest.map Hex.number)
  | "ERROR" :: "halting:" :: rest => (Fault.ofFields? rest).map .halting
  | _ => none

theorem fields_line (e : Event) : fields e.line = e.level.name :: fields e.text := by
  have name : fields e.level.name = [e.level.name] := by
    cases e.level <;> rfl
  rw [line, fields_blank, name]
  rfl

theorem shows_byteText (b : UInt8) : Hex.Shows (byteText b) b.toNat :=
  Hex.shows_padded 2 b.toNat

/-- Each byte has a field, which it shares with the mark that follows and the first one also with
what stands `before` it. -/
theorem numbers_listing {before : String} (whole : ' ' ∉ before.toList)
    (zero : Hex.number before = 0) (b : UInt8) (bytes : List UInt8) :
    (fields (before ++ ", ".intercalate ((b :: bytes).map byteText) ++ "]")).map Hex.number =
      (b :: bytes).map UInt8.toNat := by
  have first := (shows_byteText b).append_left whole zero
  induction bytes generalizing before b with
  | nil =>
    rw [List.map_singleton, String.intercalate_singleton,
      (first.append_right (by decide) (by decide)).numbers]
    rfl
  | cons c bytes ih =>
    -- the first field ends at the blank, and nothing stands before the next byte
    have blank : before ++ ", ".intercalate ((b :: c :: bytes).map byteText) ++ "]" =
        before ++ byteText b ++ "," ++ " " ++
          ("" ++ ", ".intercalate ((c :: bytes).map byteText) ++ "]") := by
      rw [List.map_cons, List.map_cons, String.intercalate_cons_cons, ← String.toList_inj]
      simp
    rw [blank, fields_blank, List.map_append, (first.append_right (by decide) (by decide)).numbers,
      ih (by decide) (by decide) c ((shows_byteText c).append_left (by decide) (by decide))]
    rfl

theorem numbers_executing (word : UInt16) (v : Vector UInt8 16) (i pc : UInt16) :
    (fields (executing word v i pc).text).map Hex.number =
      word.toNat :: (v.toList.map UInt8.toNat ++ [i.toNat, pc.toNat]) := by
  have blanks : (executing word v i pc).text =
      Hex.padded 4 word.toNat ++ " " ++ ("v[" ++ ", ".intercalate (v.toList.map byteText) ++ "]") ++
        " " ++ ("i" ++ Hex.padded 4 i.toNat) ++ " " ++ ("pc" ++ Hex.padded 4 pc.toNat) := by
    unfold text
    apply String.toList_inj.mp
    simp
  have shows_i : Hex.Shows ("i" ++ Hex.padded 4 i.toNat) i.toNat :=
    (Hex.shows_padded ..).append_left (by decide) (by decide)
  have shows_pc : Hex.Shows ("pc" ++ Hex.padded 4 pc.toNat) pc.toNat :=
    (Hex.shows_padded ..).append_left (by decide) (by decide)
  obtain ⟨b, bytes, listed⟩ : ∃ b bytes, v.toList = b :: bytes :=
    List.exists_cons_of_length_eq_add_one v.length_toList
  rw [blanks, fields_blank, fields_blank, fields_blank, List.map_append, List.map_append,
    List.map_append, (Hex.shows_padded ..).numbers, shows_i.numbers, shows_pc.numbers, listed,
    numbers_listing (by decide) (by decide)]
  simp

theorem ofNumbers?_executing (word : UInt16) (v : Vector UInt8 16) (i pc : UInt16) :
    ofNumbers? (word.toNat :: (v.toList.map UInt8.toNat ++ [i.toNat, pc.toNat])) =
      some (executing word v i pc) := by
  have length : (v.toList.map UInt8.toNat).length = 16 := by simp
  have registers : (Vector.ofFn fun x : Fin 16 ↦
      UInt8.ofNat ((v.toList.map UInt8.toNat ++ [i.toNat, pc.toNat]).getD x 0)) = v := by
    ext x inside
    simp [List.getElem?_append_left]
  rw [ofNumbers?, List.drop_left' length]
  simp only [registers, UInt16.ofNat_toNat]

theorem ofLine?_line (e : Event) : ofLine? e.line = if e.isDiagnosis then some e else none := by
  rw [ofLine?, fields_line]
  cases e with
  | executing word v i pc =>
    have read := ofNumbers?_executing word v i pc
    rw [← numbers_executing] at read
    exact read
  | halting fault =>
    have blank : (halting fault).text = "halting:" ++ " " ++ fault.message := rfl
    have read : Fault.ofFields? (fields fault.message) = some fault := fault.ofMessage?_message
    rw [blank, fields_blank]
    exact congrArg (Option.map halting) read
  | _ => rfl

theorem line_executing_inj {word word' : UInt16} {v v' : Vector UInt8 16} {i i' pc pc' : UInt16} :
    (executing word v i pc).line = (executing word' v' i' pc').line ↔
      word = word' ∧ v = v' ∧ i = i' ∧ pc = pc' := by
  constructor
  · intro same
    have read := (executing word v i pc).ofLine?_line
    rw [same, ofLine?_line] at read
    exact Event.executing.inj (Option.some.inj read.symm)
  · intro same
    obtain ⟨rfl, rfl, rfl, rfl⟩ := same
    rfl

theorem filterMap_ofLine? (log : List Event) :
    (log.map line).filterMap ofLine? = log.filter isDiagnosis := by
  have read : ofLine? ∘ line = Option.guard isDiagnosis :=
    funext ofLine?_line
  rw [List.filterMap_map, read, List.filterMap_eq_filter]

end Event

end Chip8
