import Chip8.CommandLine.Reading
import Chip8.Proofs.CommandLine.Decimal
import Mathlib.Data.List.Forall2

namespace Chip8

def Parameter.letter? : Parameter → Option Char
  | .clockSpeed => some 'c'
  | .timerFrequency => some 't'
  | .scale => some 's'
  | .seed | .rom => none

/-- The arguments by which a parameter can be given a text as its value. -/
inductive Spells (text : String) : Parameter → List String → Prop
  | alone : Spells text .rom [text]
  | apart {p : Parameter} (option : p ≠ .rom) : Spells text p ["--" ++ p.name, text]
  | equals {p : Parameter} (option : p ≠ .rom) : Spells text p ["--" ++ p.name ++ "=" ++ text]
  | letterApart {p : Parameter} {c : Char} (letter : p.letter? = some c) :
    Spells text p ["-" ++ c.toString, text]
  | letterAttached {p : Parameter} {c : Char} (letter : p.letter? = some c) :
    Spells text p ["-" ++ c.toString ++ text]
  | letterEquals {p : Parameter} {c : Char} (letter : p.letter? = some c) :
    Spells text p ["-" ++ c.toString ++ "=" ++ text]

def Parameter.Plain (text : String) (p : Parameter) : Prop :=
  ∃ c cs, text.toList = c :: cs ∧ c ≠ '-' ∧ (p ≠ .rom → c ≠ '=')

def Assignment.Writes (a : Assignment) (arguments : List String) : Prop :=
  ∃ text, a.Denoted text ∧ Spells text a.parameter arguments

namespace Token

variable {name text : String} {letter c : Char} {cs : List Char}

theorem splitValue_name (plain : ∀ c ∈ name.toList, c ≠ '=') :
    splitValue name.toList = (name, none) := by
  have all : ∀ c ∈ name.toList, decide (c ≠ '=') = true := fun c mem ↦ decide_eq_true (plain c mem)
  have front := @List.takeWhile_append_of_pos _ _ _ [] all
  have back := @List.dropWhile_append_of_pos _ _ _ [] all
  rw [List.append_nil] at front back
  rw [splitValue, front, back, List.takeWhile_nil, List.append_nil, String.ofList_toList]
  rfl

theorem splitValue_equals (plain : ∀ c ∈ name.toList, c ≠ '=') :
    splitValue (name.toList ++ '=' :: text.toList) = (name, some text) := by
  have all : ∀ c ∈ name.toList, decide (c ≠ '=') = true := fun c mem ↦ decide_eq_true (plain c mem)
  rw [splitValue, List.takeWhile_append_of_pos all, List.dropWhile_append_of_pos all]
  simp

theorem ofArgument_word (same : text.toList = c :: cs) (plain : c ≠ '-') :
    ofArgument text = .word text := by
  rw [ofArgument, same]
  split <;> simp_all

theorem ofArgument_long {argument : String} {rest : List Char} (nonempty : rest ≠ [])
    (same : argument.toList = '-' :: '-' :: rest) :
    ofArgument argument = .long (splitValue rest).1 (splitValue rest).2 := by
  obtain ⟨c, cs, rfl⟩ := List.exists_cons_of_ne_nil nonempty
  rw [ofArgument, same]
  rfl

theorem ofArgument_short {argument : String} {rest : List Char} (plain : letter ≠ '-')
    (same : argument.toList = '-' :: letter :: rest) :
    ofArgument argument = .short letter (attached? rest) := by
  rw [ofArgument, same]
  split <;> simp_all

theorem ofArgument_name (nonempty : name.toList ≠ []) (plain : ∀ c ∈ name.toList, c ≠ '=') :
    ofArgument ("--" ++ name) = .long name none := by
  rw [ofArgument_long nonempty (String.toList_append), splitValue_name plain]

theorem ofArgument_equals (plain : ∀ c ∈ name.toList, c ≠ '=') :
    ofArgument ("--" ++ name ++ "=" ++ text) = .long name (some text) := by
  have same : ("--" ++ name ++ "=" ++ text).toList =
      '-' :: '-' :: (name.toList ++ '=' :: text.toList) := by
    simp
  rw [ofArgument_long (by simp) same, splitValue_equals plain]

theorem attached?_of_ne (bare : c ≠ '=') : attached? (c :: cs) = some (.ofList (c :: cs)) := by
  rw [attached?] <;> simp [bare]

theorem ofArgument_letter (plain : letter ≠ '-') :
    ofArgument ("-" ++ letter.toString) = .short letter none :=
  ofArgument_short plain (by simp : _ = ['-', letter])

theorem ofArgument_attached (plain : letter ≠ '-') (same : text.toList = c :: cs) (bare : c ≠ '=') :
    ofArgument ("-" ++ letter.toString ++ text) = .short letter (some text) := by
  rw [ofArgument_short plain (by simp : _ = '-' :: letter :: text.toList), same,
    attached?_of_ne bare, ← same, String.ofList_toList]

theorem ofArgument_letterEquals (plain : letter ≠ '-') :
    ofArgument ("-" ++ letter.toString ++ "=" ++ text) = .short letter (some text) := by
  rw [ofArgument_short plain (by simp : _ = '-' :: letter :: '=' :: text.toList), attached?,
    String.ofList_toList]

end Token

variable {text : String} {n : Nat} {p : Parameter} {ps : List Parameter}
  {arguments rest : List String}

theorem Decimal.plain (h : Decimal text n) (p : Parameter) : p.Plain text := by
  obtain ⟨c, cs, same, digit⟩ := h.exists_cons
  exact ⟨c, cs, same, ne_of_isDigit digit rfl, fun _ ↦ ne_of_isDigit digit rfl⟩

theorem Assignment.Denoted.plain {a : Assignment} (denoted : a.Denoted text) :
    a.parameter.Plain text := by
  cases a with
  | clockSpeed | timerFrequency | scale | seed => exact Decimal.plain denoted _
  | rom path =>
    obtain ⟨rfl, c, cs, same, dashless⟩ := denoted
    exact ⟨c, cs, same, dashless, fun option ↦ absurd rfl option⟩

theorem Parameter.name_plain (p : Parameter) :
    p.name.toList ≠ [] ∧ ∀ c ∈ p.name.toList, c ≠ '=' := by
  cases p <;> simp [name]

theorem Parameter.ofName?_name (option : p ≠ .rom) :
    Switch.ofName? p.name = some (.parameter p) := by
  cases p with
  | rom => exact absurd rfl option
  | _ => decide

theorem Parameter.ofLetter?_of_letter? {c : Char} (letter : p.letter? = some c) :
    Switch.ofLetter? c = some (.parameter p) ∧ c ≠ '-' := by
  cases p <;> cases letter <;> decide

/-- The token names the parameter as an option, with or without a value attached. -/
inductive Names (p : Parameter) : Token → Option String → Prop
  | long (option : p ≠ .rom) (value? : Option String) : Names p (.long p.name value?) value?
  | short {c : Char} (letter : p.letter? = some c) (value? : Option String) :
    Names p (.short c value?) value?

theorem exists_of_map_eq_ok {ε α β : Type} {f : α → β} {x : Except ε α} {b : β}
    (h : x.map f = .ok b) : ∃ a, x = .ok a ∧ f a = b := by
  cases x with
  | error => cases h
  | ok a => exact ⟨a, rfl, Except.ok.inj h⟩

theorem Assignment.parameter_of_ofText {a : Assignment} (h : ofText p text = .ok a) :
    a.parameter = p := by
  cases p with
  | clockSpeed | timerFrequency | scale | seed =>
    obtain ⟨_, -, rfl⟩ := exists_of_map_eq_ok h
    rfl
  | rom =>
    rw [ofText] at h
    split at h <;> cases h
    rfl

namespace Reading

def taken (r : Reading) : List Parameter :=
  r.accepted.map Assignment.parameter ++ (r.pending.map (·.1)).toList

/-- The parameters `ps` can be given next, each of them once. -/
structure Awaits (r : Reading) (ps : List Parameter) : Prop where
  whole : ∀ p, r.pending ≠ some (p, none)
  fresh : (r.taken ++ ps).Nodup

variable {r s : Reading} {argument : String}

theorem has_eq_true_iff : r.has p = true ↔ p ∈ r.accepted.map Assignment.parameter := by
  simp [has]

theorem hasRom_eq_true_iff : r.hasRom = true ↔ .rom ∈ r.taken := by
  cases pending : r.pending <;> simp [hasRom, has, taken, pending, @eq_comm _ Parameter.rom]

theorem accept_eq (fresh : p ∉ r.accepted.map Assignment.parameter) (text : String) :
    r.accept p text =
      (Assignment.ofText p text).map fun a ↦ { r with accepted := r.accepted ++ [a] } := by
  rw [← has_eq_true_iff, Bool.not_eq_true] at fresh
  rw [accept, fresh]
  rfl

theorem Awaits.notMem (awaits : r.Awaits (p :: ps)) : p ∉ r.taken :=
  fun mem ↦ (List.nodup_append.mp awaits.fresh).2.2 p mem p List.mem_cons_self rfl

theorem Awaits.of_settle (awaits : r.Awaits ps) (settled : r.settle = .ok s) :
    s.pending = none ∧ s.accepted.map Assignment.parameter = r.taken := by
  cases pending : r.pending with
  | none =>
    rw [settle, pending] at settled
    obtain rfl := Except.ok.inj settled
    simp [pending, taken]
  | some value =>
    match value with
    | (q, none) => exact absurd pending (awaits.whole q)
    | (q, some text) =>
      have fresh : q ∉ r.accepted.map Assignment.parameter := by
        have fresh := (List.nodup_append.mp awaits.fresh).1
        rw [taken, pending] at fresh
        exact fun mem ↦ (List.nodup_append.mp fresh).2.2 q mem q List.mem_cons_self rfl
      simp only [settle, pending] at settled
      rw [accept_eq (by exact fresh)] at settled
      obtain ⟨a, read, rfl⟩ := exists_of_map_eq_ok settled
      simp [taken, pending, Assignment.parameter_of_ofText read]

theorem arguments_of_names {value? : Option String}
    (names : Names p (Token.ofArgument argument) value?) (r : Reading) (rest : List String) :
    r.arguments (argument :: rest) =
      (r.parameter p value?).bind fun r' ↦ r'.arguments rest := by
  generalize token : Token.ofArgument argument = t at names
  cases names with
  | long option =>
    simp only [arguments, token, Parameter.ofName?_name option]
    rfl
  | short letter =>
    simp only [arguments, token, Parameter.ofLetter?_of_letter? letter]
    rfl

theorem arguments_attached (names : Names p (Token.ofArgument argument) (some text))
    (r : Reading) (rest : List String) :
    r.arguments (argument :: rest) =
      r.settle.bind fun s ↦ (s.accept p text).bind fun r' ↦ r'.arguments rest := by
  rw [arguments_of_names names, parameter]
  cases r.settle <;> rfl

theorem arguments_apart (names : Names p (Token.ofArgument argument) none)
    (word : Token.ofArgument text = .word text) (r : Reading) (rest : List String) :
    r.arguments (argument :: text :: rest) =
      r.settle.bind fun s ↦ { s with pending := some (p, some text) }.arguments rest := by
  rw [arguments_of_names names, parameter]
  cases r.settle with
  | error => rfl
  | ok s =>
    have missing : ({ s with pending := some (p, none) } : Reading).arguments (text :: rest) =
        ({ s with pending := some (p, some text) } : Reading).arguments rest := by
      simp only [arguments, word]
      rfl
    exact missing

theorem arguments_alone (awaits : r.Awaits (.rom :: ps))
    (word : Token.ofArgument text = .word text) (rest : List String) :
    r.arguments (text :: rest) =
      r.settle.bind fun s ↦ { s with pending := some (.rom, some text) }.arguments rest := by
  have first : r.hasRom = false := by
    rw [← Bool.not_eq_true, hasRom_eq_true_iff]
    exact awaits.notMem
  have positional : r.word text = r.positional text := by
    rw [Reading.word]
    split
    case h_1 p pending => exact absurd pending (awaits.whole p)
    case h_2 => rfl
  simp only [arguments, word, positional, Reading.positional, first]
  cases r.settle <;> rfl

/-- However a value is written, what was pending is settled first. Then the value is either checked
at once or pending itself. -/
theorem arguments_of_spells (awaits : r.Awaits (p :: ps)) (spells : Spells text p arguments)
    (plain : p.Plain text) :
    (∀ rest, r.arguments (arguments ++ rest) =
        r.settle.bind fun s ↦ (s.accept p text).bind fun r' ↦ r'.arguments rest) ∨
      ∀ rest, r.arguments (arguments ++ rest) =
        r.settle.bind fun s ↦ { s with pending := some (p, some text) }.arguments rest := by
  obtain ⟨c, cs, same, dashless, bare⟩ := plain
  have word := Token.ofArgument_word same dashless
  obtain ⟨nonempty, noEquals⟩ := p.name_plain
  cases spells with
  | alone => exact .inr (arguments_alone awaits word)
  | apart option =>
    refine .inr (arguments_apart ?_ word r)
    rw [Token.ofArgument_name nonempty noEquals]
    exact .long option none
  | equals option =>
    refine .inl (arguments_attached ?_ r)
    rw [Token.ofArgument_equals noEquals]
    exact .long option (some text)
  | letterApart letter =>
    refine .inr (arguments_apart ?_ word r)
    rw [Token.ofArgument_letter (Parameter.ofLetter?_of_letter? letter).2]
    exact .short letter none
  | letterAttached letter =>
    have option : p ≠ .rom := by rintro rfl; cases letter
    refine .inl (arguments_attached ?_ r)
    rw [Token.ofArgument_attached (Parameter.ofLetter?_of_letter? letter).2 same (bare option)]
    exact .short letter (some text)
  | letterEquals letter =>
    refine .inl (arguments_attached ?_ r)
    rw [Token.ofArgument_letterEquals (Parameter.ofLetter?_of_letter? letter).2]
    exact .short letter (some text)

end Reading

end Chip8
