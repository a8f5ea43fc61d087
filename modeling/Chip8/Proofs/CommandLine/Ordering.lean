import Chip8.Launch.Basic
import Chip8.Proofs.CommandLine.Spelling

namespace Chip8

namespace Reading

variable {r s : Reading} {p : Parameter} {ps : List Parameter} {text : String}
  {arguments : List String} {given : List Assignment} {groups : List (List String)} {e : UsageError}

theorem Awaits.settled (awaits : r.Awaits ps) (settled : r.settle = .ok s) :
    s = { accepted := s.accepted } := by
  obtain ⟨nothing, -⟩ := awaits.of_settle settled
  cases s
  cases nothing
  rfl

theorem Awaits.next {r' : Reading} (awaits : r.Awaits (p :: ps))
    (whole : ∀ q, r'.pending ≠ some (q, none)) (taken : r'.taken = r.taken ++ [p]) :
    r'.Awaits ps := by
  refine ⟨whole, ?_⟩
  rw [taken, List.append_assoc]
  exact awaits.fresh

/-- A value that is written is read on its own: what comes of the reading is settled by it. -/
theorem exists_reading (awaits : r.Awaits (p :: ps)) (settled : r.settle = .ok s)
    (spells : Spells text p arguments) (plain : p.Plain text) :
    (∃ r' : Reading, (∀ rest, r.arguments (arguments ++ rest) = r'.arguments rest) ∧ r'.Awaits ps ∧
      r'.settle =
        (Assignment.ofText p text).map fun a ↦ { accepted := s.accepted ++ [a] }) ∨
      ∃ e, Assignment.ofText p text = .error e ∧
        ∀ rest, r.arguments (arguments ++ rest) = .error e := by
  have taken := (awaits.of_settle settled).2
  have fresh : p ∉ s.accepted.map Assignment.parameter := taken ▸ awaits.notMem
  have alone := awaits.settled settled
  rcases arguments_of_spells awaits spells plain with atOnce | later
  · rw [settled] at atOnce
    cases read : Assignment.ofText p text with
    | error e =>
      refine .inr ⟨e, rfl, fun rest ↦ ?_⟩
      rw [atOnce, Except.bind, accept_eq fresh, read]
      rfl
    | ok a =>
      refine .inl ⟨{ accepted := s.accepted ++ [a] }, fun rest ↦ ?_, ?_, rfl⟩
      · rw [atOnce, Except.bind, accept_eq fresh, read, alone]
        rfl
      · refine awaits.next (fun q h ↦ by cases h) ?_
        rw [← taken]
        simp [Reading.taken, Assignment.parameter_of_ofText read]
  · rw [settled] at later
    refine .inl ⟨{ s with pending := some (p, some text) }, later, ?_, ?_⟩
    · refine awaits.next (fun q h ↦ by cases h) ?_
      rw [← taken]
      simp [Reading.taken]
    · have entered : ({ s with pending := some (p, some text) } : Reading).settle =
          ({ accepted := s.accepted } : Reading).accept p text := rfl
      rw [entered, accept_eq (by exact fresh)]

theorem exists_reading_of_writes (written : List.Forall₂ Assignment.Writes given groups)
    (awaits : r.Awaits (given.map Assignment.parameter ++ ps)) (settled : r.settle = .ok s) :
    ∃ r' : Reading, (∀ rest, r.arguments (groups.flatten ++ rest) = r'.arguments rest) ∧
      r'.Awaits ps ∧ r'.settle = .ok { accepted := s.accepted ++ given } := by
  -- A value that stands apart from its option is still pending when the next one is read. So what
  -- is carried along is not what has been accepted but what settling would accept.
  induction written generalizing r s with
  | nil =>
    refine ⟨r, fun rest ↦ rfl, awaits, ?_⟩
    rw [List.append_nil, settled, ← awaits.settled settled]
  | @cons a group given groups writes written ih =>
    obtain ⟨text, denoted, spells⟩ := writes
    have accepted := Assignment.ofText_of_denoted denoted
    rcases exists_reading awaits settled spells denoted.plain with
      ⟨m, same, next, read⟩ | ⟨e, refused, -⟩
    · rw [accepted] at read
      obtain ⟨r', later, awaiting, all⟩ := ih next read
      refine ⟨r', fun rest ↦ ?_, awaiting, ?_⟩
      · rw [List.flatten_cons, List.append_assoc, same, later]
      · rw [all, List.append_assoc, List.singleton_append]
    · rw [accepted] at refused
      cases refused

theorem arguments_of_settle_eq_error (written : List.Forall₂ Assignment.Writes given groups)
    (awaits : r.Awaits (given.map Assignment.parameter)) (refused : r.settle = .error e) :
    r.arguments groups.flatten = .error e := by
  cases written with
  | nil =>
    rw [List.flatten_nil, arguments, finish, refused]
    rfl
  | cons writes written =>
    obtain ⟨text, denoted, spells⟩ := writes
    rw [List.flatten_cons]
    rcases arguments_of_spells awaits spells denoted.plain with same | same <;>
    · rw [same, refused]
      rfl

end Reading

structure Choices where
  rom : String
  clockSpeed : Option UInt32 := none
  timerFrequency : Option UInt32 := none
  scale : Option UInt32 := none
  seed : Option UInt64 := none

namespace Choices

def assignments (c : Choices) : List Assignment :=
  .rom c.rom ::
    ((c.clockSpeed.map .clockSpeed).toList ++ (c.timerFrequency.map .timerFrequency).toList ++
      (c.scale.map .scale).toList ++ (c.seed.map .seed).toList)

def invocation (c : Choices) : Invocation where
  rom := c.rom
  settings :=
    { clockSpeed := c.clockSpeed.getD 500
      timerFrequency := c.timerFrequency.getD 60
      seed := c.seed }
  scale := c.scale.getD 10

variable {given : List Assignment}

theorem nodup_parameters (c : Choices) : (c.assignments.map Assignment.parameter).Nodup := by
  rcases c with ⟨rom, _ | _, _ | _, _ | _, _ | _⟩ <;> simp [assignments, Assignment.parameter]

theorem findSome?_of_perm {α β : Type} {f : α → Option β} {l l' : List α} {o : Option β}
    (perm : l.Perm l') (once : l'.filterMap f = o.toList) : l.findSome? f = o := by
  have found := perm.filterMap f
  rw [once] at found
  rw [← List.head?_filterMap]
  cases o with
  | none => rw [found.eq_nil, List.head?_nil]
  | some b => rw [found.eq_singleton, List.head?_cons]

theorem filterMap_assignments (c : Choices) :
    c.assignments.filterMap Assignment.rom? = [c.rom] ∧
      c.assignments.filterMap Assignment.clockSpeed? = c.clockSpeed.toList ∧
      c.assignments.filterMap Assignment.timerFrequency? = c.timerFrequency.toList ∧
      c.assignments.filterMap Assignment.scale? = c.scale.toList ∧
      c.assignments.filterMap Assignment.seed? = c.seed.toList := by
  rcases c with ⟨rom, _ | _, _ | _, _ | _, _ | _⟩ <;> exact ⟨rfl, rfl, rfl, rfl, rfl⟩

theorem ofAssignments_of_perm (c : Choices) (order : given.Perm c.assignments) :
    Invocation.ofAssignments given = .ok c.invocation := by
  obtain ⟨rom, clockSpeed, timerFrequency, scale, seed⟩ := c.filterMap_assignments
  have romFound : given.findSome? Assignment.rom? = some c.rom := findSome?_of_perm order rom
  rw [Invocation.ofAssignments, romFound]
  simp only [findSome?_of_perm order clockSpeed, findSome?_of_perm order timerFrequency,
    findSome?_of_perm order scale, findSome?_of_perm order seed]
  rfl

end Choices

namespace Reading

theorem awaits_of_nodup {ps : List Parameter} (nodup : ps.Nodup) : ({} : Reading).Awaits ps where
  whole p pending := by cases pending
  fresh := nodup

end Reading

namespace Request

variable {given before after : List Assignment} {a : Assignment}
  {groups groups' : List (List String)} {arguments : List String} {text : String} {n : Nat}

theorem ofArguments_of_ofAssignments {i : Invocation}
    (written : List.Forall₂ Assignment.Writes given groups)
    (nodup : (given.map Assignment.parameter).Nodup)
    (meant : Invocation.ofAssignments given = .ok i) :
    ofArguments groups.flatten = .ok (.run i) := by
  have awaits : ({} : Reading).Awaits (given.map Assignment.parameter ++ []) := by
    rw [List.append_nil]
    exact Reading.awaits_of_nodup nodup
  obtain ⟨r, read, -, settled⟩ := Reading.exists_reading_of_writes written awaits rfl
  have all := read []
  rw [List.append_nil] at all
  rw [ofArguments, all, Reading.arguments, Reading.finish, settled]
  simp only [bind, Except.bind, List.nil_append, meant]
  rfl

theorem ofArguments_of_exceeded (nodup : ((before ++ a :: after).map Assignment.parameter).Nodup)
    (first : List.Forall₂ Assignment.Writes before groups)
    (spells : Spells text a.parameter arguments)
    (last : List.Forall₂ Assignment.Writes after groups') (decimal : Decimal text n)
    (exceeded : a.parameter.Exceeded n) :
    ∃ reason, ofArguments (groups.flatten ++ arguments ++ groups'.flatten) =
      .error (.invalidValue text a.parameter reason) := by
  obtain ⟨reason, refused⟩ := Assignment.ofText_of_exceeded decimal exceeded
  refine ⟨reason, ?_⟩
  rw [List.map_append, List.map_cons] at nodup
  obtain ⟨r, read, awaits, settled⟩ :=
    Reading.exists_reading_of_writes first (Reading.awaits_of_nodup nodup) rfl
  rw [ofArguments, List.append_assoc, read]
  rcases Reading.exists_reading awaits settled spells (decimal.plain _) with
    ⟨r', same, next, later⟩ | ⟨e, atOnce, same⟩
  · rw [refused] at later
    rw [same, Reading.arguments_of_settle_eq_error last next later]
  · obtain rfl := Except.error.inj (atOnce.symm.trans refused)
    exact same _

/-- In every order and spelling a command line gives the values that it is meant to give, and the
defaults of the others. If one of the values is too large for its parameter then the program stops
there, before it has opened anything. -/
theorem ofArguments_of_writes (c : Choices) (order : given.Perm c.assignments) :
    (∀ groups, List.Forall₂ Assignment.Writes given groups →
      ofArguments groups.flatten = .ok (.run c.invocation)) ∧
    ∀ before a after, given = before ++ a :: after →
      ∀ groups arguments groups' text n, List.Forall₂ Assignment.Writes before groups →
        Spells text a.parameter arguments → List.Forall₂ Assignment.Writes after groups' →
        Decimal text n → a.parameter.Exceeded n →
        ∃ reason, let e := UsageError.invalidValue text a.parameter reason
          let all := groups.flatten ++ arguments ++ groups'.flatten
          ofArguments all = .error e ∧
            ∀ openPath entropy screen, Report.ofStart openPath entropy screen all =
              { code := 2, err := e.text } := by
  have nodup : (given.map Assignment.parameter).Nodup :=
    (order.map Assignment.parameter).nodup_iff.mpr c.nodup_parameters
  refine ⟨fun groups written ↦ ?_, ?_⟩
  · exact ofArguments_of_ofAssignments written nodup (c.ofAssignments_of_perm order)
  · intro before a after split groups arguments groups' text n first spells last decimal exceeded
    subst split
    obtain ⟨reason, refused⟩ := ofArguments_of_exceeded nodup first spells last decimal exceeded
    refine ⟨reason, refused, fun openPath entropy screen ↦ ?_⟩
    simp only [Report.ofStart, refused]

theorem ofArguments_of_writes_mixed :
    ofArguments ["--seed", "18446744073709551615", "game=1.ch8", "-s3", "-c=0700"] =
        .ok (.run ⟨"game=1.ch8", ⟨700, 60, some 18446744073709551615⟩, 3⟩) ∧
      ∃ reason, ofArguments ["--seed", "18446744073709551615", "game=1.ch8", "-s4294967296",
        "-c=0700"] = .error (.invalidValue "4294967296" .scale reason) := by
  let choices : Choices :=
    { rom := "game=1.ch8", clockSpeed := some 700, scale := some 3,
      seed := some 18446744073709551615 }
  have order : List.Perm [.seed 18446744073709551615, .rom "game=1.ch8", .scale 3, .clockSpeed 700]
      choices.assignments := by decide
  obtain ⟨whole, broken⟩ := ofArguments_of_writes choices order
  have seed : (Assignment.seed 18446744073709551615).Writes ["--seed", "18446744073709551615"] :=
    ⟨_, decimal_toString 18446744073709551615, .apart (by decide)⟩
  have rom : (Assignment.rom "game=1.ch8").Writes ["game=1.ch8"] :=
    ⟨_, ⟨rfl, 'g', _, rfl, by decide⟩, .alone⟩
  have s : Parameter.scale.letter? = some 's' := rfl
  have c : Parameter.clockSpeed.letter? = some 'c' := rfl
  have scale : (Assignment.scale 3).Writes ["-s3"] := ⟨"3", decimal_toString 3, .letterAttached s⟩
  have clockSpeed : (Assignment.clockSpeed 700).Writes ["-c=0700"] :=
    ⟨"0700", ⟨by decide, List.all_eq_true.mp rfl, rfl⟩, .letterEquals c⟩
  refine ⟨whole _ (.cons seed (.cons rom (.cons scale (.cons clockSpeed .nil)))), ?_⟩
  obtain ⟨reason, refused, -⟩ := broken [_, _] _ [_] rfl _ ["-s4294967296"] _ "4294967296"
    4294967296 (.cons seed (.cons rom .nil)) (.letterAttached s) (.cons clockSpeed .nil)
    (decimal_toString 4294967296) (Nat.le_refl UInt32.size)
  exact ⟨reason, refused⟩

end Request

end Chip8
