import Chip8.Proofs.Processor.Effect

namespace Chip8.Processor

inductive Part
  | timers
  | keypad
  | screen

def Part.Serves : Part → Instruction → Prop
  | .timers, .getDelay _ | .timers, .setDelay _ | .timers, .setSound _ => True
  | .keypad, .skipHeld _ | .keypad, .skipReleased _ => True
  | .screen, .clear | .screen, .draw .. => True
  | _, _ => False

inductive Part.Busy (part : Part) (p : Processor) : Prop
  | serves {ins : Instruction} (mode : p.mode = .running) (form : ins.Form p.word.toNat)
      (serves : part.Serves ins)
  | awaits {x : Fin 16} (mode : p.mode = .awaitingKey x) (keypad : part = .keypad)

/-- The processor `p` with a part of `r`. -/
def graft (p : Processor) (part : Part) (r : Processor) : Processor :=
  { p with
    timers := match part with
      | .timers => r.timers
      | .keypad | .screen => p.timers
    keypad := match part with
      | .keypad => r.keypad
      | .timers | .screen => p.keypad
    screen := match part with
      | .screen => r.screen
      | .timers | .keypad => p.screen }

inductive Reply
  | done
  | stepped (answer : Except Fault Unit)
  | loaded (answer : Except LoadError Unit)
  | periods (n : Nat)
  | hit (collision : Bool)
  | taken (frame? : Option Frame)

def Operation.reply (p : Processor) : Operation → Reply
  | .step => .stepped p.step.answer
  | .load rom => .loaded ((p.load rom).map fun _ ↦ ())
  | .tick elapsed => .periods (p.timers.periods elapsed)
  | .draw x y sprite => .hit (p.screen.draw x y sprite).2
  | .takeFrame => .taken p.screen.takeFrame.2
  | .reset | .setDelay _ | .setSound _ | .resetTimers | .press _ | .release _ | .setKeys _
  | .releaseKeys | .clear => .done

def Operation.part? : Operation → Option Part
  | .tick _ | .setDelay _ | .setSound _ | .resetTimers => some .timers
  | .press _ | .release _ | .setKeys _ | .releaseKeys => some .keypad
  | .draw .. | .clear | .takeFrame => some .screen
  | .step | .load _ | .reset => none

variable {p : Processor} {ins : Instruction} {part : Part} {o : Operation}

theorem graft_self (p : Processor) (part : Part) : p.graft part p = p := by
  cases part <;> rfl

theorem skipIf_graft (p r : Processor) (part : Part) (condition : Bool) :
    (p.graft part r).skipIf condition = (p.skipIf condition).graft part r := by
  cases condition <;> rfl

theorem keypad_graft (r : Processor) (other : part ≠ .keypad) :
    (p.graft part r).keypad = p.keypad := by
  cases part with
  | keypad => exact absurd rfl other
  | timers | screen => rfl

/-- An instruction that leaves a part alone does not mind whose part it is. -/
theorem execute_graft (r : Processor) (spare : ¬ part.Serves ins) :
    (p.graft part r).execute ins = (p.execute ins).map (graft · part r) := by
  cases ins with
  | ret =>
    have stack : (p.graft part r).stack = p.stack := rfl
    simp only [execute, stack]
    cases p.stack.pop <;> rfl
  | call nnn =>
    have stack : (p.graft part r).stack = p.stack := rfl
    have pc : (p.graft part r).pc = p.pc := rfl
    simp only [execute, stack, pc]
    cases p.stack.push p.pc <;> rfl
  | skipEqByte | skipNeByte | skipEq | skipNe =>
    exact congrArg Except.ok (skipIf_graft p r part _)
  | skipHeld | skipReleased =>
    have other : part ≠ .keypad := by
      rintro rfl
      exact spare trivial
    simp only [execute, keypad_graft r other]
    exact congrArg Except.ok (skipIf_graft p r part _)
  | clear | draw | getDelay | setDelay | setSound =>
    cases part <;> first | rfl | exact absurd trivial spare
  | _ => rfl

theorem step_graft (r : Processor) (free : ¬ part.Busy p) :
    (p.graft part r).step = p.step.map (graft · part r) := by
  cases mode : p.mode with
  | halted f =>
    have mode' : (p.graft part r).mode = .halted f := mode
    simp only [step, mode, mode', Outcome.map]
  | awaitingKey x =>
    have mode' : (p.graft part r).mode = .awaitingKey x := mode
    have other : part ≠ .keypad := fun keypad ↦ free (.awaits mode keypad)
    simp only [step, mode, mode', keypad_graft r other]
    cases p.keypad.firstHeld with
    | none => rfl
    | some key =>
      cases part with
      | keypad => exact absurd rfl other
      | timers | screen => rfl
  | running =>
    have stepped : (p.graft part r).step.map id = p.step.map (graft · part r) := by
      refine step_map_eq mode mode rfl rfl rfl rfl (fun _ ↦ rfl) fun ins decoded ↦ ?_
      have form := Instruction.decode?_eq_some_iff.mp decoded
      have spare : ¬ part.Serves ins := fun serves ↦ free (.serves mode form serves)
      exact (congrFun Except.map_id _).trans (execute_graft (p := p.advance) r spare)
    exact stepped

theorem apply_graft (keeps : o.part? = some part) (p q : Processor) :
    o.apply (q.graft part p) = q.graft part (o.apply p) := by
  cases o <;> cases keeps <;> rfl

theorem reply_graft (keeps : o.part? = some part) (p q : Processor) :
    o.reply (q.graft part p) = o.reply p := by
  cases o <;> cases keeps <;> rfl

/-- Unless the next step works on the part of the processor that a host works on, it makes no
difference which of the two comes first, neither to the processor nor to what is answered and
logged. -/
theorem step_apply_comm (keeps : o.part? = some part) (free : ¬ part.Busy p) :
    (o.apply p).step = p.step.map o.apply ∧ o.reply p.step.state = o.reply p := by
  have stepped := step_graft p free
  rw [graft_self] at stepped
  have kept : p.step.state.graft part p = p.step.state := (congrArg Outcome.state stepped).symm
  have applied (q : Processor) (h : q.graft part p = q) : o.apply q = q.graft part (o.apply p) := by
    rw [← apply_graft keeps, h]
  constructor
  · rw [applied p (p.graft_self part), step_graft _ free, Outcome.map, Outcome.map,
      applied _ kept]
  · rw [← kept, reply_graft keeps]

def stranded : Processor :=
  (Operation.load #[0x00, 0xEE]).apply (new .standard (Seed.key 0)).reset

theorem not_busy_stranded (part : Part) : ¬ part.Busy stranded := by
  have reachable : stranded.Reachable :=
    ((Reachable.new .standard (Seed.key 0)).apply .reset).apply _
  have fetched : stranded.snapshot.word = 0x00EE := word_apply_load (by decide) rfl
  rw [snapshot_word reachable.bounded.pc_lt] at fetched
  intro busy
  cases busy with
  | serves _ form serves =>
    have ret : Instruction.ret.Form stranded.word.toNat := fetched
    obtain rfl := form.unique ret
    cases part <;> exact serves
  | awaits mode => cases mode

theorem step_apply_comm_stranded :
    (Operation.takeFrame.apply stranded).step = stranded.step.map Operation.takeFrame.apply ∧
      Operation.takeFrame.reply stranded.step.state = .taken (some .blank) ∧
      ((Operation.tick .second).apply stranded).step =
        stranded.step.map (Operation.tick .second).apply ∧
      (Operation.tick .second).reply stranded.step.state = .periods 60 ∧
      ((Operation.press 5).apply stranded).step = stranded.step.map (Operation.press 5).apply := by
  obtain ⟨taken, frame⟩ := step_apply_comm (o := .takeFrame) rfl (not_busy_stranded .screen)
  obtain ⟨ticked, periods⟩ := step_apply_comm (o := .tick .second) rfl (not_busy_stranded .timers)
  obtain ⟨pressed, -⟩ := step_apply_comm (o := .press 5) rfl (not_busy_stranded .keypad)
  exact ⟨taken, frame.trans rfl, ticked, periods.trans rfl, pressed⟩

end Chip8.Processor
