import Chip8.Launch.Basic
import Chip8.Proofs.Launch.Folder
import Chip8.Proofs.Machine.Delivery

namespace Chip8

namespace Launch

/-- Both clocks run, and the ROM can be opened, read and held. -/
structure Ready (settings : Settings) (opened : Except String Source) : Prop where
  clock : 0 < settings.clockSpeed
  timers : 0 < settings.timerFrequency
  rom : ∃ source rom, opened = .ok source ∧ source.Delivers rom ∧ rom.size ≤ 3584

/-- The first thing that is wrong with a start, as it is reported: an error and its causes. -/
inductive Stops (settings : Settings) (path : String) (opened : Except String Source) :
    String → List String → Prop
  | clock (stopped : settings.clockSpeed = 0) :
    Stops settings path opened "invalid configuration: clock speed must be above 0Hz" []
  | timers (clock : 0 < settings.clockSpeed) (stopped : settings.timerFrequency = 0) :
    Stops settings path opened "invalid configuration: timer frequency must be above 0Hz" []
  | opening {cause : String} (clock : 0 < settings.clockSpeed)
    (timers : 0 < settings.timerFrequency) (closed : opened = .error cause) :
    Stops settings path opened ("unable to open " ++ path) [cause]
  | reading {source : Source} {reason : String} (clock : 0 < settings.clockSpeed)
    (timers : 0 < settings.timerFrequency) (found : opened = .ok source)
    (broken : source.Breaks reason) :
    Stops settings path opened ("unable to load " ++ path) ["unable to read ROM", reason]
  | loading {source : Source} {rom : Array UInt8} (clock : 0 < settings.clockSpeed)
    (timers : 0 < settings.timerFrequency) (found : opened = .ok source)
    (delivered : source.Delivers rom) (large : 3584 < rom.size) :
    Stops settings path opened ("unable to load " ++ path)
      ["ROM is too large (" ++ toString rom.size ++ " bytes), max size is 3584 bytes"]

def printed (top : String) : List String → String
  | [] => "Error: " ++ top ++ "\n"
  | [cause] => "Error: " ++ top ++ "\n\nCaused by:\n    " ++ cause ++ "\n"
  | cause :: deeper :: _ =>
    "Error: " ++ top ++ "\n\nCaused by:\n    0: " ++ cause ++ "\n    1: " ++ deeper ++ "\n"

variable {settings : Settings} {path top : String} {causes : List String}
  {opened : Except String Source} {i : Invocation} {entropy : ChaCha.Key}

theorem length_causes_le (e : LaunchError) : e.causes.length ≤ 2 := by
  cases e with
  | loading _ e => cases e <;> simp [LaunchError.causes, LoadError.reason?]
  | _ => simp [LaunchError.causes]

theorem text_eq_printed (e : LaunchError) : e.text = printed e.message e.causes := by
  rw [← String.toList_inj, LaunchError.text]
  match e.causes, length_causes_le e with
  | [], _ | [_], _ => simp [printed, LaunchError.causeLines, String.join]
  | [_, _], _ =>
    have one : Nat.toDigits 10 1 = ['1'] := rfl
    simp [printed, LaunchError.causeLines, String.join, one]

theorem ready_or_stops (settings : Settings) (path : String) (opened : Except String Source) :
    Ready settings opened ∨ ∃ top causes, Stops settings path opened top causes := by
  rcases Nat.eq_zero_or_pos settings.clockSpeed.toNat with stopped | clock
  · exact .inr ⟨_, _, .clock (UInt32.toNat_inj.mp stopped)⟩
  have clock : 0 < settings.clockSpeed := UInt32.lt_iff_toNat_lt.mpr clock
  rcases Nat.eq_zero_or_pos settings.timerFrequency.toNat with stopped | timers
  · exact .inr ⟨_, _, .timers clock (UInt32.toNat_inj.mp stopped)⟩
  have timers : 0 < settings.timerFrequency := UInt32.lt_iff_toNat_lt.mpr timers
  cases found : opened with
  | error cause => exact .inr ⟨_, _, .opening clock timers rfl⟩
  | ok source =>
    rcases source.delivers_or_breaks with ⟨rom, delivered⟩ | ⟨reason, broken⟩
    · rcases Nat.lt_or_ge 3584 rom.size with large | small
      · exact .inr ⟨_, _, .loading clock timers rfl delivered large⟩
      · exact .inl ⟨clock, timers, source, rom, rfl, delivered, small⟩
    · exact .inr ⟨_, _, .reading clock timers rfl broken⟩

theorem new_eq_ok (clock : 0 < settings.clockSpeed) (timers : 0 < settings.timerFrequency)
    (entropy : ChaCha.Key) : ∃ m, Machine.new settings entropy = .ok m := by
  have clock : settings.clockSpeed ≠ 0 := (UInt32.ne_of_lt clock).symm
  have timers : settings.timerFrequency ≠ 0 := (UInt32.ne_of_lt timers).symm
  simp [Machine.new, Settings.validate, clock, timers, Except.map]

theorem prepare_of_new_eq_error {e : SettingsError}
    (refused : Machine.new i.settings entropy = .error e) :
    i.prepare entropy opened = .error (.settings e) := by
  rw [Invocation.prepare, refused]
  rfl

theorem prepare_of_new_eq_ok {m : Machine} {source : Source}
    (built : Machine.new i.settings entropy = .ok m) :
    i.prepare entropy (.ok source) =
      match (m.loadFrom source).answer with
      | .error e => .error (.loading i.rom e)
      | .ok _ => .ok (m.loadFrom source).state := by
  rw [Invocation.prepare, built]
  rfl

theorem prepare_of_stops (entropy : ChaCha.Key)
    (stops : Stops i.settings i.rom opened top causes) :
    ∃ e, i.prepare entropy opened = .error e ∧ e.message = top ∧ e.causes = causes := by
  cases stops with
  | clock stopped =>
    refine ⟨.settings .clockStopped, prepare_of_new_eq_error ?_, rfl, rfl⟩
    simp [Machine.new, Settings.validate, stopped, Except.map]
  | timers clock stopped =>
    refine ⟨.settings .timersStopped, prepare_of_new_eq_error ?_, rfl, rfl⟩
    simp [Machine.new, Settings.validate, stopped, (UInt32.ne_of_lt clock).symm, Except.map]
  | opening clock timers closed =>
    obtain ⟨m, built⟩ := new_eq_ok clock timers entropy
    refine ⟨.opening i.rom _, ?_, rfl, rfl⟩
    rw [Invocation.prepare, built, closed]
    rfl
  | reading clock timers found broken =>
    obtain ⟨m, built⟩ := new_eq_ok clock timers entropy
    refine ⟨.loading i.rom (.unreadable _), ?_, rfl, rfl⟩
    rw [found, prepare_of_new_eq_ok built, m.loadFrom_of_breaks broken]
  | @loading source rom clock timers found delivered large =>
    obtain ⟨m, built⟩ := new_eq_ok clock timers entropy
    refine ⟨.loading i.rom (.tooLarge rom.size), ?_, rfl, ?_⟩
    · rw [found, prepare_of_new_eq_ok built, m.loadFrom_of_delivers delivered,
        m.load_of_lt_size large]
    · exact congrArg (fun text ↦ [text]) (Machine.message_tooLarge rom.size)

theorem Stops.unique {top' : String} {causes' : List String}
    (stops : Stops i.settings i.rom opened top causes)
    (stops' : Stops i.settings i.rom opened top' causes') : top' = top ∧ causes' = causes := by
  have entropy := Seed.key 0
  obtain ⟨e, refused, rfl, rfl⟩ := prepare_of_stops entropy stops
  obtain ⟨e', refused', rfl, rfl⟩ := prepare_of_stops entropy stops'
  rw [refused] at refused'
  cases refused'
  exact ⟨rfl, rfl⟩

theorem prepare_of_ready (entropy : ChaCha.Key) (ready : Ready i.settings opened) :
    ∃ m, i.prepare entropy opened = .ok m := by
  obtain ⟨m, built⟩ := new_eq_ok ready.clock ready.timers entropy
  obtain ⟨source, rom, found, delivered, small⟩ := ready.rom
  obtain ⟨_, loaded⟩ := Memory.blank.exists_load_eq small
  refine ⟨(m.load rom).state, ?_⟩
  rw [found, prepare_of_new_eq_ok built, m.loadFrom_of_delivers delivered,
    m.load_of_load_blank loaded]

theorem Stops.prepare_ne_ok (entropy : ChaCha.Key)
    (stops : Stops i.settings i.rom opened top causes) :
    ¬ ∃ m, i.prepare entropy opened = .ok m := by
  intro prepared
  obtain ⟨m, prepared⟩ := prepared
  obtain ⟨e, refused, -, -⟩ := prepare_of_stops entropy stops
  rw [refused] at prepared
  cases prepared

theorem ready_iff : Ready i.settings opened ↔ ∃ m, i.prepare entropy opened = .ok m := by
  refine ⟨prepare_of_ready entropy, fun prepared ↦ ?_⟩
  refine (ready_or_stops i.settings i.rom opened).resolve_right fun stops ↦ ?_
  obtain ⟨top, causes, stops⟩ := stops
  exact stops.prepare_ne_ok entropy prepared

theorem not_ready_iff :
    ¬ Ready i.settings opened ↔ ∃ top causes, Stops i.settings i.rom opened top causes := by
  refine ⟨(ready_or_stops i.settings i.rom opened).resolve_left, fun stops ready ↦ ?_⟩
  obtain ⟨top, causes, stops⟩ := stops
  exact stops.prepare_ne_ok (Seed.key 0) (prepare_of_ready (Seed.key 0) ready)

theorem ready_openPath_iff (folder : Folder) {name : String} (names : Folder.Names name) :
    Ready settings (folder.openPath name) ↔
      0 < settings.clockSpeed ∧ 0 < settings.timerFrequency ∧
        ∃ rom, folder.files.lookup name = some rom ∧ rom.size ≤ 3584 := by
  rw [folder.openPath_of_names names]
  constructor
  · intro ready
    obtain ⟨source, rom, found, delivered, small⟩ := ready.rom
    refine ⟨ready.clock, ready.timers, rom, ?_, small⟩
    cases lookup : folder.files.lookup name with
    | none => simp [lookup] at found
    | some contents =>
      simp only [lookup, Except.ok.injEq] at found
      subst found
      rw [delivered.unique (Source.delivers_bytes contents)]
  · intro ready
    obtain ⟨clock, timers, rom, lookup, small⟩ := ready
    exact ⟨clock, timers, _, rom, by rw [lookup], Source.delivers_bytes rom, small⟩

variable {openPath : String → Except String Source} {arguments : List String}
  {screen : Except String (UInt32 → Machine → Report)}

theorem report_of_prepare_eq_error (parsed : Request.ofArguments arguments = .ok (.run i))
    {e : LaunchError} (refused : i.prepare entropy (openPath i.rom) = .error e) :
    Report.ofStart openPath entropy screen arguments = { code := 1, err := e.text } := by
  simp only [Report.ofStart, parsed, refused]

theorem report_of_noScreen {m : Machine} {reason : String}
    (parsed : Request.ofArguments arguments = .ok (.run i))
    (prepared : i.prepare entropy (openPath i.rom) = .ok m) :
    Report.ofStart openPath entropy (.error reason) arguments =
      { code := 1, err := "Error: " ++ reason ++ "\n" } := by
  have printed := text_eq_printed (.noScreen reason)
  simp only [Report.ofStart, parsed, prepared, printed]
  rfl

theorem report_of_play {m : Machine} {play : UInt32 → Machine → Report}
    (parsed : Request.ofArguments arguments = .ok (.run i))
    (prepared : i.prepare entropy (openPath i.rom) = .ok m) :
    Report.ofStart openPath entropy (.ok play) arguments = play i.scale m := by
  simp only [Report.ofStart, parsed, prepared]

/-- A start gets as far as the screen exactly if everything is right for it, and what is reported
then is what comes of the screen. Otherwise the first thing that is wrong is reported, whatever
else is wrong and whatever the scale, the seed and the screen are. -/
theorem report_of_stops (openPath : String → Except String Source)
    (parsed : Request.ofArguments arguments = .ok (.run i)) (entropy : ChaCha.Key)
    (screen : Except String (UInt32 → Machine → Report)) :
    let opened := openPath i.rom
    let report := Report.ofStart openPath entropy screen arguments
    ((∃ m, i.prepare entropy opened = .ok m) ↔ Ready i.settings opened) ∧
      (∀ m, i.prepare entropy opened = .ok m →
        (∀ reason, screen = .error reason →
          report = { code := 1, err := "Error: " ++ reason ++ "\n" }) ∧
        ∀ play, screen = .ok play → report = play i.scale m) ∧
      (¬ Ready i.settings opened ↔ ∃ top causes, Stops i.settings i.rom opened top causes) ∧
      ∀ top causes, Stops i.settings i.rom opened top causes →
        report = { code := 1, err := printed top causes } ∧
          ∀ top' causes', Stops i.settings i.rom opened top' causes' →
            top' = top ∧ causes' = causes := by
  intro opened report
  refine ⟨ready_iff.symm, fun m prepared ↦ ⟨?_, ?_⟩, not_ready_iff, fun top causes stops ↦ ⟨?_, ?_⟩⟩
  · rintro reason rfl
    exact report_of_noScreen parsed prepared
  · rintro play rfl
    exact report_of_play parsed prepared
  · obtain ⟨e, refused, rfl, rfl⟩ := prepare_of_stops entropy stops
    rw [← text_eq_printed]
    exact report_of_prepare_eq_error parsed refused
  · exact fun top' causes' stops' ↦ stops.unique stops'

/-- A folder that holds nothing but a game, which is too large. -/
def crowded (path : String) : Except String Source :=
  if path = "game.ch8" then .ok [.bytes (Array.replicate 3584 0), .interrupted, .bytes #[1]]
  else .error "No such file or directory (os error 2)"

def tidy : Folder where
  files := [("game.ch8", #[0x12, 0x00])]

theorem report_of_stops_crowded :
    (∀ screen, (Report.ofStart crowded (Seed.key 0) screen
        ["-c", "0", "--seed=7", "-t=0", "lost.ch8"]).err =
      "Error: invalid configuration: clock speed must be above 0Hz\n") ∧
      (Report.ofArguments crowded (Seed.key 0) ["game.ch8"]).err =
        printed "unable to load game.ch8"
          ["ROM is too large (3585 bytes), max size is 3584 bytes"] ∧
      (Report.ofStart tidy.openPath (Seed.key 0) (.error "no display") ["-s4", "game.ch8"]).err =
        "Error: no display\n" ∧
      ∃ m, ∀ play, Report.ofStart tidy.openPath (Seed.key 0) (.ok play) ["-s4", "game.ch8"] =
        play 4 m := by
  have idle : Request.ofArguments ["-c", "0", "--seed=7", "-t=0", "lost.ch8"] =
      .ok (.run ⟨"lost.ch8", ⟨0, 0, some 7⟩, 10⟩) := by decide +kernel
  have plain : Request.ofArguments ["game.ch8"] = .ok (.run ⟨"game.ch8", {}, 10⟩) := by
    decide +kernel
  have small : Request.ofArguments ["-s4", "game.ch8"] = .ok (.run ⟨"game.ch8", {}, 4⟩) := by
    decide +kernel
  refine ⟨fun screen ↦ ?_, ?_, ?_⟩
  · obtain ⟨-, -, -, first⟩ := report_of_stops crowded idle (Seed.key 0) screen
    exact congrArg Report.err (first _ _ (.clock rfl)).1
  · obtain ⟨-, -, -, first⟩ := report_of_stops crowded plain (Seed.key 0)
      (.error "SDL2 is not available")
    have full : 0 < (Array.replicate 3584 (0 : UInt8)).size := by
      rw [Array.size_replicate]
      decide
    have delivered : Source.Delivers
        [.bytes (Array.replicate 3584 0), .interrupted, .bytes #[1]]
        (Array.replicate 3584 0 ++ (#[1] ++ #[])) :=
      .piece (Array.size_pos_iff.mp full) (.interrupted (.piece (by decide) .exhausted))
    have size : (Array.replicate 3584 (0 : UInt8) ++ (#[1] ++ #[])).size = 3585 := by
      rw [Array.size_append, Array.size_replicate]
      rfl
    have large := first _ _ (.loading (by decide) (by decide) rfl delivered (by rw [size]; decide))
    rw [size] at large
    exact congrArg Report.err large.1
  · have reached (screen : Except String (UInt32 → Machine → Report)) :=
      report_of_stops tidy.openPath small (Seed.key 0) screen
    have ready : Ready {} (tidy.openPath "game.ch8") :=
      (ready_openPath_iff tidy ⟨by decide, by decide, by decide⟩).mpr
        ⟨by decide, by decide, _, rfl, by decide⟩
    obtain ⟨m, prepared⟩ := (reached (.error "no display")).1.mpr ready
    exact ⟨congrArg Report.err (((reached _).2.1 m prepared).1 _ rfl),
      m, fun play ↦ ((reached _).2.1 m prepared).2 play rfl⟩

end Launch

end Chip8
