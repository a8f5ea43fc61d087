import Chip8.Proofs.Machine.Reachable
import Mathlib.Data.List.Induction

namespace Chip8.Processor

def Operation.frame? (p : Processor) : Operation → Option Frame
  | .takeFrame => p.screen.takeFrame.2
  | _ => none

def Operation.takes : Operation → Bool
  | .takeFrame => true
  | _ => false

def Operation.Redraws (p : Processor) : Operation → Prop
  | .step => p.Executes .clear ∨ ∃ x y n, p.Executes (.draw x y n)
  | .draw .. | .clear | .reset => True
  | _ => False

/-- What a host shows that starts with `picture` and replaces it by each frame that it is given. -/
def shown (picture : Frame) : List Operation → Processor → Frame
  | [], _ => picture
  | o :: os, p => shown ((o.frame? p).getD picture) os (o.apply p)

/-- What has been done since a frame was last asked for, or since the beginning. -/
def recent (os : List Operation) (p : Processor) : List (Processor × Operation) :=
  (trace os p).reverse.takeWhile fun e ↦ !e.2.takes

structure Viewed (p : Processor) (os : List Operation) : Prop where
  taken : ∀ done, os = done ++ [.takeFrame] → shown .blank os p = (p.driven os).screen.frame
  clean : (p.driven os).screen.dirty = false → shown .blank os p = (p.driven os).screen.frame
  none_iff : (p.driven os).screen.takeFrame.2 = none ↔ ∀ e ∈ recent os p, ¬ e.2.Redraws e.1

variable {p : Processor} {o : Operation} {os : List Operation} {picture : Frame}

theorem shown_concat : shown picture (os ++ [o]) p =
    (o.frame? (p.driven os)).getD (shown picture os p) := by
  induction os generalizing p picture with
  | nil => rfl
  | cons o' os ih => exact ih

theorem recent_concat : recent (os ++ [o]) p =
    if o.takes then [] else (p.driven os, o) :: recent os p := by
  rw [recent, trace_concat, List.reverse_append, List.reverse_singleton, List.singleton_append,
    List.takeWhile_cons]
  cases o.takes <;> rfl

theorem screen_step (still : ¬ Operation.step.Redraws p) : p.step.state.screen = p.screen := by
  obtain ⟨ins, executes⟩ | idles := p.executes_or_idles
  · refine executes.spares.screen ?_ ?_
    · rintro rfl
      exact still (.inl executes)
    · rintro x y n rfl
      exact still (.inr ⟨x, y, n, executes⟩)
  · exact idles.screen

theorem screen_apply (still : ¬ o.Redraws p) (keeps : o.takes = false) :
    (o.apply p).screen = p.screen := by
  cases o with
  | step => exact screen_step still
  | load rom =>
    simp only [Operation.apply, load]
    cases p.memory.load rom <;> rfl
  | takeFrame => cases keeps
  | draw | clear | reset => exact absurd trivial still
  | _ => rfl

theorem dirty_apply (redraws : o.Redraws p) : (o.apply p).screen.dirty = true := by
  cases o with
  | step =>
    rcases redraws with clear | ⟨x, y, n, draw⟩
    · rw [Operation.apply, ← Except.ok.inj clear.execute_eq]
      rfl
    · rw [Operation.apply, ← Except.ok.inj draw.execute_eq]
  | draw | clear | reset => rfl
  | _ => exact absurd redraws not_false

theorem takeFrame_eq_none_iff {s : Screen} : s.takeFrame.2 = none ↔ s.dirty = false := by
  rw [Screen.takeFrame]
  split
  case isTrue h => simp [h]
  case isFalse h => simpa using h

theorem takeFrame_eq (s : Screen) :
    s.takeFrame = (⟨s.frame, false⟩, if s.dirty then some s.frame else none) := by
  obtain ⟨frame, dirty⟩ := s
  cases dirty <;> rfl

theorem dirty_driven (blank : p.screen = .blank) (os : List Operation) :
    ((p.driven os).screen.dirty = false ↔ ∀ e ∈ recent os p, ¬ e.2.Redraws e.1) ∧
      ((p.driven os).screen.dirty = false →
        shown .blank os p = (p.driven os).screen.frame) := by
  induction os using List.reverseRecOn with
  | nil =>
    have start : (p.driven []).screen = .blank := blank
    rw [start]
    exact ⟨by simp [Screen.blank, recent, trace], fun _ ↦ rfl⟩
  | append_singleton os o ih =>
    obtain ⟨dirty, same⟩ := ih
    rw [driven_concat, recent_concat, shown_concat]
    cases takes : o.takes with
    | true =>
      obtain rfl : o = .takeFrame := by cases o <;> first | rfl | cases takes
      simp only [Operation.apply, Operation.frame?, takeFrame_eq]
      refine ⟨by simp, fun _ ↦ ?_⟩
      cases h : (p.driven os).screen.dirty with
      | true => rfl
      | false => exact same h
    | false =>
      have frame : o.frame? (p.driven os) = none := by cases o <;> first | rfl | cases takes
      simp only [Bool.false_eq_true, if_false, List.forall_mem_cons, frame, Option.getD_none]
      by_cases redraws : o.Redraws (p.driven os)
      · rw [dirty_apply redraws]
        refine ⟨by simp [redraws], fun clean ↦ ?_⟩
        cases clean
      · rw [screen_apply redraws takes]
        exact ⟨by simp [redraws, dirty], same⟩

theorem viewed_of_blank (blank : p.screen = .blank) (os : List Operation) : p.Viewed os := by
  obtain ⟨dirty, same⟩ := dirty_driven blank os
  refine ⟨?_, same, takeFrame_eq_none_iff.trans dirty⟩
  rintro done rfl
  refine same ?_
  rw [driven_concat, Operation.apply, takeFrame_eq]

end Chip8.Processor

namespace Chip8.Machine

/-- What a host shows is the frame of the screen whenever it has just asked for one or has nothing
to ask for, and it is refused a frame exactly if nothing was drawn since it last asked. -/
theorem viewed_driven (settings : Settings) (entropy : ChaCha.Key) :
    (∀ os, (Processor.new settings entropy).Viewed os) ∧
      ∀ m, Machine.new settings entropy = .ok m → ∀ os,
        (m.driven os).processor = m.processor.driven (parts os m) ∧
          (m.driven os).takeFrame.2 = (m.processor.driven (parts os m)).screen.takeFrame.2 ∧
          ∀ done, done <+: parts os m → m.processor.Viewed done := by
  refine ⟨Processor.viewed_of_blank rfl, fun m built os ↦ ?_⟩
  have same := m.processor_driven os
  refine ⟨same, congrArg (fun p ↦ p.screen.takeFrame.2) same, fun done _ ↦ ?_⟩
  have blank : m.processor.screen = .blank := by rw [eq_of_new built]; rfl
  exact Processor.viewed_of_blank blank done

def flash : List Operation :=
  [.load #[0xD0, 0x05, 0x00, 0xE0, 0x12, 0x04], .takeFrame, .advance .second, .takeFrame, .step]

theorem viewed_driven_flash :
    (Processor.new .standard (Seed.key 0)).Viewed [.draw 62 30 [0xFF], .takeFrame, .takeFrame] ∧
      ∀ done, done <+: parts flash
          { processor := .new .standard (Seed.key 0), clock := { frequency := 500 } } →
        (Processor.new .standard (Seed.key 0)).Viewed done := by
  obtain ⟨alone, inside⟩ := viewed_driven .standard (Seed.key 0)
  obtain ⟨-, -, viewed⟩ := inside _ rfl flash
  exact ⟨alone _, viewed⟩

end Chip8.Machine
