import Chip8.Fault

namespace Chip8

inductive StackError
  | overflow
  | underflow
deriving DecidableEq

def StackError.fault (address : UInt16) : StackError → Fault
  | .overflow => .stackOverflow address
  | .underflow => .stackUnderflow address

/-- A popped frame stays in its slot until a push overwrites it, so what is on the stack is the
first `depth` frames only. -/
structure CallStack where
  frames : Vector UInt16 16
  depth : Nat
  depth_le : depth ≤ 16
deriving DecidableEq

namespace CallStack

def empty : CallStack :=
  ⟨Vector.replicate 16 0, 0, by decide⟩

/-- The saved addresses, oldest first. -/
def toList (s : CallStack) : List UInt16 :=
  s.frames.toList.take s.depth

def push (s : CallStack) (address : UInt16) : Except StackError CallStack :=
  if h : s.depth < 16 then .ok ⟨s.frames.set s.depth address, s.depth + 1, h⟩
  else .error .overflow

def pop (s : CallStack) : Except StackError (UInt16 × CallStack) :=
  match s with
  | ⟨_, 0, _⟩ => .error .underflow
  | ⟨frames, depth + 1, h⟩ => .ok (frames[depth], ⟨frames, depth, Nat.le_of_succ_le h⟩)

@[simp] theorem toList_empty : empty.toList = [] :=
  rfl

@[simp] theorem length_toList (s : CallStack) : s.toList.length = s.depth := by
  simp [toList, s.depth_le]

theorem toList_of_push {s t : CallStack} {address : UInt16} (h : s.push address = .ok t) :
    t.toList = s.toList ++ [address] := by
  simp only [push] at h
  split at h
  · cases h
    have kept : (s.toList).set s.depth address = s.toList :=
      List.set_eq_of_length_le (by simp)
    simp_all [toList, List.take_add_one, Vector.toList_set, List.take_set]
  · cases h

theorem toList_of_pop {s t : CallStack} {address : UInt16} (h : s.pop = .ok (address, t)) :
    s.toList = t.toList ++ [address] := by
  match s with
  | ⟨_, 0, _⟩ => cases h
  | ⟨frames, depth + 1, _⟩ =>
    cases h
    simp [toList, List.take_add_one]

theorem push_eq_error_iff {s : CallStack} {a : UInt16} {e : StackError} :
    s.push a = .error e ↔ s.depth = 16 ∧ e = .overflow := by
  have h := s.depth_le
  simp only [push]
  split
  · simp only [reduceCtorEq, false_iff]
    omega
  · simp only [Except.error.injEq, eq_comm, iff_and_self]
    omega

theorem pop_eq_error_iff {s : CallStack} {e : StackError} :
    s.pop = .error e ↔ s.depth = 0 ∧ e = .underflow := by
  match s with
  | ⟨_, 0, _⟩ => simp [pop, eq_comm]
  | ⟨_, _ + 1, _⟩ => simp [pop]

end CallStack

end Chip8
