import Chip8.CallStack
import Chip8.Outcome
import Mathlib.Data.List.Induction

namespace Chip8.CallStack

inductive Operation
  | push (address : UInt16)
  | pop
  | clear

/-- An address only where a pop succeeds. -/
abbrev Answer := Except StackError (Option UInt16)

def Operation.apply : Operation → CallStack → Outcome CallStack Answer
  | .push address, s =>
    match s.push address with
    | .ok t => ⟨t, .ok none, []⟩
    | .error e => ⟨s, .error e, []⟩
  | .pop, s =>
    match s.pop with
    | .ok (address, t) => ⟨t, .ok (some address), []⟩
    | .error e => ⟨s, .error e, []⟩
  | .clear, _ => ⟨empty, .ok none, []⟩

/-- The same on a list of up to sixteen addresses, the one pushed last at its end. -/
def Operation.applyList : Operation → List UInt16 → Outcome (List UInt16) Answer
  | .push address, l =>
    if l.length < 16 then ⟨l ++ [address], .ok none, []⟩ else ⟨l, .error .overflow, []⟩
  | .pop, l =>
    match l.getLast? with
    | some address => ⟨l.dropLast, .ok (some address), []⟩
    | none => ⟨l, .error .underflow, []⟩
  | .clear, _ => ⟨[], .ok none, []⟩

/-- The answers to operations done one after another, each with the depth that is left then. -/
def replies {σ : Type} (apply : Operation → σ → Outcome σ Answer) (depth : σ → Nat) :
    σ → List Operation → List (Answer × Nat)
  | _, [] => []
  | s, o :: os =>
    ((apply o s).answer, depth (apply o s).state) :: replies apply depth (apply o s).state os

def told (s : CallStack) (os : List Operation) : List (Answer × Nat) :=
  replies Operation.apply depth s os

def driven (s : CallStack) (os : List Operation) : CallStack :=
  os.foldl (fun s o ↦ (o.apply s).state) s

/-- The address `a`, pushed after `before`, stays on the stack all through `between`. -/
def Stands (before : List Operation) (a : UInt16) (between : List Operation) : Prop :=
  ∀ done, done <+: between →
    (empty.driven before).depth < (empty.driven (before ++ .push a :: done)).depth

variable {s t : CallStack} {o : Operation} {os before between : List Operation}
  {l saved : List UInt16} {a : UInt16} {e : StackError}

theorem driven_append (s : CallStack) (os os' : List Operation) :
    s.driven (os ++ os') = (s.driven os).driven os' :=
  List.foldl_append

theorem driven_concat (s : CallStack) (os : List Operation) (o : Operation) :
    s.driven (os ++ [o]) = (o.apply (s.driven os)).state :=
  s.driven_append os [o]

theorem told_append (s : CallStack) (os os' : List Operation) :
    s.told (os ++ os') = s.told os ++ (s.driven os).told os' := by
  induction os generalizing s with
  | nil => rfl
  | cons o os ih => exact congrArg (_ :: ·) (ih (o.apply s).state)

theorem applyList_toList (o : Operation) (s : CallStack) :
    o.applyList s.toList = (o.apply s).map toList := by
  cases o with
  | push address =>
    simp only [Operation.applyList, Operation.apply, length_toList]
    cases pushed : s.push address with
    | error e =>
      obtain ⟨full, rfl⟩ := push_eq_error_iff.mp pushed
      rw [if_neg (by omega)]
      rfl
    | ok t =>
      have grown := toList_of_push pushed
      have room : s.depth < 16 := by
        have depth := congrArg List.length grown
        simp only [length_toList, List.length_append, List.length_singleton] at depth
        have le := t.depth_le
        omega
      rw [if_pos room, ← grown]
      rfl
  | pop =>
    simp only [Operation.applyList, Operation.apply]
    cases popped : s.pop with
    | error e =>
      obtain ⟨none, rfl⟩ := pop_eq_error_iff.mp popped
      have nil : s.toList = [] := List.length_eq_zero_iff.mp (s.length_toList.trans none)
      simp [nil, Outcome.map]
    | ok r =>
      obtain ⟨address, t⟩ := r
      have shrunk := toList_of_pop popped
      simp [shrunk, Outcome.map]
  | clear => rfl

theorem toList_apply (o : Operation) (s : CallStack) :
    (o.apply s).state.toList = (o.applyList s.toList).state := by
  rw [applyList_toList]
  rfl

theorem replies_toList (s : CallStack) (os : List Operation) :
    replies Operation.applyList List.length s.toList os = s.told os := by
  induction os generalizing s with
  | nil => rfl
  | cons o os ih =>
    simp only [replies, told, applyList_toList, Outcome.map, length_toList]
    rw [ih]
    rfl

theorem state_of_error (refused : (o.apply s).answer = .error e) : (o.apply s).state = s := by
  cases o with
  | push address =>
    simp only [Operation.apply] at refused ⊢
    cases pushed : s.push address with
    | error e => rfl
    | ok t => simp [pushed] at refused
  | pop =>
    simp only [Operation.apply] at refused ⊢
    cases popped : s.pop with
    | error e => rfl
    | ok r => simp [popped] at refused
  | clear => cases refused

theorem answer_pop_iff : (Operation.pop.apply s).answer = .ok (some a) ↔
    ∃ saved, s.toList = saved ++ [a] := by
  have same := congrArg Outcome.answer (applyList_toList .pop s)
  rw [Outcome.map] at same
  rw [← same, Operation.applyList, ← List.getLast?_eq_some_iff]
  cases s.toList.getLast? <;> simp

theorem pushes_or_shortens (o : Operation) (l : List UInt16) :
    (∃ a, o = .push a ∧ (o.applyList l).state = l ++ [a]) ∨ (o.applyList l).state <+: l := by
  cases o with
  | push address =>
    rw [Operation.applyList]
    split
    · exact .inl ⟨address, rfl, rfl⟩
    · exact .inr (List.prefix_refl l)
  | pop =>
    rw [Operation.applyList]
    split
    · exact .inr (List.dropLast_prefix l)
    · exact .inr (List.prefix_refl l)
  | clear => exact .inr List.nil_prefix

theorem prefix_apply (inside : saved ++ [a] <+: s.toList)
    (high : saved.length < (o.apply s).state.depth) :
    saved ++ [a] <+: (o.apply s).state.toList := by
  rw [← length_toList, toList_apply] at high
  rw [toList_apply]
  obtain ⟨b, rfl, pushed⟩ | shorter := pushes_or_shortens o s.toList
  · rw [pushed]
    exact inside.trans (List.prefix_append _ _)
  · refine List.prefix_of_prefix_length_le inside shorter ?_
    rwa [List.length_append, List.length_singleton]

theorem prefix_of_stands (stands : Stands before a between) :
    (empty.driven before).toList ++ [a] <+:
      (empty.driven (before ++ .push a :: between)).toList := by
  induction between using List.reverseRecOn with
  | nil =>
    have high := stands [] List.nil_prefix
    rw [driven_concat, ← length_toList, ← length_toList, toList_apply] at high
    rw [driven_concat, toList_apply]
    obtain ⟨b, same, pushed⟩ | shorter :=
      pushes_or_shortens (.push a) (empty.driven before).toList
    · cases same
      exact pushed ▸ List.prefix_refl _
    · exact absurd shorter.length_le (Nat.not_le.mpr high)
  | append_singleton between o ih =>
    have inside := ih fun done h ↦ stands done (h.trans (List.prefix_append _ _))
    have high := stands _ (List.prefix_refl _)
    rw [← List.cons_append, ← List.append_assoc, driven_concat] at high ⊢
    refine prefix_apply inside ?_
    rwa [length_toList]

/-- Whatever is on the stack was pushed once and has stood there since. -/
theorem exists_stands (inside : saved ++ [a] <+: (empty.driven os).toList) :
    ∃ before between, os = before ++ .push a :: between ∧
      (empty.driven before).toList = saved ∧ Stands before a between := by
  induction os using List.reverseRecOn with
  | nil =>
    have long := inside.length_le
    simp [driven] at long
  | append_singleton os o ih =>
    have size := inside.length_le
    rw [driven_concat, toList_apply] at inside
    by_cases earlier : saved ++ [a] <+: (empty.driven os).toList
    · obtain ⟨before, between, rfl, below, stands⟩ := ih earlier
      refine ⟨before, between ++ [o], by simp, below, fun done h ↦ ?_⟩
      obtain rfl | h := List.prefix_concat_iff.mp h
      · rw [← below, List.length_append, List.length_singleton, length_toList, length_toList,
          List.append_assoc, List.cons_append] at size
        exact size
      · exact stands done h
    · obtain ⟨b, rfl, pushed⟩ | shorter := pushes_or_shortens o (empty.driven os).toList
      · rw [pushed] at inside
        obtain same | inside := List.prefix_concat_iff.mp inside
        · obtain ⟨rfl, rfl⟩ := List.append_singleton_inj.mp same
          refine ⟨os, [], rfl, rfl, fun done h ↦ ?_⟩
          obtain rfl := List.prefix_nil.mp h
          rw [← length_toList, ← length_toList, driven_concat, toList_apply, pushed]
          simp
        · exact absurd inside earlier
      · exact absurd (inside.trans shorter) earlier

theorem depth_of_pop (popped : (Operation.pop.apply s).answer = .ok (some a)) :
    (Operation.pop.apply s).state.depth = s.depth - 1 := by
  obtain ⟨saved, top⟩ := answer_pop_iff.mp popped
  rw [← length_toList, toList_apply, ← length_toList s, top]
  simp [Operation.applyList]

theorem answer_pop_driven_iff : (Operation.pop.apply (empty.driven os)).answer = .ok (some a) ↔
    ∃ before between, os = before ++ .push a :: between ∧ Stands before a between ∧
      (empty.driven os).depth = (empty.driven before).depth + 1 := by
  rw [answer_pop_iff]
  constructor
  · rintro ⟨saved, top⟩
    have inside : saved ++ [a] <+: (empty.driven os).toList := ⟨[], by rw [List.append_nil, top]⟩
    obtain ⟨before, between, same, rfl, stands⟩ := exists_stands inside
    refine ⟨before, between, same, stands, ?_⟩
    rw [← length_toList, top, List.length_append, List.length_singleton, length_toList]
  · rintro ⟨before, between, rfl, stands, depth⟩
    have inside := prefix_of_stands stands
    refine ⟨(empty.driven before).toList, (inside.eq_of_length ?_).symm⟩
    rw [List.length_append, List.length_singleton, length_toList, length_toList, depth]

/-- A call stack cannot be told from a list of up to sixteen addresses. What it refuses to do makes
no difference to what comes later, nor do its dead slots, and a pop answers the youngest address
that has not been taken off since it was pushed; from then on that one stands no longer. -/
theorem told_eq_replies (os : List Operation) :
    let s := empty.driven os
    empty.told os = replies Operation.applyList List.length [] os ∧
      (∀ o e, (o.apply s).answer = .error e → ∀ later,
        empty.told (os ++ o :: later) = empty.told os ++ (.error e, s.depth) :: s.told later ∧
          empty.told (os ++ later) = empty.told os ++ s.told later) ∧
      (∀ t : CallStack, t.toList = s.toList → ∀ later, t.told later = s.told later) ∧
      (∀ a, (Operation.pop.apply s).answer = .ok (some a) ↔
        ∃ before between, os = before ++ .push a :: between ∧ Stands before a between ∧
          s.depth = (empty.driven before).depth + 1) ∧
      ∀ before a between, os = before ++ .push a :: between → Stands before a between →
        s.depth = (empty.driven before).depth + 1 →
        ∀ later, ¬ Stands before a (between ++ .pop :: later) := by
  intro s
  refine ⟨?_, fun o e refused later ↦ ⟨?_, told_append _ _ _⟩, fun t same later ↦ ?_,
    fun a ↦ answer_pop_driven_iff, ?_⟩
  · rw [← replies_toList, toList_empty]
  · have kept := state_of_error refused
    rw [told_append]
    refine congrArg (empty.told os ++ ·) ?_
    rw [told, replies, refused, kept]
    rfl
  · rw [← replies_toList, ← replies_toList, same]
  · rintro before a between rfl stands depth later again
    have popped := answer_pop_driven_iff.mpr ⟨before, between, rfl, stands, depth⟩
    have low := depth_of_pop popped
    have lowest : (empty.driven (before ++ .push a :: between)).depth - 1 =
        (empty.driven before).depth := Nat.sub_eq_of_eq_add depth
    have high := again (between ++ [.pop]) (by simp)
    rw [← List.cons_append, ← List.append_assoc, driven_concat, low, lowest] at high
    exact Nat.lt_irrefl _ high

/-- Two addresses are pushed and taken off again, one more pop is refused, and a third address is
pushed into the slot where the first one still lies. -/
def recycled : List Operation :=
  [.push 0x202, .push 0x204, .pop, .pop, .pop, .push 0x206]

theorem told_eq_replies_recycled :
    empty.told recycled =
        [(.ok none, 1), (.ok none, 2), (.ok (some 0x204), 1), (.ok (some 0x202), 0),
          (.error .underflow, 0), (.ok none, 1)] ∧
      empty.told (recycled.take 4 ++ .pop :: [.push 0x206, .pop]) =
        empty.told (recycled.take 4) ++ (.error .underflow, 0) ::
          [(.ok none, 1), (.ok (some 0x206), 0)] ∧
      (⟨Vector.replicate 16 0x206, 1, by decide⟩ : CallStack).told [.pop, .pop] =
        (empty.driven recycled).told [.pop, .pop] ∧
      (Operation.pop.apply (empty.driven recycled)).answer = .ok (some 0x206) ∧
      ¬ Stands (recycled.take 5) 0x206 [.pop, .push 0x208] := by
  obtain ⟨list, -, dead, pops, gone⟩ := told_eq_replies recycled
  obtain ⟨-, refuses, -, -, -⟩ := told_eq_replies (recycled.take 4)
  have stands : Stands (recycled.take 5) 0x206 [] := by
    intro done h
    obtain rfl := List.prefix_nil.mp h
    decide
  exact ⟨list, (refuses .pop .underflow rfl [.push 0x206, .pop]).1,
    dead ⟨Vector.replicate 16 0x206, 1, by decide⟩ rfl _,
    (pops 0x206).mpr ⟨recycled.take 5, [], rfl, stands, rfl⟩,
    gone (recycled.take 5) 0x206 [] rfl stands rfl [.push 0x208]⟩

end Chip8.CallStack
