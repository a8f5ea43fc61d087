namespace Chip8

inductive Panic
  | outOfBounds (index length : Nat)
  | overflow
deriving DecidableEq

/-- A result, unless the computation panics. -/
abbrev Checked := Except Panic

namespace Checked

variable {α : Type} {n k : Nat}

def get (xs : Vector α n) (k : Nat) : Checked α :=
  if h : k < n then .ok xs[k] else .error (.outOfBounds k n)

def set (xs : Vector α n) (k : Nat) (x : α) : Checked (Vector α n) :=
  if h : k < n then .ok (xs.set k x) else .error (.outOfBounds k n)

def add (a b : UInt16) : Checked UInt16 :=
  if a.toNat + b.toNat < UInt16.size then .ok (a + b) else .error .overflow

def mul (a b : UInt16) : Checked UInt16 :=
  if a.toNat * b.toNat < UInt16.size then .ok (a * b) else .error .overflow

def succ (n : Nat) : Checked Nat :=
  if n + 1 < UInt32.size then .ok (n + 1) else .error .overflow

def pred (n : Nat) : Checked Nat :=
  if 0 < n then .ok (n - 1) else .error .overflow

def bit (k : UInt8) : Checked (BitVec 16) :=
  if k.toNat < 16 then .ok (1#16 <<< k.toNat) else .error .overflow

/-- The first `k` of the indices below `n`. -/
def indices (n k : Nat) : Checked (List Nat) :=
  if k ≤ n then .ok (List.range k) else .error (.outOfBounds k n)

theorem get_eq (xs : Vector α n) (h : k < n) : get xs k = .ok xs[k] :=
  dif_pos h

theorem set_eq (xs : Vector α n) (h : k < n) (x : α) : set xs k x = .ok (xs.set k x) :=
  dif_pos h

theorem add_eq {a b : UInt16} (h : a.toNat + b.toNat < 65536) : add a b = .ok (a + b) :=
  if_pos h

theorem mul_eq {a b : UInt16} (h : a.toNat * b.toNat < 65536) : mul a b = .ok (a * b) :=
  if_pos h

theorem succ_eq (h : n < 16) : succ n = .ok (n + 1) := by
  rw [succ, if_pos]
  simp only [UInt32.size]
  omega

theorem pred_eq (h : 0 < n) : pred n = .ok (n - 1) :=
  if_pos h

theorem bit_eq {k : UInt8} (h : k.toNat < 16) : bit k = .ok (BitVec.twoPow 16 k.toNat) :=
  if_pos h

theorem indices_eq (h : k ≤ n) : indices n k = .ok (List.range k) :=
  if_pos h

theorem ok_bind {β : Type} (a : α) (f : α → Checked β) : (Except.ok a >>= f) = f a :=
  rfl

theorem pure_eq (a : α) : (pure a : Checked α) = .ok a :=
  rfl

end Checked

end Chip8
