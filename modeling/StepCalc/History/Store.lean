import StepCalc.History.Snapshot

/-!
# Histories

A history keeps snapshots in order as long as they fit into a memory limit. A
snapshot that does not fit is refused and changes nothing.
-/

namespace StepCalc

structure History where
  snapshots : Array Snapshot
  used : Nat
  limit : Nat

/-- A snapshot of `size` bytes did not fit beside the `used` ones. -/
structure Overflow where
  used : Nat
  size : Nat
  limit : Nat
  deriving DecidableEq, Repr

def Overflow.message (o : Overflow) : String :=
  s!"Snapshot memory limit exceeded: {o.used} + {o.size} > {o.limit}"

namespace History

def empty (limit : Nat) : History := ⟨#[], 0, limit⟩

def length (h : History) : Nat :=
  h.snapshots.size

def get? (h : History) (i : Nat) : Option Snapshot :=
  h.snapshots[i]?

/-- The snapshots up to and including number `i`. -/
def upTo (h : History) (i : Nat) : List Snapshot :=
  h.snapshots.toList.take (i + 1)

def push (h : History) (s : Snapshot) : Except Overflow History :=
  if h.used + s.size ≤ h.limit then
    .ok { h with snapshots := h.snapshots.push s, used := h.used + s.size }
  else .error ⟨h.used, s.size, h.limit⟩

/-- Keeps snapshots up to the first that does not fit. -/
def keep (h : History) : List Snapshot → History × Option Overflow
  | [] => (h, none)
  | s :: rest =>
    match h.push s with
    | .ok h => h.keep rest
    | .error o => (h, some o)

theorem push_eq_ok_iff {h h' : History} {s : Snapshot} :
    h.push s = .ok h' ↔ h.used + s.size ≤ h.limit ∧
      h' = { h with snapshots := h.snapshots.push s, used := h.used + s.size } := by
  by_cases hs : h.used + s.size ≤ h.limit <;> simp [push, hs, eq_comm]

theorem push_eq_error_iff {h : History} {s : Snapshot} {o : Overflow} :
    h.push s = .error o ↔ h.limit < h.used + s.size ∧ o = ⟨h.used, s.size, h.limit⟩ := by
  by_cases hs : h.used + s.size ≤ h.limit
  · simp [push, hs, Nat.not_lt.2 hs]
  · simp [push, hs, Nat.not_le.1 hs, eq_comm]

@[simp] theorem upTo_empty (limit i : Nat) : (empty limit).upTo i = [] := by
  simp [upTo, empty]

theorem get?_eq_none_iff {h : History} {i : Nat} : h.get? i = none ↔ h.length ≤ i := by
  simp [get?, length]

end History

end StepCalc
