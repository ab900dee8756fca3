/-!
# Call stack

Twelve cells for return addresses and a depth.  Returning lowers the depth and leaves the cell as it
is, so two stacks of the same depth can differ in the cells above it.
-/

namespace Chip8

/-- Return addresses, of which the first `depth` are in use. -/
structure CallStack where
  cells : Vector UInt16 12
  depth : Nat
  deriving DecidableEq

namespace CallStack

/-- The number of calls that can be open at a time. -/
def capacity : Nat := 12

/-- Nothing is on the stack and every cell is zero. -/
def empty : CallStack := ⟨Vector.replicate 12 0, 0⟩

/-- The addresses in use, oldest first. -/
def toList (s : CallStack) : List UInt16 := s.cells.toList.take s.depth

/-- Open a call, unless every cell is in use. -/
def push? (s : CallStack) (address : UInt16) : Option CallStack :=
  if h : s.depth < 12 then some ⟨s.cells.set s.depth address h, s.depth + 1⟩ else none

/-- Close the newest call, if one is open. -/
def pop? (s : CallStack) : Option (UInt16 × CallStack) :=
  match s.depth with
  | 0 => none
  | depth + 1 => some (s.cells[depth]?.getD 0, ⟨s.cells, depth⟩)

theorem push?_eq_none_iff (s : CallStack) (address : UInt16) :
    s.push? address = none ↔ capacity ≤ s.depth := by
  unfold push? capacity
  split <;> simp <;> omega

theorem pop?_eq_none_iff (s : CallStack) : s.pop? = none ↔ s.depth = 0 := by
  unfold pop?
  split <;> simp_all

theorem push?_eq_some_iff {s t : CallStack} {address : UInt16} :
    s.push? address = some t ↔
      ∃ h : s.depth < 12, t = ⟨s.cells.set s.depth address h, s.depth + 1⟩ := by
  unfold push?
  split <;> simp [*, eq_comm]

theorem pop?_eq_some_iff {s t : CallStack} {address : UInt16} :
    s.pop? = some (address, t) ↔
      s.depth = t.depth + 1 ∧ t.cells = s.cells ∧ address = s.cells[t.depth]?.getD 0 := by
  obtain ⟨cells, depth⟩ := s
  obtain ⟨cells', depth'⟩ := t
  cases depth with
  | zero => simp [pop?]
  | succ depth =>
    simp only [pop?, Option.some.injEq, Prod.mk.injEq, mk.injEq, Nat.succ.injEq]
    constructor
    · rintro ⟨rfl, rfl, rfl⟩
      exact ⟨rfl, rfl, rfl⟩
    · rintro ⟨rfl, rfl, rfl⟩
      exact ⟨rfl, rfl, rfl⟩

/-- What is pushed is popped, and lies under the depth it was pushed at. -/
theorem pop?_of_push? {s t : CallStack} {address : UInt16} (h : s.push? address = some t) :
    t.pop? = some (address, ⟨t.cells, s.depth⟩) := by
  unfold push? at h
  split at h
  · obtain rfl := Option.some.inj h
    simp [pop?, *]
  · simp at h

end CallStack
end Chip8
