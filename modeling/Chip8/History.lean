/-!
# History — a bounded record of the past

A history keeps the newest `capacity` of the values that were put into it.  `History.newestFirst` is
its contents as a list, and the operations are laws on that list: `push` puts a value in front and
forgets what no longer fits, `pop?` takes the front.
-/

namespace Chip8

/-- Values in the order in which they came, the newest at the end. -/
structure History (α : Type) where
  capacity : Nat
  entries : Array α

namespace History

variable {α : Type}

/-- A history without entries. -/
def empty (capacity : Nat) : History α := ⟨capacity, #[]⟩

/-- The number of entries. -/
def size (h : History α) : Nat := h.entries.size

/-- The entries as a list that starts with the newest. -/
def newestFirst (h : History α) : List α := h.entries.toList.reverse

/-- Add an entry, and forget the oldest ones that exceed the capacity then. -/
def push (h : History α) (a : α) : History α :=
  if h.capacity = 0 then h
  else if h.entries.size < h.capacity then { h with entries := h.entries.push a }
  else { h with entries := (h.entries.extract (h.entries.size + 1 - h.capacity)).push a }

/-- The newest entry and the history before it. -/
def pop? (h : History α) : Option (α × History α) :=
  match h.entries.back? with
  | none => none
  | some a => some (a, { h with entries := h.entries.pop })

/-- Forget every entry. -/
def clear (h : History α) : History α := empty h.capacity

@[simp] theorem newestFirst_empty (capacity : Nat) :
    (empty capacity : History α).newestFirst = [] := rfl

@[simp] theorem length_newestFirst (h : History α) : h.newestFirst.length = h.size := by
  simp [newestFirst, size]

@[simp] theorem capacity_push (h : History α) (a : α) : (h.push a).capacity = h.capacity := by
  unfold push
  split
  · rfl
  · split <;> rfl

theorem push_of_capacity_eq_zero {h : History α} (hc : h.capacity = 0) (a : α) :
    h.push a = h := by
  simp [push, hc]

/-- A history that records at all holds the newest entries of what it held and the new one. -/
theorem newestFirst_push {h : History α} (hc : h.capacity ≠ 0) (a : α) :
    (h.push a).newestFirst = (a :: h.newestFirst).take h.capacity := by
  obtain ⟨capacity, entries⟩ := h
  have hc : capacity ≠ 0 := hc
  unfold push
  split
  · contradiction
  · split
    · rename_i room
      have room : entries.size < capacity := room
      simp only [newestFirst, Array.toList_push, List.reverse_append, List.reverse_cons,
        List.reverse_nil, List.nil_append, List.singleton_append]
      rw [List.take_of_length_le]
      simp
      omega
    · rename_i full
      have full : ¬ entries.size < capacity := full
      obtain ⟨k, rfl⟩ := Nat.exists_eq_succ_of_ne_zero hc
      simp only [newestFirst, Array.toList_push, List.reverse_append, List.reverse_cons,
        List.reverse_nil, List.nil_append, List.singleton_append, List.take_succ_cons,
        Array.toList_extract, List.extract_eq_take_drop]
      rw [List.take_reverse]
      congr 2
      rw [List.take_of_length_le (by simp)]
      congr 1
      simp only [Array.length_toList]
      omega

/-- The newest entry is the one that comes back. -/
theorem pop?_eq_some_iff {h k : History α} {a : α} :
    h.pop? = some (a, k) ↔ h.capacity = k.capacity ∧ h.newestFirst = a :: k.newestFirst := by
  obtain ⟨capacity, ⟨entries⟩⟩ := h
  obtain ⟨capacity', ⟨entries'⟩⟩ := k
  rcases List.eq_nil_or_concat entries with rfl | ⟨front, last, rfl⟩
  · simp [pop?, newestFirst]
  · simp [pop?, newestFirst, and_left_comm]

theorem pop?_eq_none_iff_empty {h : History α} : h.pop? = none ↔ h.newestFirst = [] := by
  obtain ⟨capacity, ⟨entries⟩⟩ := h
  rcases List.eq_nil_or_concat entries with rfl | ⟨front, last, rfl⟩
  · simp [pop?, newestFirst]
  · simp [pop?, newestFirst]

end History
end Chip8
