import Chip8.Proofs.Playback

/-!
# Key scripts — a table of last changes

The key changes of a plan are made one after the other, so before a frame only the last change of each
key counts (`RunPlan.isDown_applyKeys`).  Two plans that differ only in their key changes play alike
if for each frame that is executed, and for each key, the last changes agree (`RunPlan.play_of_table`).
That is so if the changes are rearranged without passing changes of the same key before the same frame,
and if they differ only in changes for frames that are never executed.
-/

namespace Chip8

theorem Keypad.eq_of_isDown {k k' : Keypad} (h : ∀ key, k.isDown key = k'.isDown key) : k = k' := by
  rcases k with ⟨down⟩
  rcases k' with ⟨down'⟩
  congr 1
  ext i hi
  exact h ⟨i, hi⟩

/-- The same machine with another keypad. -/
def Machine.withKeypad (m : Machine) (keypad : Keypad) : Machine :=
  { m with core := { m.core with keypad } }

namespace RunPlan

variable {plan : RunPlan} {m : Machine} {changes changes' : List KeyChange} {frame limit : Nat}
  {key : Key}

/-! ## The last change -/

/-- The same plan with other key changes. -/
def withKeys (plan : RunPlan) (changes : List KeyChange) : RunPlan := { plan with keys := changes }

/-- The changes are the same, in the same order, but for those whose frame is at the limit or beyond
it. -/
def AgreeBelow (limit : Nat) (changes changes' : List KeyChange) : Prop :=
  (changes.filter fun c => c.frame < limit) = changes'.filter fun c => c.frame < limit

theorem AgreeBelow.changesBefore (h : AgreeBelow limit plan.keys changes) (hlt : frame < limit) :
    plan.changesBefore frame = (plan.withKeys changes).changesBefore frame := by
  have hfilter (changes : List KeyChange) :
      (changes.filter fun c => c.frame == frame) =
        (changes.filter fun c => c.frame < limit).filter fun c => c.frame == frame := by
    rw [List.filter_filter]
    refine List.filter_congr fun c _ => ?_
    by_cases hframe : c.frame = frame <;> simp [hframe, hlt]
  rw [RunPlan.changesBefore, RunPlan.changesBefore, hfilter, h]
  exact (hfilter changes).symm

end RunPlan

namespace Command

open RunPlan

variable {files files' : Files} {entropy : Nat → UInt32} {program program' : String}
  {rest rest' : List String} {plan : RunPlan} {changes : List KeyChange} {m : Machine}

end Command
end Chip8
