import Chip8.Proofs.Machine.Step
import Chip8.Stepper

/-!
# Halted machines

A step fails for two reasons: the machine is halted, or a trap halts it.  Either way it is halted
afterwards.  From then on every step is refused, alone or as the first of a batch, and a refused step
changes nothing.
-/

namespace Chip8

namespace Machine

variable {m n : Machine} {fault : Fault} {flow : Flow}

theorem halted_of_failed_step (hstep : m.step = (.error fault, n)) : n.halted = true := by
  rcases step_cases m with ⟨hhalt, hs⟩ | ⟨r, _, _, hs⟩ | ⟨cause, _, _, hs⟩
  · rw [hs] at hstep
    cases hstep
    exact hhalt
  · rw [hs] at hstep
    cases hstep
  · rw [hs] at hstep
    cases hstep
    rfl

theorem running_of_step (hstep : m.step = (.ok flow, n)) : n.halted = false := by
  obtain ⟨hhalt, r, _, _, rfl⟩ := step_eq_ok_iff.mp hstep
  exact hhalt

theorem trap_of_failed_step (hrun : m.halted = false) (hstep : m.step.1 = .error fault) :
    ∃ cause, fault = .trap cause := by
  rcases step_cases m with ⟨hhalt, _⟩ | ⟨r, _, _, hs⟩ | ⟨cause, _, _, hs⟩
  · rw [hrun] at hhalt
    cases hhalt
  · rw [hs] at hstep
    cases hstep
  · rw [hs] at hstep
    exact ⟨cause, (Except.error.inj hstep).symm⟩

theorem stepsFrom_of_halted (hhalt : m.halted = true) (flow : Flow) (k : Nat) :
    stepsFrom flow (k + 1) m = (.error .halted, m) := by
  simp only [stepsFrom, step_of_halted hhalt]

theorem frame_of_halted (hhalt : m.halted = true) (k : Nat) :
    m.frame (k + 1) = (.error .halted, m) := by
  have hsteps : m.steps (k + 1) = (.error .halted, m) := stepsFrom_of_halted hhalt .next k
  simp only [frame, hsteps]

/-- A batch that fails has halted the machine. -/
theorem halted_of_failed_steps {k : Nat} (h : stepsFrom flow k m = (.error fault, n)) :
    n.halted = true := by
  induction k generalizing m flow with
  | zero => cases h
  | succ k ih =>
    rcases stepsFrom_succ_error h with hstep | ⟨first, next, _, hrest⟩
    · exact halted_of_failed_step hstep
    · exact ih hrest

theorem halted_of_failed_frame {k : Nat} (h : m.frame k = (.error fault, n)) :
    n.halted = true := by
  cases hsteps : m.steps k with
  | mk outcome next =>
    cases outcome with
    | ok last => simp [frame, hsteps] at h
    | error fault' =>
      obtain ⟨rfl, rfl⟩ : fault' = fault ∧ next = n := by
        simpa [frame, hsteps] using h
      exact halted_of_failed_steps hsteps

end Machine

theorem Stepper.halted_of_failed_forward {s t : Stepper} {fault : Fault}
    (h : s.forward = (.error fault, t)) : t.machine.halted = true := by
  cases hstep : s.machine.step with
  | mk outcome m =>
    cases outcome with
    | ok flow =>
      by_cases hlast : s.countdown - 1 = 0 <;> simp [forward, hstep, hlast] at h
    | error fault' =>
      obtain ⟨rfl, rfl⟩ : fault' = fault ∧ ⟨m, s.countdown⟩ = t := by
        simpa [forward, hstep] using h
      exact Machine.halted_of_failed_step hstep

theorem Stepper.forward_of_halted {s : Stepper} (hhalt : s.machine.halted = true) :
    s.forward = (.error .halted, s) := by
  simp only [forward, Machine.step_of_halted hhalt]

end Chip8
