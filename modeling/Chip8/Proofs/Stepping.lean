import Chip8.Proofs.Machine.Halted
import Chip8.Proofs.Undo

/-!
# Stepping — forwards, and all the way back

A stepper that goes forward puts one state on top of the timeline of its machine, whether the step
ends a frame or not: the end of a frame changes the state that is not recorded yet.  So steps taken
forward and then back leave the timeline as it was (`Stepper.round_trip`), as long as the history has
room for all of them.  Going back until nothing is left is the same as going back as often as the
history is long (`Stepper.backwardUpTo_eq_run`).
-/

namespace Chip8

namespace Stepper

variable {s t : Stepper} {flow : Flow}

/-- The stepper after a number of steps forward. -/
def ahead (s : Stepper) (n : Nat) : Stepper := s.run (List.replicate n .forward)

theorem ahead_zero (s : Stepper) : s.ahead 0 = s := rfl

theorem ahead_succ (s : Stepper) (n : Nat) : s.ahead (n + 1) = s.forward.2.ahead n := by
  rw [ahead, ahead, List.replicate_succ]
  rfl

/-- Each of the next steps succeeds. -/
def Succeeds (s : Stepper) (n : Nat) : Prop := ∀ i < n, (s.ahead i).forward.1.isOk = true

theorem Succeeds.tail {n : Nat} (h : s.Succeeds (n + 1)) : s.forward.2.Succeeds n := by
  intro i hi
  have hnext := h (i + 1) (by omega)
  rwa [ahead_succ] at hnext

theorem Succeeds.cons {n : Nat} (hforward : s.forward = (.ok flow, t)) (h : t.Succeeds n) :
    s.Succeeds (n + 1) := by
  intro i hi
  cases i with
  | zero =>
    rw [ahead_zero, hforward]
    rfl
  | succ i =>
    rw [ahead_succ, hforward]
    exact h i (Nat.lt_of_succ_lt_succ hi)

theorem Succeeds.head {n : Nat} (h : s.Succeeds (n + 1)) : ∃ flow, s.forward.1 = .ok flow := by
  have hfirst : s.forward.1.isOk = true := h 0 (by omega)
  cases hforward : s.forward.1 with
  | ok flow => exact ⟨flow, rfl⟩
  | error fault =>
    rw [hforward] at hfirst
    cases hfirst

theorem Succeeds.forward_eq {n : Nat} (h : s.Succeeds (n + 1)) :
    ∃ flow, s.forward = (.ok flow, s.forward.2) := by
  obtain ⟨flow, hflow⟩ := h.head
  exact ⟨flow, Prod.ext hflow rfl⟩

/-- The next steps all succeed, or there is a first one that fails. -/
theorem succeeds_or_fails (s : Stepper) (n : Nat) :
    s.Succeeds n ∨ ∃ j < n, s.Succeeds j ∧ ∃ fault, (s.ahead j).forward.1 = .error fault := by
  induction n with
  | zero =>
    left
    intro i hi
    omega
  | succ n ih =>
    rcases ih with hok | ⟨j, hj, hfirst⟩
    · cases hforward : (s.ahead n).forward.1 with
      | error fault => exact .inr ⟨n, by omega, hok, fault, hforward⟩
      | ok flow =>
        left
        intro i hi
        by_cases hlast : i = n
        · rw [hlast, hforward]
          rfl
        · exact hok i (by omega)
    · exact .inr ⟨j, by omega, hfirst⟩

/-! ## Forwards -/

/-- A step forward executes a step of the machine, and perhaps ends a frame after it. -/
theorem forward_ok_cases (hforward : s.forward = (.ok flow, t)) :
    ∃ m, s.machine.step = (.ok flow, m) ∧ (t.machine = m ∨ t.machine = m.finishFrame) := by
  cases hstep : s.machine.step with
  | mk outcome m =>
    cases outcome with
    | error fault => simp [forward, hstep] at hforward
    | ok flow' =>
      by_cases hlast : s.countdown - 1 = 0
      · obtain ⟨rfl, rfl⟩ : flow' = flow ∧ ⟨m.finishFrame, m.frameSteps⟩ = t := by
          simpa [forward, hstep, hlast] using hforward
        exact ⟨m, rfl, .inr rfl⟩
      · obtain ⟨rfl, rfl⟩ : flow' = flow ∧ ⟨m, s.countdown - 1⟩ = t := by
          simpa [forward, hstep, hlast] using hforward
        exact ⟨m, rfl, .inl rfl⟩

theorem running_forward (hforward : s.forward = (.ok flow, t)) : t.machine.halted = false := by
  obtain ⟨m, hstep, hm | hm⟩ := forward_ok_cases hforward
  · rw [hm]
    exact Machine.running_of_step hstep
  · rw [hm, Machine.halted_finishFrame]
    exact Machine.running_of_step hstep

theorem history_forward (hforward : s.forward = (.ok flow, t)) :
    t.machine.history = s.machine.history.push s.machine.state := by
  obtain ⟨m, hstep, hm⟩ := forward_ok_cases hforward
  obtain ⟨_, r, _, _, rfl⟩ := Machine.step_eq_ok_iff.mp hstep
  have hpush : (s.machine.commit r).history = s.machine.history.push s.machine.state := rfl
  rcases hm with hm | hm
  · rw [hm, hpush]
  · rw [hm, Machine.history_finishFrame, hpush]

/-- A step forward puts the new state on top of the timeline, if the history has room for one more. -/
theorem timeline_forward (hroom : s.machine.history.size < s.machine.history.capacity)
    (hforward : s.forward = (.ok flow, t)) :
    t.machine.timeline = t.machine.state :: s.machine.timeline := by
  -- Nothing is forgotten: the push keeps as many states as the history has room for.
  have hsome : s.machine.history.capacity ≠ 0 := by omega
  have hfits : s.machine.timeline.length ≤ s.machine.history.capacity := by
    rw [Machine.length_timeline]
    exact hroom
  calc
    t.machine.timeline
        = t.machine.state :: (s.machine.history.push s.machine.state).newestFirst := by
          rw [Machine.timeline, history_forward hforward]
    _ = t.machine.state :: s.machine.timeline.take s.machine.history.capacity := by
          rw [History.newestFirst_push hsome, Machine.timeline]
    _ = t.machine.state :: s.machine.timeline := by
          rw [List.take_of_length_le hfits]

theorem running_ahead {n : Nat} (hrun : s.machine.halted = false) (hok : s.Succeeds n) :
    (s.ahead n).machine.halted = false := by
  induction n generalizing s with
  | zero => exact hrun
  | succ n ih =>
    obtain ⟨flow, hforward⟩ := hok.forward_eq
    rw [ahead_succ]
    exact ih (running_forward hforward) hok.tail

/-- A machine that runs at the start is to blame for the first step that fails. -/
theorem trap_of_failed_ahead {n : Nat} {fault : Fault} (hrun : s.machine.halted = false)
    (hok : s.Succeeds n) (hfault : (s.ahead n).forward.1 = .error fault) :
    ∃ cause, fault = .trap cause := by
  rw [forward_outcome] at hfault
  exact Machine.trap_of_failed_step (running_ahead hrun hok) hfault

/-- After some steps forward, the old timeline lies below as many new states. -/
theorem timeline_ahead {n : Nat} (hok : s.Succeeds n)
    (hroom : s.machine.history.size + n ≤ s.machine.history.capacity) :
    ∃ newer : List State, newer.length = n ∧
      (s.ahead n).machine.timeline = newer ++ s.machine.timeline := by
  induction n generalizing s with
  | zero => exact ⟨[], rfl, rfl⟩
  | succ n ih =>
    obtain ⟨flow, hforward⟩ := hok.forward_eq
    have hhistory := history_forward hforward
    have hsize : s.forward.2.machine.history.size = s.machine.history.size + 1 := by
      rw [hhistory, History.size_push (by omega), Nat.min_eq_left (by omega)]
    have hcapacity : s.forward.2.machine.history.capacity = s.machine.history.capacity := by
      rw [hhistory, History.capacity_push]
    obtain ⟨newer, hlength, htimeline⟩ := ih hok.tail (by omega)
    -- The first of the steps lies directly on the old timeline.
    refine ⟨newer ++ [s.forward.2.machine.state], ?_, ?_⟩
    · rw [List.length_append, hlength, List.length_singleton]
    · rw [ahead_succ, htimeline, timeline_forward (by omega) hforward, List.append_assoc,
        List.singleton_append]

/-! ## And back -/

theorem perform_backward_of_empty (hempty : s.machine.undo.1 = false) :
    s.perform .backward = (.undone false, s) := by
  have hundo : s.machine.undo = (false, s.machine) :=
    Prod.ext hempty (Machine.undo_of_unchanged hempty)
  simp only [perform, backward, hundo]

/-- Going back until nothing is left, or until the limit is reached, is going back that often. -/
theorem backwardUpTo_eq_run (limit : Nat) (s : Stepper) :
    backwardUpTo limit s = s.run (List.replicate limit .backward) := by
  -- By induction on the limit.  Where nothing is left to take back, the rest of the limit changes
  -- nothing on either side.
  induction limit generalizing s with
  | zero => rfl
  | succ limit ih =>
    cases hundo : s.machine.undo.1 with
    | true =>
      have hchanged : s.backward.1 = true := by rw [backward_changed, hundo]
      cases hbackward : s.backward with
      | mk changed t =>
        rw [hbackward] at hchanged
        obtain rfl : changed = true := hchanged
        simp only [backwardUpTo, List.replicate_succ, run, perform, hbackward]
        exact ih t
    | false =>
      have hfixed := perform_backward_of_empty hundo
      have hbackward : s.backward = (false, s) := by
        have hparts := hfixed
        simp only [perform, Prod.mk.injEq, Answer.undone.injEq] at hparts
        exact Prod.ext hparts.1 hparts.2
      rw [(replicate_of_fixed hfixed (limit + 1)).1]
      simp only [backwardUpTo, hbackward]

theorem size_ahead {n : Nat} (hok : s.Succeeds n)
    (hroom : s.machine.history.size + n ≤ s.machine.history.capacity) :
    (s.ahead n).machine.history.size = s.machine.history.size + n := by
  obtain ⟨newer, hlength, htimeline⟩ := timeline_ahead hok hroom
  have hlengths := congrArg List.length htimeline
  rw [List.length_append, Machine.length_timeline, Machine.length_timeline] at hlengths
  omega

/-- Steps forward and as many steps back: each step back succeeds, and the timeline is as before. -/
theorem round_trip {n : Nat} (hok : s.Succeeds n)
    (hroom : s.machine.history.size + n ≤ s.machine.history.capacity) :
    (s.ahead n).answers (List.replicate n .backward) = List.replicate n (.undone true) ∧
      ((s.ahead n).run (List.replicate n .backward)).machine.timeline = s.machine.timeline := by
  obtain ⟨newer, hlength, htimeline⟩ := timeline_ahead hok hroom
  have hsize := size_ahead hok hroom
  rcases answers_takeBack takesBack_backward n (s.ahead n) (by omega) with ⟨hanswers, hback⟩
  refine ⟨hanswers, ?_⟩
  calc
    ((s.ahead n).run (List.replicate n .backward)).machine.timeline
        = (newer ++ s.machine.timeline).drop n := by rw [hback, htimeline]
    _ = s.machine.timeline := by rw [← hlength, List.drop_left]

end Stepper
end Chip8
