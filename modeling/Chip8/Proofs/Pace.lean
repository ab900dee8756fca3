import Chip8.Proofs.Machine.Halted
import Chip8.Proofs.Session.Operation

/-!
# Pace — single steps and frames

The scheduler executes a frame as a batch and ends it when the batch is through.  A stepper knows no
batches: it counts its steps down and ends a frame when the count is used up.  Both come to the same.
The invariant is that the countdown at the start of a frame is the length of the batch
(`Stepper.forward_through_frame`), and that a fault in the middle of a frame halts the machine, so
that neither the rest of the batch nor any later step or frame changes it
(`Stepper.forward_to_fault`).
-/

namespace Chip8

/-- The answer to steps that were executed. -/
def Answer.flowed (flow : Flow) : Answer := .ran (.ok flow)

theorem Answer.findSome?_fault?_flowed (flows : List Flow) :
    (flows.map flowed).findSome? fault? = none := by
  rw [List.findSome?_eq_none_iff]
  intro a ha
  rcases List.mem_map.mp ha with ⟨flow, _, rfl⟩
  rfl

namespace Stepper

open Machine

variable {m n : Machine} {flow last : Flow} {fault : Fault}

/-! ## One step of a stepper -/

theorem forward_of_failed_step (hstep : m.step = (.error fault, n)) (countdown : Nat) :
    (⟨m, countdown⟩ : Stepper).forward = (.error fault, ⟨n, countdown⟩) := by
  simp only [forward, hstep]

/-- The last step of a frame ends it, and a new frame starts. -/
theorem forward_of_last_step (hstep : m.step = (.ok flow, n)) :
    (⟨m, 1⟩ : Stepper).forward = (.ok flow, start n.finishFrame) := by
  have hlength : n.finishFrame.frameSteps = n.frameSteps := frameSteps_eq (clock_finishFrame n)
  simp only [forward, hstep, Nat.sub_self, if_true, start, hlength]

theorem forward_of_step (hstep : m.step = (.ok flow, n)) (countdown : Nat) :
    (⟨m, countdown + 2⟩ : Stepper).forward = (.ok flow, ⟨n, countdown + 1⟩) := by
  have hmore : countdown + 2 - 1 ≠ 0 := by omega
  simp only [forward, hstep, if_neg hmore]
  rfl

theorem perform_forward_of_halted {s : Stepper} (hhalt : s.machine.halted = true) :
    s.perform .forward = (.ran (.error .halted), s) := by
  simp only [perform, forward_of_halted hhalt]

/-! ## The steps of one frame -/

/-- A batch that succeeds, taken as single steps: they end the frame with the last one. -/
theorem forward_through_frame {k : Nat} (hsteps : stepsFrom flow (k + 1) m = (.ok last, n)) :
    (⟨m, k + 1⟩ : Stepper).run (List.replicate (k + 1) .forward) = start n.finishFrame ∧
      ∃ flows : List Flow, flows.length = k ∧
        (⟨m, k + 1⟩ : Stepper).answers (List.replicate (k + 1) .forward) =
          (flows ++ [last]).map Answer.flowed := by
  induction k generalizing m flow with
  | zero =>
    obtain ⟨first, next, hstep, hdone⟩ := stepsFrom_succ_ok hsteps
    obtain ⟨rfl, rfl⟩ : first = last ∧ next = n := by
      simpa [stepsFrom] using hdone
    have hforward := forward_of_last_step hstep
    simp only [List.replicate_succ, List.replicate_zero, run, answers, perform, hforward]
    exact ⟨trivial, [], rfl, rfl⟩
  | succ k ih =>
    obtain ⟨first, next, hstep, hrest⟩ := stepsFrom_succ_ok hsteps
    obtain ⟨hrun, flows, hlength, hanswers⟩ := ih hrest
    have hforward := forward_of_step hstep k
    rw [List.replicate_succ]
    simp only [run, answers, perform, hforward, hrun, hanswers]
    refine ⟨trivial, first :: flows, ?_, rfl⟩
    rw [List.length_cons, hlength]

/-- A batch that fails, taken as single steps: they meet the same fault, before the frame could end,
and the refused steps after it leave the machine alone. -/
theorem forward_to_fault {k countdown : Nat} (hroom : k ≤ countdown)
    (hsteps : stepsFrom flow k m = (.error fault, n)) :
    ((⟨m, countdown⟩ : Stepper).run (List.replicate k .forward)).machine = n ∧
      ((⟨m, countdown⟩ : Stepper).answers (List.replicate k .forward)).findSome? Answer.fault? =
        some fault := by
  induction k generalizing m flow countdown with
  | zero => cases hsteps
  | succ k ih =>
    rcases stepsFrom_succ_error hsteps with hstep | ⟨first, next, hstep, hrest⟩
    · -- Everything after the fault is refused.
      have hhalt : n.halted = true := halted_of_failed_step hstep
      have hrefused : (⟨n, countdown⟩ : Stepper).perform .forward =
          (.ran (.error .halted), ⟨n, countdown⟩) := perform_forward_of_halted hhalt
      have hforward := forward_of_failed_step hstep countdown
      rw [List.replicate_succ]
      simp only [run, answers, perform, hforward, (replicate_of_fixed hrefused k).1]
      exact ⟨trivial, rfl⟩
    · -- A fault is still to come, so this step is not the last one of the batch.
      obtain ⟨more, rfl⟩ : ∃ more, countdown = more + 2 := by
        cases k with
        | zero => cases hrest
        | succ k => exact ⟨countdown - 2, by omega⟩
      have hinside : k ≤ more + 1 := by omega
      have hlater := ih hinside hrest
      have hforward := forward_of_step hstep more
      rw [List.replicate_succ]
      simp only [run, answers, perform, hforward]
      exact hlater

/-! ## Frame by frame -/

theorem length_answers (s : Stepper) (ops : List Operation) :
    (s.answers ops).length = ops.length := by
  induction ops generalizing s with
  | nil => rfl
  | cons op ops ih => rw [answers, List.length_cons, List.length_cons, ih]

/-- A frame that succeeds leaves the stepper at the start of the next frame. -/
theorem perform_frame_of_ok {k : Nat} (hsteps : m.steps k = (.ok last, n)) :
    (start m).perform (.frame k) = (.flowed last, start n.finishFrame) := by
  have hframe : m.frame k = (.ok last, n.finishFrame) := by
    simp only [frame, hsteps]
  have hclock : n.finishFrame.clock = m.clock := by
    have hacts := acts_frameActions m k
    rw [hframe] at hacts
    calc
      n.finishFrame.clock = (m.acts (m.frameActions k)).clock := by rw [hacts]
      _ = m.clock := clock_acts m _
  simp only [perform, start, hframe, frameSteps_eq hclock]
  rfl

/-- A frame that fails leaves a machine that refuses every further frame. -/
theorem frames_after_fault {k : Nat} (hsteps : m.steps (k + 1) = (.error fault, n)) (frames : Nat) :
    ((start m).run (List.replicate (frames + 1) (.frame (k + 1)))).machine = n ∧
      (start m).answers (List.replicate (frames + 1) (.frame (k + 1))) =
        .ran (.error fault) :: List.replicate frames (.ran (.error .halted)) := by
  have hframe : m.frame (k + 1) = (.error fault, n) := by
    simp only [frame, hsteps]
  have hhalt : n.halted = true := halted_of_failed_steps hsteps
  have hrefused : (⟨n, m.frameSteps⟩ : Stepper).perform (.frame (k + 1)) =
      (.ran (.error .halted), ⟨n, m.frameSteps⟩) := by
    simp only [perform, frame_of_halted hhalt]
  rcases replicate_of_fixed hrefused frames with ⟨hrun, hanswers⟩
  rw [List.replicate_succ]
  simp only [run, answers, perform, start, hframe, hrun, hanswers]
  exact ⟨trivial, trivial⟩

/-- As many single steps as a number of frames have. -/
def singles (length k : Nat) : List Operation := List.replicate (k * length) .forward

/-- A number of frames. -/
def frames (length k : Nat) : List Operation := List.replicate k (.frame length)

theorem singles_succ (length k : Nat) :
    singles length (k + 1) = List.replicate length .forward ++ singles length k := by
  rw [singles, singles, List.replicate_append_replicate, Nat.succ_mul, Nat.add_comm]

theorem frames_succ (length k : Nat) : frames length (k + 1) = .frame length :: frames length k :=
  List.replicate_succ

/-- Single steps and frames leave the same machine and meet the same fault first, and they agree on
the flow of every frame that succeeds. -/
structure KeepsPace (m : Machine) (length k : Nat) : Prop where
  machine : ((start m).run (singles length k)).machine = ((start m).run (frames length k)).machine
  fault : ((start m).answers (singles length k)).findSome? Answer.fault? =
    ((start m).answers (frames length k)).findSome? Answer.fault?
  flow : ∀ j flow, ((start m).answers (frames length k))[j]? = some (.flowed flow) →
    ((start m).answers (singles length k))[(j + 1) * length - 1]? = some (.flowed flow)

theorem KeepsPace.after_frame {length k : Nat} (hlength : m.frameSteps = length + 1)
    (hsteps : m.steps (length + 1) = (.ok last, n))
    (hrest : KeepsPace n.finishFrame (length + 1) k) : KeepsPace m (length + 1) (k + 1) := by
  have hstart : start m = ⟨m, length + 1⟩ := by rw [start, hlength]
  have hframe := perform_frame_of_ok hsteps
  obtain ⟨hrun, flows, hflows, hanswers⟩ := forward_through_frame hsteps
  rw [← hstart] at hrun hanswers
  have hsingle : (start m).answers (singles (length + 1) (k + 1)) =
      (flows ++ [last]).map Answer.flowed ++
        (start n.finishFrame).answers (singles (length + 1) k) := by
    rw [singles_succ, answers_append, hrun, hanswers]
  have hframed : (start m).answers (frames (length + 1) (k + 1)) =
      .flowed last :: (start n.finishFrame).answers (frames (length + 1) k) := by
    rw [frames_succ, answers, hframe]
  refine ⟨?_, ?_, ?_⟩
  · calc
      ((start m).run (singles (length + 1) (k + 1))).machine
          = ((start n.finishFrame).run (singles (length + 1) k)).machine := by
            rw [singles_succ, run_append, hrun]
      _ = ((start n.finishFrame).run (frames (length + 1) k)).machine := hrest.machine
      _ = ((start m).run (frames (length + 1) (k + 1))).machine := by
            rw [frames_succ, run, hframe]
  · rw [hsingle, hframed, List.findSome?_append, Answer.findSome?_fault?_flowed]
    exact hrest.fault
  · intro j flow hj
    have hfirst : ((flows ++ [last]).map Answer.flowed).length = length + 1 := by
      simp [hflows]
    rw [hframed] at hj
    rw [hsingle]
    cases j with
    | zero =>
      -- The flow of the first frame is that of its last step.
      have hlast : last = flow := by simpa [Answer.flowed] using hj
      rw [List.getElem?_append_left (by omega), ← hlast]
      simp [hflows]
    | succ j =>
      -- Behind the first frame the steps of the other frames follow.
      have hmul : (j + 1 + 1) * (length + 1) = (j + 1) * (length + 1) + (length + 1) :=
        Nat.succ_mul (j + 1) (length + 1)
      have hpositive : 0 < (j + 1) * (length + 1) := Nat.mul_pos (by omega) (by omega)
      have hindex : (j + 1 + 1) * (length + 1) - 1 - (length + 1) =
          (j + 1) * (length + 1) - 1 := by omega
      rw [List.getElem?_append_right (by omega), hfirst, hindex]
      exact hrest.flow j flow hj

theorem keepsPace_of_fault {length : Nat} (hlength : m.frameSteps = length + 1)
    (hsteps : m.steps (length + 1) = (.error fault, n)) (k : Nat) :
    KeepsPace m (length + 1) (k + 1) := by
  have hstart : start m = ⟨m, length + 1⟩ := by rw [start, hlength]
  have hhalt : n.halted = true := halted_of_failed_steps hsteps
  rcases frames_after_fault hsteps k with ⟨hframes, hframed⟩
  rcases forward_to_fault (Nat.le_refl _) hsteps with ⟨hmachine, hfault⟩
  rw [← hstart] at hmachine hfault
  have hrefused : ((start m).run (List.replicate (length + 1) .forward)).perform .forward =
      (.ran (.error .halted), (start m).run (List.replicate (length + 1) .forward)) :=
    perform_forward_of_halted (hmachine ▸ hhalt)
  have hrest := (replicate_of_fixed hrefused (k * (length + 1))).1
  refine ⟨?_, ?_, ?_⟩
  · calc
      ((start m).run (singles (length + 1) (k + 1))).machine
          = ((start m).run (List.replicate (length + 1) .forward)).machine := by
            rw [singles_succ, run_append, singles, hrest]
      _ = n := hmachine
      _ = ((start m).run (frames (length + 1) (k + 1))).machine := hframes.symm
  · rw [singles_succ, answers_append, List.findSome?_append, hfault, frames, hframed]
    rfl
  · intro j flow hj
    rw [frames, hframed] at hj
    -- No frame has succeeded.
    cases j with
    | zero => cases hj
    | succ j =>
      rw [List.getElem?_cons_succ, List.getElem?_replicate] at hj
      split at hj
      · cases hj
      · cases hj

theorem keepsPace {length : Nat} (hlength : m.frameSteps = length + 1) (k : Nat) :
    KeepsPace m (length + 1) k := by
  induction k generalizing m with
  | zero =>
    have hnone : singles (length + 1) 0 = [] := by rw [singles, Nat.zero_mul, List.replicate_zero]
    refine ⟨?_, ?_, ?_⟩
    · rw [hnone]
      rfl
    · rw [hnone]
      rfl
    · intro j flow hj
      cases hj
  | succ k ih =>
    -- After a frame that succeeds both are at the start of the next one, and after one that fails
    -- neither does anything.
    cases hsteps : m.steps (length + 1) with
    | mk outcome n =>
      cases outcome with
      | ok last =>
        have hnext : n.finishFrame.frameSteps = length + 1 := by
          have hcountdown := congrArg (fun p => p.2.countdown) (perform_frame_of_ok hsteps)
          exact hcountdown.symm.trans hlength
        exact (ih hnext).after_frame hlength hsteps
      | error fault => exact keepsPace_of_fault hlength hsteps k

theorem exists_outcome_of_mem_frames {s : Stepper} {length k : Nat} {a : Answer}
    (ha : a ∈ s.answers (frames length k)) : ∃ outcome, a = .ran outcome := by
  induction k generalizing s with
  | zero => cases ha
  | succ k ih =>
    rw [frames_succ, answers] at ha
    rcases List.mem_cons.mp ha with rfl | ha
    · exact ⟨_, rfl⟩
    · exact ih ha

/-- A paused stepper keeps the pace of the frame scheduler.

A new stepper that takes the steps of `k` frames one by one leaves the whole machine as `k` frames of
that length do, with all that was sent to devices and observers, also where steps or frames fail and
the host goes on.  The first fault is the same on both sides.  If there is none, the flow of the last
single step of every frame is the flow of the frame.  At sixty hertz and above these are the frames
of the machine's clock. -/
theorem forward_keeps_pace (m : Machine) (k : Nat) :
    let length := max m.stepsPerFrame 1
    let single := List.replicate (k * length) Operation.forward
    let framed := List.replicate k (Operation.frame length)
    let s := start m
    (s.run single).machine = (s.run framed).machine ∧
      (s.answers single).findSome? Answer.fault? = (s.answers framed).findSome? Answer.fault? ∧
      ((s.answers framed).findSome? Answer.fault? = none → ∀ j < k, ∃ flow,
        (s.answers framed)[j]? = some (.ran (.ok flow)) ∧
          (s.answers single)[(j + 1) * length - 1]? = some (.ran (.ok flow))) ∧
      (60 ≤ m.clock.getD Timing.defaultClock →
        ∀ n : Machine, n.clock = m.clock → n.clockedFrame = n.frame length) := by
  intro length single framed s
  obtain ⟨shorter, hshorter⟩ : ∃ shorter, length = shorter + 1 :=
    ⟨length - 1, by omega⟩
  have hpace : KeepsPace m length k := by
    rw [hshorter]
    exact keepsPace hshorter k
  refine ⟨hpace.machine, hpace.fault, ?_, ?_⟩
  · intro hnone j hj
    have hbound : j < (s.answers framed).length := by
      rw [length_answers, List.length_replicate]
      exact hj
    have hframe : (s.answers framed)[j]? = some (s.answers framed)[j] :=
      List.getElem?_eq_getElem hbound
    obtain ⟨outcome, houtcome⟩ := exists_outcome_of_mem_frames (List.mem_of_getElem? hframe)
    rw [houtcome] at hframe
    cases outcome with
    | error fault =>
      have hfault := List.findSome?_eq_none_iff.mp hnone _ (List.mem_of_getElem? hframe)
      cases hfault
    | ok flow => exact ⟨flow, hframe, hpace.flow j flow hframe⟩
  · intro hclock n hsame
    have hwhole : 1 ≤ m.stepsPerFrame := Nat.div_pos hclock (by decide)
    have hsteps : n.stepsPerFrame = length := by
      simp only [stepsPerFrame, hsame]
      exact (Nat.max_eq_left hwhole).symm
    rw [clockedFrame, hsteps]

/-- A program that waits for a key, with one step in each frame. -/
theorem forward_keeps_pace_of_waiting :
    let m := (Machine.new { clock := some 60 } fun _ => 0).restore
      { State.powerOn with keyWait := some 3 }
    let s := start m
    (s.answers [.frame 1, .frame 1]).findSome? Answer.fault? = none ∧
      (s.answers [.forward, .forward])[1]? = some (.ran (.ok .waitKey)) ∧
      m.clockedFrame = m.frame 1 := by
  intro m s
  have hlength : max m.stepsPerFrame 1 = 1 := by decide
  have hnone : (s.answers [.frame 1, .frame 1]).findSome? Answer.fault? = none := rfl
  have hwait : (s.answers [.frame 1, .frame 1])[1]? = some (.ran (.ok .waitKey)) := rfl
  obtain ⟨_, _, hflow, hclock⟩ := forward_keeps_pace m 2
  rw [hlength] at hflow hclock
  obtain ⟨flow, hframe, hsingle⟩ := hflow hnone 1 (by decide)
  have hsame : some (Answer.ran (.ok flow)) = some (.ran (.ok .waitKey)) := hframe.symm.trans hwait
  cases hsame
  exact ⟨hnone, hsingle, hclock (by decide) m rfl⟩

end Stepper
end Chip8
