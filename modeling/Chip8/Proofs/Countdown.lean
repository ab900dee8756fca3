import Chip8.Proofs.Frames
import Chip8.Proofs.FrameSplit
import Mathlib.Data.List.Intervals

/-!
# Countdown — the timers of a program that leaves them alone

Nothing but the ends of frames counts the timers down, and nothing but two instructions sets them.  A
program that executes neither of the two therefore has no influence on its timers: however many frames
come, of whatever lengths, the timers and the sounds are decided by the number of frames and by where
the timers stood at the start (`Machine.Elapses`).

The sound of a frame is decided after the sound timer has counted down.  So a timer that stood at one is
silent from the first frame on, and the last sound is that of a timer that is left at one.
-/

namespace Chip8

/-! ## The schedule of a timer -/

namespace Timing

variable {timer sound : UInt8} {j k frames : Nat}

/-- The sounds at the ends of a number of frames, in order. -/
def endCues (sound : UInt8) : Nat → List UInt32
  | 0 => []
  | frames + 1 => (endCue? sound).toList ++ endCues (countDown sound) frames

theorem elapse_countDown : elapse (countDown timer) frames = elapse timer (frames + 1) := by
  apply UInt8.toNat.inj
  rw [toNat_elapse, toNat_elapse, toNat_countDown]
  omega

theorem endCues_succ (sound : UInt8) (frames : Nat) :
    endCues sound (frames + 1) = endCues sound frames ++ (endCue? (elapse sound frames)).toList := by
  induction frames generalizing sound with
  | zero => rw [elapse_zero, endCues, endCues, endCues, List.append_nil, List.nil_append]
  | succ frames ih => rw [endCues, ih, elapse_countDown, endCues, List.append_assoc]

/-- What is left of the sound timer is cued frame after frame, down to one. -/
theorem map_endCues (sound : UInt8) (frames : Nat) :
    (endCues sound frames).map UInt32.toNat =
      (List.Ico (max (sound.toNat - frames) 1) sound.toNat).reverse.map fun j => j * 1000 / 60 := by
  induction frames generalizing sound with
  | zero =>
    rw [List.Ico.eq_nil_of_le (by omega)]
    rfl
  | succ frames ih =>
    have hfirst : ((endCue? sound).toList).map UInt32.toNat =
        ((endCue? sound).map UInt32.toNat).toList := by
      cases endCue? sound <;> rfl
    have hlow : sound.toNat - 1 - frames = sound.toNat - (frames + 1) := by omega
    rw [endCues, List.map_append, hfirst, map_endCue?, ih, toNat_countDown, hlow]
    by_cases hsounds : 1 < sound.toNat
    · -- The first sound is the longest, so it stands at the end of the interval.
      obtain ⟨left, hleft⟩ : ∃ left, sound.toNat = left + 1 := ⟨sound.toNat - 1, by omega⟩
      have hmore : max (sound.toNat - (frames + 1)) 1 ≤ left := by omega
      rw [if_pos hsounds, hleft, Nat.add_sub_cancel, List.Ico.succ_top (by omega),
        List.reverse_append]
      rfl
    · rw [if_neg hsounds, List.Ico.eq_nil_of_le (by omega), List.Ico.eq_nil_of_le (by omega)]
      rfl

end Timing

namespace Machine

variable {m n o : Machine} {as bs : List Action} {flow : Flow} {j k : Nat}

/-! ## Runs that leave the timers alone -/

/-- The run executes no instruction that sets a timer. -/
def LeavesTimers (m : Machine) (as : List Action) : Prop :=
  ∀ t ∈ m.log as, ∀ x, t.instr? ≠ some (.setDelay x) ∧ t.instr? ≠ some (.setSound x)

theorem leavesTimers_append :
    m.LeavesTimers (as ++ bs) ↔ m.LeavesTimers as ∧ (m.acts as).LeavesTimers bs := by
  rw [LeavesTimers, log_append, List.forall_mem_append]
  rfl

/-- All steps of a batch that succeeds are logged. -/
theorem attempt_mem_log_tries (hok : ∀ i < k, (m.after i).step.1.isOk = true) (hj : j < k) :
    (m.after j).attempt ∈ m.log (m.tries k) := by
  induction k generalizing m j with
  | zero => exact absurd hj (Nat.not_lt_zero j)
  | succ k ih =>
    have hfirst : m.step.1.isOk = true := hok 0 (Nat.succ_pos k)
    cases hstep : m.step with
    | mk outcome next =>
      rw [hstep] at hfirst
      cases outcome with
      | error fault => cases hfirst
      | ok flow =>
        have hnext : m.step.2 = next := congrArg Prod.snd hstep
        have htries : m.tries (k + 1) = .step :: next.tries k := by simp only [tries, hstep]
        rw [htries, log_step, act, hnext]
        cases j with
        | zero => exact List.mem_cons_self
        | succ j =>
          refine List.mem_cons_of_mem _ ?_
          rw [after, hnext]
          refine ih (fun i hi => ?_) (Nat.lt_of_succ_lt_succ hj)
          rw [← hnext]
          exact hok (i + 1) (Nat.succ_lt_succ hi)

theorem LeavesTimers.after (h : m.LeavesTimers (m.tries k))
    (hok : ∀ i < k, (m.after i).step.1.isOk = true) :
    (∀ i < k, ∀ x, ¬ (m.after i).Executes (.setDelay x)) ∧
      ∀ i < k, ∀ x, ¬ (m.after i).Executes (.setSound x) := by
  refine ⟨fun i hi x hexec => ?_, fun i hi x hexec => ?_⟩
  · exact (h _ (attempt_mem_log_tries hok hi) x).1 (next?_eq_some_iff.mpr hexec)
  · exact (h _ (attempt_mem_log_tries hok hi) x).2 (next?_eq_some_iff.mpr hexec)

/-! ## What has elapsed -/

/-- From the one machine to the other a number of frames have ended, and nothing else was done to the
timers and to the buzzer. -/
structure Elapses (m : Machine) (frames : Nat) (n : Machine) : Prop where
  delay_eq : n.state.delay = Timing.elapse m.state.delay frames
  sound_eq : n.state.sound = Timing.elapse m.state.sound frames
  cues_eq : n.recording.cues.toList =
    m.recording.cues.toList ++ Timing.endCues m.state.sound frames

namespace Elapses

theorem refl (m : Machine) : m.Elapses 0 m :=
  ⟨Timing.elapse_zero.symm, Timing.elapse_zero.symm, (List.append_nil _).symm⟩

/-- One frame and then some more. -/
theorem cons (h : m.Elapses 1 n) (h' : n.Elapses k o) : m.Elapses (k + 1) o := by
  have hdelay : n.state.delay = Timing.countDown m.state.delay := by
    rw [h.delay_eq, ← Timing.countDown_elapse, Timing.elapse_zero]
  have hsound : n.state.sound = Timing.countDown m.state.sound := by
    rw [h.sound_eq, ← Timing.countDown_elapse, Timing.elapse_zero]
  refine ⟨?_, ?_, ?_⟩
  · rw [h'.delay_eq, hdelay, Timing.elapse_countDown]
  · rw [h'.sound_eq, hsound, Timing.elapse_countDown]
  · rw [h'.cues_eq, h.cues_eq, hsound, List.append_assoc, Timing.endCues, Timing.endCues,
      Timing.endCues, List.append_nil]

end Elapses

/-- One frame of a program that sets no timer. -/
theorem elapses_frame (h : m.frame k = (.ok flow, n)) (hquiet : m.LeavesTimers (m.frameActions k)) :
    m.Elapses 1 n := by
  have hframe := completes_of_frame h
  have hsteps : m.LeavesTimers (m.tries k) := (leavesTimers_append.mp hquiet).1
  obtain ⟨hnodelay, hnosound⟩ := hsteps.after hframe.steps_ok
  have hdelay : (m.after k).state.delay = m.state.delay := delay_after hnodelay
  have hsound : (m.after k).state.sound = m.state.sound := sound_after hnosound
  refine ⟨?_, ?_, ?_⟩
  · apply UInt8.toNat.inj
    rw [hframe.delay_eq, hdelay, Timing.toNat_elapse]
  · apply UInt8.toNat.inj
    rw [hframe.sound_eq, hsound, Timing.toNat_elapse]
  · -- The steps are silent, so the one sound is that of the end.
    rw [hframe.machine_eq, cues_finishFrame, cues_after, stepCues_of_silent hnosound, hsound,
      List.append_nil, Timing.endCues, Timing.endCues, List.append_nil]

/-! ## A program that jumps to itself -/

/-- The machine executes a jump to itself, whatever its timers are at. -/
def Loops (m : Machine) : Prop := ∃ n delay, m.UpToTimers n ∧ n.Spins delay

namespace Loops

theorem attempt (h : m.Loops) : m.attempt = ⟨0x200, some (.jump 0x200)⟩ := by
  obtain ⟨n, delay, hsame, hspins⟩ := h
  rw [hsame.attempt, hspins.attempt]

theorem step (h : m.Loops) : m.step.1 = .ok .jump ∧ m.step.2.Loops := by
  have hjump : m.next? = some (.jump 0x200) := congrArg Attempt.instr? h.attempt
  obtain ⟨n, delay, hsame, hspins⟩ := h
  obtain ⟨n', hstep, hspins'⟩ := hspins.step
  have hquiet : ∀ x, m.next? ≠ some (.getDelay x) := by
    rw [hjump]
    exact nofun
  obtain ⟨houtcome, hnext⟩ := hsame.step hquiet
  rw [hstep] at houtcome hnext
  exact ⟨houtcome, n', delay, hnext, hspins'⟩

theorem finishFrame (h : m.Loops) : m.finishFrame.Loops := by
  obtain ⟨n, delay, hsame, hspins⟩ := h
  exact ⟨n, delay, hsame.finishFrame, hspins⟩

theorem act {a : Action} (h : m.Loops) (ha : a ∈ [Action.step, .finishFrame]) :
    (m.act a).Loops := by
  rcases List.mem_pair.mp ha with rfl | rfl
  · exact h.step.2
  · exact h.finishFrame

theorem acts (h : m.Loops) (has : ∀ a ∈ as, a ∈ [Action.step, .finishFrame]) :
    (m.acts as).Loops := by
  induction as generalizing m with
  | nil => exact h
  | cons a as ih =>
    exact ih (h.act (has a List.mem_cons_self)) fun b hb => has b (List.mem_cons_of_mem a hb)

/-- Nothing but the jump is executed. -/
theorem log (h : m.Loops) (has : ∀ a ∈ as, a ∈ [Action.step, .finishFrame]) :
    ∀ t ∈ m.log as, t = ⟨0x200, some (.jump 0x200)⟩ := by
  induction as generalizing m with
  | nil => exact fun t ht => absurd ht List.not_mem_nil
  | cons a as ih =>
    have ha := has a List.mem_cons_self
    have hlater := ih (h.act ha) fun b hb => has b (List.mem_cons_of_mem a hb)
    intro t ht
    rcases List.mem_append.mp ht with ht | ht
    · rcases List.mem_pair.mp ha with rfl | rfl
      · rw [List.mem_singleton.mp ht, h.attempt]
      · exact absurd ht List.not_mem_nil
    · exact hlater t ht

theorem exists_flow_of_frame (h : m.Loops) (k : Nat) : ∃ flow, (m.frame k).1 = .ok flow := by
  have hafter : ∀ j, (m.after j).Loops := by
    intro j
    induction j with
    | zero => exact h
    | succ j ih =>
      rw [after_succ]
      exact ih.step.2
  rw [frame_outcome]
  exact exists_flow_of_steps fun j _ => by rw [(hafter j).step.1]; rfl

end Loops

end Machine

/-- The operation is a frame, of whatever length. -/
def Operation.IsFrame : Operation → Prop
  | .frame _ => True
  | .clockedFrame => True
  | _ => False

namespace Stepper

open Machine

variable {s : Stepper} {op : Operation} {ops : List Operation} {flow : Flow}

/-! ## Frame by frame -/

theorem elapses_perform (hop : op.IsFrame) (hok : (s.perform op).1 = .ran (.ok flow))
    (hquiet : s.machine.LeavesTimers (s.actions op)) :
    s.machine.Elapses 1 (s.perform op).2.machine := by
  cases op with
  | frame k => exact elapses_frame (Prod.ext (Answer.ran.inj hok) rfl) hquiet
  | clockedFrame => exact elapses_frame (Prod.ext (Answer.ran.inj hok) rfl) hquiet
  | _ => exact hop.elim

theorem elapses_run (hframes : ∀ op ∈ ops, op.IsFrame)
    (hok : ∀ a ∈ s.answers ops, ∃ flow, a = .ran (.ok flow))
    (hquiet : s.machine.LeavesTimers (s.trace ops)) :
    s.machine.Elapses ops.length (s.run ops).machine := by
  induction ops generalizing s with
  | nil => exact Elapses.refl s.machine
  | cons op ops ih =>
    obtain ⟨flow, hflow⟩ := hok _ List.mem_cons_self
    obtain ⟨hnow, hlater⟩ := leavesTimers_append.mp hquiet
    rw [← machine_perform] at hlater
    have hfirst := elapses_perform (hframes op List.mem_cons_self) hflow hnow
    exact hfirst.cons (ih (fun o ho => hframes o (List.mem_cons_of_mem op ho))
      (fun a ha => hok a (List.mem_cons_of_mem _ ha)) hlater)

/-- The same after some of the frames. -/
theorem elapses_run_take (hframes : ∀ op ∈ ops, op.IsFrame)
    (hok : ∀ a ∈ s.answers ops, ∃ flow, a = .ran (.ok flow))
    (hquiet : s.machine.LeavesTimers (s.trace ops)) (k : Nat) (hk : k ≤ ops.length) :
    s.machine.Elapses k (s.run (ops.take k)).machine := by
  rw [← List.take_append_drop k ops] at hok hquiet
  rw [answers_append] at hok
  rw [trace_append] at hquiet
  have hlength : (ops.take k).length = k := by
    rw [List.length_take, Nat.min_eq_left hk]
  have helapses := elapses_run (fun op hop => hframes op (List.mem_of_mem_take hop))
    (fun a ha => hok a (List.mem_append_left _ ha)) (leavesTimers_append.mp hquiet).1
  rwa [hlength] at helapses

/-! ## A program that loops -/

theorem needs_of_isFrame (hop : op.IsFrame) : op.needs = [.step, .finishFrame] := by
  cases op with
  | frame k => rfl
  | clockedFrame => rfl
  | _ => exact hop.elim

/-- The frames of a program that jumps to itself succeed, and execute nothing but the jump. -/
theorem run_of_loops (hloops : s.machine.Loops) (hframes : ∀ op ∈ ops, op.IsFrame) :
    (∀ a ∈ s.answers ops, ∃ flow, a = .ran (.ok flow)) ∧
      s.machine.LeavesTimers (s.trace ops) := by
  refine ⟨?_, fun t ht x => ?_⟩
  · induction ops generalizing s with
    | nil => exact fun a ha => absurd ha List.not_mem_nil
    | cons op ops ih =>
      have hframe (k : Nat) : ∃ flow, (s.machine.frame k).1 = .ok flow :=
        hloops.exists_flow_of_frame k
      have hfirst : ∃ flow, (s.perform op).1 = .ran (.ok flow) := by
        cases op with
        | frame k => exact (hframe k).imp fun flow hflow => congrArg Answer.ran hflow
        | clockedFrame => exact (hframe _).imp fun flow hflow => congrArg Answer.ran hflow
        | _ => exact (hframes _ List.mem_cons_self).elim
      have hnext : (s.perform op).2.machine.Loops := by
        rw [machine_perform]
        refine hloops.acts fun a ha => ?_
        rw [← needs_of_isFrame (hframes op List.mem_cons_self)]
        exact mem_needs_of_mem_actions ha
      intro a ha
      rcases List.mem_cons.mp ha with rfl | ha
      · exact hfirst
      · exact ih hnext (fun o ho => hframes o (List.mem_cons_of_mem op ho)) a ha
  · have hjump : t.instr? = some (.jump 0x200) := by
      refine congrArg Attempt.instr? (hloops.log (fun a ha => ?_) t ht)
      obtain ⟨op, hop, hneeds⟩ := exists_needs_of_mem_trace ha
      rwa [needs_of_isFrame (hframes op hop)] at hneeds
    rw [hjump]
    exact ⟨nofun, nofun⟩

/-! ## The schedule of a program -/

/-- The timers and the buzzer follow the frames.

On a machine in any state, frames are executed one after the other, at the clock of the machine or of
any number of steps, none included.  All of them succeed, and none executes an instruction that sets
the delay timer or the sound timer.  After any number of them, each timer has counted down once for
each, and has stopped at zero.  The sounds that were cued are those of the sound timer on its way
down, from one less than it stood at to what is left of it, but no lower than one: `j` sixtieths of a
second, in whole milliseconds.  Every single frame adds one of them, from the first frame on, until
there are none left. -/
theorem timers_follow_frames (hframes : ∀ op ∈ ops, op.IsFrame)
    (hok : ∀ a ∈ s.answers ops, ∃ flow, a = .ran (.ok flow))
    (hquiet : s.machine.LeavesTimers (s.trace ops)) :
    let delay := s.machine.state.delay.toNat
    let sound := s.machine.state.sound.toNat
    let millis : Nat → Nat := fun j => j * 1000 / 60
    let sounded : Nat → List UInt32 := fun k => (s.run (ops.take k)).machine.recording.cues.toList
    (∀ k ≤ ops.length,
      (s.run (ops.take k)).machine.state.delay.toNat = delay - k ∧
        (s.run (ops.take k)).machine.state.sound.toNat = sound - k ∧
        ∃ cues, sounded k = s.machine.recording.cues.toList ++ cues ∧
          cues.map UInt32.toNat = (List.Ico (max (sound - k) 1) sound).reverse.map millis) ∧
      ∀ k < ops.length, ∃ cue? : Option UInt32, sounded (k + 1) = sounded k ++ cue?.toList ∧
        cue?.map UInt32.toNat = if k + 1 < sound then some (millis (sound - (k + 1))) else none := by
  intro delay sound millis sounded
  refine ⟨fun k hk => ?_, fun k hk => ?_⟩
  · have helapses := elapses_run_take hframes hok hquiet k hk
    refine ⟨?_, ?_, _, helapses.cues_eq, Timing.map_endCues _ k⟩
    · rw [helapses.delay_eq, Timing.toNat_elapse]
    · rw [helapses.sound_eq, Timing.toNat_elapse]
  · -- What one frame adds is the difference of two schedules.
    have hbefore := (elapses_run_take hframes hok hquiet k (Nat.le_of_lt hk)).cues_eq
    have hafter := (elapses_run_take hframes hok hquiet (k + 1) hk).cues_eq
    refine ⟨Timing.endCue? (Timing.elapse s.machine.state.sound k), ?_, ?_⟩
    · rw [Timing.endCues_succ, ← List.append_assoc, ← hbefore] at hafter
      exact hafter
    · have hlater : 1 < sound - k ↔ k + 1 < sound := by omega
      have hleft : sound - k - 1 = sound - (k + 1) := by omega
      rw [Timing.map_endCue?, Timing.toNat_elapse, hleft]
      exact if_congr hlater rfl rfl

/-- A program that jumps to itself, in frames of different lengths.  They go on when the timers have
long stopped. -/
theorem timers_follow_frames_of_loop :
    let m := (new {} fun _ => 0).restore { State.boot #[0x12, 0x00] with delay := 2, sound := 4 }
    let s := start m
    let ops := [.frame 0, .clockedFrame, .frame 2, .frame 7, .clockedFrame]
    (∀ op ∈ ops, op.IsFrame) ∧ (∀ a ∈ s.answers ops, ∃ flow, a = .ran (.ok flow)) ∧
      s.machine.LeavesTimers (s.trace ops) ∧
      (s.run (ops.take 1)).machine.state.delay.toNat = 1 ∧
      (s.run (ops.take 1)).machine.state.sound.toNat = 3 ∧
      (s.run ops).machine.state.delay.toNat = 0 ∧ (s.run ops).machine.state.sound.toNat = 0 ∧
      (s.run ops).machine.recording.cues.toList.map UInt32.toNat = [50, 33, 16] := by
  intro m s ops
  have hframes : ∀ op ∈ ops, op.IsFrame := by
    simp [ops, Operation.IsFrame]
  have hspins : (m.restore (State.boot #[0x12, 0x00])).Spins 0 := ⟨rfl, rfl⟩
  have hsame : s.machine.UpToTimers (m.restore (State.boot #[0x12, 0x00])) := ⟨rfl, rfl⟩
  have hloops : s.machine.Loops := ⟨_, 0, hsame, hspins⟩
  have hdelay : s.machine.state.delay.toNat = 2 := rfl
  have hsound : s.machine.state.sound.toNat = 4 := rfl
  have hcues : s.machine.recording.cues.toList = [] := rfl
  have hlength : ops.take 5 = ops := rfl
  -- How the machine was built does not matter any more.
  clear_value s
  obtain ⟨hok, hquiet⟩ := run_of_loops hloops hframes
  obtain ⟨hafter, _⟩ := timers_follow_frames hframes hok hquiet
  obtain ⟨hdelayFirst, hsoundFirst, _⟩ := hafter 1 (by decide)
  obtain ⟨hdelayLast, hsoundLast, cues, hsounded, hmillis⟩ := hafter 5 (by decide)
  have hall : (s.run ops).machine.recording.cues.toList = s.machine.recording.cues.toList ++ cues :=
    hlength ▸ hsounded
  rw [hlength] at hdelayLast hsoundLast
  rw [hdelay] at hdelayFirst hdelayLast
  rw [hsound] at hsoundFirst hsoundLast hmillis
  refine ⟨hframes, hok, hquiet, hdelayFirst, hsoundFirst, hdelayLast, hsoundLast, ?_⟩
  rw [hall, hcues, List.nil_append, hmillis]
  rfl

end Stepper
end Chip8
