import Chip8.Proofs.Observers
import Chip8.Proofs.Presentation
import Chip8.Proofs.Session.Log

/-!
# Frames — what its steps do, and what its end adds

No step counts the timers down or presents the screen.  Steps cue the buzzer only with the instruction
that sets the sound timer (`Machine.stepCue?`), and each step that succeeds is told of once.  All the
rest is done by the end of the frame, and once: the timers count down, the buzzer is cued for what is
left of the sound timer, and the screen is presented.

So there are two kinds of frames.  If a step fails, the frame is no more than its steps up to this one
(`Machine.BreaksOff`); if no step fails, its end comes right after the last one (`Machine.Completes`).
-/

namespace Chip8

namespace Timing

/-- A timer after it has counted down a number of times. -/
def elapse (timer : UInt8) (frames : Nat) : UInt8 := UInt8.ofNat (timer.toNat - frames)

variable {timer : UInt8} {frames : Nat}

theorem toNat_elapse : (elapse timer frames).toNat = timer.toNat - frames :=
  UInt8.toNat_ofNat_of_lt' (Nat.lt_of_le_of_lt (Nat.sub_le _ _) timer.toNat_lt)

@[simp] theorem elapse_zero : elapse timer 0 = timer := UInt8.ofNat_toNat

theorem countDown_elapse : countDown (elapse timer frames) = elapse timer (frames + 1) := by
  apply UInt8.toNat.inj
  rw [toNat_countDown, toNat_elapse, toNat_elapse]
  rfl

/-- The sound at the end of a frame, for the sound timer before it. -/
def endCue? (sound : UInt8) : Option UInt32 :=
  if countDown sound = 0 then none else some (buzzerMillis (countDown sound))

/-- A frame sounds for what is left of the timer, unless that is nothing. -/
theorem map_endCue? (sound : UInt8) :
    (endCue? sound).map UInt32.toNat =
      if 1 < sound.toNat then some ((sound.toNat - 1) * 1000 / 60) else none := by
  have hzero : countDown sound = 0 ↔ ¬ 1 < sound.toNat := by
    rw [← UInt8.toNat_inj, toNat_countDown]
    show sound.toNat - 1 = 0 ↔ _
    omega
  by_cases hsilent : countDown sound = 0
  · rw [endCue?, if_pos hsilent, if_neg (hzero.mp hsilent)]
    rfl
  · have hsounds : 1 < sound.toNat := Decidable.by_contra fun h => hsilent (hzero.mpr h)
    rw [endCue?, if_neg hsilent, if_pos hsounds, Option.map_some, toNat_buzzerMillis,
      toNat_countDown]

end Timing

namespace State

/-- The state after a number of frames without steps. -/
def elapse (s : State) (frames : Nat) : State :=
  { s with delay := Timing.elapse s.delay frames, sound := Timing.elapse s.sound frames }

variable {s : State} {frames : Nat}

@[simp] theorem elapse_zero : s.elapse 0 = s := by
  simp only [elapse, Timing.elapse_zero]

theorem countDown_elapse : (s.elapse frames).countDown = s.elapse (frames + 1) := by
  simp only [elapse, countDown, Timing.countDown_elapse]

end State

theorem Recording.cues_cue? (r : Recording) (millis : Option UInt32) :
    (r.cue? millis).cues.toList = r.cues.toList ++ millis.toList := by
  cases millis with
  | none => exact (List.append_nil _).symm
  | some millis => exact Array.toList_push

namespace Machine

variable {m n : Machine} {flow : Flow} {fault : Fault} {i : Instr} {x : Reg} {r : Retired} {k : Nat}

/-! ## The cues of steps -/

/-- The sound that the next step makes, if it makes one. -/
def stepCue? (m : Machine) : Option UInt32 := m.next?.bind fun i => i.cue? m.state

theorem stepCue?_of_executes (h : m.Executes i) : m.stepCue? = i.cue? m.state := by
  rw [stepCue?, next?_eq_some_iff.mpr h]
  rfl

/-- Only an instruction that sets the sound timer makes a sound. -/
theorem stepCue?_of_silent (h : ∀ x, ¬ m.Executes (.setSound x)) : m.stepCue? = none := by
  cases hnext : m.next? with
  | none => rw [stepCue?, hnext, Option.bind_none]
  | some i =>
    have hexec : m.Executes i := next?_eq_some_iff.mp hnext
    rw [stepCue?_of_executes hexec]
    -- No other instruction has a sound.
    cases i with
    | setSound x => exact (h x hexec).elim
    | _ => rfl

theorem stepCue?_of_retired (hrun : m.halted = false) (h : m.core.step = .ok r) :
    m.stepCue? = r.cue := by
  -- A poll of the keypad executes no instruction but a wait.
  have hpolls {x : Reg} (hx : m.core.polled? = some x) : m.stepCue? = none :=
    stepCue?_of_silent fun y hexec => by cases hexec.eq_waitKey hx
  rcases Core.step_ok_wait_cases h with ⟨x, hx, _, rfl⟩ | ⟨x, key, hx, _, rfl⟩ |
    ⟨i, hwait, hword, hother, hexec⟩
  · exact hpolls hx
  · exact hpolls hx
  · rw [stepCue?_of_executes ⟨hrun, hwait, hword⟩]
    exact (Core.effect_of_execute hexec hother).cue_eq.symm

/-- An instruction that sets the sound timer does not fail. -/
theorem stepCue?_of_failed (h : m.step = (.error fault, n)) : m.stepCue? = none := by
  refine stepCue?_of_silent fun x hexec => ?_
  rw [step_of_retired hexec.1 hexec.core_step] at h
  cases h

/-! ## One step -/

/-- A step that fails changes nothing, and only its fault is reported. -/
theorem kept_of_failed_step (h : m.step = (.error fault, n)) :
    n.core = m.core ∧ n.deliveries = m.deliveries ∧
      n.recording = { m.recording with faults := n.recording.faults } := by
  rcases m.step_cases with ⟨_, hs⟩ | ⟨r, _, _, hs⟩ | ⟨cause, _, _, hs⟩
  · rw [hs] at h
    cases h
    exact ⟨rfl, rfl, rfl⟩
  · rw [hs] at h
    cases h
  · rw [hs] at h
    cases h
    exact ⟨rfl, rfl, rfl⟩

theorem cues_step (m : Machine) :
    m.step.2.recording.cues.toList = m.recording.cues.toList ++ m.stepCue?.toList := by
  cases hstep : m.step with
  | mk outcome next =>
    cases outcome with
    | ok flow =>
      obtain ⟨hrun, r, hcore, rfl, rfl⟩ := step_eq_ok_iff.mp hstep
      rw [stepCue?_of_retired hrun hcore]
      exact m.recording.cues_cue? r.cue
    | error fault =>
      rw [stepCue?_of_failed hstep, (kept_of_failed_step hstep).2.2]
      exact (List.append_nil _).symm

theorem presented_step (m : Machine) :
    m.step.2.recording.frames = m.recording.frames ∧
      m.step.2.recording.frame = m.recording.frame :=
  ⟨m.frames_act .step, m.frame_act .step⟩

theorem delay_step (h : ∀ x, ¬ m.Executes (.setDelay x)) :
    m.step.2.state.delay = m.state.delay := by
  refine step_keeps (fun c => c.state.delay) (fun _ _ => rfl) (fun _ _ _ => rfl) ?_
  intro i r hi heffect
  refine heffect.delay_eq ?_
  rintro x rfl
  exact h x hi

theorem sound_step (h : ∀ x, ¬ m.Executes (.setSound x)) :
    m.step.2.state.sound = m.state.sound := by
  refine step_keeps (fun c => c.state.sound) (fun _ _ => rfl) (fun _ _ _ => rfl) ?_
  intro i r hi heffect
  refine heffect.sound_eq fun hflow => ?_
  cases i with
  | setSound x => exact h x hi
  | _ => cases hflow

/-! ## The steps of a frame -/

/-- The sounds that the next steps make, in order. -/
def stepCues (m : Machine) (k : Nat) : List UInt32 :=
  (List.range k).filterMap fun j => (m.after j).stepCue?

/-- What is told of a step that succeeds behind a number of others. -/
def retirement (m : Machine) (j : Nat) : Change :=
  ⟨.retired, (m.after (j + 1)).state, m.observers⟩

theorem stepCues_of_silent (h : ∀ j < k, ∀ x, ¬ (m.after j).Executes (.setSound x)) :
    m.stepCues k = [] :=
  List.filterMap_eq_nil_iff.mpr fun j hj => stepCue?_of_silent (h j (List.mem_range.mp hj))

theorem retirements_of_succeeds (hok : ∀ j < k, (m.after j).step.1.isOk = true) :
    m.retirements k = (List.range k).map m.retirement := by
  have hall : (List.range k).filter (fun j => (m.after j).step.1.isOk) = List.range k :=
    List.filter_eq_self.mpr fun j hj => hok j (List.mem_range.mp hj)
  rw [retirements, hall]
  rfl

theorem cues_after (m : Machine) (k : Nat) :
    (m.after k).recording.cues.toList = m.recording.cues.toList ++ m.stepCues k := by
  induction k with
  | zero => exact (List.append_nil _).symm
  | succ k ih =>
    rw [after_succ, cues_step, ih, stepCues, stepCues, List.range_succ, List.filterMap_append,
      List.append_assoc]
    rfl

theorem presented_after (m : Machine) (k : Nat) :
    (m.after k).recording.frames = m.recording.frames ∧
      (m.after k).recording.frame = m.recording.frame := by
  induction k with
  | zero => exact ⟨rfl, rfl⟩
  | succ k ih =>
    rw [after_succ]
    exact ⟨(m.after k).presented_step.1.trans ih.1, (m.after k).presented_step.2.trans ih.2⟩

theorem told_after (hok : ∀ j < k, (m.after j).step.1.isOk = true) :
    (m.after k).deliveries.toList =
      m.deliveries.toList ++ ((List.range k).map m.retirement).flatMap Change.deliveries := by
  rw [← retirements_of_succeeds hok, ← changes_tries, ← deliveries_acts, acts_tries m .next,
    machine_stepsFrom]

theorem delay_after (h : ∀ j < k, ∀ x, ¬ (m.after j).Executes (.setDelay x)) :
    (m.after k).state.delay = m.state.delay := by
  induction k with
  | zero => rfl
  | succ k ih =>
    rw [after_succ, delay_step (h k (Nat.lt_succ_self k))]
    exact ih fun j hj => h j (Nat.lt_succ_of_lt hj)

theorem sound_after (h : ∀ j < k, ∀ x, ¬ (m.after j).Executes (.setSound x)) :
    (m.after k).state.sound = m.state.sound := by
  induction k with
  | zero => rfl
  | succ k ih =>
    rw [after_succ, sound_step (h k (Nat.lt_succ_self k))]
    exact ih fun j hj => h j (Nat.lt_succ_of_lt hj)

/-! ## The end of a frame -/

theorem cues_finishFrame (m : Machine) :
    m.finishFrame.recording.cues.toList =
      m.recording.cues.toList ++ (Timing.endCue? m.state.sound).toList := by
  have hsound : m.state.countDown.sound = Timing.countDown m.state.sound := rfl
  rw [recording_finishFrame, outputs, hsound, Timing.endCue?]
  split
  · exact (List.append_nil _).symm
  · exact Array.toList_push

theorem presented_finishFrame (m : Machine) :
    m.finishFrame.recording.frames = m.recording.frames + 1 ∧
      m.finishFrame.recording.frame = some m.state.screen := by
  refine ⟨m.frames_act .finishFrame, (m.frame_act .finishFrame).trans ?_⟩
  rw [act, state_finishFrame]
  rfl

/-! ## Whole frames -/

/-- What is left of a frame whose first steps succeed, `j` of them, and whose next one fails. -/
structure BreaksOff (m : Machine) (j : Nat) (fault : Fault) (n : Machine) : Prop where
  steps_ok : ∀ i < j, (m.after i).step.1.isOk = true
  fails : (m.after j).step = (.error fault, n)
  core_eq : n.core = (m.after j).core
  /-- No timer has counted down. -/
  delay_eq : (∀ i < j, ∀ x, ¬ (m.after i).Executes (.setDelay x)) → n.state.delay = m.state.delay
  sound_eq : (∀ i < j, ∀ x, ¬ (m.after i).Executes (.setSound x)) → n.state.sound = m.state.sound
  /-- Nothing was presented. -/
  presented_eq : n.recording.frames = m.recording.frames ∧ n.recording.frame = m.recording.frame
  /-- No sounds were made but those of the steps. -/
  cues_eq : n.recording.cues.toList = m.recording.cues.toList ++ m.stepCues j
  /-- Nothing was told but the steps. -/
  told_eq : n.deliveries.toList =
    m.deliveries.toList ++ ((List.range j).map m.retirement).flatMap Change.deliveries

/-- What is left of a frame whose steps all succeed. -/
structure Completes (m : Machine) (k : Nat) (n : Machine) : Prop where
  steps_ok : ∀ i < k, (m.after i).step.1.isOk = true
  machine_eq : n = (m.after k).finishFrame
  /-- Each timer has counted down once from where the steps have left it, unless it stood at zero. -/
  delay_eq : n.state.delay.toNat = (m.after k).state.delay.toNat - 1
  sound_eq : n.state.sound.toNat = (m.after k).state.sound.toNat - 1
  /-- The timers apart, the core is as the steps have left it. -/
  core_eq : n.core = { (m.after k).core with
    state := { (m.after k).state with delay := n.state.delay, sound := n.state.sound } }
  presented_eq : n.recording.frames = m.recording.frames + 1 ∧
    n.recording.frame = some (m.after k).state.screen
  /-- Behind the sounds of the steps there is one of as many sixtieths of a second as the sound timer
  has left, in whole milliseconds, and none if it has nothing left. -/
  cues_eq : ∃ cue? : Option UInt32,
    n.recording.cues.toList = m.recording.cues.toList ++ m.stepCues k ++ cue?.toList ∧
      cue?.map UInt32.toNat =
        if 1 < (m.after k).state.sound.toNat then
          some (((m.after k).state.sound.toNat - 1) * 1000 / 60)
        else none
  told_eq : n.deliveries.toList = m.deliveries.toList ++
    ((List.range k).map m.retirement ++ [Change.mk .frameEnd n.state m.observers]).flatMap
      Change.deliveries

theorem frame_eq_error_iff :
    m.frame k = (.error fault, n) ↔ m.steps k = (.error fault, n) := by
  cases hsteps : m.steps k with
  | mk outcome next => cases outcome <;> simp [frame, hsteps]

theorem frame_eq_ok_iff :
    m.frame k = (.ok flow, n) ↔
      (m.steps k).1 = .ok flow ∧ n = (m.after k).finishFrame := by
  rw [← machine_stepsFrom m .next k]
  cases hsteps : m.steps k with
  | mk outcome next =>
    have hnext : (m.stepsFrom .next k).2 = next := congrArg Prod.snd hsteps
    rw [hnext]
    cases outcome <;> simp [frame, hsteps, eq_comm]

theorem breaksOff_of_failed_frame (h : m.frame k = (.error fault, n)) :
    ∃ j < k, m.BreaksOff j fault n := by
  obtain ⟨j, hj, hok, hfails⟩ := failed_step_of_failed_steps (frame_eq_error_iff.mp h)
  -- The failing step adds nothing but its report, so the steps before it say what is left.
  rcases kept_of_failed_step hfails with ⟨hcore, htold, hrecording⟩
  refine ⟨j, hj, hok, hfails, hcore, ?_, ?_, ?_, ?_, ?_⟩
  · intro hother
    rw [state, hcore]
    exact delay_after hother
  · intro hother
    rw [state, hcore]
    exact sound_after hother
  · rw [hrecording]
    exact m.presented_after j
  · rw [hrecording]
    exact m.cues_after j
  · rw [htold, told_after hok]

theorem completes_of_frame (h : m.frame k = (.ok flow, n)) : m.Completes k n := by
  obtain ⟨hsteps, rfl⟩ := frame_eq_ok_iff.mp h
  have hok : ∀ i < k, (m.after i).step.1.isOk = true :=
    isOk_stepsFrom_iff.mp (congrArg Except.isOk hsteps)
  have hstate : (m.after k).finishFrame.state = (m.after k).state.countDown := state_finishFrame _
  refine ⟨hok, rfl, ?_, ?_, ?_, ?_, ?_, ?_⟩
  · rw [hstate]
    exact Timing.toNat_countDown _
  · rw [hstate]
    exact Timing.toNat_countDown _
  · rw [hstate, core_finishFrame]
    rfl
  · rw [← (m.presented_after k).1]
    exact (m.after k).presented_finishFrame
  · exact ⟨_, by rw [cues_finishFrame, cues_after], Timing.map_endCue? _⟩
  · -- Nobody registers during the frame, so its end has the audience of its start.
    have hend := (m.after k).deliveries_acts [.finishFrame]
    simp only [acts, act, changes, event?, Option.map_some, observers_after, List.append_nil,
      Option.toList_some] at hend
    rw [hend, told_after hok, List.flatMap_append, List.append_assoc]

end Machine
end Chip8
