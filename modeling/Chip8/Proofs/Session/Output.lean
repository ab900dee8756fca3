import Chip8.Proofs.Session.Operation

/-!
# Output — what devices and observers receive from a run

An action presents a frame, cues the buzzer and reports a fault, or some of it, or nothing.
`Machine.outputs` lists what one action sends to the devices and `Machine.sent` what a run sends.
The recording of a machine is what it was before the run, with all of that added in order
(`Machine.recording_acts`), so the outputs are all that a recording can tell of a run.

Observers are told of an action once or not at all, and see the state after it
(`Machine.deliveries_act`).
-/

namespace Chip8

/-- Something that a device receives. -/
inductive Output where
  | frame (screen : Screen)
  | cue (millis : UInt32)
  | fault (fault : Fault)
  deriving DecidableEq

/-- The fault that is reported, if one is. -/
def Output.fault? : Output → Option Fault
  | .fault cause => some cause
  | _ => none

/-- The frame that is presented, if one is. -/
def Output.screen? : Output → Option Screen
  | .frame screen => some screen
  | _ => none

/-- Record one more output. -/
def Recording.add (r : Recording) : Output → Recording
  | .frame screen => r.present screen
  | .cue millis => r.cue millis
  | .fault fault => r.report fault

theorem Recording.faults_foldl_add (r : Recording) (outputs : List Output) :
    (outputs.foldl Recording.add r).faults = r.faults ++ outputs.filterMap Output.fault? := by
  induction outputs generalizing r with
  | nil => simp
  | cons output outputs ih =>
    rw [List.foldl_cons, ih]
    cases output with
    | frame screen => simp [Recording.add, Recording.present, List.filterMap_cons, Output.fault?]
    | cue millis => simp [Recording.add, Recording.cue, List.filterMap_cons, Output.fault?]
    | fault cause => simp [Recording.add, Recording.report, Output.fault?]

/-- The frames among the outputs are counted, and the last of them is kept. -/
theorem Recording.frame_foldl_add (r : Recording) (outputs : List Output) :
    (outputs.foldl Recording.add r).frames =
        r.frames + (outputs.filterMap Output.screen?).length ∧
      (outputs.foldl Recording.add r).frame =
        (outputs.filterMap Output.screen?).getLast?.or r.frame := by
  induction outputs generalizing r with
  | nil => exact ⟨rfl, rfl⟩
  | cons output outputs ih =>
    rcases ih (r.add output) with ⟨hframes, hframe⟩
    rw [List.foldl_cons, hframes, hframe]
    cases output with
    | frame screen =>
      simp only [Recording.add, Recording.present, List.filterMap_cons, Output.screen?]
      refine ⟨?_, ?_⟩
      · rw [List.length_cons]
        omega
      · rw [List.getLast?_cons]
        cases (outputs.filterMap Output.screen?).getLast? <;> rfl
    | cue millis => exact ⟨rfl, rfl⟩
    | fault cause => exact ⟨rfl, rfl⟩

namespace Machine

/-- What an action sends to the devices, in order. -/
def outputs (m : Machine) : Action → List Output
  | .load contents =>
    match (m.loadContents contents).1 with
    | .ok _ => []
    | .error fault => if fault.isFatal then [.fault fault] else []
  | .step =>
    if m.halted then []
    else
      match m.core.step with
      | .ok r => r.cue.toList.map .cue
      | .error cause => [.fault (.trap cause)]
  | .finishFrame =>
    let s := m.state.countDown
    (if s.sound = 0 then [] else [.cue (Timing.buzzerMillis s.sound)]) ++ [.frame s.screen]
  | .undo => if m.undo.1 then [.frame m.undo.2.state.screen] else []
  | .restore s => [.frame s.screen]
  | _ => []

/-- What a list of actions sends to the devices, in order. -/
def sent (m : Machine) : List Action → List Output
  | [] => []
  | a :: as => m.outputs a ++ (m.act a).sent as

/-- The end of a frame cues what is left of the sound timer, and presents the screen. -/
theorem recording_finishFrame (m : Machine) :
    m.finishFrame.recording = (m.outputs .finishFrame).foldl Recording.add m.recording := by
  -- The cue comes before the frame, and what is cued is the timer after it counted down.
  show (cueBuzzer _).recording.present (cueBuzzer _).state.screen = _
  by_cases hsound : m.state.countDown.sound = 0
  · have hsilent : (m.withState m.state.countDown).cueBuzzer = m.withState m.state.countDown :=
      if_pos hsound
    simp only [hsilent, outputs, hsound, if_true]
    rfl
  · have hcue : (m.withState m.state.countDown).cueBuzzer =
        { m.withState m.state.countDown with
          recording := m.recording.cue (Timing.buzzerMillis m.state.countDown.sound) } :=
      if_neg hsound
    simp only [hcue, outputs, hsound, if_false]
    rfl

/-- An action adds its outputs to the recording. -/
theorem recording_act (m : Machine) (a : Action) :
    (m.act a).recording = (m.outputs a).foldl Recording.add m.recording := by
  cases a with
  | load contents =>
    cases contents with
    | error text => rfl
    | ok program =>
      by_cases hfits : program.size ≤ Memory.programCapacity <;>
        simp [act, outputs, loadContents, load, hfits, Fault.isFatal, Recording.add, stopOn,
          withState]
  | step =>
    rcases step_cases m with ⟨hhalt, h⟩ | ⟨r, hhalt, hcore, h⟩ | ⟨cause, hhalt, hcore, h⟩
    · simp only [act, h, outputs, hhalt, if_true, List.foldl_nil]
    · simp only [act, h, outputs, hhalt, hcore, Bool.false_eq_true, if_false]
      show m.recording.cue? r.cue = _
      cases r.cue <;> rfl
    · simp only [act, h, outputs, hhalt, hcore, Bool.false_eq_true, if_false]
      rfl
  | finishFrame => exact recording_finishFrame m
  | undo =>
    cases hpop : m.history.pop? with
    | none => simp [act, outputs, undo, hpop]
    | some top =>
      simp only [act, outputs, undo, hpop, if_true]
      rfl
  | _ => rfl

theorem recording_acts (m : Machine) (as : List Action) :
    (m.acts as).recording = (m.sent as).foldl Recording.add m.recording := by
  induction as generalizing m with
  | nil => rfl
  | cons a as ih => rw [acts, ih, recording_act, sent, List.foldl_append]

/-! ## Observers -/

/-- What an action tells the observers, if it changes the state. -/
def event? (m : Machine) : Action → Option Event
  | .step => if m.step.1.isOk then some .retired else none
  | .finishFrame => some .frameEnd
  | .undo => if m.undo.1 then some .restored else none
  | .restore _ => some .restored
  | _ => none

/-- One event as all observers receive it. -/
def notices (m : Machine) : Option Event → List Delivery
  | none => []
  | some event => (List.range m.observers).map fun observer =>
      { observer, event, state := m.state }

theorem deliveries_finishFrame (m : Machine) :
    m.finishFrame.deliveries = m.deliveries ++ m.finishFrame.notices (some .frameEnd) := by
  -- The sound is cued before the observers are told, and changes nothing that they see.
  simp only [finishFrame, cueBuzzer]
  split <;> rfl

theorem deliveries_act (m : Machine) (a : Action) :
    (m.act a).deliveries = m.deliveries ++ (m.act a).notices (m.event? a) := by
  cases a with
  | load contents =>
    cases contents with
    | error text => exact Array.appendList_nil.symm
    | ok program =>
      simp only [act, event?, loadContents, load]
      split <;> exact Array.appendList_nil.symm
  | step =>
    rcases step_cases m with ⟨_, h⟩ | ⟨r, _, _, h⟩ | ⟨cause, _, _, h⟩
    · simp only [act, event?, h]
      exact Array.appendList_nil.symm
    · simp only [act, event?, h]
      rfl
    · simp only [act, event?, h]
      exact Array.appendList_nil.symm
  | finishFrame => exact deliveries_finishFrame m
  | undo =>
    cases hpop : m.history.pop? with
    | none =>
      simp only [act, event?, undo, hpop]
      exact Array.appendList_nil.symm
    | some top =>
      simp only [act, event?, undo, hpop]
      rfl
  | restore s => rfl
  | _ => exact Array.appendList_nil.symm

end Machine

namespace Stepper

/-- What a list of operations sends to the devices, in order. -/
def sent (s : Stepper) (ops : List Operation) : List Output :=
  s.machine.sent (s.trace ops)

theorem recording_run (s : Stepper) (ops : List Operation) :
    (s.run ops).machine.recording = (s.sent ops).foldl Recording.add s.machine.recording := by
  rw [machine_run, Machine.recording_acts, sent]

end Stepper
end Chip8
