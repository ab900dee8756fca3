import Chip8.Proofs.Session.Action
import Chip8.Stepper

/-!
# Operations — what a host asks for

A host drives a machine by single actions, by batches and frames, and through a stepper while the
machine is paused.  A stepper holds its machine and a countdown, so it is what a host session works
on: the other operations leave the countdown alone.

Every operation comes to a list of actions, which depends on the machine, since a batch ends with its
first fault.  `Stepper.machine_run` says that a session changes its machine by these actions and by
nothing else, so what is proved of runs of actions holds of sessions.
-/

namespace Chip8

/-- The fault that an operation failed with. -/
def Answer.fault? : Answer → Option Fault
  | .loaded (.error fault) => some fault
  | .ran (.error fault) => some fault
  | _ => none

theorem Answer.fault?_ran {outcome : Outcome} {fault : Fault} :
    (Answer.ran outcome).fault? = some fault ↔ outcome = .error fault := by
  cases outcome with
  | ok flow => simp [fault?]
  | error cause => simp [fault?]

/-- What a host can ask for. -/
inductive Operation where
  /-- A single action. -/
  | act (a : Action)
  /-- A number of steps outside of any frame. -/
  | steps (n : Nat)
  /-- A frame of a number of steps. -/
  | frame (instructions : Nat)
  /-- A frame at the machine's clock. -/
  | clockedFrame
  /-- A copy of the state. -/
  | snapshot
  /-- A new stepper, at the start of a frame. -/
  | pause
  /-- One step of the stepper. -/
  | forward
  /-- One step back of the stepper. -/
  | backward

namespace Operation

/-- The actions that an operation can come to. -/
def needs : Operation → List Action
  | .act a => [a]
  | .steps _ => [.step]
  | .frame _ => [.step, .finishFrame]
  | .clockedFrame => [.step, .finishFrame]
  | .snapshot => []
  | .pause => []
  | .forward => [.step, .finishFrame]
  | .backward => [.undo]

/-- Only single actions come to anything but steps, ends of frames and steps back. -/
theorem needs_cases {op : Operation} {a : Action} (h : a ∈ op.needs) :
    op = .act a ∨ a = .step ∨ a = .finishFrame ∨ a = .undo := by
  cases op with
  | act b =>
    rw [List.mem_singleton.mp h]
    exact .inl rfl
  | _ => grind [needs]

end Operation

namespace Machine

/-! ## The actions of a batch -/

/-- The steps that are tried in a batch: all of them, or those up to the first that fails. -/
def tries (m : Machine) : Nat → List Action
  | 0 => []
  | n + 1 => .step ::
    match m.step with
    | (.ok _, m) => m.tries n
    | (.error _, _) => []

/-- The steps of a frame, and its end unless a step fails. -/
def frameActions (m : Machine) (instructions : Nat) : List Action :=
  m.tries instructions ++ if (m.steps instructions).1.isOk then [.finishFrame] else []

theorem eq_step_of_mem_tries {m : Machine} {n : Nat} {a : Action} (h : a ∈ m.tries n) :
    a = .step := by
  induction n generalizing m with
  | zero => cases h
  | succ n ih =>
    rcases List.mem_cons.mp h with rfl | h
    · rfl
    · split at h
      · exact ih h
      · cases h

theorem mem_of_mem_frameActions {m : Machine} {n : Nat} {a : Action}
    (h : a ∈ m.frameActions n) : a ∈ [Action.step, .finishFrame] := by
  rcases List.mem_append.mp h with h | h
  · rw [eq_step_of_mem_tries h]
    exact List.mem_cons_self
  · split at h
    · rw [List.mem_singleton.mp h]
      exact List.mem_cons_of_mem _ List.mem_cons_self
    · cases h

theorem acts_tries (m : Machine) (flow : Flow) (n : Nat) :
    m.acts (m.tries n) = (stepsFrom flow n m).2 := by
  induction n generalizing m flow with
  | zero => rfl
  | succ n ih =>
    simp only [tries, stepsFrom, acts, act]
    split
    · rename_i flow' m' hstep
      rw [hstep]
      exact ih m' flow'
    · rename_i fault m' hstep
      rw [hstep]
      rfl

theorem acts_frameActions (m : Machine) (instructions : Nat) :
    m.acts (m.frameActions instructions) = (m.frame instructions).2 := by
  have hsteps : m.acts (m.tries instructions) = (m.steps instructions).2 :=
    acts_tries m .next instructions
  rw [frameActions, acts_append, hsteps, frame]
  cases h : m.steps instructions with
  | mk outcome m' =>
    cases outcome <;> rfl

theorem frame_outcome (m : Machine) (instructions : Nat) :
    (m.frame instructions).1 = (m.steps instructions).1 := by
  simp only [frame]
  split <;> simp [*]

theorem frameSteps_eq {m n : Machine} (h : m.clock = n.clock) :
    m.frameSteps = n.frameSteps := by
  simp only [frameSteps, stepsPerFrame, h]

end Machine

namespace Stepper

/-! ## Steps of a stepper -/

theorem forward_outcome (s : Stepper) : s.forward.1 = s.machine.step.1 := by
  simp only [forward]
  split
  · simp [*]
  · split <;> simp [*]

theorem backward_changed (s : Stepper) : s.backward.1 = s.machine.undo.1 := by
  simp only [backward]
  split <;> simp [*]

theorem countdown_forward (s : Stepper) :
    s.forward.2.countdown =
      if s.machine.step.1.isOk then
        if s.countdown - 1 = 0 then s.machine.frameSteps else s.countdown - 1
      else s.countdown := by
  have hclock : s.machine.step.2.clock = s.machine.clock := Machine.clock_act s.machine .step
  simp only [forward]
  split
  · simp [*, Except.isOk, Except.toBool]
  · rename_i flow m hstep
    rw [hstep] at hclock
    split <;> simp [*, Except.isOk, Except.toBool, Machine.frameSteps_eq hclock]

theorem countdown_backward (s : Stepper) :
    s.backward.2.countdown =
      if s.machine.undo.1 then min (s.countdown + 1) s.machine.frameSteps else s.countdown := by
  have hclock : s.machine.undo.2.clock = s.machine.clock := Machine.clock_act s.machine .undo
  simp only [backward]
  split
  · simp [*]
  · rename_i m hundo
    rw [hundo] at hclock
    simp [*, Machine.frameSteps_eq hclock]

/-! ## Sessions -/

/-- A session with a machine that was just switched on. -/
def powerOn (settings : Settings) (entropy : Nat → UInt32) : Stepper :=
  start (Machine.new settings entropy)

/-- Perform an operation. -/
def perform (s : Stepper) : Operation → Answer × Stepper
  | .act a => (s.machine.answer a, { s with machine := s.machine.act a })
  | .steps n =>
    let (outcome, m) := s.machine.steps n
    (.ran outcome, { s with machine := m })
  | .frame instructions =>
    let (outcome, m) := s.machine.frame instructions
    (.ran outcome, { s with machine := m })
  | .clockedFrame =>
    let (outcome, m) := s.machine.clockedFrame
    (.ran outcome, { s with machine := m })
  | .snapshot => (.snapshot s.machine.state, s)
  | .pause => (.done, start s.machine)
  | .forward =>
    let (outcome, s) := s.forward
    (.ran outcome, s)
  | .backward =>
    let (changed, s) := s.backward
    (.undone changed, s)

/-- The session after a list of operations. -/
def run (s : Stepper) : List Operation → Stepper
  | [] => s
  | op :: ops => (s.perform op).2.run ops

/-- The answers to a list of operations, in order. -/
def answers (s : Stepper) : List Operation → List Answer
  | [] => []
  | op :: ops => (s.perform op).1 :: (s.perform op).2.answers ops

/-- The actions that an operation comes to. -/
def actions (s : Stepper) : Operation → List Action
  | .act a => [a]
  | .steps n => s.machine.tries n
  | .frame instructions => s.machine.frameActions instructions
  | .clockedFrame => s.machine.frameActions s.machine.stepsPerFrame
  | .snapshot => []
  | .pause => []
  | .forward => .step ::
    if s.machine.step.1.isOk = true ∧ s.countdown - 1 = 0 then [.finishFrame] else []
  | .backward => [.undo]

/-- The actions that a list of operations comes to. -/
def trace (s : Stepper) : List Operation → List Action
  | [] => []
  | op :: ops => s.actions op ++ (s.perform op).2.trace ops

theorem mem_needs_of_mem_actions {s : Stepper} {op : Operation} {a : Action}
    (h : a ∈ s.actions op) : a ∈ op.needs := by
  cases op with
  | act b => exact h
  | steps n =>
    rw [Machine.eq_step_of_mem_tries h]
    exact List.mem_cons_self
  | frame n => exact Machine.mem_of_mem_frameActions h
  | clockedFrame => exact Machine.mem_of_mem_frameActions h
  | snapshot => exact h
  | pause => exact h
  | forward =>
    rcases List.mem_cons.mp h with rfl | h
    · exact List.mem_cons_self
    · split at h
      · exact List.mem_cons_of_mem _ h
      · cases h
  | backward => exact h

theorem exists_needs_of_mem_trace {s : Stepper} {ops : List Operation} {a : Action}
    (h : a ∈ s.trace ops) : ∃ op ∈ ops, a ∈ op.needs := by
  induction ops generalizing s with
  | nil => cases h
  | cons op ops ih =>
    rcases List.mem_append.mp h with h | h
    · exact ⟨op, List.mem_cons_self, mem_needs_of_mem_actions h⟩
    · rcases ih h with ⟨o, ho, ha⟩
      exact ⟨o, List.mem_cons_of_mem op ho, ha⟩

/-! ## Sessions one after the other -/

theorem run_append (s : Stepper) (ops more : List Operation) :
    s.run (ops ++ more) = (s.run ops).run more := by
  induction ops generalizing s with
  | nil => rfl
  | cons op ops ih => exact ih (s.perform op).2

theorem answers_append (s : Stepper) (ops more : List Operation) :
    s.answers (ops ++ more) = s.answers ops ++ (s.run ops).answers more := by
  induction ops generalizing s with
  | nil => rfl
  | cons op ops ih =>
    have hrest := ih (s.perform op).2
    simp only [List.cons_append, answers, run, hrest]

theorem trace_append (s : Stepper) (ops more : List Operation) :
    s.trace (ops ++ more) = s.trace ops ++ (s.run ops).trace more := by
  induction ops generalizing s with
  | nil => rfl
  | cons op ops ih => rw [List.cons_append, trace, ih, trace, run, List.append_assoc]

/-- An operation that leaves the session as it is gets the same answer every time. -/
theorem replicate_of_fixed {s : Stepper} {op : Operation} {a : Answer}
    (hfixed : s.perform op = (a, s)) (n : Nat) :
    s.run (List.replicate n op) = s ∧ s.answers (List.replicate n op) = List.replicate n a := by
  induction n with
  | zero => exact ⟨rfl, rfl⟩
  | succ n ih =>
    rcases ih with ⟨hrun, hanswers⟩
    simp only [List.replicate_succ, run, answers, hfixed]
    exact ⟨hrun, congrArg (a :: ·) hanswers⟩

/-! ## Sessions are runs of actions -/

theorem machine_forward (s : Stepper) :
    s.forward.2.machine = s.machine.acts (s.actions .forward) := by
  cases hstep : s.machine.step with
  | mk outcome m =>
    cases outcome with
    | error fault => simp [forward, actions, Machine.acts, Machine.act, hstep, Except.isOk,
        Except.toBool]
    | ok flow =>
      by_cases hlast : s.countdown - 1 = 0 <;>
        simp [forward, actions, Machine.acts, Machine.act, hstep, hlast, Except.isOk, Except.toBool]

theorem machine_backward (s : Stepper) :
    s.backward.2.machine = s.machine.undo.2 := by
  cases hundo : s.machine.undo with
  | mk changed m => cases changed <;> simp [backward, hundo]

theorem machine_perform (s : Stepper) (op : Operation) :
    (s.perform op).2.machine = s.machine.acts (s.actions op) := by
  cases op with
  | act a => rfl
  | steps n => exact (Machine.acts_tries s.machine .next n).symm
  | frame instructions => exact (Machine.acts_frameActions s.machine instructions).symm
  | clockedFrame => exact (Machine.acts_frameActions s.machine s.machine.stepsPerFrame).symm
  | snapshot => rfl
  | pause => rfl
  | forward => exact machine_forward s
  | backward => exact machine_backward s

/-- A session changes its machine by the actions it comes to. -/
theorem machine_run (s : Stepper) (ops : List Operation) :
    (s.run ops).machine = s.machine.acts (s.trace ops) := by
  induction ops generalizing s with
  | nil => rfl
  | cons op ops ih => rw [run, ih, machine_perform, trace, Machine.acts_append]

/-! ## The countdown -/

/-- The countdown lies between one and the length of a frame. -/
structure InFrame (s : Stepper) : Prop where
  positive : 1 ≤ s.countdown
  within : s.countdown ≤ s.machine.frameSteps

theorem inFrame_start (m : Machine) : (start m).InFrame :=
  ⟨Nat.le_max_right _ _, Nat.le_refl _⟩

theorem frameSteps_perform (s : Stepper) (op : Operation) :
    (s.perform op).2.machine.frameSteps = s.machine.frameSteps := by
  apply Machine.frameSteps_eq
  rw [machine_perform, Machine.clock_acts]

theorem InFrame.perform {s : Stepper} (h : s.InFrame) (op : Operation) :
    (s.perform op).2.InFrame := by
  have hlength : 1 ≤ s.machine.frameSteps := Nat.le_max_right _ _
  rcases h with ⟨hpositive, hwithin⟩
  suffices hbounds : 1 ≤ (s.perform op).2.countdown ∧
      (s.perform op).2.countdown ≤ s.machine.frameSteps by
    refine ⟨hbounds.1, ?_⟩
    rw [frameSteps_perform]
    exact hbounds.2
  cases op with
  | pause => exact ⟨hlength, Nat.le_refl _⟩
  -- Counting down ends at one, where the countdown starts again.
  | forward =>
    rw [show (s.perform .forward).2.countdown = s.forward.2.countdown from rfl, countdown_forward]
    split
    · split
      · exact ⟨hlength, Nat.le_refl _⟩
      · omega
    · exact ⟨hpositive, hwithin⟩
  -- Counting up stops at the length of a frame.
  | backward =>
    rw [show (s.perform .backward).2.countdown = s.backward.2.countdown from rfl,
      countdown_backward]
    split
    · omega
    · exact ⟨hpositive, hwithin⟩
  | _ => exact ⟨hpositive, hwithin⟩

theorem InFrame.run {s : Stepper} (h : s.InFrame) (ops : List Operation) : (s.run ops).InFrame := by
  induction ops generalizing s with
  | nil => exact h
  | cons op ops ih => exact ih (h.perform op)

end Stepper
end Chip8
