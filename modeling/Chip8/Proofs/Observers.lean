import Chip8.Proofs.Machine.Batch
import Chip8.Proofs.Session.Output

/-!
# Observers — every change is told of, in order

What happens to a machine is a sequence of changes: a step is executed, a frame ends, an earlier state
comes back.  `Stepper.changes` lists them by the outcomes of the operations, without looking at what
is delivered.  The deliveries of a machine are this list, each change told to all observers of that
time before the next one (`Stepper.deliveries_run`).  So an observer receives the changes that come
after its registration, and no others.
-/

namespace Chip8

/-- A change that observers are told of. -/
structure Change where
  event : Event
  /-- The state after the change. -/
  state : State
  /-- The number of observers at that time. -/
  audience : Nat

namespace Change

/-- The change as one observer receives it. -/
def notice (c : Change) (observer : Nat) : Delivery := ⟨observer, c.event, c.state⟩

/-- The change as all observers receive it, in the order of their registration. -/
def deliveries (c : Change) : List Delivery := (List.range c.audience).map c.notice

/-- Each observer receives a change once, if it is registered. -/
theorem filter_deliveries (c : Change) (observer : Nat) :
    c.deliveries.filter (fun d => d.observer = observer) =
      if observer < c.audience then [c.notice observer] else [] := by
  rcases c with ⟨event, s, audience⟩
  simp only [deliveries]
  induction audience with
  | zero => rfl
  | succ audience ih =>
    have hnotice : (Change.mk event s (audience + 1)).notice = (Change.mk event s audience).notice := rfl
    rw [List.range_succ, List.map_append, List.filter_append, hnotice, ih]
    rcases Nat.lt_trichotomy observer audience with hlt | rfl | hgt
    · simp [notice, hlt, Nat.lt_succ_of_lt hlt, Nat.ne_of_gt hlt]
    · simp [notice]
    · have hnot : ¬ observer < audience := by omega
      have hnot' : ¬ observer < audience + 1 := by omega
      simp [notice, hnot, hnot', Nat.ne_of_lt hgt]

variable {changes : List Change} {observer : Nat}

/-- Of changes that happened before its registration an observer receives nothing. -/
theorem filter_earlier (h : ∀ c ∈ changes, c.audience ≤ observer) :
    (changes.flatMap deliveries).filter (fun d => d.observer = observer) = [] := by
  induction changes with
  | nil => rfl
  | cons c changes ih =>
    have hnot : ¬ observer < c.audience := Nat.not_lt.mpr (h c List.mem_cons_self)
    rw [List.flatMap_cons, List.filter_append, filter_deliveries, if_neg hnot, List.nil_append]
    exact ih fun d hd => h d (List.mem_cons_of_mem c hd)

/-- Of changes that happen after its registration an observer receives every one, in order. -/
theorem filter_later (h : ∀ c ∈ changes, observer < c.audience) :
    (changes.flatMap deliveries).filter (fun d => d.observer = observer) =
      changes.map fun c => c.notice observer := by
  induction changes with
  | nil => rfl
  | cons c changes ih =>
    rw [List.flatMap_cons, List.filter_append, filter_deliveries, if_pos (h c List.mem_cons_self),
      List.map_cons, List.singleton_append]
    exact congrArg (c.notice observer :: ·) (ih fun d hd => h d (List.mem_cons_of_mem c hd))

end Change

namespace Machine

/-! ## Changes of actions -/

/-- The changes of a run of actions, in order. -/
def changes (m : Machine) : List Action → List Change
  | [] => []
  | a :: as =>
    ((m.event? a).map fun event => Change.mk event (m.act a).state m.observers).toList ++
      (m.act a).changes as

theorem changes_append (m : Machine) (as bs : List Action) :
    m.changes (as ++ bs) = m.changes as ++ (m.acts as).changes bs := by
  induction as generalizing m with
  | nil => rfl
  | cons a as ih => simp only [List.cons_append, changes, acts, ih, List.append_assoc]

/-- Nothing but a registration changes the number of observers. -/
theorem observers_act (m : Machine) (a : Action) :
    (m.act a).observers = match a with
      | .observe => m.observers + 1
      | _ => m.observers := by
  cases a with
  | load contents =>
    cases contents with
    | error text => rfl
    | ok program =>
      simp only [act, loadContents, load]
      split <;> rfl
  | step =>
    rcases step_cases m with ⟨_, hs⟩ | ⟨r, _, _, hs⟩ | ⟨cause, _, _, hs⟩ <;> rw [act, hs] <;> rfl
  | finishFrame =>
    simp only [act, finishFrame, cueBuzzer]
    split <;> rfl
  | undo =>
    simp only [act, undo]
    split <;> rfl
  | _ => rfl

theorem observers_acts {m : Machine} {as : List Action} (h : ∀ a ∈ as, a ≠ .observe) :
    (m.acts as).observers = m.observers := by
  induction as generalizing m with
  | nil => rfl
  | cons a as ih =>
    rw [acts, ih fun b hb => h b (List.mem_cons_of_mem a hb), observers_act]
    cases a with
    | observe => exact (h _ List.mem_cons_self rfl).elim
    | _ => rfl

theorem observers_after (m : Machine) (n : Nat) : (m.after n).observers = m.observers := by
  induction n with
  | zero => rfl
  | succ n ih => rw [after_succ, ← ih]; exact observers_act (m.after n) .step

theorem deliveries_acts (m : Machine) (as : List Action) :
    (m.acts as).deliveries.toList =
      m.deliveries.toList ++ (m.changes as).flatMap Change.deliveries := by
  induction as generalizing m with
  | nil => simp [acts, changes]
  | cons a as ih =>
    -- A registration is no change, so the observers after the action are those before it.
    have hone : (m.act a).notices (m.event? a) =
        ((m.event? a).map fun event => Change.mk event (m.act a).state m.observers).toList.flatMap
          Change.deliveries := by
      cases hevent : m.event? a with
      | none => rfl
      | some event =>
        have hsame : (m.act a).observers = m.observers := by
          rw [observers_act]
          cases a with
          | observe => cases hevent
          | _ => rfl
        simp [notices, hsame, Change.deliveries, Change.notice]
    rw [acts, ih, deliveries_act, changes, List.flatMap_append, hone, Array.toList_appendList,
      List.append_assoc]

/-! ## Changes of batches -/

/-- The steps that succeed among the next ones, each with the state after it. -/
def retirements (m : Machine) (n : Nat) : List Change :=
  ((List.range n).filter fun j => (m.after j).step.1.isOk).map fun j =>
    ⟨.retired, (m.after (j + 1)).state, m.observers⟩

/-- A frame ends after its steps if they all succeed, and its end counts the timers down. -/
def frameChanges (m : Machine) (n : Nat) : List Change :=
  m.retirements n ++
    if (m.frame n).1.isOk then [⟨.frameEnd, (m.after n).state.countDown, m.observers⟩] else []

/-- A step that is taken back brings an earlier state back. -/
def undoChanges (m : Machine) : List Change :=
  if m.undo.1 then [⟨.restored, m.undo.2.state, m.observers⟩] else []

theorem retirements_succ (m : Machine) (n : Nat) :
    m.retirements (n + 1) =
      (if m.step.1.isOk then [⟨.retired, m.step.2.state, m.observers⟩] else []) ++
        m.step.2.retirements n := by
  have hobservers : m.step.2.observers = m.observers := observers_act m .step
  rw [retirements, retirements, List.range_succ_eq_map, hobservers]
  cases hok : m.step.1.isOk <;> simp [List.filter_map, Function.comp_def, after, hok]

theorem retirements_of_halted {m : Machine} (hhalt : m.halted = true) (n : Nat) :
    m.retirements n = [] := by
  have hnone : (List.range n).filter (fun j => (m.after j).step.1.isOk) = [] := by
    rw [List.filter_eq_nil_iff]
    intro j _
    rw [after_of_halted hhalt, step_of_halted hhalt]
    exact Bool.false_ne_true
  rw [retirements, hnone, List.map_nil]

theorem audience_retirements {m : Machine} {n : Nat} {c : Change} (hc : c ∈ m.retirements n) :
    c.audience = m.observers := by
  obtain ⟨j, _, rfl⟩ := List.mem_map.mp hc
  rfl

theorem audience_undoChanges {m : Machine} {c : Change} (hc : c ∈ m.undoChanges) :
    c.audience = m.observers := by
  rw [undoChanges] at hc
  split at hc
  · rw [List.mem_singleton.mp hc]
  · cases hc

theorem audience_frameChanges {m : Machine} {n : Nat} {c : Change} (hc : c ∈ m.frameChanges n) :
    c.audience = m.observers := by
  rcases List.mem_append.mp hc with hc | hc
  · exact audience_retirements hc
  · split at hc
    · rw [List.mem_singleton.mp hc]
    · cases hc

theorem tries_one (m : Machine) : m.tries 1 = [.step] := by
  simp only [tries]
  split <;> rfl

theorem changes_tries (m : Machine) (n : Nat) : m.changes (m.tries n) = m.retirements n := by
  induction n generalizing m with
  | zero => rfl
  | succ n ih =>
    rw [retirements_succ, tries, changes]
    cases hstep : m.step with
    | mk outcome next =>
      cases outcome with
      | ok flow =>
        simp only [event?, act, hstep]
        rw [ih]
        rfl
      | error fault =>
        simp only [event?, act, hstep]
        rw [retirements_of_halted (halted_of_failed_step hstep)]
        rfl

theorem changes_undo (m : Machine) : m.changes [.undo] = m.undoChanges := by
  simp only [changes, event?, undoChanges]
  split <;> rfl

theorem changes_frameActions (m : Machine) (n : Nat) :
    m.changes (m.frameActions n) = m.frameChanges n := by
  have hafter : m.acts (m.tries n) = m.after n := by
    rw [acts_tries m .next, machine_stepsFrom]
  rw [frameActions, changes_append, changes_tries, hafter, frameChanges, frame_outcome]
  split
  · simp only [changes, event?, act, state_finishFrame, observers_after]
    rfl
  · rfl

end Machine

namespace Stepper

/-! ## Changes of operations -/

/-- The changes of an operation, by its outcome: each step that succeeds is one, the end of a frame is
one, and so is a state that comes back.  Steps that fail, frames that are not ended, loads, and steps
back that find nothing are none. -/
def changesOf (s : Stepper) : Operation → List Change
  | .act .step => s.machine.retirements 1
  | .act .finishFrame => [⟨.frameEnd, s.machine.state.countDown, s.machine.observers⟩]
  | .act .undo => s.machine.undoChanges
  | .act (.restore t) => [⟨.restored, t, s.machine.observers⟩]
  | .steps n => s.machine.retirements n
  | .frame n => s.machine.frameChanges n
  | .clockedFrame => s.machine.frameChanges s.machine.stepsPerFrame
  | .forward =>
    -- The countdown decides whether the step is the last one of its frame.
    if s.countdown - 1 = 0 then s.machine.frameChanges 1 else s.machine.retirements 1
  | .backward => s.machine.undoChanges
  | _ => []

/-- The changes of a list of operations, in order. -/
def changes (s : Stepper) : List Operation → List Change
  | [] => []
  | op :: ops => s.changesOf op ++ (s.perform op).2.changes ops

/-- A step of the stepper comes to a batch of one step, or to a frame of one step. -/
theorem actions_forward (s : Stepper) :
    s.actions .forward =
      if s.countdown - 1 = 0 then s.machine.frameActions 1 else s.machine.tries 1 := by
  have houtcome : (s.machine.steps 1).1.isOk = s.machine.step.1.isOk := by
    simp only [Machine.steps, Machine.stepsFrom]
    split <;> simp [*]
  rw [Machine.frameActions, Machine.tries_one, houtcome, actions]
  by_cases hlast : s.countdown - 1 = 0 <;> simp [hlast]

theorem changes_actions (s : Stepper) (op : Operation) :
    s.machine.changes (s.actions op) = s.changesOf op := by
  have hstep : s.machine.changes [.step] = s.machine.retirements 1 := by
    rw [← Machine.tries_one s.machine, Machine.changes_tries]
  cases op with
  | act a =>
    cases a with
    | step => exact hstep
    | undo => exact Machine.changes_undo s.machine
    | finishFrame =>
      simp only [actions, Machine.changes, Machine.event?, Machine.act, Machine.state_finishFrame]
      rfl
    | _ => rfl
  | steps n => exact Machine.changes_tries s.machine n
  | frame n => exact Machine.changes_frameActions s.machine n
  | clockedFrame => exact Machine.changes_frameActions s.machine s.machine.stepsPerFrame
  | snapshot => rfl
  | pause => rfl
  | forward =>
    rw [actions_forward, changesOf]
    split
    · exact Machine.changes_frameActions s.machine 1
    · exact Machine.changes_tries s.machine 1
  | backward => exact Machine.changes_undo s.machine

/-! ## Sessions -/

variable {s : Stepper} {op : Operation} {ops : List Operation}

/-- The deliveries of a session are its changes, each told to all observers before the next one. -/
theorem deliveries_run (s : Stepper) (ops : List Operation) :
    (s.run ops).machine.deliveries.toList =
      s.machine.deliveries.toList ++ (s.changes ops).flatMap Change.deliveries := by
  induction ops generalizing s with
  | nil => simp [run, changes]
  | cons op ops ih =>
    rw [run, ih, machine_perform, Machine.deliveries_acts, changes_actions, changes,
      List.flatMap_append, List.append_assoc]

theorem observers_perform (s : Stepper) (op : Operation) :
    (s.perform op).2.machine.observers = match op with
      | .act .observe => s.machine.observers + 1
      | _ => s.machine.observers := by
  by_cases hop : op = .act .observe
  · subst hop
    rfl
  · have hnone : ∀ a ∈ s.actions op, a ≠ .observe := by
      rintro a ha rfl
      rcases Operation.needs_cases (mem_needs_of_mem_actions ha) with h | h | h | h
      · exact hop h
      all_goals cases h
    rw [machine_perform, Machine.observers_acts hnone]
    split
    · exact (hop rfl).elim
    · rfl

theorem audience_changesOf {c : Change} (hc : c ∈ s.changesOf op) :
    c.audience = s.machine.observers := by
  cases op with
  | act a =>
    cases a with
    | step => exact Machine.audience_retirements hc
    | undo => exact Machine.audience_undoChanges hc
    | finishFrame => rw [List.mem_singleton.mp hc]
    | restore t => rw [List.mem_singleton.mp hc]
    | _ => cases hc
  | steps n => exact Machine.audience_retirements hc
  | frame n => exact Machine.audience_frameChanges hc
  | clockedFrame => exact Machine.audience_frameChanges hc
  | forward =>
    simp only [changesOf] at hc
    split at hc
    · exact Machine.audience_frameChanges hc
    · exact Machine.audience_retirements hc
  | backward => exact Machine.audience_undoChanges hc
  | _ => cases hc

theorem observers_le_perform (s : Stepper) (op : Operation) :
    s.machine.observers ≤ (s.perform op).2.machine.observers := by
  rw [observers_perform]
  split
  · exact Nat.le_succ _
  · exact Nat.le_refl _

theorem observers_le_run (s : Stepper) (ops : List Operation) :
    s.machine.observers ≤ (s.run ops).machine.observers := by
  induction ops generalizing s with
  | nil => exact Nat.le_refl _
  | cons op ops ih => exact Nat.le_trans (observers_le_perform s op) (ih (s.perform op).2)

/-- The audience of the changes grows from the observers at the start to those at the end. -/
theorem audience_changes {c : Change} (hc : c ∈ s.changes ops) :
    s.machine.observers ≤ c.audience ∧ c.audience ≤ (s.run ops).machine.observers := by
  induction ops generalizing s with
  | nil => cases hc
  | cons op ops ih =>
    have hgrows := observers_le_perform s op
    rcases List.mem_append.mp hc with hc | hc
    · rw [audience_changesOf hc]
      exact ⟨Nat.le_refl _, Nat.le_trans hgrows (observers_le_run (s.perform op).2 ops)⟩
    · rcases ih hc with ⟨hlow, hhigh⟩
      exact ⟨Nat.le_trans hgrows hlow, hhigh⟩

theorem changes_append (s : Stepper) (ops more : List Operation) :
    s.changes (ops ++ more) = s.changes ops ++ (s.run ops).changes more := by
  induction ops generalizing s with
  | nil => rfl
  | cons op ops ih => simp only [List.cons_append, changes, run, ih, List.append_assoc]

/-- Every observer of the end was there at the start or was registered in between. -/
theorem exists_registration {observer : Nat} (hnew : s.machine.observers ≤ observer)
    (h : observer < (s.run ops).machine.observers) :
    ∃ earlier later, ops = earlier ++ .act .observe :: later ∧
      (s.run earlier).machine.observers = observer := by
  induction ops generalizing s with
  | nil => exact absurd h (Nat.not_lt.mpr hnew)
  | cons op ops ih =>
    by_cases hnext : (s.perform op).2.machine.observers ≤ observer
    · obtain ⟨earlier, later, rfl, hobserver⟩ := ih hnext h
      exact ⟨op :: earlier, later, rfl, hobserver⟩
    -- The number passes the observer with this operation, so it registers the observer.
    · rw [observers_perform] at hnext
      split at hnext
      · exact ⟨[], ops, rfl, by show s.machine.observers = observer; omega⟩
      · exact absurd hnew hnext

/-- Observers are told of every change, in order, from their registration on.

Over any session with a new machine the deliveries are exactly the changes of the session, and each
of them goes to all observers of its time, in the order of their registration, before the next one.
So an observer receives exactly the changes of the operations behind its registration.  All observers
that the machine has were registered in the session, and nobody else receives anything. -/
theorem observers_told_in_order (settings : Settings) (entropy : Nat → UInt32)
    (ops : List Operation) :
    let start := powerOn settings entropy
    let m := (start.run ops).machine
    let log := m.deliveries.toList
    log = (start.changes ops).flatMap Change.deliveries ∧
      (∀ earlier later, ops = earlier ++ .act .observe :: later →
        let s := start.run earlier
        let observer := s.machine.observers
        log.filter (fun d => d.observer = observer) =
          ((s.perform (.act .observe)).2.changes later).map fun c => c.notice observer) ∧
      (∀ observer < m.observers, ∃ earlier later, ops = earlier ++ .act .observe :: later ∧
        (start.run earlier).machine.observers = observer) ∧
      ∀ d ∈ log, d.observer < m.observers := by
  intro start m log
  have hlog : log = (start.changes ops).flatMap Change.deliveries := by
    have hrun := deliveries_run start ops
    rwa [show start.machine.deliveries.toList = [] from rfl, List.nil_append] at hrun
  refine ⟨hlog, ?_, ?_, ?_⟩
  · rintro earlier later rfl s observer
    have hsplit : start.changes (earlier ++ .act .observe :: later) =
        start.changes earlier ++ (s.perform (.act .observe)).2.changes later :=
      changes_append start earlier _
    have hbefore : ∀ c ∈ start.changes earlier, c.audience ≤ observer :=
      fun c hc => (audience_changes hc).2
    have hafter : ∀ c ∈ (s.perform (.act .observe)).2.changes later, observer < c.audience :=
      fun c hc => (audience_changes hc).1
    rw [hlog, hsplit, List.flatMap_append, List.filter_append, Change.filter_earlier hbefore,
      Change.filter_later hafter, List.nil_append]
  · intro observer hobserver
    exact exists_registration (Nat.zero_le observer) hobserver
  · intro d hd
    rw [hlog] at hd
    obtain ⟨c, hc, hd⟩ := List.mem_flatMap.mp hd
    obtain ⟨observer, hobserver, rfl⟩ := List.mem_map.mp hd
    exact Nat.lt_of_lt_of_le (List.mem_range.mp hobserver) (audience_changes hc).2

end Stepper
end Chip8
