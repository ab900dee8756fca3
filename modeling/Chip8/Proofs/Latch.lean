import Chip8.Proofs.Machine.Halted
import Chip8.Proofs.Session.Output

/-!
# The latch — a halted machine stays halted

A fatal fault halts the machine until a program is loaded that fits.  Between the two a host can take
steps back, restore states, move keys and even end frames, all of which change the machine; but no
step is executed, and nothing is reported except programs that do not fit.

What one action does to a halted machine is `Machine.latched_act`, and by induction it holds of runs
and sessions.
-/

namespace Chip8

/-- The action loads a program that fits, which ends a halt. -/
def Action.Clears : Action → Prop
  | .load (.ok program) => program.size ≤ Memory.programCapacity
  | _ => False

/-- The fault with which a load rejects its program, if it does. -/
def Action.rejection? : Action → Option Fault
  | .load (.ok program) =>
    if program.size ≤ Memory.programCapacity then none
    else some (.programTooLarge program.size Memory.programCapacity)
  | _ => none

namespace Operation

/-- The fault with which a load rejects its program, if it does. -/
def rejection? : Operation → Option Fault
  | .act a => a.rejection?
  | _ => none

/-- The operation tries at least one step. -/
def TriesStep (m : Machine) : Operation → Prop
  | .act .step => True
  | .steps n => 0 < n
  | .frame n => 0 < n
  | .clockedFrame => 0 < m.stepsPerFrame
  | .forward => True
  | _ => False

end Operation

namespace Machine

variable {m n k : Machine} {a : Action} {as bs : List Action}

/-! ## Actions -/

/-- The actions lead from one halted machine to another.  The observers have seen no step in between,
and only rejected programs were reported. -/
structure Latched (m n : Machine) (as : List Action) : Prop where
  halted : n.halted = true
  deliveries : ∃ newly : List Delivery, n.deliveries = m.deliveries ++ newly ∧
    ∀ d ∈ newly, d.event ≠ .retired
  faults : n.recording.faults = m.recording.faults ++ as.filterMap Action.rejection?

theorem Latched.refl (hhalt : m.halted = true) : Latched m m [] := by
  refine ⟨hhalt, ⟨[], by simp, ?_⟩, by simp⟩
  intro d hd
  cases hd

theorem Latched.trans (h : Latched m n as) (h' : Latched n k bs) : Latched m k (as ++ bs) := by
  obtain ⟨early, hearly, hnone⟩ := h.deliveries
  obtain ⟨late, hlate, hnone'⟩ := h'.deliveries
  refine ⟨h'.halted, ⟨early ++ late, ?_, ?_⟩, ?_⟩
  · rw [hlate, hearly]
    apply Array.toList_inj.mp
    simp
  · intro d hd
    rcases List.mem_append.mp hd with hd | hd
    · exact hnone d hd
    · exact hnone' d hd
  · rw [h'.faults, h.faults, List.filterMap_append]
    apply Array.toList_inj.mp
    simp

theorem halted_act (hhalt : m.halted = true) (ha : ¬ a.Clears) : (m.act a).halted = true := by
  cases a with
  | load contents =>
    cases contents with
    | error text => exact hhalt
    | ok program =>
      have hbig : ¬ program.size ≤ Memory.programCapacity := ha
      simp only [act, loadContents, load, hbig, if_false]
      rfl
  | step =>
    rw [act, step_of_halted hhalt]
    exact hhalt
  | finishFrame => exact (halted_finishFrame m).trans hhalt
  | undo =>
    simp only [act, undo]
    split
    · exact hhalt
    · exact hhalt
  | _ => exact hhalt

theorem event?_of_halted (hhalt : m.halted = true) (a : Action) : m.event? a ≠ some .retired := by
  cases a with
  | step => simp [event?, step_of_halted hhalt, Except.isOk, Except.toBool]
  | undo =>
    simp only [event?]
    split <;> simp
  | _ => simp [event?]

theorem mem_notices {e : Event} {d : Delivery} (hd : d ∈ m.notices (some e)) : d.event = e := by
  obtain ⟨observer, _, rfl⟩ := List.mem_map.mp hd
  rfl

/-- A halted machine reports nothing but a program that does not fit. -/
theorem reports_of_halted (hhalt : m.halted = true) (a : Action) :
    (m.outputs a).filterMap Output.fault? = a.rejection?.toList := by
  cases a with
  | load contents =>
    cases contents with
    | error text => rfl
    | ok program =>
      by_cases hfits : program.size ≤ Memory.programCapacity
      · simp [outputs, loadContents, load, Action.rejection?, hfits]
      · simp [outputs, loadContents, load, Action.rejection?, hfits, Fault.isFatal, Output.fault?]
  | step => simp [outputs, hhalt, Action.rejection?]
  | finishFrame =>
    simp only [outputs, Action.rejection?]
    split <;> rfl
  | undo =>
    simp only [outputs, Action.rejection?]
    split <;> rfl
  | _ => rfl

theorem latched_act (hhalt : m.halted = true) (ha : ¬ a.Clears) : Latched m (m.act a) [a] := by
  refine ⟨halted_act hhalt ha, ⟨_, deliveries_act m a, ?_⟩, ?_⟩
  -- All that one action delivers is of one event, which is not a step.
  · intro d hd
    have hevent := event?_of_halted hhalt a
    cases he : m.event? a with
    | none =>
      rw [he] at hd
      cases hd
    | some e =>
      rw [he] at hd hevent
      rw [mem_notices hd]
      intro hretired
      exact hevent (congrArg some hretired)
  · rw [recording_act, Recording.faults_foldl_add, reports_of_halted hhalt a]
    cases hreject : a.rejection? <;> simp [hreject]

theorem latched_acts (hhalt : m.halted = true) (has : ∀ a ∈ as, ¬ a.Clears) :
    Latched m (m.acts as) as := by
  induction as generalizing m with
  | nil => exact Latched.refl hhalt
  | cons a as ih =>
    have hfirst := latched_act hhalt (has a List.mem_cons_self)
    have hrest := ih hfirst.halted fun b hb => has b (List.mem_cons_of_mem a hb)
    exact hfirst.trans hrest

end Machine

namespace Stepper

open Machine

variable {s : Stepper} {op : Operation} {ops : List Operation} {fault : Fault}

/-! ## Operations -/

/-- An operation that meets a fatal fault leaves the machine halted. -/
theorem halted_of_fatal (hfault : (s.perform op).1.fault? = some fault)
    (hfatal : fault.isFatal = true) : (s.perform op).2.machine.halted = true := by
  cases op with
  | act a =>
    cases a with
    | load contents =>
      cases contents with
      | error text =>
        -- A file that could not be read is no fatal fault.
        obtain rfl : Fault.io text = fault := Option.some.inj hfault
        cases hfatal
      | ok program =>
        by_cases hfits : program.size ≤ Memory.programCapacity
        · simp [perform, answer, loadContents, load, hfits, Answer.fault?] at hfault
        · simp [perform, act, loadContents, load, hfits, stopOn]
    | step => exact halted_of_failed_step (Prod.ext (Answer.fault?_ran.mp hfault) rfl)
    | _ => cases hfault
  | steps n => exact halted_of_failed_steps (Prod.ext (Answer.fault?_ran.mp hfault) rfl)
  | frame n => exact halted_of_failed_frame (Prod.ext (Answer.fault?_ran.mp hfault) rfl)
  | clockedFrame => exact halted_of_failed_frame (Prod.ext (Answer.fault?_ran.mp hfault) rfl)
  | forward => exact halted_of_failed_forward (Prod.ext (Answer.fault?_ran.mp hfault) rfl)
  | _ => cases hfault

/-- Whatever tries a step of a halted machine is refused, and changes nothing. -/
theorem perform_of_halted (hhalt : s.machine.halted = true) (hop : op.TriesStep s.machine) :
    s.perform op = (.ran (.error .halted), s) := by
  cases op with
  | act a =>
    cases a with
    | step => simp only [perform, answer, act, step_of_halted hhalt]
    | _ => cases hop
  | steps n =>
    obtain ⟨k, rfl⟩ : ∃ k, n = k + 1 := ⟨n - 1, (Nat.succ_pred_eq_of_pos hop).symm⟩
    simp only [perform, steps, stepsFrom_of_halted hhalt]
  | frame n =>
    obtain ⟨k, rfl⟩ : ∃ k, n = k + 1 := ⟨n - 1, (Nat.succ_pred_eq_of_pos hop).symm⟩
    simp only [perform, frame_of_halted hhalt]
  | clockedFrame =>
    obtain ⟨k, hk⟩ : ∃ k, s.machine.stepsPerFrame = k + 1 :=
      ⟨s.machine.stepsPerFrame - 1, (Nat.succ_pred_eq_of_pos hop).symm⟩
    simp only [perform, clockedFrame, hk, frame_of_halted hhalt]
  | forward => simp only [perform, forward_of_halted hhalt]
  | _ => cases hop

/-- What runs on a halted machine tries no step. -/
theorem not_triesStep_of_ran {flow : Flow} (hhalt : s.machine.halted = true)
    (hran : (s.perform op).1 = .ran (.ok flow)) :
    op = .steps 0 ∨ op = .frame 0 ∨ op = .clockedFrame ∧ s.machine.stepsPerFrame = 0 := by
  -- It would have been refused.
  have hnone : ¬ op.TriesStep s.machine := by
    intro htries
    rw [perform_of_halted hhalt htries] at hran
    cases hran
  cases op with
  | act a =>
    cases a with
    | step => exact (hnone trivial).elim
    | _ => cases hran
  | steps n => exact .inl (congrArg _ (Nat.eq_zero_of_not_pos hnone))
  | frame n => exact .inr (.inl (congrArg _ (Nat.eq_zero_of_not_pos hnone)))
  | clockedFrame => exact .inr (.inr ⟨rfl, Nat.eq_zero_of_not_pos hnone⟩)
  | forward => exact (hnone trivial).elim
  | _ => cases hran

/-! ## Sessions -/

theorem not_clears_of_mem_trace (hops : ∀ a, Operation.act a ∈ ops → ¬ a.Clears) {a : Action}
    (ha : a ∈ s.trace ops) : ¬ a.Clears := by
  obtain ⟨op, hop, hneeds⟩ := exists_needs_of_mem_trace ha
  rcases Operation.needs_cases hneeds with rfl | rfl | rfl | rfl
  · exact hops a hop
  · exact id
  · exact id
  · exact id

theorem rejections_actions (s : Stepper) (op : Operation) :
    (s.actions op).filterMap Action.rejection? = op.rejection?.toList := by
  -- All other operations come to actions that reject nothing.
  by_cases hsingle : ∃ a, op = .act a
  · obtain ⟨a, rfl⟩ := hsingle
    cases hreject : a.rejection? <;> simp [actions, Operation.rejection?, hreject]
  · have hnone : op.rejection? = none := by
      cases op with
      | act a => exact (hsingle ⟨a, rfl⟩).elim
      | _ => rfl
    rw [hnone, Option.toList_none, List.filterMap_eq_nil_iff]
    intro a ha
    rcases Operation.needs_cases (mem_needs_of_mem_actions ha) with hact | rfl | rfl | rfl
    · exact (hsingle ⟨a, hact⟩).elim
    · rfl
    · rfl
    · rfl

theorem rejections_trace (s : Stepper) (ops : List Operation) :
    (s.trace ops).filterMap Action.rejection? = ops.filterMap Operation.rejection? := by
  induction ops generalizing s with
  | nil => rfl
  | cons op ops ih =>
    rw [trace, List.filterMap_append, rejections_actions, ih]
    cases hreject : op.rejection? <;> simp [hreject]

theorem latched_run (hhalt : s.machine.halted = true)
    (hops : ∀ a, Operation.act a ∈ ops → ¬ a.Clears) :
    Latched s.machine (s.run ops).machine (s.trace ops) := by
  rw [machine_run]
  exact latched_acts hhalt fun a ha => not_clears_of_mem_trace hops ha

/-- A fatal fault halts the machine until a program is loaded that fits.

After an operation that meets a fatal fault, and any operations without such a load, the machine is
still halted.  Whatever tries a step is refused and changes nothing, the stepper included.  Nothing
runs but batches without steps, and of these frames still end.  The observers have been told of no
step since the fault, and exactly the programs that did not fit were reported, each once.  The next
program that fits is loaded and runs. -/
theorem halted_until_load {first : Operation} (hfault : (s.perform first).1.fault? = some fault)
    (hfatal : fault.isFatal = true) (hops : ∀ a, Operation.act a ∈ ops → ¬ a.Clears) :
    let stopped := (s.perform first).2
    let now := stopped.run ops
    let m := now.machine
    m.halted = true ∧
      (∀ op, op.TriesStep m → now.perform op = (.ran (.error .halted), now)) ∧
      (∀ op flow, (now.perform op).1 = .ran (.ok flow) →
        op = .steps 0 ∨ op = .frame 0 ∨ op = .clockedFrame ∧ m.stepsPerFrame = 0) ∧
      m.steps 0 = (.ok .next, m) ∧
      m.frame 0 = (.ok .next, m.finishFrame) ∧
      (m.stepsPerFrame = 0 → m.clockedFrame = (.ok .next, m.finishFrame)) ∧
      (∃ newly : List Delivery, m.deliveries = stopped.machine.deliveries ++ newly ∧
        ∀ d ∈ newly, d.event ≠ .retired) ∧
      m.recording.faults =
        stopped.machine.recording.faults ++ ops.filterMap Operation.rejection? ∧
      ∀ program, program.size ≤ Memory.programCapacity →
        (m.load program).1 = .ok () ∧ (m.load program).2.halted = false ∧
          (m.load program).2.step.1 ≠ .error .halted := by
  intro stopped now m
  have hstopped : stopped.machine.halted = true := halted_of_fatal hfault hfatal
  have hlatched : Latched stopped.machine m (stopped.trace ops) := latched_run hstopped hops
  have hhalt : m.halted = true := hlatched.halted
  refine ⟨hhalt, ?_, ?_, rfl, rfl, ?_, hlatched.deliveries, ?_, ?_⟩
  · intro op hop
    exact perform_of_halted hhalt hop
  · intro op flow hran
    exact not_triesStep_of_ran hhalt hran
  · intro hzero
    rw [clockedFrame, hzero]
    rfl
  · rw [hlatched.faults, rejections_trace]
  · intro program hfits
    have hload : m.load program = (.ok (), { m.withState (State.boot program) with
        history := m.history.clear, halted := false }) := by
      simp only [load, hfits, if_true]
    rw [hload]
    refine ⟨rfl, rfl, ?_⟩
    intro hrefused
    obtain ⟨cause, hcause⟩ := trap_of_failed_step rfl hrefused
    cases hcause

theorem perform_forward_of_no_program (hrun : s.machine.halted = false)
    (hstate : s.machine.state = State.powerOn) :
    s.perform .forward = (.ran (.error (.trap (.unknownOpcode 0 0x200))),
      { s with machine := s.machine.stopOn (.trap (.unknownOpcode 0 0x200)) }) := by
  have hfetch : s.machine.core.state.fetch = 0 := by
    apply UInt16.toNat.inj
    rw [show s.machine.core.state = _ from hstate, State.powerOn, State.toNat_fetch_boot]
    rfl
  have hpc : s.machine.core.state.pc = 0x200 := by
    rw [show s.machine.core.state = _ from hstate]
    rfl
  have hwait : s.machine.core.state.keyWait = none := by
    rw [show s.machine.core.state = _ from hstate]
    rfl
  have hcore : s.machine.core.step = .error (.unknownOpcode 0 0x200) := by
    have hword : Instr.decode? s.machine.core.state.fetch = none := by
      rw [hfetch]
      rfl
    rw [Core.step_of_unknown hwait hword, hfetch, hpc]
  simp only [perform, forward, step_of_trapped hrun hcore]

/-- A machine without a program stops at its first step, and an attempt to load too much is reported
after that. -/
theorem halted_until_load_of_no_program :
    let s := powerOn {} fun _ => 0
    let opcode := Fault.trap (.unknownOpcode 0 0x200)
    let ops := [.act .undo, .act (.restore State.powerOn), .forward, .frame 0,
      .act (.load (.ok (Array.replicate 3585 0))), .act (.load (.error "missing")), .act .observe]
    let m := ((s.perform .forward).2.run ops).machine
    (s.perform .forward).1.fault? = some opcode ∧ m.halted = true ∧
      m.recording.faults = #[opcode, .programTooLarge 3585 3584] := by
  intro s opcode
  have hperform : s.perform .forward =
      (.ran (.error opcode), { s with machine := s.machine.stopOn opcode }) :=
    perform_forward_of_no_program rfl rfl
  have hfault : (s.perform .forward).1.fault? = some opcode := by
    rw [hperform]
    rfl
  -- The bytes of the rejected program do not matter.
  have hstops (rom : Program) (hsize : rom.size = 3585) :
      let ops := [.act .undo, .act (.restore State.powerOn), .forward, .frame 0,
        .act (.load (.ok rom)), .act (.load (.error "missing")), .act .observe]
      let m := ((s.perform .forward).2.run ops).machine
      m.halted = true ∧ m.recording.faults = #[opcode, .programTooLarge 3585 3584] := by
    intro ops m
    have hops : ∀ a, Operation.act a ∈ ops → ¬ a.Clears := by
      intro a ha
      simp only [ops, List.mem_cons, Operation.act.injEq, List.not_mem_nil, or_false,
        reduceCtorEq, false_or] at ha
      rcases ha with rfl | rfl | rfl | rfl | rfl <;>
        simp [Action.Clears, hsize, Memory.programCapacity, Memory.programStart]
    have hrejected : ops.filterMap Operation.rejection? = [.programTooLarge 3585 3584] := by
      simp [ops, List.filterMap_cons, Operation.rejection?, Action.rejection?, hsize,
        Memory.programCapacity, Memory.programStart]
    obtain ⟨hhalt, _, _, _, _, _, _, hreports, _⟩ := halted_until_load hfault rfl hops
    refine ⟨hhalt, ?_⟩
    rw [hreports, hrejected, hperform]
    rfl
  exact ⟨hfault, hstops (Array.replicate 3585 0) Array.size_replicate⟩

end Stepper
end Chip8
