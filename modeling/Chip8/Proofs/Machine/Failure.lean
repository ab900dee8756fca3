import Chip8.Proofs.Instr.Code
import Chip8.Proofs.Session.Reachable

/-!
# Failure — when a step fails, and what is left of it

The call stack of a reachable machine is never deeper than it can be.  So a running machine without a
pending key wait fails in exactly three cases: the word at the program counter stands for no
instruction, it is a call and the call stack is full, or it is a return and the call stack is empty.
A step that fails leaves the machine as it was, but for the halt and the report to the host.
-/

namespace Chip8

namespace CallStack

theorem depth_le_of_push? {s t : CallStack} {address : UInt16}
    (h : s.push? address = some t) : t.depth ≤ capacity := by
  rcases push?_eq_some_iff.mp h with ⟨hroom, rfl⟩
  exact hroom

theorem depth_le_of_pop? {s t : CallStack} {address : UInt16}
    (h : s.pop? = some (address, t)) : t.depth ≤ s.depth := by
  rcases pop?_eq_some_iff.mp h with ⟨hdepth, _, _⟩
  omega

end CallStack

/-- The call stack is never deeper than its cells reach. -/
theorem stackInvariant : StateInvariant fun s => s.stack.depth ≤ CallStack.capacity where
  boot _ := Nat.zero_le _
  step := by
    intro c r hdepth hstep
    rcases Core.step_ok_cases hstep with ⟨x, _, rfl⟩ | ⟨_, i, _, hexec⟩
    · rw [Core.stack_answerWait]
      exact hdepth
    · rcases Core.stack_of_execute hexec with ⟨_, _, hpush⟩ | ⟨_, hpop⟩ | hsame
      · exact CallStack.depth_le_of_push? hpush
      · exact Nat.le_trans (CallStack.depth_le_of_pop? hpop) hdepth
      · rw [hsame]
        exact hdepth
  countDown h := h

namespace Machine

variable {m : Machine}

/-- What becomes of a step of a running machine without a pending key wait, if its call stack is no
deeper than its cells reach. -/
theorem step_of_running (hdepth : m.state.stack.depth ≤ CallStack.capacity)
    (hhalt : m.halted = false) (hwait : m.state.keyWait = none) :
    (Instr.decode? m.state.fetch = none ∧
        m.step.1 = .error (.trap (.unknownOpcode m.state.fetch m.state.pc))) ∨
      (Instr.decode? m.state.fetch = some .ret ∧ m.state.stack.depth = 0 ∧
        m.step.1 = .error (.trap (.callStackUnderflow m.state.pc))) ∨
      ((∃ target, Instr.decode? m.state.fetch = some (.call target)) ∧
        m.state.stack.depth = CallStack.capacity ∧
        m.step.1 = .error (.trap (.callStackOverflow m.state.pc))) ∨
      ∃ i r, Instr.decode? m.state.fetch = some i ∧
        (i = .ret → m.state.stack.depth ≠ 0) ∧
        ((∃ target, i = .call target) → m.state.stack.depth ≠ CallStack.capacity) ∧
        m.step.1 = .ok r := by
  cases hword : Instr.decode? m.state.fetch with
  | none =>
    have hcore := Core.step_of_unknown hwait hword
    exact .inl ⟨rfl, by rw [step_of_trapped hhalt hcore]; rfl⟩
  | some i =>
    have hcore : m.core.step = m.core.execute i := Core.step_of_decoded hwait hword
    cases hexec : m.core.execute i with
    | error cause =>
      rw [hexec] at hcore
      have hfail := step_of_trapped hhalt hcore
      rcases Core.execute_error_iff.mp hexec with ⟨rfl, hempty, rfl⟩ | ⟨⟨target, rfl⟩, hfull, rfl⟩
      · exact .inr (.inl ⟨rfl, hempty, by rw [hfail]; rfl⟩)
      · exact .inr (.inr (.inl ⟨⟨target, rfl⟩, Nat.le_antisymm hdepth hfull, by rw [hfail]; rfl⟩))
    | ok r =>
      rw [hexec] at hcore
      have hnot : ∀ cause, m.core.execute i ≠ .error cause := by
        intro cause herror
        rw [hexec] at herror
        cases herror
      refine .inr (.inr (.inr ⟨i, r.flow, rfl, ?_, ?_, by rw [step_of_retired hhalt hcore]⟩))
      · intro hret hempty
        exact hnot _ (Core.execute_error_iff.mpr (.inl ⟨hret, hempty, rfl⟩))
      · intro hcall hfull
        exact hnot _ (Core.execute_error_iff.mpr (.inr ⟨hcall, Nat.le_of_eq hfull.symm, rfl⟩))

/-- When a step fails, and that it changes nothing then.

A halted machine stays as it is, and a pending key wait never fails.  Otherwise the word `w` at the
program counter decides, together with the depth of the call stack: the three faults are mutually
exclusive, each has its own condition, and without one of them the step succeeds.  After a fault the
machine differs from what it was before only in that it is halted and has reported the fault. -/
theorem step_failure_exact (hm : Reachable m) :
    (m.halted = true → m.step = (.error .halted, m)) ∧
      (m.halted = false → ∀ x, m.state.keyWait = some x → m.step.1.isOk = true) ∧
      (m.halted = false → m.state.keyWait = none →
        let w := m.state.fetch
        let pc := m.state.pc
        let depth := m.state.stack.depth
        w.toNat = m.state.memory.bytes[pc.toNat % 4096].toNat * 256 +
            m.state.memory.bytes[(pc.toNat + 1) % 4096].toNat ∧
          (m.step.1 = .error (.trap (.unknownOpcode w pc)) ↔ Instr.decode? w = none) ∧
          (m.step.1 = .error (.trap (.callStackOverflow pc)) ↔
            (∃ nnn : Addr, w.toNat = 0x2000 + nnn) ∧ depth = CallStack.capacity) ∧
          (m.step.1 = .error (.trap (.callStackUnderflow pc)) ↔ w = 0x00EE ∧ depth = 0) ∧
          (m.step.1.isOk = true ↔ Instr.decode? w ≠ none ∧
            ¬ ((∃ nnn : Addr, w.toNat = 0x2000 + nnn) ∧ depth = CallStack.capacity) ∧
            ¬ (w = 0x00EE ∧ depth = 0))) ∧
      ∀ cause n, m.step = (.error (.trap cause), n) →
        n = { m with
              halted := true
              recording := { m.recording with
                             faults := m.recording.faults.push (.trap cause) } } := by
  refine ⟨step_of_halted, ?_, ?_, ?_⟩
  · intro hhalt x hwait
    rw [step_of_retired hhalt (Core.step_of_waiting hwait)]
    rfl
  · intro hhalt hwait w pc depth
    have hdepth : depth ≤ CallStack.capacity := (hm.invariant stackInvariant).1
    have hword : w.toNat = m.state.memory.bytes[pc.toNat % 4096].toNat * 256 +
        m.state.memory.bytes[(pc.toNat + 1) % 4096].toNat :=
      Memory.toNat_word m.state.memory pc.toNat
    have hret : w = 0x00EE ↔ Instr.decode? w = some .ret := Instr.decode?_eq_ret_iff.symm
    have hcall : (∃ nnn : Addr, w.toNat = 0x2000 + nnn) ↔
        ∃ nnn, Instr.decode? w = some (.call nnn) :=
      exists_congr fun _ => Instr.decode?_eq_call_iff.symm
    rw [hret, hcall]
    refine ⟨hword, ?_⟩
    -- The conditions exclude each other, so each case decides all four equivalences.
    rcases step_of_running hdepth hhalt hwait with
      ⟨hnone, hs⟩ | ⟨hsome, hempty, hs⟩ | ⟨⟨target, hsome⟩, hfull, hs⟩ |
        ⟨i, r, hsome, hopen, hfree, hs⟩
    · simp [w, pc, hs, hnone, Except.isOk, Except.toBool]
    · simp [w, pc, depth, hs, hsome, hempty, Except.isOk, Except.toBool]
    · simp [w, pc, depth, hs, hsome, hfull, Except.isOk, Except.toBool]
    · have hret' : ¬ (i = .ret ∧ depth = 0) := fun h => hopen h.1 h.2
      have hcall' : ¬ ((∃ target, i = .call target) ∧ depth = CallStack.capacity) :=
        fun h => hfree h.1 h.2
      simp [w, depth, hs, hsome, hret', hcall', Except.isOk, Except.toBool]
  · intro cause n hstep
    rcases step_cases m with ⟨_, hs⟩ | ⟨r, _, _, hs⟩ | ⟨cause', _, _, hs⟩
    · rw [hs] at hstep
      cases hstep
    · rw [hs] at hstep
      cases hstep
    · rw [hs] at hstep
      cases hstep
      rfl

/-- A program that is nothing but a return: its first step fails with the address it stands at, and
leaves the state as it was. -/
theorem step_failure_exact_of_return :
    let m := (new {} fun _ => 0).act (.load (.ok #[0x00, 0xEE]))
    Reachable m ∧ m.step.1 = .error (.trap (.callStackUnderflow 0x200)) ∧
      m.step.2.halted = true ∧ m.step.2.state = m.state ∧
      m.step.2.recording.faults = #[.trap (.callStackUnderflow 0x200)] := by
  -- The state and the flags are all that is needed of the machine.
  have hfails (m : Machine) (hm : Reachable m) (hhalt : m.halted = false)
      (hfaults : m.recording.faults = #[]) (hstate : m.state = State.boot #[0x00, 0xEE]) :
      m.step.1 = .error (.trap (.callStackUnderflow 0x200)) ∧
        m.step.2.halted = true ∧ m.step.2.state = m.state ∧
        m.step.2.recording.faults = #[.trap (.callStackUnderflow 0x200)] := by
    rcases step_failure_exact hm with ⟨_, _, hrunning, hfailed⟩
    rcases hrunning hhalt (by rw [hstate]; rfl) with ⟨_, _, _, hunderflow, _⟩
    have hfetch : m.state.fetch = 0x00EE := by
      apply UInt16.toNat.inj
      rw [hstate, State.fetch, Memory.toNat_word]
      simp [State.boot, Memory.read_boot, Memory.bootByte, Memory.programStart]
    have hpc : m.state.pc = 0x200 := by
      rw [hstate]
      rfl
    have hstep : m.step.1 = .error (.trap (.callStackUnderflow 0x200)) := by
      rw [← hpc]
      exact hunderflow.mpr ⟨hfetch, by rw [hstate]; rfl⟩
    have hafter := hfailed _ m.step.2 (Prod.ext hstep rfl)
    refine ⟨hstep, ?_, ?_, ?_⟩
    · rw [hafter]
    · rw [hafter]
      rfl
    · rw [hafter, hfaults]
      rfl
  have hm : Reachable ((new {} fun _ => 0).act (.load (.ok #[0x00, 0xEE]))) :=
    (Reachable.new {} _).act _ fun s hs => by cases hs
  exact ⟨hm, hfails _ hm rfl rfl rfl⟩

end Machine
end Chip8
