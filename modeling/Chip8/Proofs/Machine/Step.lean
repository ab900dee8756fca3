import Chip8.Core.Execute
import Chip8.Machine.Run
import Chip8.Proofs.Instr.Code

/-!
# One step of a machine

A step of the core polls the keypad, meets a word that stands for no instruction, or executes one.
A step of the machine adds what becomes of the outcome: a halted machine stays as it is, an executed
step is committed, and a trap stops the machine.

The lemmas here say once what a step can come to.  Later modules cite them and do not open
`Core.step` or `Machine.step` again.
-/

namespace Chip8

/-! ## Steps of the core -/

namespace Core

variable {c : Core} {r : Retired} {i : Instr} {cause : Trap}

theorem step_of_waiting {x : Reg} (hwait : c.state.keyWait = some x) :
    c.step = .ok (c.answerWait x) := by
  simp only [step, hwait]

theorem step_of_unknown (hwait : c.state.keyWait = none)
    (hword : Instr.decode? c.state.fetch = none) :
    c.step = .error (.unknownOpcode c.state.fetch c.state.pc) := by
  simp only [step, hwait, hword]

theorem step_of_decoded (hwait : c.state.keyWait = none)
    (hword : Instr.decode? c.state.fetch = some i) :
    c.step = c.execute i := by
  simp only [step, hwait, hword]

/-- A step that was executed has polled the keypad or executed the instruction at the program
counter. -/
theorem step_ok_cases (h : c.step = .ok r) :
    (∃ x, c.state.keyWait = some x ∧ r = c.answerWait x) ∨
      (c.state.keyWait = none ∧
        ∃ i, Instr.decode? c.state.fetch = some i ∧ c.execute i = .ok r) := by
  cases hwait : c.state.keyWait with
  | some x =>
    rw [step_of_waiting hwait] at h
    exact .inl ⟨x, rfl, (Except.ok.inj h).symm⟩
  | none =>
    cases hword : Instr.decode? c.state.fetch with
    | none =>
      rw [step_of_unknown hwait hword] at h
      cases h
    | some i =>
      rw [step_of_decoded hwait hword] at h
      exact .inr ⟨rfl, i, rfl, h⟩

/-- Only a return without an open call and a call without a free cell fail. -/
theorem execute_error_iff :
    c.execute i = .error cause ↔
      (i = .ret ∧ c.state.stack.depth = 0 ∧ cause = .callStackUnderflow c.state.pc) ∨
        ((∃ target, i = .call target) ∧ CallStack.capacity ≤ c.state.stack.depth ∧
          cause = .callStackOverflow c.state.pc) := by
  cases i with
  | ret =>
    rw [← CallStack.pop?_eq_none_iff]
    cases hpop : c.state.stack.pop? with
    | none => simp [execute, hpop, eq_comm]
    | some top => simp [execute, hpop]
  | call target =>
    rw [← CallStack.push?_eq_none_iff _ c.state.advance.pc]
    cases hpush : c.state.stack.push? c.state.advance.pc with
    | none => simp [execute, hpush, eq_comm]
    | some stack => simp [execute, hpush]
  | _ => simp [execute]

/-- A call that is executed has found a free cell. -/
theorem execute_call_ok {target : Addr} (h : c.execute (.call target) = .ok r) :
    ∃ stack, c.state.stack.push? (c.state.pc + 2) = some stack ∧
      r = c.retire { c.state with pc := UInt16.ofNat target, stack := stack } .jump := by
  -- The address behind the call is where control would have gone on.
  cases hpush : c.state.stack.push? c.state.advance.pc with
  | none => simp [execute, hpush] at h
  | some stack =>
    simp only [execute, hpush, Except.ok.injEq] at h
    exact ⟨stack, hpush, h.symm⟩

/-- A return that is executed has found an open call. -/
theorem execute_ret_ok (h : c.execute .ret = .ok r) :
    ∃ address stack, c.state.stack.pop? = some (address, stack) ∧
      r = c.retire { c.state with pc := address, stack := stack } .jump := by
  cases hpop : c.state.stack.pop? with
  | none => simp [execute, hpop] at h
  | some top =>
    simp only [execute, hpop, Except.ok.injEq] at h
    exact ⟨top.1, top.2, rfl, h.symm⟩

theorem kept_setFlag? (s : State) (flag : Option Bool) :
    (s.setFlag? flag).stack = s.stack ∧ (s.setFlag? flag).keyWait = s.keyWait := by
  cases flag <;> exact ⟨rfl, rfl⟩

/-- Whatever is no call, no return and no wait leaves the stack, the keypad and the key wait alone. -/
theorem kept_of_execute (h : c.execute i = .ok r) (hcall : ∀ target, i ≠ .call target)
    (hret : i ≠ .ret) (hwait : ∀ x, i ≠ .waitKey x) :
    r.core.state.stack = c.state.stack ∧
      r.core.keypad = c.keypad ∧ r.core.state.keyWait = c.state.keyWait := by
  cases i with
  | call target => exact (hcall target rfl).elim
  | ret => exact (hret rfl).elim
  | waitKey x => exact (hwait x rfl).elim
  | alu op x y =>
    simp only [execute, Except.ok.injEq] at h
    subst h
    rcases kept_setFlag? _ _ with ⟨hstack, hkey⟩
    exact ⟨hstack, rfl, hkey⟩
  | skipIf test =>
    simp only [execute, Except.ok.injEq] at h
    subst h
    refine ⟨?_, rfl, ?_⟩
    · simp only [retire]
      split <;> rfl
    · simp only [retire]
      split <;> rfl
  | _ =>
    simp only [execute, Except.ok.injEq] at h
    subst h
    exact ⟨rfl, rfl, rfl⟩

/-- The stack after an executed instruction: a call has opened a cell for the address behind it, a
return has closed one and went to its address, and everything else leaves the stack alone. -/
theorem stack_of_execute (h : c.execute i = .ok r) :
    (∃ target, i = .call target ∧
        c.state.stack.push? (c.state.pc + 2) = some r.core.state.stack) ∨
      (i = .ret ∧
        c.state.stack.pop? = some (r.core.state.pc, r.core.state.stack)) ∨
      r.core.state.stack = c.state.stack := by
  cases i with
  | call target =>
    left
    rcases execute_call_ok h with ⟨stack, hpush, rfl⟩
    exact ⟨target, rfl, hpush⟩
  | ret =>
    right; left
    rcases execute_ret_ok h with ⟨address, stack, hpop, rfl⟩
    exact ⟨rfl, hpop⟩
  | waitKey x =>
    right; right
    simp only [execute, Except.ok.injEq] at h
    subst h
    unfold answerWait
    split <;> rfl
  | _ =>
    right; right
    exact (kept_of_execute h (by simp) (by simp) (by simp)).1

theorem stack_answerWait (c : Core) (x : Reg) :
    (c.answerWait x).core.state.stack = c.state.stack := by
  unfold answerWait
  split <;> rfl

end Core

/-- The first word of a program is its first two bytes. -/
theorem State.toNat_fetch_boot (program : Program) :
    (State.boot program).fetch.toNat =
      (program.getD 0 0).toNat * 256 + (program.getD 1 0).toNat := by
  rw [State.fetch, Memory.toNat_word]
  simp [State.boot, Memory.read_boot, Memory.bootByte, Memory.programStart]

/-! ## Steps of the machine -/

namespace Machine

variable {m n : Machine} {r : Retired} {flow : Flow} {fault : Fault} {cause : Trap}

theorem step_of_halted (hhalt : m.halted = true) : m.step = (.error .halted, m) := by
  simp only [step, hhalt, if_true]

theorem step_of_retired (hhalt : m.halted = false) (hstep : m.core.step = .ok r) :
    m.step = (.ok r.flow, m.commit r) := by
  simp [step, hhalt, hstep]

theorem step_of_trapped (hhalt : m.halted = false) (hstep : m.core.step = .error cause) :
    m.step = (.error (.trap cause), m.stopOn (.trap cause)) := by
  simp [step, hhalt, hstep]

/-- A step finds the machine halted, is committed, or stops the machine. -/
theorem step_cases (m : Machine) :
    (m.halted = true ∧ m.step = (.error .halted, m)) ∨
      (∃ r, m.halted = false ∧ m.core.step = .ok r ∧ m.step = (.ok r.flow, m.commit r)) ∨
      (∃ cause, m.halted = false ∧ m.core.step = .error cause ∧
        m.step = (.error (.trap cause), m.stopOn (.trap cause))) := by
  cases hhalt : m.halted with
  | true => exact .inl ⟨rfl, step_of_halted hhalt⟩
  | false =>
    cases hstep : m.core.step with
    | ok r => exact .inr (.inl ⟨r, rfl, rfl, step_of_retired hhalt hstep⟩)
    | error cause => exact .inr (.inr ⟨cause, rfl, rfl, step_of_trapped hhalt hstep⟩)

theorem step_eq_ok_iff :
    m.step = (.ok flow, n) ↔
      m.halted = false ∧ ∃ r, m.core.step = .ok r ∧ flow = r.flow ∧ n = m.commit r := by
  constructor
  · intro h
    rcases step_cases m with ⟨_, hs⟩ | ⟨r, hhalt, hcore, hs⟩ | ⟨cause, _, _, hs⟩
    · rw [hs] at h
      cases h
    · rw [hs] at h
      cases h
      exact ⟨hhalt, r, hcore, rfl, rfl⟩
    · rw [hs] at h
      cases h
  · rintro ⟨hhalt, r, hcore, rfl, rfl⟩
    exact step_of_retired hhalt hcore

/-- The next step executes an instruction: the machine runs, no key wait is pending, and the word at
the program counter stands for that instruction. -/
def Executes (m : Machine) (i : Instr) : Prop :=
  m.halted = false ∧ m.state.keyWait = none ∧ Instr.decode? m.state.fetch = some i

/-- There is but one instruction at the program counter. -/
theorem Executes.unique {i j : Instr} (hi : m.Executes i) (hj : m.Executes j) : i = j :=
  Option.some.inj (hi.2.2.symm.trans hj.2.2)

theorem Executes.core_step {i : Instr} (h : m.Executes i) : m.core.step = m.core.execute i :=
  Core.step_of_decoded h.2.1 h.2.2

/-- An instruction that goes on to the next one, and changes nothing but the state. -/
theorem Executes.step_of_next {i : Instr} {s : State} (h : m.Executes i)
    (hi : m.core.execute i = .ok (m.core.retire s .next)) :
    m.step.1 = .ok .next ∧ m.step.2.state = s := by
  have hcore : m.core.step = .ok (m.core.retire s .next) := h.core_step.trans hi
  rw [step_of_retired h.1 hcore]
  exact ⟨rfl, rfl⟩

/-- The next step executes the word with a number: the machine runs, no key wait is pending, and the
word lies at the program counter. -/
def Fetches (m : Machine) (number : Nat) : Prop :=
  m.halted = false ∧ m.state.keyWait = none ∧ m.state.fetch.toNat = number

theorem fetches_code_iff {i : Instr} : m.Fetches i.code ↔ m.Executes i :=
  and_congr_right fun _ => and_congr_right fun _ => Instr.decode?_eq_some_iff.symm

/-! ## Batches -/

/-- A batch that succeeds goes on after a first step that succeeds. -/
theorem stepsFrom_succ_ok {k : Nat} {last : Flow} (h : stepsFrom flow (k + 1) m = (.ok last, n)) :
    ∃ first next, m.step = (.ok first, next) ∧ stepsFrom first k next = (.ok last, n) := by
  rw [stepsFrom] at h
  cases hstep : m.step with
  | mk outcome next =>
    rw [hstep] at h
    cases outcome with
    | error fault => cases h
    | ok first => exact ⟨first, next, rfl, h⟩

/-- A batch that fails does so with its first step or goes on after it. -/
theorem stepsFrom_succ_error {k : Nat} (h : stepsFrom flow (k + 1) m = (.error fault, n)) :
    m.step = (.error fault, n) ∨
      ∃ first next, m.step = (.ok first, next) ∧ stepsFrom first k next = (.error fault, n) := by
  rw [stepsFrom] at h
  cases hstep : m.step with
  | mk outcome next =>
    rw [hstep] at h
    cases outcome with
    | error fault' => exact .inl h
    | ok first => exact .inr ⟨first, next, rfl, h⟩

/-! ## What is left alone -/

@[simp] theorem core_finishFrame (m : Machine) :
    m.finishFrame.core = { m.core with state := m.state.countDown } := by
  simp only [finishFrame, cueBuzzer]
  split <;> rfl

@[simp] theorem history_finishFrame (m : Machine) : m.finishFrame.history = m.history := by
  simp only [finishFrame, cueBuzzer]
  split <;> rfl

@[simp] theorem halted_finishFrame (m : Machine) : m.finishFrame.halted = m.halted := by
  simp only [finishFrame, cueBuzzer]
  split <;> rfl

@[simp] theorem clock_finishFrame (m : Machine) : m.finishFrame.clock = m.clock := by
  simp only [finishFrame, cueBuzzer]
  split <;> rfl

@[simp] theorem state_finishFrame (m : Machine) : m.finishFrame.state = m.state.countDown := by
  rw [state, core_finishFrame]

end Machine
end Chip8
