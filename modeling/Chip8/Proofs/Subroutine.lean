import Chip8.Proofs.Machine.Batch
import Chip8.Proofs.Machine.Failure

/-!
# Subroutines — a return goes back to its call

A call writes the address behind it into the cell at the depth of the call stack and goes one deeper.
While the program stays deeper than that, nothing writes this cell or one below it: a nested call
writes a higher cell, a return only lowers the depth, and nothing else touches the stack
(`Machine.sameBelow_acts`).  So the return that comes back to the depth of the call finds the address
behind the call, whatever the body of the subroutine has done.
-/

namespace Chip8

namespace CallStack

/-- The lowest `n` cells are the same. -/
def SameBelow (n : Nat) (s t : CallStack) : Prop :=
  ∀ i, i < n → t.cells[i]? = s.cells[i]?

variable {n : Nat} {s t u : CallStack} {address : UInt16}

theorem SameBelow.refl (n : Nat) (s : CallStack) : SameBelow n s s := fun _ _ => rfl

theorem SameBelow.trans (hst : SameBelow n s t) (htu : SameBelow n t u) : SameBelow n s u :=
  fun i hi => (htu i hi).trans (hst i hi)

theorem sameBelow_of_push? (h : s.push? address = some t) (hn : n ≤ s.depth) :
    SameBelow n s t := by
  rcases push?_eq_some_iff.mp h with ⟨hroom, rfl⟩
  intro i hi
  -- The new cell lies at the depth, which is not below `n`.
  have hne : s.depth ≠ i := by omega
  exact Vector.getElem?_set_ne hroom hne

theorem sameBelow_of_pop? (h : s.pop? = some (address, t)) : SameBelow n s t := by
  rcases pop?_eq_some_iff.mp h with ⟨_, hcells, _⟩
  intro i _
  rw [hcells]

end CallStack

namespace Machine

open CallStack

variable {m : Machine}

/-! ## Calls and returns -/

/-- A call succeeds while a cell is free: it goes to its target, and puts the address behind it on
the stack. -/
theorem Executes.step_of_call {target : Addr} (h : m.Executes (.call target))
    (hfree : m.state.stack.depth < 12) :
    m.step = (.ok .jump, m.commit (m.core.retire
      { m.state with
        pc := UInt16.ofNat target
        stack := ⟨m.state.stack.cells.set m.state.stack.depth (m.state.pc + 2),
          m.state.stack.depth + 1⟩ } .jump)) := by
  have hpush : m.core.state.stack.push? m.core.state.advance.pc =
      some ⟨m.state.stack.cells.set m.state.stack.depth (m.state.pc + 2),
        m.state.stack.depth + 1⟩ :=
    push?_eq_some_iff.mpr ⟨hfree, rfl⟩
  have hcore := h.core_step
  simp only [Core.execute, hpush] at hcore
  exact step_of_retired h.1 hcore

/-- A return succeeds while a call is open: it goes to the address in the highest cell in use, and
leaves the cell as it is. -/
theorem Executes.step_of_ret {depth : Nat} (h : m.Executes .ret)
    (hopen : m.state.stack.depth = depth + 1) :
    m.step = (.ok .jump, m.commit (m.core.retire
      { m.state with
        pc := m.state.stack.cells[depth]?.getD 0
        stack := ⟨m.state.stack.cells, depth⟩ } .jump)) := by
  have hpop : m.core.state.stack.pop? =
      some (m.state.stack.cells[depth]?.getD 0, ⟨m.state.stack.cells, depth⟩) :=
    pop?_eq_some_iff.mpr ⟨hopen, rfl, rfl⟩
  have hcore := h.core_step
  simp only [Core.execute, hpop] at hcore
  exact step_of_retired h.1 hcore

/-! ## Cells under the depth -/

/-- While a program runs on, the cells under the depth of its call stack stay as they are. -/
theorem sameBelow_act {n : Nat} {a : Action} (ha : a.RunsOn) (hn : n ≤ m.state.stack.depth) :
    SameBelow n m.state.stack (m.act a).state.stack := by
  cases a with
  | load contents => exact ha.elim
  | undo => exact ha.elim
  | restore s => exact ha.elim
  | finishFrame =>
    rw [act, state_finishFrame]
    exact SameBelow.refl n m.state.stack
  | step =>
    rcases step_cases m with ⟨_, hs⟩ | ⟨r, _, hcore, hs⟩ | ⟨cause, _, _, hs⟩
    · rw [act, hs]
      exact SameBelow.refl n m.state.stack
    · rw [act, hs]
      show SameBelow n m.core.state.stack r.core.state.stack
      rcases Core.step_ok_cases hcore with ⟨x, _, rfl⟩ | ⟨_, i, _, hexec⟩
      · rw [Core.stack_answerWait]
        exact SameBelow.refl n m.core.state.stack
      -- Only calls and returns touch the stack.
      · rcases Core.stack_of_execute hexec with ⟨_, _, hpush⟩ | ⟨_, hpop⟩ | hsame
        · exact sameBelow_of_push? hpush hn
        · exact sameBelow_of_pop? hpop
        · rw [hsame]
          exact SameBelow.refl n m.core.state.stack
    · rw [act, hs]
      exact SameBelow.refl n m.state.stack
  | _ => exact SameBelow.refl n m.state.stack

/-- A run that never comes back below a depth leaves the cells under it as they are. -/
theorem sameBelow_acts {n : Nat} {as : List Action} (hruns : ∀ a ∈ as, a.RunsOn)
    (hdeep : m.Always (fun k => n ≤ k.state.stack.depth) as) :
    SameBelow n m.state.stack (m.acts as).state.stack := by
  induction as generalizing m with
  | nil => exact SameBelow.refl n m.state.stack
  | cons a as ih =>
    rcases hdeep with ⟨hn, hrest⟩
    have hfirst := sameBelow_act (hruns a List.mem_cons_self) hn
    exact hfirst.trans (ih (fun b hb => hruns b (List.mem_cons_of_mem a hb)) hrest)

/-- A return goes back to its call.

The machine executes a call.  It runs on in any way, with steps, frames and keys, and stays deeper
than at the call.  Then it executes a return that comes back to the depth of the call.  After that,
control is at the instruction behind the call, and the cells below are what they were. -/
theorem return_resumes_caller {target : Addr} {body : List Action}
    (hcall : m.Executes (.call target)) (hroom : m.state.stack.depth < CallStack.capacity)
    (hruns : ∀ a ∈ body, a.RunsOn)
    (hdeep : (m.act .step).Always
      (fun k => m.state.stack.depth + 1 ≤ k.state.stack.depth) body)
    (hret : ((m.act .step).acts body).Executes .ret)
    (hback : (((m.act .step).acts body).act .step).state.stack.depth = m.state.stack.depth) :
    let after := ((m.act .step).acts body).act .step
    after.state.pc = m.state.pc + 2 ∧
      ∀ i, i < m.state.stack.depth →
        after.state.stack.cells[i]? = m.state.stack.cells[i]? := by
  intro after
  have hfree : m.state.stack.depth < 12 := hroom
  have hinside : (m.act .step).state.stack =
      ⟨m.state.stack.cells.set m.state.stack.depth (m.state.pc + 2), m.state.stack.depth + 1⟩ := by
    rw [act, hcall.step_of_call hfree]
    rfl
  have hkept (i : Nat) (hi : i < m.state.stack.depth + 1) :
      ((m.act .step).acts body).state.stack.cells[i]? =
        (m.state.stack.cells.set m.state.stack.depth (m.state.pc + 2) hfree)[i]? := by
    have hcell := sameBelow_acts hruns hdeep i hi
    rwa [hinside] at hcell
  -- The machine is still in the subroutine, so a call is open.
  obtain ⟨depth, hopen⟩ : ∃ depth, ((m.act .step).acts body).state.stack.depth = depth + 1 := by
    have hlast := hdeep.acts
    exact ⟨_, (Nat.succ_pred_eq_of_pos (by omega)).symm⟩
  have hpc : after.state.pc =
      ((m.act .step).acts body).state.stack.cells[depth]?.getD 0 := by
    rw [show after = (Machine.step _).2 from rfl, hret.step_of_ret hopen]
    rfl
  have hstack : after.state.stack = ⟨((m.act .step).acts body).state.stack.cells, depth⟩ := by
    rw [show after = (Machine.step _).2 from rfl, hret.step_of_ret hopen]
    rfl
  -- The return comes back to the depth of the call, so it closes the cell that the call has opened.
  have hsame : depth = m.state.stack.depth := by
    rw [← hback]
    exact (congrArg CallStack.depth hstack).symm
  subst hsame
  refine ⟨?_, fun i hi => ?_⟩
  · rw [hpc, hkept _ (Nat.lt_succ_self _), Vector.getElem?_set_self hfree]
    rfl
  · have hother : m.state.stack.depth ≠ i := by omega
    rw [hstack]
    show ((m.act .step).acts body).state.stack.cells[i]? = _
    rw [hkept i (by omega), Vector.getElem?_set_ne hfree hother]

/-- The machine runs, and its state is that of a started program but for the program counter and the
call stack. -/
structure StandsAt (m : Machine) (program : Program) (pc : UInt16) (stack : CallStack) : Prop where
  running : m.halted = false
  state : m.state = { State.boot program with pc := pc, stack := stack }

namespace StandsAt

variable {program : Program} {pc word : UInt16} {stack : CallStack} {i : Instr}

theorem depth (h : m.StandsAt program pc stack) : m.state.stack.depth = stack.depth := by
  rw [h.state]

theorem executes (h : m.StandsAt program pc stack)
    (hword : (Memory.boot program).word pc.toNat = word) (hi : Instr.decode? word = some i) :
    m.Executes i := by
  refine ⟨h.running, by rw [h.state]; rfl, ?_⟩
  rw [h.state]
  show Instr.decode? ((Memory.boot program).word pc.toNat) = some i
  rw [hword, hi]

theorem call {target : Addr} (h : m.StandsAt program pc stack) (hi : m.Executes (.call target))
    (hfree : stack.depth < 12) :
    (m.act .step).StandsAt program (UInt16.ofNat target)
      ⟨stack.cells.set stack.depth (pc + 2), stack.depth + 1⟩ := by
  have hstep := hi.step_of_call (by rw [h.state]; exact hfree)
  refine ⟨?_, ?_⟩
  · rw [act, hstep]
    exact h.running
  · rw [act, hstep]
    simp only [h.state]
    rfl

theorem ret {cells : Vector UInt16 12} {depth : Nat} (h : m.StandsAt program pc ⟨cells, depth + 1⟩)
    (hi : m.Executes .ret) :
    (m.act .step).StandsAt program (cells[depth]?.getD 0) ⟨cells, depth⟩ := by
  have hopen : m.state.stack.depth = depth + 1 := by rw [h.state]
  have hstep := hi.step_of_ret hopen
  refine ⟨?_, ?_⟩
  · rw [act, hstep]
    exact h.running
  · rw [act, hstep]
    simp only [h.state]
    rfl

/-- A program that calls itself goes one deeper with every step, until the call stack is full. -/
theorem after_self_calls {k : Nat} (h : m.StandsAt #[0x22, 0x00] 0x200 CallStack.empty)
    (hk : k ≤ 12) :
    ∃ stack : CallStack, stack.depth = k ∧ (m.after k).StandsAt #[0x22, 0x00] 0x200 stack ∧
      (m.after k).Executes (.call 0x200) := by
  have hcode : (Memory.boot #[0x22, 0x00]).word 0x200 = 0x2200 := by
    apply UInt16.toNat.inj
    rw [Memory.toNat_word]
    simp [Memory.read_boot, Memory.bootByte, Memory.programStart]
  induction k with
  | zero => exact ⟨CallStack.empty, rfl, h, h.executes hcode rfl⟩
  | succ k ih =>
    obtain ⟨stack, hdepth, hnow, hcall⟩ := ih (by omega)
    have hnext := hnow.call hcall (by omega)
    rw [after_succ]
    exact ⟨_, congrArg (· + 1) hdepth, hnext, hnext.executes hcode rfl⟩

/-- With both timers at zero the end of a frame changes nothing here. -/
theorem finishFrame (h : m.StandsAt program pc stack) :
    m.finishFrame.StandsAt program pc stack := by
  refine ⟨(halted_finishFrame m).trans h.running, ?_⟩
  rw [state_finishFrame, h.state]
  rfl

theorem setKey (h : m.StandsAt program pc stack) (key : Key) (down : Bool) :
    (m.setKey key down).StandsAt program pc stack := ⟨h.running, h.state⟩

end StandsAt

/-- A subroutine that calls another one, with the end of a frame and a key in between. -/
theorem return_resumes_caller_of_nested :
    let program := #[0x22, 0x04, 0x00, 0x00, 0x22, 0x08, 0x00, 0xEE, 0x00, 0xEE]
    let m := (new {} fun _ => 0).act (.load (.ok program))
    let body := [.step, .finishFrame, .setKey 3 true, .step]
    m.Executes (.call 0x204) ∧ ((m.act .step).acts body).Executes .ret ∧
      (((m.act .step).acts body).act .step).state.pc = 0x202 := by
  intro program
  have hcode : (Memory.boot program).word 0x200 = 0x2204 ∧
      (Memory.boot program).word 0x204 = 0x2208 ∧ (Memory.boot program).word 0x206 = 0x00EE ∧
      (Memory.boot program).word 0x208 = 0x00EE := by
    refine ⟨?_, ?_, ?_, ?_⟩ <;> apply UInt16.toNat.inj <;> rw [Memory.toNat_word] <;>
      simp [program, Memory.read_boot, Memory.bootByte, Memory.programStart]
  rcases hcode with ⟨h200, h204, h206, h208⟩
  have hresumes (m : Machine) (h₀ : m.StandsAt program 0x200 CallStack.empty) :
      m.Executes (.call 0x204) ∧
        ((m.act .step).acts [.step, .finishFrame, .setKey 3 true, .step]).Executes .ret ∧
        (((m.act .step).acts [.step, .finishFrame, .setKey 3 true, .step]).act .step).state.pc =
          0x202 := by
    have houter : m.Executes (.call 0x204) := h₀.executes h200 rfl
    have h₁ := h₀.call houter (by decide)
    have hinner : (m.act .step).Executes (.call 0x208) := h₁.executes h204 rfl
    have h₂ := h₁.call hinner (by decide)
    have h₃ := h₂.finishFrame.setKey 3 true
    have h₄ := h₃.ret (h₃.executes h208 rfl)
    have hback : ((m.act .step).acts [.step, .finishFrame, .setKey 3 true, .step]).Executes .ret :=
      h₄.executes h206 rfl
    have h₅ := h₄.ret hback
    have hdeep : (m.act .step).Always (fun k => m.state.stack.depth + 1 ≤ k.state.stack.depth)
        [.step, .finishFrame, .setKey 3 true, .step] := by
      have hdeeper {k : Machine} {pc : UInt16} {stack : CallStack}
          (h : k.StandsAt program pc stack) (hstack : 1 ≤ stack.depth) :
          m.state.stack.depth + 1 ≤ k.state.stack.depth := by
        rw [h₀.depth, h.depth]
        exact hstack
      refine ⟨hdeeper h₁ ?_, hdeeper h₂ ?_, hdeeper h₂.finishFrame ?_, hdeeper h₃ ?_,
        hdeeper h₄ ?_⟩ <;> decide
    have hruns : ∀ a ∈ [Action.step, .finishFrame, .setKey 3 true, .step], a.RunsOn := by
      simp [Action.RunsOn]
    refine ⟨houter, hback, ?_⟩
    have hresumed := return_resumes_caller houter (by rw [h₀.depth]; decide) hruns hdeep hback
      (h₅.depth.trans h₀.depth.symm)
    rw [hresumed.1, h₀.state]
    rfl
  exact hresumes _ ⟨rfl, rfl⟩

end Machine
end Chip8
