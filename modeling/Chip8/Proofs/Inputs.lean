import Chip8.Proofs.Machine.Batch
import Chip8.Proofs.Machine.KeyWait
import Chip8.Proofs.Subroutine

/-!
# Inputs — keys and random numbers enter by their own instructions

The keypad and the random numbers are the inputs of a program.  Four instructions read one of them
(`Instr.ReadsInput`); what any other instruction does is decided by the state alone, and it hands
both inputs on as they are (`Core.execute_eq_map`).

So two machines in the same state, with whatever inputs, go through the same states as long as the
first of them executes none of the four.  Which instructions that are is known only from the run,
since a program can change its own code: the condition is on the run of the one machine, and the
other one follows it.
-/

namespace Chip8

/-- The instruction takes a random number or looks at the keypad. -/
def Instr.ReadsInput : Instr → Prop
  | .random _ _ => True
  | .skipIf (.pressed _) => True
  | .skipIf (.released _) => True
  | .waitKey _ => True
  | _ => False

/-- The same outcome of a step, with the inputs of another core. -/
def Retired.withInputsOf (r : Retired) (c : Core) : Retired :=
  { r with core := { c with state := r.core.state } }

namespace Core

variable {c d : Core} {r : Retired} {i : Instr}

/-- An instruction that reads no input does the same in every core with the same state, and leaves the
inputs as they are. -/
theorem execute_eq_map (hstate : c.state = d.state) (hi : ¬ i.ReadsInput) :
    c.execute i = (d.execute i).map (·.withInputsOf c) := by
  rcases c with ⟨s, keypad, random⟩
  rcases d with ⟨t, keypad', random'⟩
  obtain rfl : s = t := hstate
  cases i with
  | random x mask => exact (hi trivial).elim
  | waitKey x => exact (hi trivial).elim
  | skipIf test =>
    cases test with
    | pressed x => exact (hi trivial).elim
    | released x => exact (hi trivial).elim
    | _ => rfl
  | ret =>
    simp only [execute]
    cases s.stack.pop? <;> rfl
  | call target =>
    simp only [execute]
    cases s.stack.push? s.advance.pc <;> rfl
  | _ => rfl

/-- The same for a step that does not poll the keypad for a pending wait. -/
theorem step_eq_map (hstate : c.state = d.state) (hwait : c.state.keyWait = none)
    (hi : ∀ i, Instr.decode? c.state.fetch = some i → ¬ i.ReadsInput) :
    c.step = d.step.map (·.withInputsOf c) := by
  have hwait' : d.state.keyWait = none := hstate ▸ hwait
  cases hword : Instr.decode? c.state.fetch with
  | none =>
    rw [step_of_unknown hwait hword, step_of_unknown hwait' (hstate ▸ hword), hstate]
    rfl
  | some i =>
    rw [step_of_decoded hwait hword, step_of_decoded hwait' (hstate ▸ hword)]
    exact execute_eq_map hstate (hi i hword)

/-- A step that reads no input starts no wait. -/
theorem keyWait_of_step (h : c.step = .ok r) (hwait : c.state.keyWait = none)
    (hi : ∀ i, Instr.decode? c.state.fetch = some i → ¬ i.ReadsInput) :
    r.core.state.keyWait = none := by
  have hpolled : c.polled? = none := by
    cases hpolled : c.polled? with
    | none => rfl
    | some x =>
      rcases polled?_eq_some_iff.mp hpolled with hpending | ⟨_, hword⟩
      · rw [hwait] at hpending
        cases hpending
      · exact (hi _ hword trivial).elim
  exact (keys_of_step h hpolled).2

end Core

namespace Machine

/-- Two machines on their way from `start` and `start'`: they are in the same state, wait for no key,
and each has the inputs that it started with. -/
structure SameButInputs (start start' m n : Machine) : Prop where
  state : m.state = n.state
  keyWait : m.state.keyWait = none
  halted : m.halted = n.halted
  keypad : m.keypad = start.keypad
  random : m.core.random = start.core.random
  keypad' : n.keypad = start'.keypad
  random' : n.core.random = start'.core.random

variable {start start' m n : Machine} {k : Nat}

theorem SameButInputs.step (h : SameButInputs start start' m n)
    (hquiet : ∀ i, m.Executes i → ¬ i.ReadsInput) :
    m.step.1 = n.step.1 ∧ SameButInputs start start' m.step.2 n.step.2 := by
  cases hhalt : m.halted with
  | true =>
    rw [step_of_halted hhalt, step_of_halted (h.halted ▸ hhalt)]
    exact ⟨rfl, h⟩
  | false =>
    have hstate : m.core.state = n.core.state := h.state
    have hwait : n.core.state.keyWait = none := hstate ▸ h.keyWait
    have hi : ∀ i, Instr.decode? m.core.state.fetch = some i → ¬ i.ReadsInput := by
      intro i hword
      exact hquiet i ⟨hhalt, h.keyWait, hword⟩
    have hcore : m.core.step.map id = n.core.step.map (·.withInputsOf m.core) := by
      rw [← Core.step_eq_map hstate h.keyWait hi]
      cases m.core.step <;> rfl
    rcases step_together h.halted hcore with ⟨hm, hn⟩ | ⟨r, r', hsame, hr, hr', hm, hn⟩ |
      ⟨cause, hm, hn⟩
    · rw [hm, hn]
      exact ⟨rfl, h⟩
    · have hleft : r = r'.withInputsOf m.core := hsame
      -- The other machine keeps its inputs for the same reason, compared with itself.
      have hright : r' = r'.withInputsOf n.core := by
        have hkept := Core.step_eq_map (c := n.core) rfl hwait (hstate ▸ hi)
        rw [hr'] at hkept
        exact Except.ok.inj hkept
      have hflow : r.flow = r'.flow := by
        rw [hleft]
        rfl
      rw [hm, hn, hflow]
      exact ⟨rfl, {
        state := congrArg (fun r => r.core.state) hleft
        keyWait := Core.keyWait_of_step hr h.keyWait hi
        halted := h.halted
        keypad := (congrArg (fun r => r.core.keypad) hleft).trans h.keypad
        random := (congrArg (fun r => r.core.random) hleft).trans h.random
        keypad' := (congrArg (fun r => r.core.keypad) hright).trans h.keypad'
        random' := (congrArg (fun r => r.core.random) hright).trans h.random' }⟩
    · rw [hm, hn]
      exact ⟨rfl, h.state, h.keyWait, rfl, h.keypad, h.random, h.keypad', h.random'⟩

/-- As long as the first machine reads no input, both go on together. -/
theorem SameButInputs.after (h : SameButInputs start start' m n)
    (hquiet : ∀ j < k, ∀ i, (m.after j).Executes i → ¬ i.ReadsInput) :
    SameButInputs start start' (m.after k) (n.after k) := by
  induction k generalizing m n with
  | zero => exact h
  | succ k ih =>
    have hnext := (h.step (hquiet 0 (by omega))).2
    exact ih hnext fun j hj => hquiet (j + 1) (by omega)

theorem SameButInputs.stepsFrom (h : SameButInputs start start' m n)
    (hquiet : ∀ j < k, ∀ i, (m.after j).Executes i → ¬ i.ReadsInput) (flow : Flow) :
    (m.stepsFrom flow k).1 = (n.stepsFrom flow k).1 := by
  induction k generalizing m n flow with
  | zero => rfl
  | succ k ih =>
    rcases h.step (hquiet 0 (by omega)) with ⟨houtcome, hnext⟩
    have hlater (first : Flow) := ih hnext (fun j hj => hquiet (j + 1) (by omega)) first
    simp only [Machine.stepsFrom]
    cases hm : m.step with
    | mk outcome m' =>
      cases hn : n.step with
      | mk outcome' n' =>
        rw [hm, hn] at houtcome hlater
        obtain rfl : outcome = outcome' := houtcome
        cases outcome with
        | ok first => exact hlater first
        | error fault => rfl

/-- Keys and random numbers enter a program by their own instructions.

Two machines are in the same state without a pending wait, both halted or both not; their keypads,
random numbers, histories and observers may differ in any way.  If no step of a batch on the first
machine executes an instruction that reads an input, then the batch on the second machine ends with
the same flow or fault, and after every step of it both machines are in the same state, and both
have the keypads and the random numbers that they had at the start. -/
theorem inputs_enter_by_instruction (hstate : m.state = n.state)
    (hwait : m.state.keyWait = none) (hhalt : m.halted = n.halted)
    (hquiet : ∀ j < k, ∀ i, (m.after j).Executes i → ¬ i.ReadsInput) :
    (m.steps k).1 = (n.steps k).1 ∧
      (m.steps k).2 = m.after k ∧ (n.steps k).2 = n.after k ∧
      ∀ j ≤ k,
        (m.after j).state = (n.after j).state ∧ (m.after j).halted = (n.after j).halted ∧
          (m.after j).keypad = m.keypad ∧ (m.after j).core.random = m.core.random ∧
          (n.after j).keypad = n.keypad ∧ (n.after j).core.random = n.core.random := by
  have hstart : SameButInputs m n m n := ⟨hstate, hwait, hhalt, rfl, rfl, rfl, rfl⟩
  refine ⟨hstart.stepsFrom hquiet .next, machine_stepsFrom m .next k, machine_stepsFrom n .next k,
    ?_⟩
  intro j hj
  have hnow := hstart.after fun l (hl : l < j) => hquiet l (by omega)
  exact ⟨hnow.state, hnow.halted, hnow.keypad, hnow.random, hnow.keypad', hnow.random'⟩

/-- A program that calls itself until the call stack is full, with a key down and other random numbers
on the one side. -/
theorem inputs_enter_by_instruction_of_self_call :
    let program := #[0x22, 0x00]
    let m := (new {} fun _ => 0).act (.load (.ok program))
    let n := ((new { historyCapacity := 0 } fun _ => 7).act (.load (.ok program))).act
      (.setKey 5 true)
    m.keypad ≠ n.keypad ∧ m.core.random.byte ≠ n.core.random.byte ∧
      (∀ j < 13, ∀ i, (m.after j).Executes i → ¬ i.ReadsInput) ∧
      (m.steps 13).1 = (n.steps 13).1 ∧ (m.after 12).state = (n.after 12).state := by
  intro program m n
  have hquiet (m : Machine) (hm : m.StandsAt program 0x200 CallStack.empty) :
      ∀ j < 13, ∀ i, (m.after j).Executes i → ¬ i.ReadsInput := by
    intro j hj i hi
    obtain ⟨_, _, _, hcall⟩ := hm.after_self_calls (Nat.le_of_lt_succ hj)
    obtain rfl : i = .call 0x200 := hi.unique hcall
    exact id
  have hm : m.StandsAt program 0x200 CallStack.empty := ⟨rfl, rfl⟩
  have hn : n.StandsAt program 0x200 CallStack.empty := ⟨rfl, rfl⟩
  have hwait : m.state.keyWait = none := by
    rw [hm.state]
    rfl
  obtain ⟨houtcome, _, _, hstates⟩ := inputs_enter_by_instruction (hm.state.trans hn.state.symm)
    hwait (hm.running.trans hn.running.symm) (hquiet m hm)
  exact ⟨by decide, by decide, hquiet m hm, houtcome, (hstates 12 (by decide)).1⟩

end Machine
end Chip8
