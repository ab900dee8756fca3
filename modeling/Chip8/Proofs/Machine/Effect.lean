import Chip8.Proofs.Machine.KeyWait

/-!
# Effects — what an instruction leaves alone

An instruction that is no wait changes a few parts of the core, and which ones can be read off the
instruction.  `Core.Effect` lists, for each part of the core that only some instructions touch, what
the others leave of it, together with the flow, the sound, and the place where control goes on.  A
wait is apart: it comes to a poll of the keypad, with or without a key (`Core.step_ok_wait_cases`).

So what becomes of the core in a step is one of four cases (`Machine.core_step_cases`), and a step
keeps every part of the core that its instruction keeps (`Machine.step_keeps`).
-/

namespace Chip8

namespace Instr

/-- The flow of an instruction, if it does not find a key at once. -/
def flow : Instr → Flow
  | .clear => .draw
  | .draw _ _ _ => .draw
  | .setSound _ => .sound
  | .ret => .jump
  | .jump _ => .jump
  | .call _ => .jump
  | .jumpOffset _ => .jump
  | .waitKey _ => .waitKey
  | _ => .next

/-- The instruction is a skip, and its condition holds. -/
def skips (i : Instr) (c : Core) : Bool :=
  match i with
  | .skipIf test => test.holds c.state c.keypad
  | _ => false

/-- The milliseconds for which an instruction lets the buzzer sound: as many sixtieths of a second as
the register holds. -/
def cue? (i : Instr) (s : State) : Option UInt32 :=
  match i with
  | .setSound x =>
    if s.reg x = 0 then none else some (UInt32.ofNat ((s.reg x).toNat * 1000 / 60))
  | _ => none

end Instr

namespace Core

variable {c : Core} {r : Retired} {i : Instr}

/-- What an instruction that is no wait tells, and which parts of the core it leaves alone. -/
structure Effect (c : Core) (i : Instr) (r : Retired) : Prop where
  flow_eq : r.flow = i.flow
  cue_eq : r.cue = i.cue? c.state
  pc_eq : i.flow ≠ .jump →
    r.core.state.pc = if i.skips c then c.state.pc + 4 else c.state.pc + 2
  stack_eq : i.flow ≠ .jump → r.core.state.stack = c.state.stack
  screen_eq : i.flow ≠ .draw → r.core.state.screen = c.state.screen
  sound_eq : i.flow ≠ .sound → r.core.state.sound = c.state.sound
  delay_eq : (∀ x, i ≠ .setDelay x) → r.core.state.delay = c.state.delay
  memory_eq : (∀ x, i ≠ .storeRegs x) → (∀ x, i ≠ .storeDecimal x) →
    r.core.state.memory = c.state.memory
  random_eq : (∀ x mask, i ≠ .random x mask) → r.core.random = c.random

theorem effect_of_execute (h : c.execute i = .ok r) (hwait : ∀ x, i ≠ .waitKey x) :
    c.Effect i r := by
  cases i with
  | waitKey x => exact (hwait x rfl).elim
  | ret =>
    rcases execute_ret_ok h with ⟨address, stack, _, rfl⟩
    exact ⟨rfl, rfl, fun hi => (hi rfl).elim, fun hi => (hi rfl).elim, fun _ => rfl, fun _ => rfl,
      fun _ => rfl, fun _ _ => rfl, fun _ => rfl⟩
  | call target =>
    rcases execute_call_ok h with ⟨stack, _, rfl⟩
    exact ⟨rfl, rfl, fun hi => (hi rfl).elim, fun hi => (hi rfl).elim, fun _ => rfl, fun _ => rfl,
      fun _ => rfl, fun _ _ => rfl, fun _ => rfl⟩
  | jump target =>
    obtain rfl := Except.ok.inj h
    exact ⟨rfl, rfl, fun hi => (hi rfl).elim, fun _ => rfl, fun _ => rfl, fun _ => rfl,
      fun _ => rfl, fun _ _ => rfl, fun _ => rfl⟩
  | jumpOffset base =>
    obtain rfl := Except.ok.inj h
    exact ⟨rfl, rfl, fun hi => (hi rfl).elim, fun _ => rfl, fun _ => rfl, fun _ => rfl,
      fun _ => rfl, fun _ _ => rfl, fun _ => rfl⟩
  | clear =>
    obtain rfl := Except.ok.inj h
    exact ⟨rfl, rfl, fun _ => rfl, fun _ => rfl, fun hi => (hi rfl).elim, fun _ => rfl,
      fun _ => rfl, fun _ _ => rfl, fun _ => rfl⟩
  | draw x y rows =>
    obtain rfl := Except.ok.inj h
    exact ⟨rfl, rfl, fun _ => rfl, fun _ => rfl, fun hi => (hi rfl).elim, fun _ => rfl,
      fun _ => rfl, fun _ _ => rfl, fun _ => rfl⟩
  | setSound x =>
    obtain rfl := Except.ok.inj h
    have hcue : (if c.state.reg x = 0 then none else some (Timing.buzzerMillis (c.state.reg x))) =
        Instr.cue? (.setSound x) c.state := by
      rw [Timing.buzzerMillis_eq]
      rfl
    exact ⟨rfl, hcue, fun _ => rfl, fun _ => rfl, fun _ => rfl, fun hi => (hi rfl).elim,
      fun _ => rfl, fun _ _ => rfl, fun _ => rfl⟩
  | setDelay x =>
    obtain rfl := Except.ok.inj h
    exact ⟨rfl, rfl, fun _ => rfl, fun _ => rfl, fun _ => rfl, fun _ => rfl,
      fun hi => (hi x rfl).elim, fun _ _ => rfl, fun _ => rfl⟩
  | storeRegs x =>
    obtain rfl := Except.ok.inj h
    exact ⟨rfl, rfl, fun _ => rfl, fun _ => rfl, fun _ => rfl, fun _ => rfl, fun _ => rfl,
      fun hi _ => (hi x rfl).elim, fun _ => rfl⟩
  | storeDecimal x =>
    obtain rfl := Except.ok.inj h
    exact ⟨rfl, rfl, fun _ => rfl, fun _ => rfl, fun _ => rfl, fun _ => rfl, fun _ => rfl,
      fun _ hi => (hi x rfl).elim, fun _ => rfl⟩
  | random x mask =>
    obtain rfl := Except.ok.inj h
    exact ⟨rfl, rfl, fun _ => rfl, fun _ => rfl, fun _ => rfl, fun _ => rfl, fun _ => rfl,
      fun _ _ => rfl, fun hi => (hi x mask rfl).elim⟩
  | alu op x y =>
    obtain rfl := Except.ok.inj h
    -- The result and the flag go into registers, whether there is a flag or not.
    simp only [retire, State.combine, State.writeResult]
    cases (op.eval (c.state.advance.reg x) (c.state.advance.reg y)).flag <;>
      exact ⟨rfl, rfl, fun _ => rfl, fun _ => rfl, fun _ => rfl, fun _ => rfl, fun _ => rfl,
        fun _ _ => rfl, fun _ => rfl⟩
  | skipIf test =>
    obtain rfl := Except.ok.inj h
    have hskips : Instr.skips (.skipIf test) c = test.holds c.state c.keypad := rfl
    cases hholds : test.holds c.state c.keypad with
    | false =>
      refine ⟨rfl, rfl, fun _ => ?_, fun _ => rfl, fun _ => rfl, fun _ => rfl, fun _ => rfl,
        fun _ _ => rfl, fun _ => rfl⟩
      rw [hskips, hholds]
      rfl
    | true =>
      refine ⟨rfl, rfl, fun _ => ?_, fun _ => rfl, fun _ => rfl, fun _ => rfl, fun _ => rfl,
        fun _ _ => rfl, fun _ => rfl⟩
      rw [hskips, hholds]
      exact UInt16.add_assoc c.state.pc 2 2
  | _ =>
    obtain rfl := Except.ok.inj h
    exact ⟨rfl, rfl, fun _ => rfl, fun _ => rfl, fun _ => rfl, fun _ => rfl, fun _ => rfl,
      fun _ _ => rfl, fun _ => rfl⟩

end Core

namespace Machine

variable {i : Instr} {x : Reg}

/-- A machine that polls the keypad executes no instruction but a wait. -/
theorem Executes.eq_waitKey {m : Machine} (h : m.Executes i) (hpolled : m.core.polled? = some x) :
    i = .waitKey x := by
  rcases Core.polled?_eq_some_iff.mp hpolled with hwait | ⟨_, hword⟩
  · have hnone : m.core.state.keyWait = none := h.2.1
    rw [hnone] at hwait
    cases hwait
  · exact Option.some.inj (h.2.2.symm.trans hword)

/-- What becomes of the core in a step: nothing, if the step fails; a wait is pending, or has ended;
or an instruction that is no wait is executed. -/
theorem core_step_cases (m : Machine) :
    m.step.2.core = m.core ∨
      (∃ x, m.core.polled? = some x ∧ m.step.2.core = m.core.suspend x) ∨
      (∃ x key, m.core.polled? = some x ∧ m.step.2.core = m.core.takeKey x key) ∨
      ∃ i r, m.Executes i ∧ m.core.Effect i r ∧ m.step.2.core = r.core := by
  rcases m.step_cases with ⟨_, hs⟩ | ⟨r, hrun, hcore, hs⟩ | ⟨cause, _, _, hs⟩
  · rw [hs]
    exact .inl rfl
  · rw [hs]
    rcases Core.step_ok_wait_cases hcore with ⟨x, hx, _, rfl⟩ | ⟨x, key, hx, _, rfl⟩ |
      ⟨i, hwait, hword, hother, hexec⟩
    · exact .inr (.inl ⟨x, hx, rfl⟩)
    · exact .inr (.inr (.inl ⟨x, key, hx, rfl⟩))
    · exact .inr (.inr (.inr
        ⟨i, r, ⟨hrun, hwait, hword⟩, Core.effect_of_execute hexec hother, rfl⟩))
  · rw [hs]
    exact .inl rfl

/-- A step keeps a part of the core that no poll of the keypad touches, if its instruction keeps it. -/
theorem step_keeps {α : Type} {m : Machine} (part : Core → α)
    (hsuspend : ∀ (c : Core) x, part (c.suspend x) = part c)
    (htake : ∀ (c : Core) x key, part (c.takeKey x key) = part c)
    (hexec : ∀ i r, m.Executes i → m.core.Effect i r → part r.core = part m.core) :
    part m.step.2.core = part m.core := by
  rcases m.core_step_cases with hcore | ⟨x, _, hcore⟩ | ⟨x, key, _, hcore⟩ | ⟨i, r, hi, heffect, hcore⟩
  · rw [hcore]
  · rw [hcore, hsuspend]
  · rw [hcore, htake]
  · rw [hcore, hexec i r hi heffect]

end Machine
end Chip8
