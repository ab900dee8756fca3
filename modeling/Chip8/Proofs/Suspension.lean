import Chip8.Proofs.Instr.Code
import Chip8.Proofs.Machine.KeyWait
import Chip8.Proofs.Session.Reachable

/-!
# Suspension — a machine that waits for a key stands on the instruction that waits

A wait instruction leaves control where it is, so the program counter of a suspended machine points
at the instruction that suspended it.  While the wait is pending nothing moves the program counter
and nothing writes to memory, and a wait that ends moves both on together.  So the word at the
program counter stays the wait instruction (`waitInvariant`), and a pending wait can be answered
without reading memory again (`Machine.suspended_at_wait`).
-/

namespace Chip8

/-- The word at the program counter is the wait instruction of the register that waits. -/
def State.AtWait (s : State) : Prop :=
  ∀ x, s.keyWait = some x → Instr.decode? s.fetch = some (.waitKey x)

theorem waitInvariant : StateInvariant State.AtWait where
  boot program := by
    intro x hwait
    cases hwait
  step := by
    intro c r hat hstep y hwait
    cases hpolled : c.polled? with
    | some x =>
      -- The wait is pending, or its instruction is executed now.
      have hword : Instr.decode? c.state.fetch = some (.waitKey x) := by
        rcases Core.polled?_eq_some_iff.mp hpolled with hwait | ⟨_, hword⟩
        · exact hat x hwait
        · exact hword
      cases hfirst : c.keypad.first? with
      | none =>
        rw [Core.step_of_polled_none hpolled hfirst] at hstep
        cases hstep
        cases hwait
        exact hword
      | some key =>
        rw [Core.step_of_polled_some hpolled hfirst] at hstep
        cases hstep
        cases hwait
    | none =>
      rw [(Core.keys_of_step hstep hpolled).2] at hwait
      cases hwait
  countDown h := h

namespace Instr

theorem toNat_of_decode?_waitKey {w : Word} {x : Reg} (h : decode? w = some (.waitKey x)) :
    w.toNat = 0xF00A + x * 256 :=
  (code_of_decode? h).symm

end Instr

namespace Machine

variable {m : Machine} {x : Reg}

/-- A step of a suspended machine without a key changes nothing of the core. -/
theorem step_of_suspended_none (hrun : m.halted = false) (hwait : m.state.keyWait = some x)
    (hfirst : m.keypad.first? = none) :
    m.step = (.ok .waitKey, m.commit ⟨m.core, .waitKey, none⟩) := by
  have hcore := Core.step_of_polled_none (Core.polled?_of_waiting hwait) hfirst
  rw [Core.suspend_of_waiting hwait] at hcore
  exact step_of_retired hrun hcore

theorem step_of_suspended_some {key : Key} (hrun : m.halted = false)
    (hwait : m.state.keyWait = some x) (hfirst : m.keypad.first? = some key) :
    m.step = (.ok .next, m.commit ⟨m.core.takeKey x key, .next, none⟩) :=
  step_of_retired hrun (Core.step_of_polled_some (Core.polled?_of_waiting hwait) hfirst)

/-- A suspended machine stands on the instruction that suspended it.

In every reachable machine with a key wait pending for a register, the two bytes of memory at the
program counter are the wait instruction of that register.  A step of the machine never fails unless
it is halted.  Without a key it leaves the state as it is; with keys, the lowest one goes into the
register, the wait is over, and the program counter goes on by one instruction.  Nothing is fetched:
with any other contents of memory the step has the same answer and the same effect, and leaves these
contents alone. -/
theorem suspended_at_wait (hm : Reachable m) (hwait : m.state.keyWait = some x) :
    let s := m.state
    (s.memory.read s.pc.toNat).toNat * 256 + (s.memory.read (s.pc.toNat + 1)).toNat =
        0xF00A + x * 256 ∧
      x.val < 16 ∧
      Instr.decode? s.fetch = some (.waitKey x) ∧
      (m.halted = false →
        (m.keypad.first? = none → m.step.1 = .ok .waitKey ∧ m.step.2.state = s) ∧
          (∀ key, m.keypad.first? = some key →
            m.step.1 = .ok .next ∧
              m.step.2.state = { s.setReg x (UInt8.ofNat key) with
                pc := s.pc + 2
                keyWait := none }) ∧
          ∀ memory,
            let other := m.withState { s with memory := memory }
            other.step.1 = m.step.1 ∧
              other.step.2.state = { m.step.2.state with memory := memory } ∧
              other.step.2.keypad = m.step.2.keypad) := by
  intro s
  have hword : Instr.decode? s.fetch = some (.waitKey x) := (hm.invariant waitInvariant).1 x hwait
  refine ⟨?_, x.isLt, hword, ?_⟩
  · calc
      (s.memory.read s.pc.toNat).toNat * 256 + (s.memory.read (s.pc.toNat + 1)).toNat
          = s.fetch.toNat := (Memory.toNat_word s.memory s.pc.toNat).symm
      _ = 0xF00A + x * 256 := Instr.toNat_of_decode?_waitKey hword
  · intro hrun
    refine ⟨?_, ?_, ?_⟩
    · intro hfirst
      rw [step_of_suspended_none hrun hwait hfirst]
      exact ⟨rfl, rfl⟩
    · intro key hfirst
      rw [step_of_suspended_some hrun hwait hfirst]
      exact ⟨rfl, rfl⟩
    · intro memory other
      -- The other machine waits for the same register with the same keys.
      have hwait' : other.state.keyWait = some x := hwait
      cases hfirst : m.keypad.first? with
      | none =>
        rw [step_of_suspended_none hrun hwait hfirst,
          step_of_suspended_none (m := other) hrun hwait' hfirst]
        exact ⟨rfl, rfl, rfl⟩
      | some key =>
        rw [step_of_suspended_some hrun hwait hfirst,
          step_of_suspended_some (m := other) hrun hwait' hfirst]
        exact ⟨rfl, rfl, rfl⟩

/-- A program that starts with a wait is suspended by its first step. -/
theorem act_step_of_boot_wait (hrun : m.halted = false)
    (hstate : m.state = State.boot #[0xF3, 0x0A]) (hkeys : m.keypad.first? = none) :
    m.act .step = m.commit ⟨m.core.suspend 3, .waitKey, none⟩ := by
  have hfetch : m.core.state.fetch = 0xF30A := by
    apply UInt16.toNat.inj
    rw [show m.core.state = _ from hstate, State.toNat_fetch_boot]
    rfl
  have hpolled : m.core.polled? = some 3 := by
    refine Core.polled?_eq_some_iff.mpr (.inr ⟨?_, ?_⟩)
    · rw [show m.core.state = _ from hstate]
      rfl
    · rw [hfetch]
      rfl
  rw [act, step_of_retired hrun (Core.step_of_polled_none hpolled hkeys)]

/-- It is still suspended when the frame ends and a key comes. -/
theorem suspended_of_boot_wait (hrun : m.halted = false)
    (hstate : m.state = State.boot #[0xF3, 0x0A]) (hkeys : m.keypad = Keypad.released) :
    let n := m.acts [.step, .finishFrame, .setKey 5 true]
    n.halted = false ∧ n.state.keyWait = some 3 ∧ n.state.pc = 0x200 ∧
      n.keypad.first? = some 5 := by
  have hnone : m.keypad.first? = none := by
    rw [hkeys]
    rfl
  have hcore : ((m.act .step).act .finishFrame).core =
      { m.core with state := { m.state with keyWait := some 3 }.countDown } := by
    rw [act_step_of_boot_wait hrun hstate hnone]
    exact core_finishFrame _
  have hkeypad : ((m.act .step).act .finishFrame).keypad = Keypad.released :=
    (congrArg Core.keypad hcore).trans hkeys
  refine ⟨?_, congrArg (fun c => c.state.keyWait) hcore, ?_, ?_⟩
  · show ((m.act .step).act .finishFrame).halted = false
    rw [act_step_of_boot_wait hrun hstate hnone]
    exact (halted_finishFrame _).trans hrun
  · calc
      _ = m.state.pc := congrArg (fun c => c.state.pc) hcore
      _ = 0x200 := by rw [hstate]; rfl
  · show (Keypad.set _ 5 true).first? = some 5
    rw [hkeypad]
    rfl

/-- The key that comes while a machine waits goes into the register that waits for it. -/
theorem suspended_at_wait_of_pressed :
    let n := (new {} fun _ => 0).act (.load (.ok #[0xF3, 0x0A]))
    let m := n.acts [.step, .finishFrame, .setKey 5 true]
    Reachable m ∧ m.state.keyWait = some 3 ∧
      m.step.1 = .ok .next ∧ m.step.2.state.pc = 0x202 ∧ m.step.2.state.reg 3 = 5 := by
  -- The state and the keys are all that is needed of the machine that has loaded the program.
  have hanswered (n : Machine) (hn : Reachable n) (hrun : n.halted = false)
      (hstate : n.state = State.boot #[0xF3, 0x0A]) (hkeys : n.keypad = Keypad.released) :
      let m := n.acts [.step, .finishFrame, .setKey 5 true]
      Reachable m ∧ m.state.keyWait = some 3 ∧
        m.step.1 = .ok .next ∧ m.step.2.state.pc = 0x202 ∧ m.step.2.state.reg 3 = 5 := by
    intro m
    have hm : Reachable m := hn.acts fun s hs => by simp at hs
    rcases suspended_of_boot_wait hrun hstate hkeys with ⟨hrun, hwait, hpc, hkey⟩
    rcases suspended_at_wait hm hwait with ⟨_, _, _, hstep⟩
    rcases (hstep hrun).2.1 5 hkey with ⟨hflow, hafter⟩
    refine ⟨hm, hwait, hflow, ?_, ?_⟩
    · rw [hafter, hpc]
      rfl
    · rw [hafter]
      exact Vector.getElem_set_self _
  exact hanswered _ ((Reachable.new {} _).act _ fun s hs => by cases hs) rfl rfl rfl

end Machine
end Chip8
