import Chip8.Proofs.Presentation
import Chip8.Proofs.Subroutine

/-!
# Flow — what the answer of a step tells

Every instruction has a flow, which can be read off the instruction alone (`Instr.flow`).  The one
exception is the wait for a key: its flow tells whether the machine is suspended afterwards, and the
same is true of the steps that poll the keypad later.  So a step that succeeds is a poll without a
key, a poll with one, or an instruction that is no wait (`Machine.step_flow_cases`); in the last case
the effect of the instruction says what its flow gives away about the state.
-/

namespace Chip8

/-! ## Steps -/

namespace Machine

variable {m n : Machine} {flow : Flow} {i : Instr} {x : Reg}

/-- A step that succeeds is suspended on a wait, ends a wait, or executes an instruction that is no
wait. -/
theorem step_flow_cases (hstep : m.step = (.ok flow, n)) :
    (∃ x, m.core.polled? = some x ∧ flow = .waitKey ∧ n.core = m.core.suspend x) ∨
      (∃ x key, m.core.polled? = some x ∧ flow = .next ∧ n.core = m.core.takeKey x key) ∨
      ∃ i r, m.Executes i ∧ (∀ x, i ≠ .waitKey x) ∧ flow = i.flow ∧ n.state.keyWait = none ∧
        m.core.Effect i r ∧ n.core = r.core := by
  obtain ⟨hhalt, r, hcore, rfl, rfl⟩ := step_eq_ok_iff.mp hstep
  rcases Core.step_ok_wait_cases hcore with ⟨x, hx, _, rfl⟩ | ⟨x, key, hx, _, rfl⟩ |
    ⟨i, hwait, hword, hother, hexec⟩
  · exact .inl ⟨x, hx, rfl, rfl⟩
  · exact .inr (.inl ⟨x, key, hx, rfl, rfl⟩)
  · have heffect := Core.effect_of_execute hexec hother
    have hnone : r.core.state.keyWait = none := (Core.keys_of_execute hexec hother).2.trans hwait
    exact .inr (.inr ⟨i, r, ⟨hhalt, hwait, hword⟩, hother, heffect.flow_eq, hnone, heffect, rfl⟩)

/-- A flow that is neither that of a wait nor that of going on comes from the instruction. -/
theorem flow_eq_iff (hstep : m.step = (.ok flow, n)) (told : Flow) (hwait : told ≠ .waitKey)
    (hnext : told ≠ .next) : flow = told ↔ ∃ i, m.Executes i ∧ i.flow = told := by
  have hpoll {x : Reg} (hpolled : m.core.polled? = some x) :
      ¬ ∃ i, m.Executes i ∧ i.flow = told := by
    rintro ⟨i, hi, hflow⟩
    rw [hi.eq_waitKey hpolled] at hflow
    exact hwait hflow.symm
  rcases step_flow_cases hstep with ⟨x, hx, rfl, _⟩ | ⟨x, key, hx, rfl, _⟩ | ⟨i, r, hi, _, rfl, _⟩
  · exact iff_of_false hwait.symm (hpoll hx)
  · exact iff_of_false hnext.symm (hpoll hx)
  · constructor
    · exact fun hflow => ⟨i, hi, hflow⟩
    · rintro ⟨j, hj, hflow⟩
      rw [hi.unique hj]
      exact hflow

/-- The next step executes an instruction that draws. -/
def Draws (m : Machine) : Prop :=
  m.Fetches 0x00E0 ∨ ∃ (x y : Reg) (rows : Nibble), m.Fetches (0xD000 + x * 256 + y * 16 + rows)

/-- The next step executes the instruction that sets the sound timer. -/
def Sounds (m : Machine) : Prop := ∃ x : Reg, m.Fetches (0xF018 + x * 256)

/-- The next step executes a jump, a call or a return. -/
def Jumps (m : Machine) : Prop :=
  (∃ target : Addr, m.Fetches (0x1000 + target)) ∨ (∃ target : Addr, m.Fetches (0x2000 + target)) ∨
    m.Fetches 0x00EE ∨ ∃ base : Addr, m.Fetches (0xB000 + base)

/-- The next step executes a skip whose condition holds.  There are six of them: a register equals a
byte or does not, two registers are equal or are not, and the key that the low digit of a register
names is down or up. -/
inductive Skips (m : Machine) : Prop where
  | eqByte (x : Reg) (byte : UInt8) (hword : m.Fetches (0x3000 + x * 256 + byte.toNat))
      (h : m.state.reg x = byte)
  | neByte (x : Reg) (byte : UInt8) (hword : m.Fetches (0x4000 + x * 256 + byte.toNat))
      (h : m.state.reg x ≠ byte)
  | eqReg (x y : Reg) (hword : m.Fetches (0x5000 + x * 256 + y * 16))
      (h : m.state.reg x = m.state.reg y)
  | neReg (x y : Reg) (hword : m.Fetches (0x9000 + x * 256 + y * 16))
      (h : m.state.reg x ≠ m.state.reg y)
  | pressed (x : Reg) (key : Key) (hword : m.Fetches (0xE09E + x * 256))
      (hkey : key.val = (m.state.reg x).toNat % 16) (h : m.keypad.isDown key = true)
  | released (x : Reg) (key : Key) (hword : m.Fetches (0xE0A1 + x * 256))
      (hkey : key.val = (m.state.reg x).toNat % 16) (h : m.keypad.isDown key = false)

theorem draws_iff : m.Draws ↔ ∃ i, m.Executes i ∧ i.flow = .draw := by
  constructor
  · rintro (h | ⟨x, y, rows, h⟩)
    · exact ⟨.clear, fetches_code_iff.mp h, rfl⟩
    · exact ⟨.draw x y rows, fetches_code_iff.mp h, rfl⟩
  · rintro ⟨i, hi, hflow⟩
    have hfetch := fetches_code_iff.mpr hi
    cases i with
    | clear => exact .inl hfetch
    | draw x y rows => exact .inr ⟨x, y, rows, hfetch⟩
    | _ => cases hflow

theorem sounds_iff : m.Sounds ↔ ∃ i, m.Executes i ∧ i.flow = .sound := by
  constructor
  · rintro ⟨x, h⟩
    exact ⟨.setSound x, fetches_code_iff.mp h, rfl⟩
  · rintro ⟨i, hi, hflow⟩
    have hfetch := fetches_code_iff.mpr hi
    cases i with
    | setSound x => exact ⟨x, hfetch⟩
    | _ => cases hflow

theorem jumps_iff : m.Jumps ↔ ∃ i, m.Executes i ∧ i.flow = .jump := by
  constructor
  · rintro (⟨target, h⟩ | ⟨target, h⟩ | h | ⟨base, h⟩)
    · exact ⟨.jump target, fetches_code_iff.mp h, rfl⟩
    · exact ⟨.call target, fetches_code_iff.mp h, rfl⟩
    · exact ⟨.ret, fetches_code_iff.mp h, rfl⟩
    · exact ⟨.jumpOffset base, fetches_code_iff.mp h, rfl⟩
  · rintro ⟨i, hi, hflow⟩
    have hfetch := fetches_code_iff.mpr hi
    cases i with
    | jump target => exact .inl ⟨target, hfetch⟩
    | call target => exact .inr (.inl ⟨target, hfetch⟩)
    | ret => exact .inr (.inr (.inl hfetch))
    | jumpOffset base => exact .inr (.inr (.inr ⟨base, hfetch⟩))
    | _ => cases hflow

/-- The six conditions are those of the six tests. -/
theorem skips_iff_exists :
    m.Skips ↔ ∃ test : Test, m.Executes (.skipIf test) ∧ test.holds m.state m.keypad = true := by
  constructor
  · rintro (⟨x, byte, hword, h⟩ | ⟨x, byte, hword, h⟩ | ⟨x, y, hword, h⟩ | ⟨x, y, hword, h⟩ |
      ⟨x, key, hword, hkey, h⟩ | ⟨x, key, hword, hkey, h⟩)
    · exact ⟨.eqByte x byte, fetches_code_iff.mp hword, by simpa [Test.holds] using h⟩
    · exact ⟨.neByte x byte, fetches_code_iff.mp hword, by simpa [Test.holds] using h⟩
    · exact ⟨.eqReg x y, fetches_code_iff.mp hword, by simpa [Test.holds] using h⟩
    · exact ⟨.neReg x y, fetches_code_iff.mp hword, by simpa [Test.holds] using h⟩
    · obtain rfl : key = Nibble.ofNat (m.state.reg x).toNat := Fin.ext hkey
      exact ⟨.pressed x, fetches_code_iff.mp hword, h⟩
    · obtain rfl : key = Nibble.ofNat (m.state.reg x).toNat := Fin.ext hkey
      exact ⟨.released x, fetches_code_iff.mp hword, by simpa [Test.holds] using h⟩
  · rintro ⟨test, hexec, hholds⟩
    have hword := fetches_code_iff.mpr hexec
    cases test with
    | eqByte x byte => exact .eqByte x byte hword (by simpa [Test.holds] using hholds)
    | neByte x byte => exact .neByte x byte hword (by simpa [Test.holds] using hholds)
    | eqReg x y => exact .eqReg x y hword (by simpa [Test.holds] using hholds)
    | neReg x y => exact .neReg x y hword (by simpa [Test.holds] using hholds)
    | pressed x => exact .pressed x _ hword rfl hholds
    | released x => exact .released x _ hword rfl (by simpa [Test.holds] using hholds)

theorem skips_iff (hi : m.Executes i) : m.Skips ↔ i.skips m.core = true := by
  rw [skips_iff_exists]
  constructor
  · rintro ⟨test, hexec, hholds⟩
    rw [hi.unique hexec]
    exact hholds
  · intro hskips
    cases i with
    | skipIf test => exact ⟨test, hi, hskips⟩
    | _ => cases hskips

/-! ## What each flow tells -/

/-- The flow of a wait is that of machines that are suspended after the step, and they have changed in
nothing but this. -/
theorem suspended_iff (hstep : m.step = (.ok flow, n)) :
    (flow = .waitKey ↔ n.state.keyWait ≠ none) ∧
      (flow = .waitKey → n.state = { m.state with keyWait := n.state.keyWait }) := by
  rcases step_flow_cases hstep with ⟨x, _, rfl, hcore⟩ | ⟨x, key, _, rfl, hcore⟩ |
    ⟨i, r, _, hother, rfl, hnone, _⟩
  · have hstate : n.state = { m.state with keyWait := some x } := congrArg Core.state hcore
    rw [hstate]
    exact ⟨iff_of_true rfl nofun, fun _ => rfl⟩
  · have hnone : n.state.keyWait = none := congrArg (fun c => c.state.keyWait) hcore
    exact ⟨iff_of_false nofun (fun h => h hnone), nofun⟩
  · have hflow : i.flow ≠ .waitKey := by
      cases i with
      | waitKey x => exact (hother x rfl).elim
      | _ => exact nofun
    exact ⟨iff_of_false hflow (fun h => h hnone), fun h => (hflow h).elim⟩

/-- Where control goes unless the flow tells of a jump or a wait. -/
theorem pc_of_step (hstep : m.step = (.ok flow, n)) (hjump : flow ≠ .jump)
    (hwait : flow ≠ .waitKey) :
    (m.Skips → n.state.pc = m.state.pc + 4) ∧ (¬ m.Skips → n.state.pc = m.state.pc + 2) := by
  rcases step_flow_cases hstep with ⟨x, _, hflow, _⟩ | ⟨x, key, hx, _, hcore⟩ |
    ⟨i, r, hi, _, rfl, _, heffect, hcore⟩
  · exact (hwait hflow).elim
  · have hpc : n.state.pc = m.state.pc + 2 := congrArg (fun c => c.state.pc) hcore
    refine ⟨?_, fun _ => hpc⟩
    intro hskips
    obtain ⟨test, hexec, _⟩ := skips_iff_exists.mp hskips
    cases hexec.eq_waitKey hx
  · rw [skips_iff hi, state, hcore, heffect.pc_eq hjump]
    exact ⟨fun h => if_pos h, fun h => if_neg h⟩

theorem screen_of_step (hstep : m.step = (.ok flow, n)) (hflow : flow ≠ .draw) :
    n.state.screen = m.state.screen := by
  obtain ⟨_, r, hcore, rfl, rfl⟩ := step_eq_ok_iff.mp hstep
  exact Core.screen_of_step hcore hflow

theorem sound_of_step (hstep : m.step = (.ok flow, n)) (hflow : flow ≠ .sound) :
    n.state.sound = m.state.sound := by
  rcases step_flow_cases hstep with ⟨x, _, _, hcore⟩ | ⟨x, key, _, _, hcore⟩ |
    ⟨i, r, _, _, rfl, _, heffect, hcore⟩
  · exact congrArg (fun c => c.state.sound) hcore
  · exact congrArg (fun c => c.state.sound) hcore
  · exact (congrArg (fun c => c.state.sound) hcore).trans (heffect.sound_eq hflow)

theorem stack_of_step (hstep : m.step = (.ok flow, n)) (hflow : flow ≠ .jump) :
    n.state.stack = m.state.stack := by
  rcases step_flow_cases hstep with ⟨x, _, _, hcore⟩ | ⟨x, key, _, _, hcore⟩ |
    ⟨i, r, _, _, rfl, _, heffect, hcore⟩
  · exact congrArg (fun c => c.state.stack) hcore
  · exact congrArg (fun c => c.state.stack) hcore
  · exact (congrArg (fun c => c.state.stack) hcore).trans (heffect.stack_eq hflow)

/-- The flow of a step that succeeds tells what the step was about.

It is `draw`, `sound` or `jump` exactly for the instructions of these kinds, `waitKey` exactly if the
machine is suspended on a wait after the step, and `next` in all other cases.  So a host that looks at
the flow misses nothing: the screen changes only with `draw`, the sound timer only with `sound`, the
call stack only with `jump`, and with `waitKey` nothing changes but the wait itself.  With every flow
but `jump` and `waitKey` control goes on to the next instruction, or behind it if the step is a skip
whose condition holds. -/
theorem flow_tells_changes (hstep : m.step = (.ok flow, n)) :
    let s := m.state
    let t := n.state
    (flow = .draw ↔ m.Draws) ∧ (flow = .sound ↔ m.Sounds) ∧ (flow = .jump ↔ m.Jumps) ∧
      (flow = .waitKey ↔ t.keyWait ≠ none) ∧
      (flow = .next ↔ ¬ m.Draws ∧ ¬ m.Sounds ∧ ¬ m.Jumps ∧ t.keyWait = none) ∧
      (t.screen ≠ s.screen → flow = .draw) ∧
      (t.sound ≠ s.sound → flow = .sound) ∧
      (t.stack ≠ s.stack → flow = .jump) ∧
      (flow = .waitKey → t = { s with keyWait := t.keyWait }) ∧
      (flow ≠ .jump → flow ≠ .waitKey →
        (m.Skips → t.pc = s.pc + 4) ∧ (¬ m.Skips → t.pc = s.pc + 2)) := by
  intro s t
  have hdraw : flow = .draw ↔ m.Draws :=
    (flow_eq_iff hstep .draw (by decide) (by decide)).trans draws_iff.symm
  have hsound : flow = .sound ↔ m.Sounds :=
    (flow_eq_iff hstep .sound (by decide) (by decide)).trans sounds_iff.symm
  have hjump : flow = .jump ↔ m.Jumps :=
    (flow_eq_iff hstep .jump (by decide) (by decide)).trans jumps_iff.symm
  rcases suspended_iff hstep with ⟨hwait, hsame⟩
  refine ⟨hdraw, hsound, hjump, hwait, ?_, ?_, ?_, ?_, hsame, pc_of_step hstep⟩
  · -- There is no flow but these five.
    have hfree : t.keyWait = none ↔ flow ≠ .waitKey := by
      rw [Ne, hwait]
      exact Decidable.not_not.symm
    rw [← hdraw, ← hsound, ← hjump, hfree]
    cases flow <;> simp
  · exact fun h => Decidable.by_contra fun hflow => h (screen_of_step hstep hflow)
  · exact fun h => Decidable.by_contra fun hflow => h (sound_of_step hstep hflow)
  · exact fun h => Decidable.by_contra fun hflow => h (stack_of_step hstep hflow)

/-- A program that starts with a skip whose condition holds: the step goes behind the next
instruction, and leaves screen, sound timer and call stack alone. -/
theorem flow_tells_changes_of_skip :
    let m := (new {} fun _ => 0).act (.load (.ok #[0x30, 0x00]))
    let n := m.step.2
    m.step = (.ok .next, n) ∧ m.Skips ∧ n.state.pc = 0x204 ∧ ¬ m.Draws := by
  have hskipped (m : Machine) (hm : m.StandsAt #[0x30, 0x00] 0x200 CallStack.empty) :
      m.step = (.ok .next, m.step.2) ∧ m.Skips ∧ m.step.2.state.pc = 0x204 ∧ ¬ m.Draws := by
    have hcode : (Memory.boot #[0x30, 0x00]).word 0x200 = 0x3000 := by
      apply UInt16.toNat.inj
      rw [Memory.toNat_word]
      simp [Memory.read_boot, Memory.bootByte, Memory.programStart]
    have hexec : m.Executes (.skipIf (.eqByte 0 0)) := hm.executes hcode rfl
    have hstep : m.step = (.ok .next, m.step.2) := Prod.ext (hexec.step_of_next rfl).1 rfl
    have hskips : m.Skips := by
      refine .eqByte 0 0 (fetches_code_iff.mpr hexec) ?_
      rw [hm.state]
      rfl
    rcases flow_tells_changes hstep with ⟨hdraw, _, _, _, _, _, _, _, _, hpc⟩
    refine ⟨hstep, hskips, ?_, fun h => ?_⟩
    · rw [(hpc (by decide) (by decide)).1 hskips, hm.state]
      rfl
    · cases hdraw.mpr h
  exact hskipped _ ⟨rfl, rfl⟩

end Machine
end Chip8
