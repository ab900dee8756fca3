import Chip8.Proofs.Machine.Step

/-!
# Wrapped addresses in the core

The program counter, the index and the cells of the call stack keep sixteen bits, but memory has
twelve bits of addresses.  `State.wrapped` forgets the other four bits.  Whatever an instruction
does, it does the same on the wrapped state, up to bits that wrapping forgets
(`Core.execute_wrapped`): addresses are only added to, stored, and used to reach memory, and all of
that goes through with wrapped addresses.
-/

namespace Chip8

/-! ## Addresses -/

/-- What memory makes of an address: its lowest twelve bits. -/
def wrapAddress (a : UInt16) : UInt16 := a % 4096

@[simp] theorem toNat_wrapAddress (a : UInt16) : (wrapAddress a).toNat = a.toNat % 4096 := by
  rw [wrapAddress, UInt16.toNat_mod]
  rfl

theorem wrapAddress_eq_iff {a b : UInt16} :
    wrapAddress a = wrapAddress b ↔ a.toNat % 4096 = b.toNat % 4096 := by
  rw [← UInt16.toNat_inj, toNat_wrapAddress, toNat_wrapAddress]

@[simp] theorem wrapAddress_wrapAddress (a : UInt16) :
    wrapAddress (wrapAddress a) = wrapAddress a := by
  rw [wrapAddress_eq_iff, toNat_wrapAddress, Nat.mod_mod]

@[simp] theorem wrapAddress_wrapAddress_add (a b : UInt16) :
    wrapAddress (wrapAddress a + b) = wrapAddress (a + b) := by
  rw [wrapAddress_eq_iff, UInt16.toNat_add, UInt16.toNat_add, toNat_wrapAddress]
  -- Sixteen bits overflow at a multiple of the size of memory.
  omega

namespace Memory

variable (m : Memory) (a : Nat)

@[simp] theorem read_mod_add (k : Nat) : m.read (a % 4096 + k) = m.read (a + k) := by
  rw [← read_mod, Nat.mod_add_mod, read_mod]

@[simp] theorem word_mod : m.word (a % 4096) = m.word a := by
  rw [word, word, read_mod, read_mod_add]

@[simp] theorem slice_mod (n : Nat) : m.slice (a % 4096) n = m.slice a n := by
  simp only [slice, read_mod_add]

theorem write_mod (byte : UInt8) : m.write (a % 4096) byte = m.write a byte := by
  simp only [write, Nat.mod_mod]

@[simp] theorem writeAll_mod (bytes : List UInt8) :
    m.writeAll (a % 4096) bytes = m.writeAll a bytes := by
  induction bytes generalizing m a with
  | nil => rfl
  | cons byte bytes ih =>
    -- The next address may leave memory on one side only.
    rw [writeAll, writeAll, write_mod, ← ih, Nat.mod_add_mod, ih]

end Memory

/-! ## The call stack -/

namespace CallStack

/-- The stack with wrapped return addresses. -/
def wrapped (s : CallStack) : CallStack := ⟨s.cells.map wrapAddress, s.depth⟩

@[simp] theorem wrapped_wrapped (s : CallStack) : s.wrapped.wrapped = s.wrapped := by
  rw [wrapped, wrapped, Vector.map_map]
  congr 2
  funext a
  exact wrapAddress_wrapAddress a

theorem push?_wrapped (s : CallStack) {a b : UInt16} (h : wrapAddress a = wrapAddress b) :
    (s.wrapped.push? a).map wrapped = (s.push? b).map wrapped := by
  -- Wrapping keeps the depth, so both stacks have a free cell or none has.
  by_cases hroom : s.depth < 12
  · have hwrapped : s.wrapped.push? a =
        some ⟨(s.cells.map wrapAddress).set s.depth a, s.depth + 1⟩ :=
      push?_eq_some_iff.mpr ⟨hroom, rfl⟩
    have hpush : s.push? b = some ⟨s.cells.set s.depth b, s.depth + 1⟩ :=
      push?_eq_some_iff.mpr ⟨hroom, rfl⟩
    have hcells : (s.cells.map wrapAddress).map wrapAddress = s.cells.map wrapAddress :=
      congrArg cells s.wrapped_wrapped
    rw [hwrapped, hpush]
    simp only [Option.map_some, wrapped, Vector.map_set, hcells, h]
  · have hfull : capacity ≤ s.depth := Nat.le_of_not_lt hroom
    rw [(push?_eq_none_iff s b).mpr hfull, (push?_eq_none_iff s.wrapped a).mpr hfull]

theorem pop?_wrapped (s : CallStack) :
    s.wrapped.pop? = s.pop?.map fun (a, t) => (wrapAddress a, t.wrapped) := by
  rcases s with ⟨cells, depth⟩
  cases depth with
  | zero => rfl
  | succ depth =>
    simp only [pop?, wrapped, Option.map_some, Vector.getElem?_map]
    cases cells[depth]? <;> rfl

end CallStack

/-! ## States -/

namespace State

/-- The state with wrapped addresses. -/
def wrapped (s : State) : State :=
  { s with pc := wrapAddress s.pc, index := wrapAddress s.index, stack := s.stack.wrapped }

@[simp] theorem wrapped_wrapped (s : State) : s.wrapped.wrapped = s.wrapped := by
  simp only [wrapped, wrapAddress_wrapAddress, CallStack.wrapped_wrapped]

@[simp] theorem fetch_wrapped (s : State) : s.wrapped.fetch = s.fetch := by
  simp only [fetch, wrapped, toNat_wrapAddress, Memory.word_mod]

/-- What a change of the state comes to does not depend on the bits that wrapping forgets. -/
def Respects (f : State → State) : Prop := ∀ s, (f s.wrapped).wrapped = (f s).wrapped

theorem Respects.comp {f g : State → State} (hf : Respects f) (hg : Respects g) :
    Respects fun s => f (g s) := by
  intro s
  calc
    (f (g s.wrapped)).wrapped
        = (f (g s.wrapped).wrapped).wrapped := (hf _).symm
    _ = (f (g s).wrapped).wrapped := by rw [hg s]
    _ = (f (g s)).wrapped := hf _

theorem respects_of_commutes {f : State → State} (hf : ∀ s, (f s).wrapped = f s.wrapped) :
    Respects f := by
  intro s
  rw [hf, hf, wrapped_wrapped]

theorem respects_advance : Respects advance := by
  intro s
  simp [advance, wrapped]

theorem respects_jump (target : UInt16) : Respects fun s => { s with pc := target } := by
  intro s
  simp [wrapped]

theorem respects_setIndex (target : UInt16) : Respects fun s => { s with index := target } := by
  intro s
  simp [wrapped]

theorem respects_addIndex (n : UInt16) : Respects fun s => { s with index := s.index + n } := by
  intro s
  simp [wrapped]

theorem respects_setReg (x : Reg) (value : UInt8) : Respects fun s => s.setReg x value :=
  respects_of_commutes fun _ => rfl

theorem respects_selectGlyph (x : Reg) : Respects fun s => s.selectGlyph x := by
  intro s
  simp only [selectGlyph, wrapped]
  simp [reg]

theorem wrapped_setFlag? (s : State) (flag : Option Bool) :
    (s.setFlag? flag).wrapped = s.wrapped.setFlag? flag := by
  cases flag <;> rfl

theorem respects_combine (op : AluOp) (x y : Reg) : Respects fun s => s.combine op x y :=
  respects_of_commutes fun s => wrapped_setFlag? _ (op.eval (s.reg x) (s.reg y)).flag

theorem respects_drawSprite (x y : Reg) (rows : Nat) :
    Respects fun s => s.drawSprite x y rows := by
  refine respects_of_commutes fun s => ?_
  -- The rows are read at wrapped addresses.
  have hrows : s.wrapped.memory.slice s.wrapped.index.toNat rows =
      s.memory.slice s.index.toNat rows := by
    rw [wrapped, toNat_wrapAddress, Memory.slice_mod]
  simp only [drawSprite, hrows]
  rfl

theorem writeAll_wrapped (s : State) (bytes : List UInt8) :
    s.wrapped.memory.writeAll s.wrapped.index.toNat bytes =
      s.memory.writeAll s.index.toNat bytes := by
  rw [wrapped, toNat_wrapAddress, Memory.writeAll_mod]

theorem respects_storeDecimal (x : Reg) : Respects fun s => s.storeDecimal x := by
  refine respects_of_commutes fun s => ?_
  rw [storeDecimal, storeDecimal, writeAll_wrapped]
  rfl

theorem respects_skipRegs (x : Reg) : Respects fun s => s.skipRegs x :=
  respects_addIndex (UInt16.ofNat (x.val + 1))

theorem respects_storeRegs (x : Reg) : Respects fun s => s.storeRegs x := by
  refine (respects_skipRegs x).comp (respects_of_commutes fun s => ?_)
  rw [writeAll_wrapped]
  rfl

theorem respects_loadRegs (x : Reg) : Respects fun s => s.loadRegs x := by
  -- Only moving the index can leave memory; the bytes are read at wrapped addresses.
  refine (respects_skipRegs x).comp (respects_of_commutes fun s => ?_)
  simp only [wrapped, toNat_wrapAddress, Memory.read_mod_add]
  rfl

end State

/-! ## Instructions -/

/-- The trap with the wrapped address of its instruction. -/
def Trap.wrapped : Trap → Trap
  | .unknownOpcode word address => .unknownOpcode word (wrapAddress address)
  | .callStackOverflow address => .callStackOverflow (wrapAddress address)
  | .callStackUnderflow address => .callStackUnderflow (wrapAddress address)

namespace Core

/-- The core with wrapped addresses. -/
def wrapped (c : Core) : Core := { c with state := c.state.wrapped }

theorem wrapped_eq_iff {c d : Core} :
    c.wrapped = d.wrapped ↔
      c.state.wrapped = d.state.wrapped ∧ c.keypad = d.keypad ∧ c.random = d.random := by
  simp only [wrapped, mk.injEq]

/-- What becomes of a step, with wrapped addresses. -/
def wrapResult : Except Trap Retired → Except Trap Retired
  | .ok r => .ok { r with core := r.core.wrapped }
  | .error cause => .error cause.wrapped

theorem retire_wrapped (c : Core) {s t : State} (h : s.wrapped = t.wrapped) (flow : Flow) :
    wrapResult (.ok (c.wrapped.retire s flow)) = wrapResult (.ok (c.retire t flow)) := by
  simp only [wrapResult, retire, wrapped, h]

/-- Most instructions change the state after the program counter went on. -/
theorem retire_next_wrapped (c : Core) {f : State → State} (hf : State.Respects f) (flow : Flow) :
    wrapResult (.ok (c.wrapped.retire (f c.wrapped.state.advance) flow)) =
      wrapResult (.ok (c.retire (f c.state.advance) flow)) :=
  c.retire_wrapped (hf.comp State.respects_advance c.state) flow

/-- The buzzer does not depend on addresses. -/
theorem cue_wrapped {r r' : Retired} (h : wrapResult (.ok r) = wrapResult (.ok r'))
    (cue : Option UInt32) :
    wrapResult (.ok { r with cue := cue }) = wrapResult (.ok { r' with cue := cue }) := by
  simp only [wrapResult, Except.ok.injEq, Retired.mk.injEq] at h ⊢
  exact ⟨h.1, h.2.1, trivial⟩

theorem answerWait_wrapped (c : Core) (x : Reg) :
    wrapResult (.ok (c.wrapped.answerWait x)) = wrapResult (.ok (c.answerWait x)) := by
  have hkeypad : c.wrapped.keypad = c.keypad := rfl
  simp only [answerWait, hkeypad]
  cases hfirst : c.keypad.first? with
  | none => exact c.retire_wrapped (State.wrapped_wrapped c.state) .waitKey
  | some key =>
    -- The register is written, control goes on, and the wait ends.
    have hanswer : State.Respects fun s =>
        { (s.setReg x (UInt8.ofNat key)).advance with keyWait := none } :=
      (State.respects_of_commutes (f := fun s => { s with keyWait := none }) fun _ => rfl).comp
        (State.respects_advance.comp (State.respects_setReg x (UInt8.ofNat key)))
    have hstate := hanswer c.state
    simp only [wrapResult, wrapped] at hstate ⊢
    rw [hstate]

theorem holds_wrapped (test : Test) (s : State) (keypad : Keypad) :
    test.holds s.wrapped keypad = test.holds s keypad := by
  cases test <;> rfl

theorem execute_ret_wrapped (c : Core) :
    wrapResult (c.wrapped.execute .ret) = wrapResult (c.execute .ret) := by
  have hwrapped : c.wrapped.state.stack.pop? =
      c.state.stack.pop?.map fun (a, t) => (wrapAddress a, t.wrapped) :=
    CallStack.pop?_wrapped c.state.stack
  cases hpop : c.state.stack.pop? with
  | none =>
    rw [hpop, Option.map_none] at hwrapped
    simp only [execute, hpop, hwrapped, wrapResult, Trap.wrapped]
    simp [wrapped, State.wrapped]
  | some top =>
    rw [hpop, Option.map_some] at hwrapped
    simp only [execute, hpop, hwrapped]
    refine c.retire_wrapped ?_ .jump
    simp [wrapped, State.wrapped]

theorem execute_call_wrapped (c : Core) (target : Addr) :
    wrapResult (c.wrapped.execute (.call target)) = wrapResult (c.execute (.call target)) := by
  have hpush : (c.wrapped.state.stack.push? c.wrapped.state.advance.pc).map CallStack.wrapped =
      (c.state.stack.push? c.state.advance.pc).map CallStack.wrapped :=
    CallStack.push?_wrapped c.state.stack (congrArg State.pc (State.respects_advance c.state))
  -- Both calls open a cell or both fail.
  cases hone : c.wrapped.state.stack.push? c.wrapped.state.advance.pc with
  | none =>
    rw [hone, Option.map_none, eq_comm, Option.map_eq_none_iff] at hpush
    simp only [execute, hone, hpush, wrapResult, Trap.wrapped]
    simp [wrapped, State.wrapped]
  | some stack =>
    rw [hone, Option.map_some, eq_comm, Option.map_eq_some_iff] at hpush
    rcases hpush with ⟨other, hother, hstack⟩
    simp only [execute, hone, hother]
    refine c.retire_wrapped ?_ .jump
    simp [wrapped, State.wrapped, hstack]

/-- An instruction does the same with wrapped addresses. -/
theorem execute_wrapped (c : Core) (i : Instr) :
    wrapResult (c.wrapped.execute i) = wrapResult (c.execute i) := by
  cases i with
  | clear =>
    exact c.retire_next_wrapped (f := fun s => { s with screen := Screen.blank })
      (State.respects_of_commutes fun _ => rfl) .draw
  | ret => exact c.execute_ret_wrapped
  | jump target => exact c.retire_wrapped (State.respects_jump _ c.state) .jump
  | call target => exact c.execute_call_wrapped target
  | jumpOffset base => exact c.retire_wrapped (State.respects_jump _ c.state) .jump
  | skipIf test =>
    have hholds : test.holds c.wrapped.state c.wrapped.keypad = test.holds c.state c.keypad :=
      holds_wrapped test c.state c.keypad
    simp only [execute, hholds]
    split
    · exact c.retire_next_wrapped State.respects_advance .next
    · exact c.retire_wrapped (State.respects_advance c.state) .next
  | setByte x n => exact c.retire_next_wrapped (State.respects_setReg x n) .next
  | addByte x n => exact c.retire_next_wrapped (State.respects_setReg x _) .next
  | alu op x y => exact c.retire_next_wrapped (State.respects_combine op x y) .next
  | setIndex target => exact c.retire_next_wrapped (State.respects_setIndex _) .next
  | random x mask =>
    exact retire_next_wrapped { c with random := c.random.advance } (State.respects_setReg x _) .next
  | draw x y rows => exact c.retire_next_wrapped (State.respects_drawSprite x y rows) .draw
  | getDelay x => exact c.retire_next_wrapped (State.respects_setReg x _) .next
  | waitKey x => exact answerWait_wrapped { c with state := { c.state with keyWait := some x } } x
  | setDelay x =>
    exact c.retire_next_wrapped (f := fun s => { s with delay := s.reg x })
      (State.respects_of_commutes fun _ => rfl) .next
  | setSound x =>
    exact cue_wrapped (c.retire_next_wrapped (f := fun s => { s with sound := s.reg x })
      (State.respects_of_commutes fun _ => rfl) .sound) _
  | addIndex x => exact c.retire_next_wrapped (State.respects_addIndex _) .next
  | glyph x => exact c.retire_next_wrapped (State.respects_selectGlyph x) .next
  | storeDecimal x => exact c.retire_next_wrapped (State.respects_storeDecimal x) .next
  | storeRegs x => exact c.retire_next_wrapped (State.respects_storeRegs x) .next
  | loadRegs x => exact c.retire_next_wrapped (State.respects_loadRegs x) .next

theorem step_wrapped (c : Core) : wrapResult c.wrapped.step = wrapResult c.step := by
  -- The same word is fetched, so the same instruction is executed or none on both sides.
  have hfetch : c.wrapped.state.fetch = c.state.fetch := State.fetch_wrapped c.state
  cases hwait : c.state.keyWait with
  | some x =>
    rw [step_of_waiting hwait, step_of_waiting (c := c.wrapped) hwait]
    exact c.answerWait_wrapped x
  | none =>
    cases hword : Instr.decode? c.state.fetch with
    | none =>
      rw [step_of_unknown hwait hword, step_of_unknown (c := c.wrapped) hwait (hfetch ▸ hword),
        hfetch]
      simp [wrapResult, Trap.wrapped, wrapped, State.wrapped]
    | some i =>
      rw [step_of_decoded hwait hword, step_of_decoded (c := c.wrapped) hwait (hfetch ▸ hword)]
      exact c.execute_wrapped i

end Core
end Chip8
