import Chip8.Proofs.Machine.Step

/-!
# Arithmetic — results and flags

The sum, the two differences and the two shifts leave a result in `Vx` and a flag in `VF`.  Both
registers may be operands as well, and `Vx` may be the flag register.  It does not matter: the
operands are read before anything is written, and the flag is written last
(`State.computes_combine`, for every operation and all registers).

What is left for each operation is a fact about two bytes: which numbers the result and the flag are
(`AluResult.Means`).
-/

namespace Chip8

/-! ## Results as numbers -/

/-- The number of a condition. -/
theorem toNat_decide (p : Prop) [Decidable p] : ((decide p).toNat : Int) = if p then 1 else 0 := by
  by_cases h : p <;> simp [h]

theorem toNat_sub_bytes (a b : UInt8) :
    ((a - b).toNat : Int) = ((a.toNat : Int) - b.toNat) % 256 := by
  have ha : a.toNat < 256 := a.toNat_lt
  have hb : b.toNat < 256 := b.toNat_lt
  rw [UInt8.toNat_sub]
  omega

/-- The low byte of a result, and its flag, are these numbers. -/
structure AluResult.Means (result : AluResult) (value flag : Int) : Prop where
  value_eq : result.value.toUInt8.toNat = value
  flag_eq : ∃ bit : Bool, result.flag = some bit ∧ bit.toNat = flag

namespace AluOp

variable (a b : UInt8)

theorem means_add :
    (eval .add a b).Means (((a.toNat : Int) + b.toNat) % 256)
      (if (a.toNat : Int) + b.toNat > 255 then 1 else 0) := by
  have ha : a.toNat < 256 := a.toNat_lt
  have hb : b.toNat < 256 := b.toNat_lt
  -- The sum of two bytes fits into sixteen bits.
  have hsum : (a.toUInt16 + b.toUInt16).toNat = a.toNat + b.toNat := by
    rw [UInt16.toNat_add, UInt8.toNat_toUInt16, UInt8.toNat_toUInt16]
    omega
  refine ⟨?_, _, rfl, ?_⟩
  · simp only [eval, UInt16.toNat_toUInt8, hsum]
    omega
  · have hcarry : a.toUInt16 + b.toUInt16 > 0xFF ↔ (a.toNat : Int) + b.toNat > 255 := by
      rw [gt_iff_lt, UInt16.lt_iff_toNat_lt, hsum]
      show 255 < _ ↔ _
      omega
    simp only [hcarry, toNat_decide]

theorem means_sub :
    (eval .sub a b).Means (((a.toNat : Int) - b.toNat) % 256)
      (if (a.toNat : Int) ≥ b.toNat then 1 else 0) := by
  refine ⟨?_, _, rfl, ?_⟩
  · simp only [eval, UInt8.toUInt8_toUInt16, toNat_sub_bytes]
  · have hborrow : b ≤ a ↔ (a.toNat : Int) ≥ b.toNat := by
      rw [UInt8.le_iff_toNat_le]
      omega
    simp only [hborrow, toNat_decide]

theorem means_subFrom :
    (eval .subFrom a b).Means (((b.toNat : Int) - a.toNat) % 256)
      (if (b.toNat : Int) ≥ a.toNat then 1 else 0) :=
  -- The difference is that of the other operation with the operands exchanged.
  means_sub b a

theorem means_shiftRight :
    (eval .shiftRight a b).Means ((b.toNat : Int) / 2) ((b.toNat : Int) % 2) := by
  refine ⟨?_, _, rfl, ?_⟩
  · have hhalf : (b >>> 1).toNat = b.toNat / 2 := by
      rw [UInt8.toNat_shiftRight]
      exact Nat.shiftRight_eq_div_pow _ 1
    simp only [eval, UInt8.toUInt8_toUInt16, hhalf]
    omega
  · have hlow : (b &&& 1).toNat = b.toNat % 2 := by
      rw [UInt8.toNat_and]
      exact Nat.and_one_is_mod _
    have hbit : (b &&& 1) = 1 ↔ b.toNat % 2 = 1 := by
      rw [← hlow]
      exact UInt8.toNat_inj.symm
    show ((decide (b &&& 1 = 1)).toNat : Int) = _
    simp only [toNat_decide, hbit]
    split <;> omega

theorem means_shiftLeft :
    (eval .shiftLeft a b).Means ((2 * b.toNat : Int) % 256) ((b.toNat : Int) / 128) := by
  have hb : b.toNat < 256 := b.toNat_lt
  refine ⟨?_, _, rfl, ?_⟩
  · have htwice : (b.toUInt16 <<< 1).toNat = 2 * b.toNat := by
      rw [UInt16.toNat_shiftLeft, UInt8.toNat_toUInt16]
      show (b.toNat <<< 1) % 2 ^ 16 = _
      rw [Nat.shiftLeft_eq]
      omega
    simp only [eval, UInt16.toNat_toUInt8, htwice]
    omega
  · have hhigh : (b >>> 7).toNat = b.toNat / 128 := by
      rw [UInt8.toNat_shiftRight]
      exact Nat.shiftRight_eq_div_pow _ 7
    have hbit : b >>> 7 = 1 ↔ b.toNat / 128 = 1 := by
      rw [← hhigh]
      exact UInt8.toNat_inj.symm
    show ((decide (b >>> 7 = 1)).toNat : Int) = _
    simp only [toNat_decide, hbit]
    split <;> omega

end AluOp

/-! ## Registers -/

namespace State

/-- The state `t` is left by an instruction that computes, in the state `s`, a number for `Vx` and a
flag.  If `Vx` is the flag register, it holds the flag. -/
structure Computes (s : State) (x : Reg) (value flag : Int) (t : State) : Prop where
  flag_eq : (t.reg Reg.flag).toNat = flag
  value_eq : x ≠ Reg.flag → (t.reg x).toNat = value
  kept : ∀ k, k ≠ x → k ≠ Reg.flag → t.reg k = s.reg k
  rest_eq : t = { s with pc := s.pc + 2, regs := t.regs }

theorem computes_combine (s : State) {op : AluOp} {x y : Reg} {value flag : Int}
    (h : (op.eval (s.reg x) (s.reg y)).Means value flag) :
    s.Computes x value flag (s.advance.combine op x y) := by
  obtain ⟨bit, hbit, hflag⟩ := h.flag_eq
  have hwritten : s.advance.combine op x y =
      (s.advance.setReg x (op.eval (s.reg x) (s.reg y)).value.toUInt8).setFlag bit := by
    show (s.advance.setRegLow x (op.eval (s.reg x) (s.reg y)).value).setFlag?
      (op.eval (s.reg x) (s.reg y)).flag = _
    rw [hbit]
    rfl
  rw [hwritten]
  refine ⟨?_, ?_, ?_, rfl⟩
  · rw [setFlag, reg_setReg, if_pos rfl, ← hflag]
    cases bit <;> rfl
  · intro hx
    rw [setFlag, reg_setReg, if_neg hx.symm, reg_setReg, if_pos rfl]
    exact h.value_eq
  · intro k hkx hk
    rw [setFlag, reg_setReg, if_neg hk.symm, reg_setReg, if_neg hkx.symm]
    rfl

end State

/-! ## Steps -/

namespace Machine

variable {m : Machine} {x y : Reg}

/-- An operation on two registers goes on to the next instruction, with what it computes. -/
theorem Executes.computes {op : AluOp} {value flag : Int} (h : m.Executes (.alu op x y))
    (hmeans : (op.eval (m.state.reg x) (m.state.reg y)).Means value flag) :
    m.step.1 = .ok .next ∧ m.state.Computes x value flag m.step.2.state := by
  rcases h.step_of_next rfl with ⟨hflow, hstate⟩
  rw [hstate]
  exact ⟨hflow, m.state.computes_combine hmeans⟩

/-- A byte is added modulo 256 to a register, and nothing but this register changes. -/
theorem Executes.addsByte {byte : UInt8} (h : m.Executes (.addByte x byte)) :
    let t := m.step.2.state
    m.step.1 = .ok .next ∧
      ((t.reg x).toNat : Int) = ((m.state.reg x).toNat + byte.toNat) % 256 ∧
      (∀ k, k ≠ x → t.reg k = m.state.reg k) ∧
      t = { m.state with pc := m.state.pc + 2, regs := t.regs } := by
  intro t
  rcases h.step_of_next rfl with ⟨hflow, hstate⟩
  have ht : t = m.state.advance.setReg x
      ((m.state.reg x).toUInt16 + byte.toUInt16).toUInt8 := hstate
  rw [ht]
  refine ⟨hflow, ?_, ?_, rfl⟩
  · rw [State.reg_setReg, if_pos rfl]
    exact (AluOp.means_add (m.state.reg x) byte).value_eq
  · intro k hk
    rw [State.reg_setReg, if_neg hk.symm]
    rfl

/-- The operations with a flag are exact for all operands.

The registers `Vx` and `Vy` may be the same, and either of them may be the flag register.  The flag is
that of the operands before the step, and it is what the flag register holds afterwards, even if that
is where the result was to go.  Otherwise `Vx` holds the result; no other register changes, and
nothing of the state but the registers and the program counter.  Adding a byte has no flag: it changes
the register it adds to and no other. -/
theorem arithmetic_exact (m : Machine) (x y : Reg) :
    let s := m.state
    let a : Int := (s.reg x).toNat
    let b : Int := (s.reg y).toNat
    let t := m.step.2.state
    let word := fun n : Nat => 0x8000 + x * 256 + y * 16 + n
    (m.Fetches (word 0x4) → m.step.1 = .ok .next ∧
        s.Computes x ((a + b) % 256) (if a + b > 255 then 1 else 0) t) ∧
      (m.Fetches (word 0x5) → m.step.1 = .ok .next ∧
        s.Computes x ((a - b) % 256) (if a ≥ b then 1 else 0) t) ∧
      (m.Fetches (word 0x6) → m.step.1 = .ok .next ∧ s.Computes x (b / 2) (b % 2) t) ∧
      (m.Fetches (word 0x7) → m.step.1 = .ok .next ∧
        s.Computes x ((b - a) % 256) (if b ≥ a then 1 else 0) t) ∧
      (m.Fetches (word 0xE) → m.step.1 = .ok .next ∧ s.Computes x (2 * b % 256) (b / 128) t) ∧
      ∀ byte : UInt8, m.Fetches (0x7000 + x * 256 + byte.toNat) →
        m.step.1 = .ok .next ∧ ((t.reg x).toNat : Int) = (a + byte.toNat) % 256 ∧
          (∀ k, k ≠ x → t.reg k = s.reg k) ∧
          t = { s with pc := s.pc + 2, regs := t.regs } := by
  intro s a b t word
  have hexec (op : AluOp) (h : m.Fetches (word op.code)) : m.Executes (.alu op x y) :=
    fetches_code_iff.mp h
  refine ⟨?_, ?_, ?_, ?_, ?_, ?_⟩
  · intro h
    exact (hexec .add h).computes (AluOp.means_add _ _)
  · intro h
    exact (hexec .sub h).computes (AluOp.means_sub _ _)
  · intro h
    exact (hexec .shiftRight h).computes (AluOp.means_shiftRight _ _)
  · intro h
    exact (hexec .subFrom h).computes (AluOp.means_subFrom _ _)
  · intro h
    exact (hexec .shiftLeft h).computes (AluOp.means_shiftLeft _ _)
  · intro byte h
    exact (fetches_code_iff (i := .addByte x byte).mp h).addsByte

/-- The flag register is added to itself: the sum is 400, and what is left of it is the carry. -/
theorem arithmetic_exact_of_flag_twice :
    let m := ((new {} fun _ => 0).load #[0x8F, 0xF4]).2.withState
      { State.boot #[0x8F, 0xF4] with regs := Vector.replicate 16 200 }
    m.Fetches 0x8FF4 ∧ m.step.1 = .ok .next ∧ m.step.2.state.reg Reg.flag = 1 ∧
      m.step.2.state.reg 0 = 200 := by
  have hadds (m : Machine) (hrun : m.halted = false)
      (hstate : m.state = { State.boot #[0x8F, 0xF4] with regs := Vector.replicate 16 200 }) :
      m.Fetches 0x8FF4 ∧ m.step.1 = .ok .next ∧ m.step.2.state.reg Reg.flag = 1 ∧
        m.step.2.state.reg 0 = 200 := by
    have hfetch : m.Fetches 0x8FF4 := by
      refine ⟨hrun, by rw [hstate]; rfl, ?_⟩
      rw [hstate]
      exact State.toNat_fetch_boot #[0x8F, 0xF4]
    have hreg (k : Reg) : m.state.reg k = 200 := by
      rw [hstate]
      simp [State.reg]
    rcases (arithmetic_exact m 15 15).1 hfetch with ⟨hflow, hsum⟩
    have hflag := hsum.flag_eq
    have hzero := hsum.kept 0 (by decide) (by decide)
    rw [hreg] at hflag hzero
    exact ⟨hfetch, hflow, UInt8.toNat.inj (Int.ofNat.inj hflag), hzero⟩
  exact hadds _ rfl rfl

end Machine
end Chip8
