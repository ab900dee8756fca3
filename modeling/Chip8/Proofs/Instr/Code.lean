import Chip8.Instr.Decode

/-!
# Instruction codes

Every instruction has one word that stands for it, and `Instr.code` is the number of that word.
Decoding reads a word as the instruction whose code it is (`Instr.code_of_decode?`), so it drops no
operand and confuses no two words.  And it refuses no code (`Instr.decode?_eq_some_iff`): to say that
an instruction is executed is to say which number lies at the program counter.
-/

namespace Chip8

namespace Word

@[simp] theorem val_x (w : Word) : w.x.val = w.toNat / 256 % 16 := rfl

@[simp] theorem val_y (w : Word) : w.y.val = w.toNat / 16 % 16 := rfl

@[simp] theorem val_nibble (w : Word) : w.nibble.val = w.toNat % 16 := rfl

@[simp] theorem val_addr (w : Word) : w.addr.val = w.toNat % 4096 := rfl

@[simp] theorem toNat_byte (w : Word) : w.byte.toNat = w.toNat % 256 := UInt16.toNat_toUInt8 w

end Word

/-- The nibble that selects an operation on two registers. -/
def AluOp.code : AluOp → Nat
  | .copy => 0x0
  | .or => 0x1
  | .and => 0x2
  | .xor => 0x3
  | .add => 0x4
  | .sub => 0x5
  | .shiftRight => 0x6
  | .subFrom => 0x7
  | .shiftLeft => 0xE

/-- The number of the word of a skip. -/
def Test.code : Test → Nat
  | .eqByte x n => 0x3000 + x * 256 + n.toNat
  | .neByte x n => 0x4000 + x * 256 + n.toNat
  | .eqReg x y => 0x5000 + x * 256 + y * 16
  | .neReg x y => 0x9000 + x * 256 + y * 16
  | .pressed x => 0xE09E + x * 256
  | .released x => 0xE0A1 + x * 256

/-- The number of the word that stands for an instruction. -/
def Instr.code : Instr → Nat
  | .clear => 0x00E0
  | .ret => 0x00EE
  | .jump a => 0x1000 + a
  | .call a => 0x2000 + a
  | .jumpOffset a => 0xB000 + a
  | .skipIf test => test.code
  | .setByte x n => 0x6000 + x * 256 + n.toNat
  | .addByte x n => 0x7000 + x * 256 + n.toNat
  | .alu op x y => 0x8000 + x * 256 + y * 16 + op.code
  | .setIndex a => 0xA000 + a
  | .random x n => 0xC000 + x * 256 + n.toNat
  | .draw x y n => 0xD000 + x * 256 + y * 16 + n
  | .getDelay x => 0xF007 + x * 256
  | .waitKey x => 0xF00A + x * 256
  | .setDelay x => 0xF015 + x * 256
  | .setSound x => 0xF018 + x * 256
  | .addIndex x => 0xF01E + x * 256
  | .glyph x => 0xF029 + x * 256
  | .storeDecimal x => 0xF033 + x * 256
  | .storeRegs x => 0xF055 + x * 256
  | .loadRegs x => 0xF065 + x * 256

theorem AluOp.code_of_ofNibble? {n : Nat} {op : AluOp} (h : AluOp.ofNibble? n = some op) :
    op.code = n := by
  unfold AluOp.ofNibble? at h
  split at h <;> cases h <;> rfl

namespace Instr

theorem code_of_ofKeyTest? {x : Reg} {n : Nat} {i : Instr} (h : ofKeyTest? x n = some i) :
    i.code = 0xE000 + x * 256 + n := by
  unfold ofKeyTest? at h
  split at h <;> cases h <;> simp only [code, Test.code] <;> omega

theorem code_of_ofSelector? {x : Reg} {n : Nat} {i : Instr} (h : ofSelector? x n = some i) :
    i.code = 0xF000 + x * 256 + n := by
  unfold ofSelector? at h
  split at h <;> cases h <;> simp only [code] <;> omega

/-- A word stands for the instruction that has its number as a code. -/
theorem code_of_decode? {w : Word} {i : Instr} (h : decode? w = some i) : i.code = w.toNat := by
  have hopcode : w.opcode = w.toNat / 4096 := rfl
  unfold decode? at h
  split at h
  case h_1 =>
    split at h
    · cases h
      simp [code, *]
    · split at h
      · cases h
        simp [code, *]
      · cases h
  case h_6 | h_10 =>
    split at h
    · cases h
      simp_all only [code, Test.code, Word.val_x, Word.val_y, Word.val_nibble]
      omega
    · cases h
  case h_9 =>
    rcases Option.map_eq_some_iff.mp h with ⟨op, hop, rfl⟩
    have := AluOp.code_of_ofNibble? hop
    simp only [code, this, Word.val_x, Word.val_y, Word.val_nibble]
    omega
  case h_15 =>
    rw [code_of_ofKeyTest? h, Word.val_x, Word.toNat_byte]
    omega
  case h_16 =>
    rw [code_of_ofSelector? h, Word.val_x, Word.toNat_byte]
    omega
  case h_17 => cases h
  all_goals
    cases h
    simp only [code, Test.code, Word.val_x, Word.val_y, Word.val_nibble, Word.val_addr,
      Word.toNat_byte]
    omega

end Instr

/-! ## The word of an instruction -/

namespace Word

variable {w : Word} {k : Nat} {x y : Reg}

/-- The fields of a word with an address. -/
theorem fields_of_addr {a : Addr} (h : w.toNat = k * 4096 + a) : w.opcode = k ∧ w.addr = a := by
  refine ⟨?_, ?_⟩
  · rw [opcode]
    omega
  · apply Fin.ext
    rw [val_addr]
    omega

/-- The fields of a word with a register and a byte. -/
theorem fields_of_byte {byte : UInt8} (h : w.toNat = k * 4096 + x * 256 + byte.toNat) :
    w.opcode = k ∧ w.x = x ∧ w.byte = byte := by
  have hbyte : byte.toNat < 256 := byte.toNat_lt
  refine ⟨?_, ?_, ?_⟩
  · rw [opcode]
    omega
  · apply Fin.ext
    rw [val_x]
    omega
  · apply UInt8.toNat.inj
    rw [toNat_byte]
    omega

/-- The fields of a word with two registers and a nibble. -/
theorem fields_of_regs {n : Nibble} (h : w.toNat = k * 4096 + x * 256 + y * 16 + n) :
    w.opcode = k ∧ w.x = x ∧ w.y = y ∧ w.nibble = n := by
  refine ⟨?_, ?_, ?_, ?_⟩
  · rw [opcode]
    omega
  · apply Fin.ext
    rw [val_x]
    omega
  · apply Fin.ext
    rw [val_y]
    omega
  · apply Fin.ext
    rw [val_nibble]
    omega

end Word

theorem AluOp.ofNibble?_code (op : AluOp) : AluOp.ofNibble? op.code = some op := by
  cases op <;> rfl

theorem AluOp.code_lt (op : AluOp) : op.code < 16 := by
  cases op <;> decide

namespace Instr

variable {w : Word} {x : Reg} {n : Nat}

theorem decode?_of_keyTest (hn : n < 256) (h : w.toNat = 14 * 4096 + x * 256 + n) :
    decode? w = ofKeyTest? x n := by
  have hbyte : (UInt8.ofNat n).toNat = n := UInt8.toNat_ofNat_of_lt' hn
  rw [← hbyte] at h
  obtain ⟨hk, rfl, hw⟩ := Word.fields_of_byte h
  simp only [decode?, hk, hw, hbyte]

theorem decode?_of_selector (hn : n < 256) (h : w.toNat = 15 * 4096 + x * 256 + n) :
    decode? w = ofSelector? x n := by
  have hbyte : (UInt8.ofNat n).toNat = n := UInt8.toNat_ofNat_of_lt' hn
  rw [← hbyte] at h
  obtain ⟨hk, rfl, hw⟩ := Word.fields_of_byte h
  simp only [decode?, hk, hw, hbyte]

theorem decode?_of_testCode {test : Test} (h : w.toNat = test.code) :
    decode? w = some (.skipIf test) := by
  cases test with
  | eqByte x byte =>
    obtain ⟨hk, rfl, rfl⟩ := Word.fields_of_byte (k := 3) h
    simp only [decode?, hk]
  | neByte x byte =>
    obtain ⟨hk, rfl, rfl⟩ := Word.fields_of_byte (k := 4) h
    simp only [decode?, hk]
  | eqReg x y =>
    obtain ⟨hk, rfl, rfl, hn⟩ := Word.fields_of_regs (k := 5) (n := 0) h
    simp [decode?, hk, hn]
  | neReg x y =>
    obtain ⟨hk, rfl, rfl, hn⟩ := Word.fields_of_regs (k := 9) (n := 0) h
    simp [decode?, hk, hn]
  | pressed x =>
    exact decode?_of_keyTest (n := 0x9E) (by decide) (by rw [h, Test.code]; omega)
  | released x =>
    exact decode?_of_keyTest (n := 0xA1) (by decide) (by rw [h, Test.code]; omega)

/-- A word whose number is the code of an instruction stands for it. -/
theorem decode?_of_code {i : Instr} (h : w.toNat = i.code) : decode? w = some i := by
  cases i with
  | clear =>
    obtain rfl : w = 0x00E0 := UInt16.toNat.inj h
    rfl
  | ret =>
    obtain rfl : w = 0x00EE := UInt16.toNat.inj h
    rfl
  | jump a =>
    obtain ⟨hk, rfl⟩ := Word.fields_of_addr (k := 1) h
    simp only [decode?, hk]
  | call a =>
    obtain ⟨hk, rfl⟩ := Word.fields_of_addr (k := 2) h
    simp only [decode?, hk]
  | setIndex a =>
    obtain ⟨hk, rfl⟩ := Word.fields_of_addr (k := 10) h
    simp only [decode?, hk]
  | jumpOffset a =>
    obtain ⟨hk, rfl⟩ := Word.fields_of_addr (k := 11) h
    simp only [decode?, hk]
  | skipIf test => exact decode?_of_testCode h
  | setByte x byte =>
    obtain ⟨hk, rfl, rfl⟩ := Word.fields_of_byte (k := 6) h
    simp only [decode?, hk]
  | addByte x byte =>
    obtain ⟨hk, rfl, rfl⟩ := Word.fields_of_byte (k := 7) h
    simp only [decode?, hk]
  | random x byte =>
    obtain ⟨hk, rfl, rfl⟩ := Word.fields_of_byte (k := 12) h
    simp only [decode?, hk]
  | alu op x y =>
    obtain ⟨hk, rfl, rfl, hn⟩ := Word.fields_of_regs (k := 8) (n := ⟨op.code, op.code_lt⟩) h
    simp only [decode?, hk, hn, op.ofNibble?_code, Option.map_some]
  | draw x y rows =>
    obtain ⟨hk, rfl, rfl, rfl⟩ := Word.fields_of_regs (k := 13) h
    simp only [decode?, hk]
  | getDelay x => exact decode?_of_selector (n := 0x07) (by decide) (by rw [h, code]; omega)
  | waitKey x => exact decode?_of_selector (n := 0x0A) (by decide) (by rw [h, code]; omega)
  | setDelay x => exact decode?_of_selector (n := 0x15) (by decide) (by rw [h, code]; omega)
  | setSound x => exact decode?_of_selector (n := 0x18) (by decide) (by rw [h, code]; omega)
  | addIndex x => exact decode?_of_selector (n := 0x1E) (by decide) (by rw [h, code]; omega)
  | glyph x => exact decode?_of_selector (n := 0x29) (by decide) (by rw [h, code]; omega)
  | storeDecimal x => exact decode?_of_selector (n := 0x33) (by decide) (by rw [h, code]; omega)
  | storeRegs x => exact decode?_of_selector (n := 0x55) (by decide) (by rw [h, code]; omega)
  | loadRegs x => exact decode?_of_selector (n := 0x65) (by decide) (by rw [h, code]; omega)

/-- Each instruction has one word. -/
theorem decode?_eq_some_iff {i : Instr} : decode? w = some i ↔ w.toNat = i.code :=
  ⟨fun h => (code_of_decode? h).symm, decode?_of_code⟩

theorem decode?_eq_ret_iff : decode? w = some .ret ↔ w = 0x00EE := by
  rw [decode?_eq_some_iff]
  exact ⟨fun h => UInt16.toNat.inj h, fun h => congrArg UInt16.toNat h⟩

theorem decode?_eq_call_iff {target : Addr} :
    decode? w = some (.call target) ↔ w.toNat = 0x2000 + target := decode?_eq_some_iff

end Instr
end Chip8
