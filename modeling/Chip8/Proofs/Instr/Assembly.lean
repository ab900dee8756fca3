import Chip8.Instr.Mnemonic
import Chip8.Proofs.Instr.Code
import Chip8.Proofs.Listing.Cutting

/-!
# Assembly — a mnemonic is read back as the word of its instruction

Instructions share the names of their mnemonics, `LD` alone has eleven forms, and their operands tell
them apart.  An operand shows by its text what it is: a register has a `V` in front, a byte has two
digits and an address three, and the others are letters.  Only the nibble of a drawing could be taken
for something else, since `B` and `F` are digits too; but it is the one operand that stands third.

So a text is cut into a name and its operands, each operand is read by itself, and a table of forms
gives the instruction (`Instr.ofMnemonic?_mnemonic`).  With the code of the instruction the word is
back (`Instr.assemble?_mnemonic`), and two words with one mnemonic are the same.

The numbers in a mnemonic are fields of the word (`Instr.operands_heldBy`), so none of them is larger
than its field.
-/

namespace Chip8

open Listing (words)
open Hex (digits)

/-! ## Operands -/

theorem Word.addr_ofNat (a : Addr) : Word.addr (UInt16.ofNat a) = a := by
  have hword : (UInt16.ofNat a.val).toNat = a :=
    UInt16.toNat_ofNat_of_lt (Nat.lt_trans a.isLt (by decide))
  apply Fin.ext
  rw [Word.val_addr, hword, Nat.mod_eq_of_lt a.isLt]

namespace Operand

/-- The operand that is written with letters. -/
def ofLetters? : List Char → Option Operand
  | 'V' :: digit => (Numeral.value? 16 digit).map fun x => .reg (Nibble.ofNat x)
  | ['I'] => some .index
  | ['[', 'I', ']'] => some .indirect
  | ['D', 'T'] => some .delay
  | ['S', 'T'] => some .sound
  | ['K'] => some .key
  | ['F'] => some .font
  | ['B'] => some .decimal
  | _ => none

/-- The operand with this text, if it is no nibble.  A digit that stands alone counts as a letter. -/
def ofText? (text : List Char) : Option Operand :=
  match text.length, Numeral.value? 16 text with
  | 2, some n => some (.byte (UInt8.ofNat n))
  | 3, some n => some (.addr (Word.addr (UInt16.ofNat n)))
  | _, _ => ofLetters? text

/-- The nibble with this digit. -/
def ofDigit? (text : List Char) : Option Operand :=
  (Numeral.value? 16 text).map fun n => .nibble (Nibble.ofNat n)

/-- The operands with these texts, in order.  An operand that stands third is a nibble. -/
def ofTexts? : List (List Char) → Option (List Operand)
  | [x, y, n] => do return [← ofText? x, ← ofText? y, ← ofDigit? n]
  | texts => texts.mapM ofText?

theorem toList_reg (x : Reg) : (text (.reg x)).toList = 'V' :: digits 1 x := by
  simp [text, Hex.fixed]

theorem toList_byte (n : UInt8) : (text (.byte n)).toList = digits 2 n.toNat := String.toList_ofList

theorem toList_addr (a : Addr) : (text (.addr a)).toList = digits 3 a := String.toList_ofList

theorem toList_nibble (n : Nibble) : (text (.nibble n)).toList = digits 1 n := String.toList_ofList

theorem ofDigit?_text (n : Nibble) : ofDigit? (text (.nibble n)).toList = some (.nibble n) := by
  have hn : Nibble.ofNat (n % 16 ^ 1) = n := Fin.ext (by simp)
  rw [ofDigit?, toList_nibble, Numeral.value?_digits, Option.map_some, hn]

/-- Every operand but a nibble is read back from its text. -/
theorem ofText?_text {o : Operand} (h : ∀ n, o ≠ .nibble n) : ofText? o.text.toList = some o := by
  cases o with
  | reg x =>
    have hx : Nibble.ofNat (x % 16 ^ 1) = x := Fin.ext (by simp)
    -- `V` is no digit, so the text is no number.
    have hletters : ofText? ('V' :: digits 1 x) = ofLetters? ('V' :: digits 1 x) := rfl
    rw [toList_reg, hletters, ofLetters?, Numeral.value?_digits, Option.map_some, hx]
  | byte n =>
    have hn : UInt8.ofNat (n.toNat % 16 ^ 2) = n := UInt8.toNat.inj (by simp)
    rw [toList_byte, ofText?, Hex.length_digits, Numeral.value?_digits]
    exact congrArg (fun n => some (byte n)) hn
  | addr a =>
    have hmod : a.val % 16 ^ 3 = a := Nat.mod_eq_of_lt a.isLt
    have ha : Word.addr (UInt16.ofNat (a % 16 ^ 3)) = a := by rw [hmod, Word.addr_ofNat]
    rw [toList_addr, ofText?, Hex.length_digits, Numeral.value?_digits]
    exact congrArg (fun a => some (addr a)) ha
  | nibble n => exact (h n rfl).elim
  | _ => rfl

theorem mapM_ofText? {operands : List Operand} (h : ∀ o ∈ operands, ∀ n, o ≠ .nibble n) :
    (operands.map fun o => o.text.toList).mapM ofText? = some operands := by
  induction operands with
  | nil => rfl
  | cons o operands ih =>
    have hrest := ih fun other hother => h other (List.mem_cons_of_mem o hother)
    rw [List.map_cons, List.mapM_cons, ofText?_text (h o List.mem_cons_self), hrest]
    rfl

/-- Operands that are at most two are read one by one. -/
theorem ofTexts?_of_length_le {operands : List Operand} (hlength : operands.length ≤ 2)
    (h : ∀ o ∈ operands, ∀ n, o ≠ .nibble n) :
    ofTexts? (operands.map fun o => o.text.toList) = some operands := by
  have heach := mapM_ofText? h
  match operands, hlength with
  | [], _ => exact heach
  | [_], _ => exact heach
  | [_, _], _ => exact heach

end Operand

/-! ## Forms -/

/-- The operation with this name. -/
def AluOp.ofName? : String → Option AluOp
  | "LD" => some .copy
  | "OR" => some .or
  | "AND" => some .and
  | "XOR" => some .xor
  | "ADD" => some .add
  | "SUB" => some .sub
  | "SHR" => some .shiftRight
  | "SUBN" => some .subFrom
  | "SHL" => some .shiftLeft
  | _ => none

/-- The skip with this name and these operands. -/
def Test.ofForm? : String → List Operand → Option Test
  | "SE", [.reg x, .byte n] => some (.eqByte x n)
  | "SNE", [.reg x, .byte n] => some (.neByte x n)
  | "SE", [.reg x, .reg y] => some (.eqReg x y)
  | "SNE", [.reg x, .reg y] => some (.neReg x y)
  | "SKP", [.reg x] => some (.pressed x)
  | "SKNP", [.reg x] => some (.released x)
  | _, _ => none

namespace Instr

/-- The instruction with this name and these operands. -/
def ofForm? : String → List Operand → Option Instr
  | "CLS", [] => some .clear
  | "RET", [] => some .ret
  | "JP", [.addr a] => some (.jump a)
  | "CALL", [.addr a] => some (.call a)
  | "JP", [.reg x, .addr a] => if x = Reg.offset then some (.jumpOffset a) else none
  | "LD", [.reg x, .byte n] => some (.setByte x n)
  | "ADD", [.reg x, .byte n] => some (.addByte x n)
  | "LD", [.index, .addr a] => some (.setIndex a)
  | "RND", [.reg x, .byte n] => some (.random x n)
  | "DRW", [.reg x, .reg y, .nibble n] => some (.draw x y n)
  | "LD", [.reg x, .delay] => some (.getDelay x)
  | "LD", [.reg x, .key] => some (.waitKey x)
  | "LD", [.delay, .reg x] => some (.setDelay x)
  | "LD", [.sound, .reg x] => some (.setSound x)
  | "ADD", [.index, .reg x] => some (.addIndex x)
  | "LD", [.font, .reg x] => some (.glyph x)
  | "LD", [.decimal, .reg x] => some (.storeDecimal x)
  | "LD", [.indirect, .reg x] => some (.storeRegs x)
  | "LD", [.reg x, .indirect] => some (.loadRegs x)
  | name, [.reg x, .reg y] =>
    ((AluOp.ofName? name).map fun op => .alu op x y) <|>
      (Test.ofForm? name [.reg x, .reg y]).map .skipIf
  | name, operands => (Test.ofForm? name operands).map .skipIf

theorem ofForm?_operands (i : Instr) : ofForm? i.name i.operands = some i := by
  cases i with
  | skipIf test => cases test <;> rfl
  | alu op x y => cases op <;> rfl
  | _ => rfl

/-- Only a drawing has a third operand, and only there is a nibble. -/
theorem operands_of_ne_draw {i : Instr} (h : ∀ x y rows, i ≠ .draw x y rows) :
    i.operands.length ≤ 2 ∧ ∀ o ∈ i.operands, ∀ n, o ≠ .nibble n := by
  cases i with
  | draw x y rows => exact (h x y rows rfl).elim
  | skipIf test => cases test <;> simp [operands, Test.operands]
  | _ => simp [operands]

theorem ofTexts?_operands (i : Instr) :
    Operand.ofTexts? (i.operands.map fun o => o.text.toList) = some i.operands := by
  -- A drawing is apart: its last operand is read as a nibble, even where it looks like a letter.
  by_cases hdraw : ∃ x y rows, i = .draw x y rows
  · obtain ⟨x, y, rows, rfl⟩ := hdraw
    simp [operands, Operand.ofTexts?, Operand.ofText?_text, Operand.ofDigit?_text]
  · have hne : ∀ x y rows, i ≠ .draw x y rows := fun x y rows hi => hdraw ⟨x, y, rows, hi⟩
    exact Operand.ofTexts?_of_length_le (operands_of_ne_draw hne).1 (operands_of_ne_draw hne).2

end Instr

/-! ## Texts -/

namespace Mnemonic

/-- The characters that stand between the pieces of a mnemonic. -/
def marks : List Char := [',', ' ']

theorem comma_mem_marks : ',' ∈ marks := List.mem_cons_self

theorem blank_mem_marks : ' ' ∈ marks := List.mem_cons_of_mem ',' List.mem_cons_self

theorem forall_marks {P : Char → Prop} : (∀ c ∈ marks, P c) ↔ P ',' ∧ P ' ' := by
  simp [marks]

/-- A text without its commas. -/
def withoutCommas (text : List Char) : List Char := text.filter (· != ',')

/-- The pieces of a mnemonic are what lies between its blanks, without the commas. -/
def pieces (text : String) : List (List Char) := words (withoutCommas text.toList)

theorem withoutCommas_of_notMem {text : List Char} (h : ',' ∉ text) : withoutCommas text = text :=
  List.filter_eq_self.mpr fun _ hc => bne_iff_ne.mpr fun heq => h (heq ▸ hc)

theorem withoutCommas_append (first rest : List Char) :
    withoutCommas (first ++ rest) = withoutCommas first ++ withoutCommas rest :=
  List.filter_append first rest

/-- Without the commas there are only the blanks between the texts. -/
theorem withoutCommas_intercalate {texts : List (List Char)} (h : ∀ text ∈ texts, ',' ∉ text) :
    withoutCommas ([',', ' '].intercalate texts) = [' '].intercalate texts := by
  induction texts with
  | nil => rfl
  | cons text texts ih =>
    -- The mark between two texts loses its comma, and a last text has no mark behind it.
    have htext := withoutCommas_of_notMem (h text List.mem_cons_self)
    have hrest := ih fun other hother => h other (List.mem_cons_of_mem text hother)
    cases texts with
    | nil => simpa using htext
    | cons next texts =>
      rw [List.intercalate_cons_cons, List.intercalate_cons_cons, withoutCommas_append,
        withoutCommas_append, htext, hrest]
      rfl

end Mnemonic

open Mnemonic

theorem Operand.notMem_text (o : Operand) : ∀ c ∈ marks, c ∉ o.text.toList := by
  have hdigits : ∀ c ∈ marks, ∀ width n, c ∉ digits width n :=
    forall_marks.mpr ⟨fun _ _ => mt Hex.mem_alphabet (by decide),
      fun _ _ => mt Hex.mem_alphabet (by decide)⟩
  cases o with
  | reg x =>
    have hletter : ∀ c ∈ marks, c ≠ 'V' := forall_marks.mpr (by decide)
    intro c hc
    rw [toList_reg]
    exact List.not_mem_cons_of_ne_of_not_mem (hletter c hc) (hdigits c hc 1 x)
  | byte n => exact fun c hc => toList_byte n ▸ hdigits c hc 2 n.toNat
  | addr a => exact fun c hc => toList_addr a ▸ hdigits c hc 3 a
  | nibble n => exact fun c hc => toList_nibble n ▸ hdigits c hc 1 n
  | _ => exact forall_marks.mpr (by simp [text])

namespace Instr

variable {i j : Instr} {v w : Word}

theorem notMem_name (i : Instr) : ∀ c ∈ marks, c ∉ i.name.toList := by
  refine forall_marks.mpr ?_
  cases i with
  | skipIf test => cases test <;> simp [name, Test.name]
  | alu op x y => cases op <;> simp [name, AluOp.name]
  | _ => simp [name]

/-- The name and the operands, as they are written. -/
def texts (i : Instr) : List (List Char) :=
  i.name.toList :: i.operands.map fun o => o.text.toList

theorem notMem_of_mem_texts {text : List Char} (h : text ∈ i.texts) : ∀ c ∈ marks, c ∉ text := by
  rcases List.mem_cons.mp h with rfl | h
  · exact i.notMem_name
  · obtain ⟨o, _, rfl⟩ := List.mem_map.mp h
    exact o.notMem_text

theorem toList_mnemonic (h : i.operands ≠ []) :
    i.mnemonic.toList =
      i.name.toList ++ [' '] ++ [',', ' '].intercalate (i.operands.map fun o => o.text.toList) := by
  have hmnemonic : i.mnemonic = i.name ++ " " ++ ", ".intercalate (i.operands.map Operand.text) := by
    rw [mnemonic]
    split
    case h_1 hnone => exact (h hnone).elim
    case h_2 => rfl
  rw [hmnemonic, String.toList_append, String.toList_append, String.toList_intercalate, List.map_map]
  rfl

theorem withoutCommas_mnemonic (i : Instr) :
    withoutCommas i.mnemonic.toList = [' '].intercalate i.texts := by
  have hcomma : ∀ text ∈ i.texts, ',' ∉ text := fun _ h => notMem_of_mem_texts h ',' comma_mem_marks
  have hname := withoutCommas_of_notMem (hcomma _ List.mem_cons_self)
  by_cases hnone : i.operands = []
  · simpa [mnemonic, texts, hnone] using hname
  · have hoperands := withoutCommas_intercalate fun text h => hcomma text (List.mem_cons_of_mem _ h)
    have hblank : withoutCommas [' '] = [' '] := rfl
    rw [toList_mnemonic hnone, withoutCommas_append, withoutCommas_append, hname, hblank, hoperands,
      texts, List.intercalate_cons_of_ne_nil (mt List.map_eq_nil_iff.mp hnone)]

theorem pieces_mnemonic (i : Instr) : pieces i.mnemonic = i.texts := by
  rw [pieces, withoutCommas_mnemonic, words, List.splitOn_intercalate]
  · exact fun text h => notMem_of_mem_texts h ' ' blank_mem_marks
  · exact List.cons_ne_nil _ _

/-! ## Reading -/

/-- The instruction with this mnemonic. -/
def ofMnemonic? (text : String) : Option Instr :=
  match pieces text with
  | [] => none
  | name :: operands => (Operand.ofTexts? operands).bind (ofForm? (String.ofList name))

/-- Every instruction is read back from its mnemonic. -/
theorem ofMnemonic?_mnemonic (i : Instr) : ofMnemonic? i.mnemonic = some i := by
  rw [ofMnemonic?, pieces_mnemonic, texts]
  simp only [ofTexts?_operands, Option.bind_some, String.ofList_toList, ofForm?_operands]

example : ofMnemonic? "LD B, VA" = some (.storeDecimal 0xA) := by decide
example : ofMnemonic? "DRW VA, VB, B" = some (.draw 0xA 0xB 0xB) := by decide

end Instr

/-! ## Fields -/

namespace Operand

/-- The number that an operand stands for.  It is zero for the operands that are only letters. -/
def number : Operand → Nat
  | .reg x => x
  | .byte n => n.toNat
  | .addr a => a
  | .nibble n => n
  | _ => 0

/-- How many numbers there are for an operand of its kind. -/
def limit : Operand → Nat
  | .reg _ => 16
  | .byte _ => 256
  | .addr _ => 4096
  | .nibble _ => 16
  | _ => 1

theorem number_lt_limit (o : Operand) : o.number < o.limit := by
  cases o with
  | reg x => exact x.isLt
  | byte n => exact n.toNat_lt
  | addr a => exact a.isLt
  | nibble n => exact n.isLt
  | _ => exact Nat.one_pos

/-- The operand is a field of the word, behind which there are up to two digits more. -/
def HeldBy (o : Operand) (w : Word) : Prop :=
  ∃ place < 3, o.number = w.toNat / 16 ^ place % o.limit

variable {o : Operand} {w : Word}

@[simp] theorem heldBy_x : (reg w.x).HeldBy w := ⟨2, by decide, rfl⟩

@[simp] theorem heldBy_y : (reg w.y).HeldBy w := ⟨1, by decide, rfl⟩

@[simp] theorem heldBy_nibble : (nibble w.nibble).HeldBy w := ⟨0, by decide, by simp [number, limit]⟩

@[simp] theorem heldBy_byte : (byte w.byte).HeldBy w := ⟨0, by decide, by simp [number, limit]⟩

@[simp] theorem heldBy_addr : (addr w.addr).HeldBy w := ⟨0, by decide, by simp [number, limit]⟩

theorem heldBy_of_limit_eq_one (h : o.limit = 1) : o.HeldBy w := by
  have hzero : o.number = 0 := Nat.lt_one_iff.mp (h ▸ o.number_lt_limit)
  exact ⟨0, by decide, by rw [hzero, h, Nat.mod_one]⟩

@[simp] theorem heldBy_index : index.HeldBy w := heldBy_of_limit_eq_one rfl

end Operand

namespace Instr

variable {i j : Instr} {v w : Word}

theorem operands_of_ofKeyTest? {x : Reg} {n : Nat} (h : ofKeyTest? x n = some i) :
    i.operands = [.reg x] := by
  unfold ofKeyTest? at h
  split at h <;> cases h <;> rfl

theorem operands_of_ofSelector? {x : Reg} {n : Nat} (h : ofSelector? x n = some i) :
    ∀ o ∈ i.operands, o = .reg x ∨ o.limit = 1 := by
  unfold ofSelector? at h
  split at h <;> cases h <;> simp [operands, Operand.limit]

/-- The operands of a decoded instruction are fields of its word.  Only the `V0` of an offset jump is
none, since the opcode alone says it. -/
theorem operands_heldBy (h : decode? w = some i) :
    ∀ o ∈ i.operands, o.HeldBy w ∨ ∃ base, i = .jumpOffset base ∧ o = .reg Reg.offset := by
  unfold decode? at h
  split at h
  case h_1 =>
    split at h
    · cases h
      simp [operands]
    · split at h
      · cases h
        simp [operands]
      · cases h
  case h_6 | h_10 =>
    split at h
    · cases h
      simp [operands, Test.operands]
    · cases h
  case h_9 =>
    rcases Option.map_eq_some_iff.mp h with ⟨op, _, rfl⟩
    simp [operands]
  case h_15 =>
    simp [operands_of_ofKeyTest? h]
  case h_16 =>
    -- The selecting byte is spent on the form, and only the register is left of the word.
    intro o ho
    rcases operands_of_ofSelector? h o ho with rfl | hlimit
    · exact Or.inl Operand.heldBy_x
    · exact Or.inl (Operand.heldBy_of_limit_eq_one hlimit)
  case h_17 => cases h
  all_goals
    cases h
    simp [operands, Test.operands]

/-! ## Words -/

/-- The word of the instruction with this mnemonic. -/
def assemble? (text : String) : Option Word :=
  (ofMnemonic? text).map fun i => UInt16.ofNat i.code

/-- A decoded word is what its mnemonic is assembled to. -/
theorem assemble?_mnemonic (h : decode? w = some i) : assemble? i.mnemonic = some w := by
  rw [assemble?, ofMnemonic?_mnemonic, Option.map_some, code_of_decode? h, UInt16.ofNat_toNat]

/-- Mnemonics are unambiguous, and decoding loses nothing.

Two words that stand for instructions have the same mnemonic only if they are the same word, and they
stand for the same instruction only then.  The operands of an instruction are in range: registers and
nibbles are below 16, bytes below 256 and addresses below 4096.  Each of them is a field of the word,
except for the `V0` that an offset jump names and its word has no field for. -/
theorem mnemonic_names_one_word (hv : decode? v = some i) (hw : decode? w = some j) :
    (i.mnemonic = j.mnemonic ↔ v = w) ∧ (i = j ↔ v = w) ∧
      ∀ o ∈ i.operands, o.number < o.limit ∧
        (o.HeldBy v ∨ ∃ base, i = .jumpOffset base ∧ o = .reg Reg.offset) := by
  have hinstr : v = w → i = j := by
    rintro rfl
    exact Option.some.inj (hv.symm.trans hw)
  refine ⟨⟨fun htext => ?_, fun h => congrArg mnemonic (hinstr h)⟩, ⟨fun h => ?_, hinstr⟩,
    fun o ho => ⟨o.number_lt_limit, operands_heldBy hv o ho⟩⟩
  · have hword := congrArg assemble? htext
    rw [assemble?_mnemonic hv, assemble?_mnemonic hw] at hword
    exact Option.some.inj hword
  · apply UInt16.toNat.inj
    rw [← code_of_decode? hv, ← code_of_decode? hw, h]

/-- Loads of a byte and of a register are told apart, though their texts begin alike. -/
theorem mnemonic_names_one_word_of_loads :
    decode? 0x6112 = some (.setByte 1 0x12) ∧ decode? 0x8120 = some (.alu .copy 1 2) ∧
      (setByte 1 0x12).mnemonic ≠ (alu .copy 1 2).mnemonic ∧
      Operand.byte 0x12 ∈ (setByte 1 0x12).operands ∧
      (Operand.byte 0x12).number < 256 ∧ (Operand.byte 0x12).HeldBy 0x6112 := by
  have hbyte : decode? 0x6112 = some (.setByte 1 0x12) := by decide
  have hreg : decode? 0x8120 = some (.alu .copy 1 2) := by decide
  have hmem : Operand.byte 0x12 ∈ (setByte 1 0x12).operands := by decide
  obtain ⟨htexts, _, hfields⟩ := mnemonic_names_one_word hbyte hreg
  obtain ⟨hrange, hheld | ⟨_, _, hoffset⟩⟩ := hfields _ hmem
  · exact ⟨hbyte, hreg, mt htexts.mp (by decide), hmem, hrange, hheld⟩
  · cases hoffset

end Instr
end Chip8
