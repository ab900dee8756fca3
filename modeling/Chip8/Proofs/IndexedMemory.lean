import Chip8.Proofs.Machine.Effect
import Chip8.Proofs.Memory

/-!
# Memory behind the index

Three instructions go through memory at the index: one stores registers, one loads them, and one
stores the decimal digits of a register.  The bytes they touch follow each other around the end of
memory, and since there are at most sixteen of them no two are the same byte.  So registers that were
stored are loaded again from the same place, whatever happened to the registers since, and the place
is the same for all indices that agree in twelve bits (`Machine.access_through_index`).

Nothing else writes memory (`Machine.memory_step`).
-/

namespace Chip8

/-! ## What the three instructions do -/

namespace State

/-- The state `t` is left by an instruction that stores `V0` to `Vx` in the state `s`. -/
structure StoresRegs (s : State) (x : Reg) (t : State) : Prop where
  stored : ∀ k : Reg, k ≤ x → t.memory.bytes[(s.index.toNat + k) % 4096] = s.reg k
  kept : ∀ a : Addr, (∀ k : Reg, k ≤ x → a.val ≠ (s.index.toNat + k) % 4096) →
    t.memory.bytes[a] = s.memory.bytes[a]
  index_eq : t.index.toNat = (s.index.toNat + x + 1) % 65536
  rest_eq : t = { s with pc := s.pc + 2, index := t.index, memory := t.memory }

/-- The state `t` is left by an instruction that loads `V0` to `Vx` in the state `s`. -/
structure LoadsRegs (s : State) (x : Reg) (t : State) : Prop where
  loaded : ∀ k : Reg, k ≤ x → t.reg k = s.memory.bytes[(s.index.toNat + k) % 4096]
  kept : ∀ k : Reg, x < k → t.reg k = s.reg k
  index_eq : t.index.toNat = (s.index.toNat + x + 1) % 65536
  rest_eq : t = { s with pc := s.pc + 2, index := t.index, regs := t.regs }

/-- The state `t` is left by an instruction that stores the decimal digits of `Vx` in the state
`s`. -/
structure StoresDecimal (s : State) (x : Reg) (t : State) : Prop where
  stored : ∃ hundreds tens ones : UInt8,
    (hundreds.toNat ≤ 9 ∧ tens.toNat ≤ 9 ∧ ones.toNat ≤ 9) ∧
      100 * hundreds.toNat + 10 * tens.toNat + ones.toNat = (s.reg x).toNat ∧
      t.memory.bytes[s.index.toNat % 4096] = hundreds ∧
      t.memory.bytes[(s.index.toNat + 1) % 4096] = tens ∧
      t.memory.bytes[(s.index.toNat + 2) % 4096] = ones
  kept : ∀ a : Addr, (∀ k < 3, a.val ≠ (s.index.toNat + k) % 4096) →
    t.memory.bytes[a] = s.memory.bytes[a]
  rest_eq : t = { s with pc := s.pc + 2, memory := t.memory }

/-! ## They do it -/

/-- Where no byte of a block lies, each byte of memory is as it was. -/
theorem getElem_writeAll_of_outside (m : Memory) (start : Nat) {bytes : List UInt8}
    (hlength : bytes.length ≤ 4096) {a : Addr}
    (h : ∀ k < bytes.length, a.val ≠ (start + k) % 4096) :
    (m.writeAll start bytes).bytes[a] = m.bytes[a] := by
  have hinside : a.val % 4096 = a.val := Nat.mod_eq_of_lt a.isLt
  have houtside : ∀ k < bytes.length, a.val % 4096 ≠ (start + k) % 4096 := by rwa [hinside]
  have hread := m.read_writeAll_outside start hlength houtside
  simpa only [Memory.read, hinside, Fin.getElem_fin] using hread

theorem toNat_index_skipRegs (s : State) (x : Reg) :
    (s.skipRegs x).index.toNat = (s.index.toNat + x + 1) % 65536 := by
  have hx : x.val + 1 < 65536 := by omega
  have hcount : (UInt16.ofNat (x.val + 1)).toNat = x.val + 1 := UInt16.toNat_ofNat_of_lt' hx
  simp only [skipRegs, UInt16.toNat_add, hcount, Nat.add_assoc]

theorem length_take_regs (s : State) (x : Reg) : (s.regs.toList.take (x.val + 1)).length = x + 1 := by
  rw [List.length_take, Vector.length_toList]
  omega

theorem storesRegs_storeRegs (s : State) (x : Reg) : s.StoresRegs x (s.advance.storeRegs x) := by
  have hlength := s.length_take_regs x
  refine ⟨?_, ?_, s.advance.toNat_index_skipRegs x, rfl⟩
  · intro k hk
    have hshort : k.val < (s.regs.toList.take (x.val + 1)).length := by
      rw [hlength]
      exact Nat.lt_succ_of_le hk
    have hread := s.memory.read_writeAll_inside s.index.toNat (by omega) hshort
    rw [List.getElem_take] at hread
    exact hread
  · intro a ha
    have hfits : (s.regs.toList.take (x.val + 1)).length ≤ 4096 := by omega
    refine getElem_writeAll_of_outside _ _ hfits fun k hk => ?_
    have hkx : k < x.val + 1 := by rwa [← hlength]
    exact ha ⟨k, by omega⟩ (Nat.le_of_lt_succ hkx)

theorem loadsRegs_loadRegs (s : State) (x : Reg) : s.LoadsRegs x (s.advance.loadRegs x) := by
  have hreg (k : Reg) : (s.advance.loadRegs x).reg k =
      if k ≤ x then s.memory.read (s.index.toNat + k) else s.reg k := by
    simp [loadRegs, skipRegs, reg, advance]
  refine ⟨?_, ?_, s.advance.toNat_index_skipRegs x, rfl⟩
  · intro k hk
    rw [hreg, if_pos hk]
    rfl
  · intro k hk
    rw [hreg, if_neg (Fin.not_le.mpr hk)]

theorem storesDecimal_storeDecimal (s : State) (x : Reg) :
    s.StoresDecimal x (s.advance.storeDecimal x) := by
  have hstored (k : Nat) (hk : k < 3) :
      (s.advance.storeDecimal x).memory.bytes[(s.index.toNat + k) % 4096] =
        (decimalDigits (s.reg x))[k] :=
    s.memory.read_writeAll_inside s.index.toNat (by simp [decimalDigits]) hk
  refine ⟨⟨_, _, _, ?_, ?_, hstored 0 (by omega), hstored 1 (by omega), hstored 2 (by omega)⟩, ?_, rfl⟩
  · simp only [decimalDigits, List.getElem_cons_zero, List.getElem_cons_succ, UInt8.toNat_mod,
      UInt8.reduceToNat]
    omega
  · have hbyte : (s.reg x).toNat < 256 := (s.reg x).toNat_lt
    simp only [decimalDigits, List.getElem_cons_zero, List.getElem_cons_succ, UInt8.toNat_mod,
      UInt8.toNat_div, UInt8.reduceToNat]
    omega
  · intro a ha
    exact getElem_writeAll_of_outside _ _ (by simp [decimalDigits]) ha

end State

/-! ## Steps -/

namespace Machine

variable {m : Machine} {x : Reg}

theorem Executes.storesRegs (h : m.Executes (.storeRegs x)) :
    m.step.1 = .ok .next ∧ m.state.StoresRegs x m.step.2.state := by
  rcases h.step_of_next rfl with ⟨hflow, hstate⟩
  rw [hstate]
  exact ⟨hflow, m.state.storesRegs_storeRegs x⟩

theorem Executes.loadsRegs (h : m.Executes (.loadRegs x)) :
    m.step.1 = .ok .next ∧ m.state.LoadsRegs x m.step.2.state := by
  rcases h.step_of_next rfl with ⟨hflow, hstate⟩
  rw [hstate]
  exact ⟨hflow, m.state.loadsRegs_loadRegs x⟩

theorem Executes.storesDecimal (h : m.Executes (.storeDecimal x)) :
    m.step.1 = .ok .next ∧ m.state.StoresDecimal x m.step.2.state := by
  rcases h.step_of_next rfl with ⟨hflow, hstate⟩
  rw [hstate]
  exact ⟨hflow, m.state.storesDecimal_storeDecimal x⟩

/-- A step that stores neither registers nor digits leaves memory alone, whether it succeeds or
not. -/
theorem memory_step (hregs : ∀ x, ¬ m.Executes (.storeRegs x))
    (hdecimal : ∀ x, ¬ m.Executes (.storeDecimal x)) :
    m.step.2.state.memory = m.state.memory := by
  refine step_keeps (fun c => c.state.memory) (fun _ _ => rfl) (fun _ _ _ => rfl) ?_
  intro i r hi heffect
  refine heffect.memory_eq ?_ ?_
  · rintro x rfl
    exact hregs x hi
  · rintro x rfl
    exact hdecimal x hi

/-- How programs get at memory through the index.

Storing and loading registers and storing digits succeed, go around the end of memory, touch the
bytes that they name and no other, and change nothing else but the index and the program counter.
Registers that were stored are loaded again by any machine whose memory is the one that storing has
left, if its index agrees in twelve bits with that before storing.  No other step changes memory. -/
theorem access_through_index (m : Machine) :
    (∀ x, m.Executes (.storeRegs x) →
        m.step.1 = .ok .next ∧ m.state.StoresRegs x m.step.2.state) ∧
      (∀ x, m.Executes (.loadRegs x) →
        m.step.1 = .ok .next ∧ m.state.LoadsRegs x m.step.2.state) ∧
      (∀ x, m.Executes (.storeDecimal x) →
        m.step.1 = .ok .next ∧ m.state.StoresDecimal x m.step.2.state) ∧
      (∀ x (n : Machine), m.Executes (.storeRegs x) → n.state.memory = m.step.2.state.memory →
        n.state.index.toNat % 4096 = m.state.index.toNat % 4096 → n.Executes (.loadRegs x) →
        ∀ k : Reg, k ≤ x → n.step.2.state.reg k = m.state.reg k) ∧
      ((∀ x, ¬ m.Executes (.storeRegs x)) → (∀ x, ¬ m.Executes (.storeDecimal x)) →
        m.step.2.state.memory = m.state.memory) := by
  refine ⟨fun x h => h.storesRegs, fun x h => h.loadsRegs, fun x h => h.storesDecimal, ?_,
    memory_step⟩
  intro x n hstore hmemory hindex hload k hk
  have haddress : (n.state.index.toNat + k) % 4096 = (m.state.index.toNat + k) % 4096 := by
    rw [Nat.add_mod, hindex, ← Nat.add_mod]
  calc
    n.step.2.state.reg k
        = n.state.memory.bytes[(n.state.index.toNat + k) % 4096] := hload.loadsRegs.2.loaded k hk
    _ = n.state.memory.bytes[(m.state.index.toNat + k) % 4096] := by simp only [haddress]
    _ = m.step.2.state.memory.bytes[(m.state.index.toNat + k) % 4096] := by rw [hmemory]
    _ = m.state.reg k := hstore.storesRegs.2.stored k hk

/-- Two registers that are stored at the last address of memory: the second one goes to the first
address. -/
theorem access_through_index_at_end :
    let m := ((new {} fun _ => 0).load #[0xF1, 0x55]).2.withState
      { State.boot #[0xF1, 0x55] with index := 0xFFF, regs := Vector.replicate 16 7 }
    m.Executes (.storeRegs 1) ∧ m.step.1 = .ok .next ∧
      m.step.2.state.memory.bytes[0xFFF] = 7 ∧ m.step.2.state.memory.bytes[0] = 7 ∧
      m.step.2.state.index = 0x1001 := by
  have hstores (m : Machine) (hrun : m.halted = false)
      (hstate : m.state = { State.boot #[0xF1, 0x55] with
        index := 0xFFF, regs := Vector.replicate 16 7 }) :
      m.Executes (.storeRegs 1) ∧ m.step.1 = .ok .next ∧
        m.step.2.state.memory.bytes[0xFFF] = 7 ∧ m.step.2.state.memory.bytes[0] = 7 ∧
        m.step.2.state.index = 0x1001 := by
    have hcode : (Memory.boot #[0xF1, 0x55]).word 0x200 = 0xF155 := by
      apply UInt16.toNat.inj
      rw [Memory.toNat_word]
      simp [Memory.read_boot, Memory.bootByte, Memory.programStart]
    have hexec : m.Executes (.storeRegs 1) := by
      refine ⟨hrun, by rw [hstate]; rfl, ?_⟩
      rw [hstate]
      show Instr.decode? ((Memory.boot #[0xF1, 0x55]).word 0x200) = _
      rw [hcode]
      rfl
    have hindex : m.state.index = 0xFFF := by rw [hstate]
    have hseven (k : Reg) : m.state.reg k = 7 := by
      rw [hstate]
      simp [State.reg]
    rcases (access_through_index m).1 1 hexec with ⟨hflow, hstored⟩
    have hlast := hstored.stored 0 (by decide)
    have hfirst := hstored.stored 1 (by decide)
    have hnext := hstored.index_eq
    simp only [hindex, hseven] at hlast hfirst hnext
    exact ⟨hexec, hflow, hlast, hfirst, UInt16.toNat.inj hnext⟩
  exact hstores _ rfl rfl

end Machine
end Chip8
