import Chip8.Memory

/-!
# Blocks of memory

Memory is a ring of 4096 bytes.  A block of bytes that is written at an address covers the addresses
behind it, around the end of memory if need be, and leaves all others alone
(`Memory.read_writeAll`).  Loading writes one such block, the program, into memory that holds nothing
but the glyphs (`Memory.boot_eq_writeAll`).
-/

namespace Chip8
namespace Memory

/-- How far an address lies behind another one on the ring. -/
def distance (start address : Nat) : Nat := (address + (4096 - start % 4096)) % 4096

theorem distance_eq_zero_iff {start address : Nat} :
    distance start address = 0 ↔ start % 4096 = address % 4096 := by
  unfold distance
  omega

theorem distance_succ {start address : Nat} (h : distance start address ≠ 0) :
    distance (start + 1) address + 1 = distance start address := by
  unfold distance at *
  omega

theorem distance_succ_of_eq {start address : Nat} (h : distance start address = 0) :
    distance (start + 1) address = 4095 := by
  unfold distance at *
  omega

/-- A byte is that of the block, where the block covers its address. -/
theorem read_writeAll (m : Memory) (start address : Nat) {bytes : List UInt8}
    (hlength : bytes.length ≤ 4096) :
    (m.writeAll start bytes).read address =
      bytes[distance start address]?.getD (m.read address) := by
  -- By induction on the block, which advances the address that it is written at.
  induction bytes generalizing m start with
  | nil => rfl
  | cons byte bytes ih =>
    have hshort : bytes.length < 4096 := hlength
    rw [writeAll, ih _ _ (by omega), read_write]
    by_cases hfirst : distance start address = 0
    -- The rest of the block is too short to come back to its first address.
    · have hbeyond : bytes[distance (start + 1) address]? = none := by
        rw [distance_succ_of_eq hfirst]
        exact List.getElem?_eq_none (by omega)
      rw [hbeyond, if_pos (distance_eq_zero_iff.mp hfirst), hfirst]
      rfl
    · have hother : ¬ start % 4096 = address % 4096 := by
        rwa [← distance_eq_zero_iff]
      rw [if_neg hother, ← distance_succ hfirst, List.getElem?_cons_succ]

theorem distance_add (start : Nat) {k : Nat} (hk : k < 4096) : distance start (start + k) = k := by
  unfold distance
  omega

/-- A block is read back byte by byte. -/
theorem read_writeAll_inside (m : Memory) (start : Nat) {bytes : List UInt8}
    (hlength : bytes.length ≤ 4096) {k : Nat} (hk : k < bytes.length) :
    (m.writeAll start bytes).read (start + k) = bytes[k] := by
  rw [read_writeAll m start _ hlength, distance_add start (by omega), List.getElem?_eq_getElem hk]
  rfl

/-- Where no byte of a block lies, memory is as it was. -/
theorem read_writeAll_outside (m : Memory) (start : Nat) {bytes : List UInt8}
    (hlength : bytes.length ≤ 4096) {address : Nat}
    (h : ∀ k < bytes.length, address % 4096 ≠ (start + k) % 4096) :
    (m.writeAll start bytes).read address = m.read address := by
  have hfar : bytes.length ≤ distance start address := by
    apply Nat.le_of_not_lt
    intro hnear
    apply h _ hnear
    unfold distance
    omega
  rw [read_writeAll m start _ hlength, List.getElem?_eq_none hfar]
  rfl

/-- Memories that read alike are alike. -/
theorem ext_read {m n : Memory} (h : ∀ address < 4096, m.read address = n.read address) :
    m = n := by
  rcases m with ⟨bytes⟩
  rcases n with ⟨bytes'⟩
  have hbytes : bytes = bytes' := by
    apply Vector.ext
    intro i hi
    have hread := h i hi
    simpa only [read, Nat.mod_eq_of_lt hi] using hread
  rw [hbytes]

/-- Loading writes the program behind the glyphs of otherwise empty memory. -/
theorem boot_eq_writeAll {program : Program} (hfits : program.size ≤ programCapacity) :
    boot program = (boot #[]).writeAll programStart program.toList := by
  have hshort : program.size ≤ 3584 := hfits
  apply ext_read
  intro address haddress
  rw [read_writeAll _ _ _ (by rw [Array.length_toList]; omega), read_boot, read_boot,
    Nat.mod_eq_of_lt haddress]
  by_cases hbefore : address < programStart
  -- In front of the program the distance reaches around the ring, past every program.
  · have hbefore' : address < 512 := hbefore
    have hfar : distance programStart address = address + 3584 := by
      simp only [distance, programStart]
      omega
    have hnone : program.toList[address + 3584]? = none := by
      apply List.getElem?_eq_none
      rw [Array.length_toList]
      omega
    have hnot : ¬ programStart ≤ address := by omega
    rw [hfar, hnone]
    simp only [bootByte, hnot, if_false, Option.getD_none]
  · have hnear : distance programStart address = address - programStart := by
      simp only [distance, programStart] at *
      omega
    have hglyphs : ¬ address < 80 := by
      simp only [programStart] at hbefore
      omega
    have hinside : programStart ≤ address := by omega
    rw [hnear]
    simp [bootByte, hglyphs, hinside]

end Memory
end Chip8
