/-!
# Nibble — four bits

A nibble names a register or a key, and it is the smallest operand of an instruction.
-/

namespace Chip8

/-- A number below sixteen. -/
abbrev Nibble := Fin 16

namespace Nibble

/-- The lowest four bits of a number. -/
def ofNat (n : Nat) : Nibble := Fin.ofNat 16 n

@[simp] theorem val_ofNat (n : Nat) : (ofNat n).val = n % 16 := rfl

end Nibble
end Chip8
