/-!
# Hex — numbers in base sixteen

Mnemonics, listings and messages write numbers in base sixteen.  Most of them have a fixed count of
digits, so a text can be cut into its numbers again; `Hex.shortest` is for the few that have none.
-/

namespace Chip8
namespace Hex

/-- The upper-case digit for `n % 16`. -/
def upper (n : Nat) : Char :=
  if n % 16 < 10 then Char.ofNat (48 + n % 16) else Char.ofNat (55 + n % 16)

/-- The lower-case digit for `n % 16`. -/
def lower (n : Nat) : Char :=
  if n % 16 < 10 then Char.ofNat (48 + n % 16) else Char.ofNat (87 + n % 16)

/-- The lowest `width` digits of `n`, highest first. -/
def digits : (width : Nat) → (n : Nat) → List Char
  | 0, _ => []
  | width + 1, n => digits width (n / 16) ++ [upper n]

@[simp] theorem length_digits (width n : Nat) : (digits width n).length = width := by
  induction width generalizing n with
  | zero => rfl
  | succ width ih => simp [digits, ih]

/-- Exactly `width` digits: `n` modulo `16 ^ width`. -/
def fixed (width n : Nat) : String :=
  String.ofList (digits width n)

/-- As many digits as `n` needs, and one for zero. -/
def shortest (n : Nat) : String :=
  fixed (n.log2 / 4 + 1) n

end Hex
end Chip8
