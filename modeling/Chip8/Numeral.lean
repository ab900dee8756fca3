/-!
# Numeral — numbers from digits

Counts on the command line and numbers in a plan are read digit by digit.  A numeral has at least
one digit, and any count of zeros may lead it; a place where numbers are written differently says
so.
-/

namespace Chip8
namespace Numeral

/-- The value of a digit, of either case, in a base of at most thirty-six. -/
def digit? (base : Nat) (c : Char) : Option Nat :=
  let value :=
    if '0' ≤ c ∧ c ≤ '9' then c.toNat - 48
    else if 'a' ≤ c ∧ c ≤ 'z' then c.toNat - 87
    else if 'A' ≤ c ∧ c ≤ 'Z' then c.toNat - 55
    else base
  if value < base then some value else none

/-- The number that the digits stand for, the highest digit first. -/
def value? (base : Nat) (digits : List Char) : Option Nat :=
  if digits.isEmpty then none
  else digits.foldlM (fun n c => (digit? base c).map (n * base + ·)) 0

/-- The rest of a numeral after the plus that may stand in front of it. -/
def afterPlus : List Char → List Char
  | '+' :: digits => digits
  | digits => digits

end Numeral
end Chip8
