import Chip8.Hex
import Chip8.Numeral
import Mathlib.Algebra.Ring.Nat

/-!
# Hex — digits are read back

The lowest digits of a number are read back as its remainder (`Numeral.value?_digits`), and as many
digits as it needs as the number itself (`Numeral.value?_shortest`).  So whoever writes numbers with
one width each can tell them apart.
-/

namespace Chip8

namespace Hex

variable {width m n : Nat} {c : Char}

theorem upper_mod (n : Nat) : upper (n % 16) = upper n := by
  simp only [upper, Nat.mod_mod]

/-- What holds of the sixteen digits holds of the last digit of any number. -/
theorem upper_induction {P : Char → Prop} (h : ∀ d < 16, P (upper d)) (n : Nat) : P (upper n) := by
  rw [← upper_mod]
  exact h _ (Nat.mod_lt n (by decide))

theorem digits_four (n : Nat) :
    digits 4 n = [upper (n / 16 / 16 / 16), upper (n / 16 / 16), upper (n / 16), upper n] := rfl

/-- The digits of two numbers in a row are those of one. -/
theorem digits_append (width m : Nat) {k : Nat} (hn : n < 16 ^ k) :
    digits width m ++ digits k n = digits (width + k) (m * 16 ^ k + n) := by
  induction k generalizing n with
  | zero =>
    have hzero : n = 0 := Nat.lt_one_iff.mp hn
    simp [digits, hzero]
  | succ k ih =>
    have hpow : m * 16 ^ (k + 1) = m * 16 ^ k * 16 := by rw [Nat.pow_succ, Nat.mul_assoc]
    have hhigh : (m * 16 ^ (k + 1) + n) / 16 = m * 16 ^ k + n / 16 := by omega
    have hlow : (m * 16 ^ (k + 1) + n) % 16 = n % 16 := by omega
    have hfew : n / 16 < 16 ^ k := Nat.div_lt_of_lt_mul (by rwa [Nat.pow_succ, Nat.mul_comm] at hn)
    calc
      digits width m ++ digits (k + 1) n
        = (digits width m ++ digits k (n / 16)) ++ [upper n] := (List.append_assoc _ _ _).symm
      _ = digits (width + k) ((m * 16 ^ (k + 1) + n) / 16) ++ [upper (m * 16 ^ (k + 1) + n)] := by
        rw [ih hfew, hhigh, ← upper_mod (m * 16 ^ (k + 1) + n), hlow, upper_mod]

/-- The upper-case digits. -/
def alphabet : List Char :=
  ['0', '1', '2', '3', '4', '5', '6', '7', '8', '9', 'A', 'B', 'C', 'D', 'E', 'F']

theorem mem_alphabet (h : c ∈ digits width n) : c ∈ alphabet := by
  induction width generalizing n with
  | zero => cases h
  | succ width ih =>
    rcases List.mem_append.mp h with h | h
    · exact ih h
    · rw [List.mem_singleton.mp h]
      exact upper_induction (P := (· ∈ alphabet)) (by decide) n

end Hex

namespace Numeral

open Hex (digits)

variable {width m n : Nat}

theorem digit?_upper (n : Nat) : digit? 16 (Hex.upper n) = some (n % 16) := by
  have hall : ∀ d < 16, digit? 16 (Hex.upper d) = some d := by decide
  rw [← Hex.upper_mod]
  exact hall _ (Nat.mod_lt n (by decide))

/-- Reading on where a number was read already. -/
theorem foldlM_digits (start width n : Nat) :
    (digits width n).foldlM (fun n c => (digit? 16 c).map (n * 16 + ·)) start =
      some (start * 16 ^ width + n % 16 ^ width) := by
  induction width generalizing n with
  | zero => simp [digits, Nat.mod_one]
  | succ width ih =>
    have hlow : n % 16 ^ (width + 1) = n / 16 % 16 ^ width * 16 + n % 16 := by
      rw [Nat.pow_succ, Nat.mul_comm, Nat.mod_mul]
      omega
    have hstart : start * 16 ^ (width + 1) = start * 16 ^ width * 16 := by
      rw [Nat.pow_succ, Nat.mul_assoc]
    rw [digits, List.foldlM_append, ih]
    simp only [List.foldlM_cons, List.foldlM_nil, digit?_upper, Option.bind_eq_bind,
      Option.bind_some, Option.map_some, Option.pure_def, hlow, hstart]
    congr 1
    omega

theorem value?_digits (width n : Nat) :
    value? 16 (digits (width + 1) n) = some (n % 16 ^ (width + 1)) := by
  have hsome : (digits (width + 1) n).isEmpty = false := by simp [digits]
  rw [value?, hsome, if_neg Bool.false_ne_true, foldlM_digits, Nat.zero_mul, Nat.zero_add]

theorem value?_hexDigits (n : Nat) : value? 16 (digits 4 n) = some (n % 0x10000) := value?_digits 3 n

theorem value?_shortest (n : Nat) : value? 16 (Hex.shortest n).toList = some n := by
  have henough : n < 16 ^ (n.log2 / 4 + 1) := by
    calc
      n < 2 ^ (n.log2 + 1) := Nat.lt_log2_self
      _ ≤ 2 ^ (4 * (n.log2 / 4 + 1)) := Nat.pow_le_pow_right (by decide) (by omega)
      _ = 16 ^ (n.log2 / 4 + 1) := by rw [Nat.pow_mul]
  rw [Hex.shortest, Hex.fixed, String.toList_ofList, value?_digits, Nat.mod_eq_of_lt henough]

end Numeral

namespace Hex

/-- Numbers that the width has room for are told apart by their digits. -/
theorem eq_of_digits_eq (hm : m < 16 ^ (width + 1)) (hn : n < 16 ^ (width + 1))
    (h : digits (width + 1) m = digits (width + 1) n) : m = n := by
  have hvalue := congrArg (Numeral.value? 16) h
  rw [Numeral.value?_digits, Numeral.value?_digits, Nat.mod_eq_of_lt hm, Nat.mod_eq_of_lt hn] at hvalue
  exact Option.some.inj hvalue

theorem eq_of_shortest_eq (h : (shortest m).toList = (shortest n).toList) : m = n := by
  have hvalue := congrArg (Numeral.value? 16) h
  rw [Numeral.value?_shortest, Numeral.value?_shortest] at hvalue
  exact Option.some.inj hvalue

end Hex
end Chip8
