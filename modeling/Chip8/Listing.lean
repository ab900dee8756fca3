import Chip8.Hex
import Chip8.State.Basic

/-!
# Listings

The texts in which a host shows a machine: the screen as a picture, the registers, the keys that are
down, and memory as a list of words.
-/

namespace Chip8

/-- Lines, each of them ended. -/
def unlines (lines : List String) : String :=
  String.join (lines.map fun line => line ++ "\n")

namespace Screen

/-- One row of cells: a sharp for a cell that is on and a point for one that is off. -/
def pictureLine (s : Screen) (y : Nat) : String :=
  String.ofList ((List.range 64).map fun x => if s.get (Cell.wrap x y) then '#' else '.')

/-- The screen as a picture of 32 lines. -/
def listing (s : Screen) : String :=
  unlines ((List.range 32).map s.pictureLine)

end Screen

namespace State

/-- The general registers, each followed by a blank. -/
def regsLine (s : State) : String :=
  String.join ((List.finRange 16).map fun (x : Reg) =>
    "V" ++ Hex.fixed 1 x ++ "=" ++ Hex.fixed 2 (s.reg x).toNat ++ " ")

/-- The register that waits for a key, if one does. -/
def keyWaitText (s : State) : String :=
  match s.keyWait with
  | none => ""
  | some x => " K=V" ++ Hex.fixed 1 x

/-- The index, the program counter, the depth of the call stack, the timers and the key wait. -/
def statusLine (s : State) : String :=
  "I=" ++ Hex.fixed 4 s.index.toNat ++
    " PC=" ++ Hex.fixed 4 s.pc.toNat ++
    " SP=" ++ Hex.shortest s.stack.depth ++
    " DT=" ++ Hex.fixed 2 s.delay.toNat ++
    " ST=" ++ Hex.fixed 2 s.sound.toNat ++
    s.keyWaitText

/-- All registers, on two lines of which the second is not ended. -/
def listing (s : State) : String :=
  s.regsLine ++ "\n" ++ s.statusLine

end State

namespace Key

/-- The letter `k` and the digit of the key. -/
def name (key : Key) : String :=
  String.ofList ['k', Hex.lower key]

end Key

namespace Keypad

/-- The keys that are down, or nothing if none is. -/
def listing (k : Keypad) : String :=
  if k.any then
    "keys:" ++ String.join (k.pressed.map fun (key : Key) => " " ++ key.name)
  else ""

end Keypad

namespace Memory

/-- Every second entry of a list, from the first on. -/
def everySecond {α : Type} : List α → List α
  | [] => []
  | [a] => [a]
  | a :: _ :: rest => a :: everySecond rest

/-- The first `count` bytes of program memory with their addresses, as far as memory reaches. -/
def programBytes (m : Memory) (count : Nat) : List (UInt8 × Nat) :=
  (m.bytes.toList.zipIdx.drop programStart).take count

/-- The address of a byte, and the word that begins with it.  Behind the end of memory are zeros. -/
def wordLine (m : Memory) (entry : UInt8 × Nat) : String :=
  let next := (m.read? (entry.2 + 1)).getD 0
  Hex.fixed 4 entry.2 ++ ": " ++ Hex.fixed 2 entry.1.toNat ++ Hex.fixed 2 next.toNat

/-- The words that begin with every second one of the first `count` bytes of program memory. -/
def listing (m : Memory) (count : Nat) : String :=
  unlines ((everySecond (m.programBytes count)).map m.wordLine)

end Memory
end Chip8
