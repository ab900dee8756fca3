import Chip8.Nibble

/-!
# Keypad

Sixteen keys, each of them up or down.  A key wait takes the lowest key that is down and releases
it, so one press of a key satisfies one wait.
-/

namespace Chip8

/-- A key, named by the digit on it. -/
abbrev Key := Nibble

/-- A number that names no key. -/
inductive KeyError where
  | outOfRange (code : Nat)
  deriving DecidableEq, Repr

/-- What a host shows for a number that names no key. -/
def KeyError.message : KeyError → String
  | .outOfRange _ => "keycode must be in range 0 <= keycode < 16"

namespace Key

/-- The key with a number, which must be below sixteen. -/
def ofNat (code : Nat) : Except KeyError Key :=
  if h : code < 16 then .ok ⟨code, h⟩ else .error (.outOfRange code)

/-- All keys in ascending order. -/
def all : List Key := List.finRange 16

end Key

/-- For each key whether it is down. -/
structure Keypad where
  down : Vector Bool 16
  deriving DecidableEq

namespace Keypad

/-- No key is down. -/
def released : Keypad := ⟨Vector.replicate 16 false⟩

/-- Whether a key is down. -/
def isDown (k : Keypad) (key : Key) : Bool := k.down[key]

/-- Press or release one key. -/
def set (k : Keypad) (key : Key) (down : Bool) : Keypad := ⟨k.down.set key down⟩

/-- Let one key up. -/
def release (k : Keypad) (key : Key) : Keypad := k.set key false

/-- The keys that are down, in ascending order. -/
def pressed (k : Keypad) : List Key := Key.all.filter k.isDown

/-- The lowest key that is down. -/
def first? (k : Keypad) : Option Key := Key.all.find? k.isDown

/-- Whether some key is down. -/
def any (k : Keypad) : Bool := Key.all.any k.isDown

/-- One bit for each key, the lowest key being the lowest bit. -/
def bits (k : Keypad) : Nat :=
  Key.all.foldr (fun key higher => 2 * higher + (k.isDown key).toNat) 0

@[simp] theorem isDown_released (key : Key) : released.isDown key = false := by
  simp [released, isDown]

theorem isDown_set (k : Keypad) (key other : Key) (down : Bool) :
    (k.set key down).isDown other = if key = other then down else k.isDown other := by
  simp only [set, isDown, Fin.getElem_fin, Vector.getElem_set, Fin.ext_iff]

end Keypad
end Chip8
