/-!
# Random numbers as a stream

The machine reads random numbers from a fixed infinite stream, one after the other, and keeps its
position.  Where the stream comes from, a seed or the host's entropy, is not the machine's business.
-/

namespace Chip8

/-- A stream of random words and the number of those already taken. -/
structure Random where
  stream : Nat → UInt32
  position : Nat

namespace Random

/-- A stream of which nothing has been taken. -/
def start (stream : Nat → UInt32) : Random := ⟨stream, 0⟩

/-- The low byte of the next word. -/
def byte (r : Random) : UInt8 := (r.stream r.position).toUInt8

/-- Take one word. -/
def advance (r : Random) : Random := { r with position := r.position + 1 }

end Random
end Chip8
