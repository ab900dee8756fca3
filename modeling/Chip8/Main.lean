import Chip8.Command

/-!
# The program

Reads the arguments and the files that they name, and carries out the report.
-/

namespace Chip8

/-- The text of a failure to read a file. -/
def failureText (failure : IO.Error) : String :=
  let text (details : String) (code : UInt32) : String :=
    details ++ " (os error " ++ code.toNat.repr ++ ")"
  match failure with
  | .noFileOrDirectory _ code details => text details code
  | .permissionDenied _ code details => text details code
  | .inappropriateType _ code details => text details code
  | .otherError code details => text details code
  | other => other.toString

/-- The bytes of a file, or the text of the failure to read it. -/
def readFile (path : String) : IO (Except String Program) := do
  match ← (IO.FS.withFile path .read fun handle => handle.readBinToEnd).toBaseIO with
  | .ok bytes => return .ok bytes.data
  | .error failure => return .error (failureText failure)

/-- The paths that a command reads. -/
def Command.paths : Command → List String
  | .run program plan => program :: plan.toList
  | .step program _ => [program]

/-- Look a path up among those that were read. -/
def lookup (contents : List (String × Except String Program)) : Files := fun path =>
  match contents.find? fun entry => entry.1 == path with
  | some (_, content) => content
  | none => .error Files.notFound

/-- A seed that no program can foresee. -/
def entropySeed : IO UInt64 := do
  let bytes ← IO.getRandomBytes 8
  return bytes.data.foldl (fun seed byte => seed * 256 + byte.toUInt64) 0

end Chip8

open Chip8 in
/-- Carry out the command that the arguments stand for. -/
def main (args : List String) : IO UInt32 := do
  let paths := ((Command.ofArgs? args).map Command.paths).getD []
  let contents ← paths.mapM fun path => do return (path, ← readFile path)
  let seed ← entropySeed
  let report := Report.ofArgs args (lookup contents) (ChaCha.stream seed)
  IO.sleep (UInt32.ofNat (report.pacedFrames * 1000 / Timing.frameRate))
  IO.print report.output
  for complaint in report.complaints do
    IO.eprintln ("ERROR " ++ complaint.message)
  return UInt32.ofNat report.status
