import Chip8.Memory

/-!
# Files

A command reads files by their paths.  What it reads is a parameter, so that a command can be tried
on files that exist only in memory; there a path that names none of them fails as it would in a
directory without other files.
-/

namespace Chip8

/-- Reads files by their paths: the bytes, or the text of a failure. -/
abbrev Files := String → Except String Program

namespace Files

/-- The text of the failure to find a file. -/
def notFound : String := "No such file or directory (os error 2)"

/-- The text of the failure to read a directory. -/
def isDirectory : String := "Is a directory (os error 21)"

/-- The text of the failure to look up a name that no file can have. -/
def nameTooLong : String := "File name too long (os error 36)"

/-- The number of bytes in the longest path. -/
def pathLimit : Nat := 4095

/-- The number of bytes in the longest name on a path. -/
def nameLimit : Nat := 255

/-- The names on a path that lead away from where it starts. -/
def names (path : String) : List String :=
  (path.splitOn "/").filter fun name => name != "" && name != "." && name != ".."

/-- Why nothing can be read at a path that names no file.  The first name on it decides, because it
leads nowhere; a path without names stays at a directory. -/
def failure (path : String) : String :=
  if path = "" then notFound
  else if pathLimit < path.utf8ByteSize then nameTooLong
  else
    match names path with
    | [] => isDirectory
    | name :: _ => if nameLimit < name.utf8ByteSize then nameTooLong else notFound

/-- The listed files and no others. -/
def ofList (contents : List (String × Program)) : Files := fun path =>
  match contents.lookup path with
  | some bytes => .ok bytes
  | none => .error (failure path)

end Files
end Chip8
