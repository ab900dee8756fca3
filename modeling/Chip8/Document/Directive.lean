import Chip8.Document.Tag

/-!
# Directives

Lines in front of a document that begin with a percent sign.  They tell the version of the notation,
or declare handles of tags.
-/

namespace Chip8

open Layout

/-- What a directive says. -/
inductive Directive where
  | version (major minor : Nat)
  | handle (name meaning : String)
  deriving DecidableEq, Repr

namespace Directive

/-- A number of a version, of at most nine digits, and what follows it. -/
def takeNumber? (cs : List Char) : Option (Nat × List Char) :=
  let digits := cs.takeWhile Char.isDigit
  if digits.length ≤ 9 then
    (Numeral.value? 10 digits).map fun n => (n, cs.drop digits.length)
  else none

/-- A version: two numbers with a point between them. -/
def version? (cs : List Char) : Option Directive := do
  let (major, cs) ← takeNumber? cs
  match cs with
  | '.' :: cs =>
    let (minor, cs) ← takeNumber? cs
    if isIdle cs then return .version major minor else none
  | _ => none

/-- The length of the handle at the front of a line: an exclamation mark, or two with a word or
nothing between them. -/
def handleLength? : List Char → Option Nat
  | '!' :: cs =>
    let word := cs.takeWhile isWordChar
    if (cs.drop word.length).head? = some '!' then some (word.length + 2)
    else if word.isEmpty then some 1
    else none
  | _ => none

/-- A handle and how the tags begin that are written with it. -/
def handle? (cs : List Char) : Option Directive := do
  let length ← handleLength? cs
  let blanks := (cs.drop length).takeWhile isBlank
  let rest := cs.drop (length + blanks.length)
  let written := rest.takeWhile (Tag.isTagChar true)
  let behind := rest.drop written.length
  if blanks.isEmpty || written.isEmpty || !startsGap behind || !isIdle behind then none
  else return .handle (String.ofList (cs.take length)) (← Tag.text? written)

/-- The directive in a line, behind the percent sign. -/
def ofLine? (line : List Char) : Option Directive :=
  let word := line.takeWhile isWordChar
  let rest := line.drop word.length
  if !startsGap rest then none
  else
    match String.ofList word with
    | "YAML" => version? (rest.dropWhile isBlank)
    | "TAG" => handle? (rest.dropWhile isBlank)
    | _ => none

end Directive

/-- What the directives in front of a document have declared. -/
structure Declarations where
  versioned : Bool := false
  handles : List (String × String) := []
  deriving DecidableEq, Repr

namespace Declarations

/-- Take note of a directive.  The version is told once, and there are two that can be read; a
handle is declared once. -/
def note? (d : Declarations) : Directive → Option Declarations
  | .version major minor =>
    if d.versioned || major ≠ 1 || (minor ≠ 1 && minor ≠ 2) then none
    else some { d with versioned := true }
  | .handle name meaning =>
    if (d.handles.lookup name).isSome then none
    else some { d with handles := (name, meaning) :: d.handles }

end Declarations
end Chip8
