import Chip8.Document.Layout

/-!
# Joining lines

A scalar that is not in a block may go on in further lines.  The blanks around the end of a line are
no part of its text.  One line end stands for a blank; of several in a row the first is dropped and
the others stay.
-/

namespace Chip8

open Layout

/-- The gap that was passed since the last character of a text. -/
inductive Pending where
  | none
  /-- Blanks, the newest first. -/
  | blanks (cs : List Char)
  /-- The first line end, if it counts, and those after it, the newest first. -/
  | lines (first : Option Char) (more : List Char)
  deriving DecidableEq, Repr

/-- The text of a scalar so far, the newest character first, and a gap that may or may not turn out
to be a part of it. -/
structure Folding where
  text : List Char := []
  pending : Pending := .none
  deriving DecidableEq, Repr

namespace Folding

/-- The text together with the gap behind it. -/
def joined (f : Folding) : List Char :=
  match f.pending with
  | .none => f.text
  | .blanks cs => cs ++ f.text
  | .lines none more => more ++ f.text
  | .lines (some first) more =>
    if first = '\n' then (if more.isEmpty then ' ' :: f.text else more ++ f.text)
    else more ++ first :: f.text

/-- Go on with a character that is no part of a gap. -/
def put (f : Folding) (c : Char) : Folding := ⟨c :: f.joined, .none⟩

/-- Go on with a blank.  None counts behind a line end. -/
def putBlank (f : Folding) (c : Char) : Folding :=
  match f.pending with
  | .none => { f with pending := .blanks [c] }
  | .blanks cs => { f with pending := .blanks (c :: cs) }
  | .lines _ _ => f

/-- Go on in the next line. -/
def putLineEnd (f : Folding) (c : Char) : Folding :=
  match f.pending with
  | .lines first more => { f with pending := .lines first (lineEndValue c :: more) }
  | _ => { f with pending := .lines (some (lineEndValue c)) [] }

/-- Go on in the next line as if it were the same. -/
def skipLineEnd (f : Folding) : Folding := ⟨f.joined, .lines none []⟩

/-- Go on with any character. -/
def putAny (f : Folding) (c : Char) : Folding :=
  if isBreak c then f.putLineEnd c else if isBlank c then f.putBlank c else f.put c

/-- Go on with all characters of a text.  A carriage return and a line feed are one line end. -/
def putAll (f : Folding) : List Char → Folding
  | [] => f
  | '\r' :: '\n' :: cs => putAll (f.putLineEnd '\n') cs
  | c :: cs => putAll (f.putAny c) cs

end Folding
end Chip8
