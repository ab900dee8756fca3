import Chip8.Document.Folding
import Chip8.Document.Scalar.Basic

/-!
# Plain scalars

A scalar without quotes ends where something else begins.  The gap behind it is passed with it but
is no part of its text.
-/

namespace Chip8
namespace Scalar

open Layout

/-! ## Where a plain scalar starts and ends -/

/-- A character that ends a plain scalar in brackets. -/
def isBracketOrComma (c : Char) : Bool :=
  [',', '[', ']', '\x7b', '\x7d'].contains c

/-- A character that means something else at the start of a scalar. -/
def isIndicator (c : Char) : Bool :=
  isBracketOrComma c ||
    ['?', ':', '-', '#', '&', '*', '!', '|', '>', '\x27', '"', '%', '@', '\x60'].contains c

/-- Whether a plain scalar starts here.  A hyphen, a question mark or a colon may start one if it
does not stand alone. -/
def startsPlain : List Char → Bool
  | [] => false
  | c :: cs =>
    if ['-', '?', ':'].contains c then !startsGap cs else !(isGap c || isIndicator c)

/-- Whether a plain scalar ends here: before a colon that stands alone, in brackets before a bracket
or a comma, and behind a gap also before a comment, before a boundary, and outside of brackets
before a part that stands too far to the left. -/
def endsPlain (inBrackets : Bool) (indent column : Nat) (passed : List Char) : List Char → Bool
  | [] => true
  | c :: cs =>
    (c = ':' && startsGap cs) || (inBrackets && isBracketOrComma c) ||
      (passed.head?.any isGap &&
        (c = '#' || (column = 0 && startsBoundary (c :: cs)) || (!inBrackets && column < indent)))

/-- Whether a colon stands right before a bracket, a comma or a question mark. -/
def startsLostColon : List Char → Bool
  | ':' :: c :: _ => isBracketOrComma c || c = '?'
  | _ => false

/-! ## Plain scalars in a text -/

/-- All characters of a plain scalar and the gap behind it.  `indent` is the column that its further
lines have to reach, and no tab stands to the left of it.  In brackets a colon is refused that
neither stands alone nor is part of a word.  `passed` holds the characters so far, the newest
first. -/
def cutPlain? (inBrackets : Bool) (indent : Nat) (passed : List Char) :
    (column : Nat) → List Char → Option (List Char)
  | _, [] => some passed.reverse
  | column, c :: cs =>
    if isBreak c then cutPlain? inBrackets indent (c :: passed) 0 cs
    else if isBlank c then
      if c = '\t' && column < indent && (passed.takeWhile isGap).any isBreak then none
      else cutPlain? inBrackets indent (c :: passed) (column + 1) cs
    else if endsPlain inBrackets indent column passed (c :: cs) then some passed.reverse
    else if inBrackets && startsLostColon (c :: cs) then none
    else cutPlain? inBrackets indent (c :: passed) (column + 1) cs

/-- The plain scalar at the front of a text, and all characters that are passed with it. -/
def plain? (inBrackets : Bool) (indent column : Nat) (cs : List Char) :
    Option (Scalar × List Char) := do
  if startsPlain cs then
    let source ← cutPlain? inBrackets indent (cs.take 1) (column + 1) (cs.drop 1)
    let folding := Folding.putAll {} source
    return (⟨.plain, String.ofList folding.text.reverse⟩, source)
  else none

/-- Whether a line ends in the gap behind a plain scalar. -/
def endsLine (source : List Char) : Bool :=
  (source.reverse.takeWhile isGap).any isBreak

end Scalar
end Chip8
