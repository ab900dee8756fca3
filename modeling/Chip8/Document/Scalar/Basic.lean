import Chip8.Document.Basic
import Chip8.Document.Tag
import Chip8.Numeral

/-!
# Scalars

A scalar is a piece of text that is neither a list nor a record.  What it says depends on how it is
written: only a plain scalar, or a literal block with the right tag, is a number or a truth value.
-/

namespace Chip8

/-- How a scalar is written. -/
inductive ScalarStyle where
  | plain
  | singleQuoted
  | doubleQuoted
  /-- A block whose lines stay as they are. -/
  | literal
  /-- A block whose lines are joined. -/
  | folded
  deriving DecidableEq, Repr

/-- A scalar with the text that it stands for. -/
structure Scalar where
  style : ScalarStyle
  text : String
  deriving DecidableEq, Repr

namespace Scalar

/-- Nothing is written. -/
def blank : Scalar := ⟨.plain, ""⟩

/-! ## Words -/

/-- The number that a word stands for.  A plus may stand before it.  Numerals in the bases two,
eight and sixteen have a mark in front; those in base ten do not start with a needless zero. -/
def number? (word : String) : Option Nat :=
  match Numeral.afterPlus word.toList with
  | '0' :: 'b' :: digits => Numeral.value? 2 digits
  | '0' :: 'o' :: digits => Numeral.value? 8 digits
  | '0' :: 'x' :: digits => Numeral.value? 16 digits
  | '0' :: _ :: _ => none
  | digits => Numeral.value? 10 digits

/-- The truth value that a word stands for. -/
def flag? (word : String) : Option Bool :=
  if ["true", "True", "TRUE"].contains word then some true
  else if ["false", "False", "FALSE"].contains word then some false
  else none

/-- Whether a word stands for no value. -/
def isNull (word : String) : Bool := ["null", "Null", "NULL", "~"].contains word

/-- A number, if a word is one. -/
def numberOrText (word : String) : Document :=
  match number? word with
  | some n => .number n
  | none => .text word

/-- A truth value, if a word is one. -/
def flagOrText (word : String) : Document :=
  match flag? word with
  | some value => .flag value
  | none => .text word

/-- What a word without quotes says. -/
def plainValue (word : String) : Document :=
  if word.isEmpty then .blank
  else if isNull word then .null
  else
    match flag? word with
    | some value => .flag value
    | none => numberOrText word

/-! ## The value of a scalar -/

/-- What a scalar with a tag says. -/
def value (tag : Option String) (s : Scalar) : Document :=
  match s.style with
  | .plain => plainValue s.text
  | .literal =>
    if tag = some Tag.int then numberOrText s.text
    else if tag = some Tag.bool then flagOrText s.text
    else .text s.text
  | _ => .text s.text

end Scalar
end Chip8
