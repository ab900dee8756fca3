import Chip8.Document.Scalar.Basic

/-!
# Tokens

The parts that a written document consists of.  Lists and records are written between brackets, or
line by line with the same indentation; where an indentation begins and ends there are tokens that
no character stands for.
-/

namespace Chip8

/-- A part of a written document. -/
inductive Token where
  /-- A line that declares something about the document. -/
  | directive
  /-- Three hyphens, behind which a document starts. -/
  | start
  /-- Three points, behind which no document goes on. -/
  | finish
  | openList
  | closeList
  | openRecord
  | closeRecord
  /-- The first item of a list stands further to the right than what the list belongs to. -/
  | indentList
  /-- The first name of a record stands further to the right than what the record belongs to. -/
  | indentRecord
  /-- A list or a record that began with an indentation is over. -/
  | dedent
  /-- A hyphen, behind which an item of a list stands. -/
  | item
  /-- What follows is a name. -/
  | name
  /-- A colon, behind which the value of a name stands. -/
  | value
  | comma
  /-- What follows can be repeated elsewhere. -/
  | anchor (number : Nat)
  /-- What stands behind an anchor is meant. -/
  | alias (number : Nat)
  /-- What follows is of some type. -/
  | tag (tag : String)
  | scalar (scalar : Scalar)
  deriving DecidableEq, Repr

/-- What a value stands in. -/
inductive Surroundings where
  | brackets
  /-- A document or a list without brackets. -/
  | lines
  /-- A record without brackets.  Lists in it need not be indented. -/
  | members
  deriving DecidableEq, Repr

namespace Token

/-- Whether a value starts with a token. -/
def startsValue (inside : Surroundings) : Token → Bool
  | .anchor _ => true
  | .alias _ => true
  | .tag _ => true
  | .scalar _ => true
  | .openList => true
  | .openRecord => true
  | .indentList => inside ≠ .brackets
  | .indentRecord => inside ≠ .brackets
  | .item => inside = .members
  | _ => false

end Token
end Chip8
