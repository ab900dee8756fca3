/-!
# Documents

What a text says, apart from how it is written.  The members of a record stay in their order and may
share a name, so that a reader of records can take offence at it.
-/

namespace Chip8

/-- A structured value, such as a plan is written as. -/
inductive Document where
  /-- Nothing is written where a value could be. -/
  | blank
  | null
  | flag (value : Bool)
  /-- A whole number from zero up. -/
  | number (value : Nat)
  /-- Words of any other kind. -/
  | text (value : String)
  | list (items : List Document)
  | record (members : List (String × Document))
  /-- Members like those of a record, but with lists or records among their names. -/
  | table (rows : List (Document × Document))
  /-- A value that is said to be of some type. -/
  | tagged (tag : String) (value : Document)

namespace Document

/-- A value without what is said of its type. -/
def untagged : Document → Document
  | .tagged _ value => value
  | value => value

/-- The members of a record, which has none where nothing is written. -/
def members? (document : Document) : Option (List (String × Document)) :=
  match document.untagged with
  | .blank => some []
  | .record members => some members
  | _ => none

/-- The items of a list, which has none where nothing is written. -/
def items? (document : Document) : Option (List Document) :=
  match document.untagged with
  | .blank => some []
  | .list items => some items
  | _ => none

/-- A truth value. -/
def flag? (document : Document) : Option Bool :=
  match document.untagged with
  | .flag value => some value
  | _ => none

/-- A number below a limit. -/
def below? (limit : Nat) (document : Document) : Option Nat :=
  match document.untagged with
  | .number n => if n < limit then some n else none
  | _ => none

/-- The values of all members with a name. -/
def named (name : String) (members : List (String × Document)) : List Document :=
  (members.filter fun member => member.1 == name).map Prod.snd

end Document
end Chip8
