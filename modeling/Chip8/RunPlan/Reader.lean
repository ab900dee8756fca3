import Chip8.Document.Reader
import Chip8.RunPlan.Basic

/-!
# Reading run plans

A run plan is written as a record.  Every member has a default but the frame and the key of a key
change, so a plan may be empty.  Members that a plan does not know are passed over; one that it
knows must have its type and may occur once.
-/

namespace Chip8

/-- A reason why a document is no run plan. -/
inductive PlanError where
  | unreadable
  | tooManyAliases
  | wrongType (place expected : String)
  | missing (member : String)
  | repeated (member : String)
  deriving DecidableEq, Repr

/-- The wording of a reason. -/
def PlanError.message : PlanError → String
  | .unreadable => "not a document"
  | .tooManyAliases => "too many aliases"
  | .wrongType place expected => place ++ ": expected " ++ expected
  | .missing member => "missing field " ++ member
  | .repeated member => "duplicate field " ++ member

namespace RunPlan

/-- Whole numbers in a plan have 64 bits. -/
def wordLimit : Nat := 0x10000000000000000

/-! ## Single values -/

/-- Reads the value found at a place. -/
abbrev Reader (α : Type) := (place : String) → Document → Except PlanError α

namespace Reader

/-- Reads what a partial function accepts. -/
def ofOption {α : Type} (expected : String) (read : Document → Option α) : Reader α :=
  fun place value =>
    match read value with
    | some a => .ok a
    | none => .error (.wrongType place expected)

/-- Reads a value, which null or a blank stands for if there is none.  What is said to be null has
to be null, and behind any other tag the value has to be there. -/
def orNull {α : Type} (read : Reader α) : Reader (Option α) :=
  fun place value =>
    match value with
    | .null => .ok none
    | .blank => .ok none
    | .tagged tag .null => if tag = Tag.null then .ok none else .error (.wrongType place "a value")
    | .tagged tag value =>
      if tag = Tag.null then .error (.wrongType place "null") else (read place value).map some
    | value => (read place value).map some

/-- Reads every item of a list. -/
def each {α : Type} (read : Reader α) : Reader (List α) :=
  fun place value =>
    match value.items? with
    | some items => items.mapM (read place)
    | none => .error (.wrongType place "a list")

/-- A number of 64 bits. -/
def word : Reader Nat :=
  ofOption "an unsigned integer" (Document.below? wordLimit)

/-- A truth value. -/
def flag : Reader Bool :=
  ofOption "a boolean" Document.flag?

/-- The members of a record. -/
def members : Reader (List (String × Document)) :=
  ofOption "a record" Document.members?

/-- The number of a key. -/
def key : Reader Key :=
  ofOption "a key" fun value =>
    match value.below? 16 with
    | some code => (Key.ofNat code).toOption
    | none => none

/-! ## Members of records -/

/-- The value of a member, if the record has it. -/
def member? (name : String) (members : List (String × Document)) :
    Except PlanError (Option Document) :=
  match Document.named name members with
  | [] => .ok none
  | [value] => .ok (some value)
  | _ => .error (.repeated name)

/-- Reads a member that has a default. -/
def withDefault {α : Type} (read : Reader α) (name : String) (default : α)
    (members : List (String × Document)) : Except PlanError α := do
  match ← member? name members with
  | some value => read name value
  | none => return default

/-- Reads a member that must be there. -/
def required {α : Type} (read : Reader α) (name : String) (members : List (String × Document)) :
    Except PlanError α := do
  match ← member? name members with
  | some value => read name value
  | none => .error (.missing name)

/-! ## Parts of a plan -/

/-- The set-up of a machine. -/
def settings : Reader Settings := fun place value => do
  let fields ← members place value
  let clock ← withDefault word.orNull "clock_frequency" none fields
  let historyCapacity ← withDefault word "history_capacity" 2500 fields
  let seed ← withDefault word.orNull "rng_seed" none fields
  return { clock, historyCapacity, seed }

/-- A key change, which is a press unless it says otherwise. -/
def keyChange : Reader KeyChange := fun place value => do
  let fields ← members place value
  let frame ← required word "frame" fields
  let key ← required key "key" fields
  let down ← withDefault flag "pressed" true fields
  return { frame, key, down }

end Reader

/-! ## Plans -/

/-- The plan that a document stands for. -/
def ofDocument (document : Document) : Except PlanError RunPlan := do
  let fields ← Reader.members "plan" document
  let settings ← Reader.withDefault Reader.settings "vm" {} fields
  let frames ← Reader.withDefault Reader.word "frames" 600 fields
  let throttle ← Reader.withDefault Reader.flag "throttle" false fields
  let keys ← Reader.withDefault Reader.keyChange.each "keys" [] fields
  return { settings, frames, throttle, keys }

/-- The number of aliases that one follows who reads a plan. -/
def aliasCount (root : Node) : Nat :=
  let nodes := root.anchored
  let scalar := Node.aliasesInScalar nodes
  let settings := Node.aliasesInRecord nodes
    [("clock_frequency", scalar), ("history_capacity", scalar), ("rng_seed", scalar)]
  let keyChange := Node.aliasesInRecord nodes
    [("frame", scalar), ("key", scalar), ("pressed", scalar)]
  Node.aliasesInRecord nodes
    [("vm", settings), ("frames", scalar), ("throttle", scalar),
     ("keys", Node.aliasesInList nodes keyChange)] root

/-- The number of aliases that may be followed for each mark of a plan. -/
def aliasLimit : Nat := 100

/-- The number of aliases that may stand behind each other between a plan and its values: one each
for the list of key changes, a key change, and a number in it. -/
def aliasDepth : Nat := 3

/-- The plan that a text stands for. -/
def ofText (text : String) : Except PlanError RunPlan :=
  match Node.ofText? text with
  | none => .error .unreadable
  | some root =>
    if aliasLimit * root.size < aliasCount root then .error .tooManyAliases
    else ofDocument (root.toDocument aliasDepth)

end RunPlan
end Chip8
