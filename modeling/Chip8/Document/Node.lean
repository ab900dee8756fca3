import Chip8.Document.Scalar.Basic

/-!
# Nodes

A document as it is written, with anchors and aliases.  What an alias stands for may hold the alias
itself, so a node says as much as one gets by following aliases to some depth.
-/

namespace Chip8

/-- What stands in front of a value. -/
structure Properties where
  anchor : Option Nat := none
  tag : Option String := none
  deriving DecidableEq, Repr

/-- A part of a written document that may be a name or a value. -/
inductive Node where
  /-- What stands behind an anchor is meant. -/
  | alias (number : Nat)
  | scalar (properties : Properties) (scalar : Scalar)
  | list (properties : Properties) (items : List Node)
  | record (properties : Properties) (members : List (Node × Node))

/-- Nodes by the numbers of their anchors.  Of two with one number the first counts. -/
abbrev Anchored (α : Type) := List (Nat × α)

namespace Node

/-- Nothing is written. -/
def blank : Node := .scalar {} .blank

/-- A pair that stands alone. -/
def ofPair (pair : Node × Node) : Node := .record {} [pair]

/-- The items of a list. -/
def items : Node → List Node
  | .list _ items => items
  | _ => []

/-- The members of a record. -/
def members : Node → List (Node × Node)
  | .record _ members => members
  | _ => []

/-! ## Size -/

mutual

/-- The number of marks that a node takes: one for a scalar or an alias, and two for a list or a
record besides those of its parts. -/
def size : Node → Nat
  | .alias _ => 1
  | .scalar _ _ => 1
  | .list _ items => 2 + sizeOfItems items
  | .record _ members => 2 + sizeOfMembers members

/-- The number of marks that some items take. -/
def sizeOfItems : List Node → Nat
  | [] => 0
  | item :: items => size item + sizeOfItems items

/-- The number of marks that some members take. -/
def sizeOfMembers : List (Node × Node) → Nat
  | [] => 0
  | (name, value) :: members => size name + size value + sizeOfMembers members

end

/-! ## Anchors -/

/-- Put a node in front of those found so far, if it stands behind an anchor. -/
def note (properties : Properties) (node : Node) (found : Anchored Node) : Anchored Node :=
  match properties.anchor with
  | some number => (number, node) :: found
  | none => found

mutual

/-- Put all nodes behind anchors in front of those found so far, the last of them first. -/
def findAnchored (found : Anchored Node) : Node → Anchored Node
  | .alias _ => found
  | .scalar properties s => note properties (.scalar properties s) found
  | .list properties items =>
    findAmongItems (note properties (.list properties items) found) items
  | .record properties members =>
    findAmongMembers (note properties (.record properties members) found) members

/-- Put all nodes behind anchors among some items in front of those found so far. -/
def findAmongItems (found : Anchored Node) : List Node → Anchored Node
  | [] => found
  | item :: items => findAmongItems (findAnchored found item) items

/-- Put all nodes behind anchors among some members in front of those found so far. -/
def findAmongMembers (found : Anchored Node) : List (Node × Node) → Anchored Node
  | [] => found
  | (name, value) :: members =>
    findAmongMembers (findAnchored (findAnchored found name) value) members

end

/-- All nodes behind anchors.  Of two whose anchors have one number the one counts that starts
later. -/
def anchored (root : Node) : Anchored Node := root.findAnchored []

/-! ## What a node says -/

/-- The words that make a name of a node, whatever they say otherwise. -/
def words? (nodes : Anchored Node) : Node → Option String
  | .scalar _ s => some s.text
  | .alias number =>
    match nodes.lookup number with
    | some (.scalar _ s) => some s.text
    | _ => none
  | _ => none

/-- A document with what is said of its type. -/
def withTag (properties : Properties) (document : Document) : Document :=
  match properties.tag with
  | some tag => .tagged tag document
  | none => document

/-- A record, if all its names are words. -/
def ofMembers (members : List (Option String × Document × Document)) : Document :=
  let named? := members.mapM fun (words, _, value) => words.map fun words => (words, value)
  match named? with
  | some members => .record members
  | none => .table (members.map Prod.snd)

mutual

/-- What a node says where it is known what aliases stand for. -/
def document (nodes : Anchored Node) (known : Anchored Document) : Node → Document
  | .alias number => (known.lookup number).getD .blank
  | .scalar properties s => withTag properties (s.value properties.tag)
  | .list properties items => withTag properties (.list (documents nodes known items))
  | .record properties members => withTag properties (ofMembers (rows nodes known members))

/-- What some items say. -/
def documents (nodes : Anchored Node) (known : Anchored Document) : List Node → List Document
  | [] => []
  | item :: items => document nodes known item :: documents nodes known items

/-- What some members say, with the words of their names. -/
def rows (nodes : Anchored Node) (known : Anchored Document) :
    List (Node × Node) → List (Option String × Document × Document)
  | [] => []
  | (name, value) :: members =>
    (name.words? nodes, document nodes known name, document nodes known value) ::
      rows nodes known members

end

/-- What the nodes behind anchors say if aliases are followed to some depth, and stand for nothing
beyond it. -/
def follow (nodes : Anchored Node) : (depth : Nat) → Anchored Document
  | 0 => []
  | depth + 1 =>
    let known := follow nodes depth
    nodes.map fun (number, node) => (number, node.document nodes known)

/-- What a whole document says if aliases are followed to some depth. -/
def toDocument (root : Node) (depth : Nat) : Document :=
  let nodes := root.anchored
  root.document nodes (follow nodes depth)

/-! ## Counting aliases -/

/-- Count something in a node, and one more if an alias stands for the node. -/
def countThrough (nodes : Anchored Node) (count : Node → Nat) : Node → Nat
  | .alias number => ((nodes.lookup number).map count).getD 0 + 1
  | node => count node

/-- The number of aliases that one follows who reads a scalar. -/
def aliasesInScalar (nodes : Anchored Node) : Node → Nat :=
  countThrough nodes fun _ => 0

/-- The number of aliases that one follows who reads a list. -/
def aliasesInList (nodes : Anchored Node) (inItem : Node → Nat) : Node → Nat :=
  countThrough nodes fun node => node.items.foldl (fun count item => count + inItem item) 0

/-- The number of aliases that one follows who reads the name of a member, and its value if the name
is known. -/
def aliasesInMember (nodes : Anchored Node) (inValues : List (String × (Node → Nat)))
    (member : Node × Node) : Nat :=
  let inValue? := (member.1.words? nodes).bind fun words => inValues.lookup words
  aliasesInScalar nodes member.1 + (inValue?.map fun inValue => inValue member.2).getD 0

/-- The number of aliases that one follows who reads a record, of which some names are known. -/
def aliasesInRecord (nodes : Anchored Node) (inValues : List (String × (Node → Nat))) :
    Node → Nat :=
  countThrough nodes fun node =>
    node.members.foldl (fun count member => count + aliasesInMember nodes inValues member) 0

end Node
end Chip8
