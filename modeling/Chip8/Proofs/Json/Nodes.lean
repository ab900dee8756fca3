import Chip8.Document.Reader
import Chip8.Proofs.Json.Tokens

/-!
# What a JSON text says

A reader takes a value from the front of its tokens if all names in it are short enough
(`Node.take?_tokens`).  A name that is too long stands in front of its colon like a name without a
value, and no bracket or comma follows it, so there is no value around it either.  What a node of a
JSON text says is the value itself, since it holds no aliases and no tags.
-/

namespace Chip8
namespace Json

mutual

/-- The node that is read from a value. -/
def node : Json → Node
  | .string s => .scalar {} ⟨.doubleQuoted, s⟩
  | .array items => .list {} (itemNodes items)
  | .object members => .record {} (memberNodes members)
  | v => .scalar {} ⟨.plain, String.ofList v.chars⟩

/-- The nodes of some items. -/
def itemNodes : List Json → List Node
  | [] => []
  | item :: items => node item :: itemNodes items

/-- The nodes of some members. -/
def memberNodes : List (String × Json) → List (Node × Node)
  | [] => []
  | (name, value) :: members => (.scalar {} ⟨.doubleQuoted, name⟩, node value) :: memberNodes members

end

mutual

/-- What a value says. -/
def document : Json → Document
  | .null => .null
  | .bool value => .flag value
  | .natural n => .number n
  | .decimal d => .text (String.ofList d.chars)
  | .string s => .text s
  | .array items => .list (itemDocuments items)
  | .object members => .record (memberDocuments members)

/-- What some items say. -/
def itemDocuments : List Json → List Document
  | [] => []
  | item :: items => document item :: itemDocuments items

/-- What some members say. -/
def memberDocuments : List (String × Json) → List (String × Document)
  | [] => []
  | (name, value) :: members => (name, document value) :: memberDocuments members

end

end Json

namespace Node

open Json

/-! ## Reading tokens -/

theorem takeItems?_value (v : Json) (fuel : Nat) (taken : List Node) (ts : List Token) :
    takeItems? (fuel + 2) taken (v.tokens ++ ts) =
      match take? fuel .brackets (v.tokens ++ ts) with
      | some (item, .closeList :: ts) => some ((item :: taken).reverse, ts)
      | some (item, .comma :: ts) => takeItems? (fuel + 1) (item :: taken) ts
      | _ => none := by
  cases v <;> rfl

theorem takeOptional?_value (v : Json) (fuel : Nat) (ts : List Token) :
    takeOptional? (fuel + 1) .brackets (v.tokens ++ ts) =
      take? fuel .brackets (v.tokens ++ ts) := by
  cases v <;> rfl

/-- A name that is too long is taken without its value. -/
theorem takeMember?_tokens (name : String) (v : Json) (fuel : Nat) (ts : List Token) :
    takeMember? (fuel + 4) (nameTokens name ++ v.tokens ++ ts) =
      if nameFits name then
        (take? fuel .brackets (v.tokens ++ ts)).map fun (value, ts) =>
          ((.scalar {} ⟨.doubleQuoted, name⟩, value), ts)
      else some ((.scalar {} ⟨.doubleQuoted, name⟩, blank), .value :: (v.tokens ++ ts)) := by
  rw [← takeOptional?_value, nameTokens]
  split <;> rfl

theorem takeMembers?_member (name : String) (fuel : Nat) (taken : List (Node × Node))
    (ts : List Token) :
    takeMembers? (fuel + 1) taken (nameTokens name ++ ts) =
      match takeMember? fuel (nameTokens name ++ ts) with
      | some (member, .closeRecord :: ts) => some ((member :: taken).reverse, ts)
      | some (member, .comma :: ts) => takeMembers? fuel (member :: taken) ts
      | _ => none := by
  rw [nameTokens]
  split <;> rfl

theorem length_nameTokens_pos (name : String) : 0 < (nameTokens name).length := by
  rw [nameTokens]
  split <;> simp

theorem length_tokens_pos (v : Json) : 0 < v.tokens.length := by
  cases v <;> simp [tokens]

mutual

/-- A value is read from the front of some tokens if its names are short enough. -/
theorem take?_tokens (v : Json) (fuel : Nat) (hfuel : 5 * v.tokens.length ≤ fuel)
    (inside : Surroundings) (ts : List Token) :
    take? fuel inside (v.tokens ++ ts) = if v.namesFit then some (v.node, ts) else none := by
  have hpos := length_tokens_pos v
  obtain ⟨fuel, rfl⟩ : ∃ n, fuel = n + 1 := ⟨fuel - 1, by omega⟩
  match v with
  | .null => rfl
  | .bool _ => rfl
  | .natural _ => rfl
  | .decimal _ => rfl
  | .string _ => rfl
  -- The brackets are two tokens, and their fuel is enough to get to the first part.
  | .array items =>
    rw [tokens, List.length_append, List.length_cons, List.length_singleton] at hfuel
    have hopen : take? (fuel + 1) inside ((Json.array items).tokens ++ ts) =
        (takeItems? fuel [] ([.comma].intercalate (itemTokens items) ++ .closeList :: ts)).map
          fun (items, ts) => (.list {} items, ts) := by
      rw [tokens, List.append_assoc, List.singleton_append]
      rfl
    rw [hopen, takeItems?_tokens items fuel (by omega), namesFit, node]
    cases namesFitItems items <;> rfl
  | .object members =>
    rw [tokens, List.length_append, List.length_cons, List.length_singleton] at hfuel
    have hopen : take? (fuel + 1) inside ((Json.object members).tokens ++ ts) =
        (takeMembers? fuel [] ([.comma].intercalate (memberTokens members) ++
          .closeRecord :: ts)).map fun (members, ts) => (.record {} members, ts) := by
      rw [tokens, List.append_assoc, List.singleton_append]
      rfl
    rw [hopen, takeMembers?_tokens members fuel (by omega), namesFit, node]
    cases namesFitMembers members <;> rfl

theorem takeItems?_tokens (items : List Json) (fuel : Nat)
    (hfuel : 5 * (([.comma].intercalate (itemTokens items)).length + 1) ≤ fuel)
    (taken : List Node) (ts : List Token) :
    takeItems? fuel taken ([.comma].intercalate (itemTokens items) ++ .closeList :: ts) =
      if namesFitItems items then some (taken.reverse ++ itemNodes items, ts) else none := by
  obtain ⟨fuel, rfl⟩ : ∃ n, fuel = n + 2 := ⟨fuel - 2, by omega⟩
  match items with
  | [] => simp [itemTokens, itemNodes, namesFitItems, takeItems?]
  | [item] =>
    simp only [itemTokens, List.intercalate_singleton] at hfuel ⊢
    rw [takeItems?_value, take?_tokens item fuel (by omega)]
    cases hfit : item.namesFit <;> simp [namesFitItems, itemNodes, hfit]
  | item :: next :: items =>
    have hnext := takeItems?_tokens (next :: items) (fuel + 1)
    simp only [itemTokens, List.intercalate_cons_cons, List.append_assoc, List.singleton_append,
      List.length_append, List.length_cons] at hfuel hnext ⊢
    rw [takeItems?_value, take?_tokens item fuel (by omega)]
    cases hfit : item.namesFit with
    | false => simp [namesFitItems, hfit]
    | true =>
      simp only [if_true, List.cons_append]
      rw [hnext (by omega)]
      simp [namesFitItems, itemNodes, hfit]

theorem takeMembers?_tokens (members : List (String × Json)) (fuel : Nat)
    (hfuel : 5 * (([.comma].intercalate (memberTokens members)).length + 1) ≤ fuel)
    (taken : List (Node × Node)) (ts : List Token) :
    takeMembers? fuel taken ([.comma].intercalate (memberTokens members) ++ .closeRecord :: ts) =
      if namesFitMembers members then some (taken.reverse ++ memberNodes members, ts)
      else none := by
  obtain ⟨fuel, rfl⟩ : ∃ n, fuel = n + 5 := ⟨fuel - 5, by omega⟩
  match members with
  | [] => simp [memberTokens, memberNodes, namesFitMembers, takeMembers?]
  | [(name, value)] =>
    have hmember := takeMember?_tokens name value fuel (.closeRecord :: ts)
    simp only [memberTokens, List.intercalate_singleton, List.append_assoc,
      List.length_append] at hfuel hmember ⊢
    rw [takeMembers?_member, hmember, take?_tokens value fuel (by omega)]
    cases hname : nameFits name with
    -- Behind a name that was taken without its value neither a comma nor a bracket stands.
    | false => simp [namesFitMembers, hname]
    | true => cases hfit : value.namesFit <;> simp [namesFitMembers, memberNodes, hname, hfit]
  | (name, value) :: next :: members =>
    have hnext := takeMembers?_tokens (next :: members) (fuel + 4)
    have hpos := length_nameTokens_pos name
    have hmember := takeMember?_tokens name value fuel (.comma ::
      ([.comma].intercalate (memberTokens (next :: members)) ++ .closeRecord :: ts))
    simp only [memberTokens, List.intercalate_cons_cons, List.append_assoc, List.nil_append,
      List.cons_append, List.length_append, List.length_cons] at hfuel hnext hmember ⊢
    rw [takeMembers?_member, hmember, take?_tokens value fuel (by omega)]
    cases hname : nameFits name with
    | false => simp [namesFitMembers, hname]
    | true =>
      cases hfit : value.namesFit with
      | false => simp [namesFitMembers, hname, hfit]
      | true =>
        simp only [if_true, Option.map_some]
        rw [hnext (by omega)]
        simp [namesFitMembers, memberNodes, hname, hfit]

end

/-- A JSON text is read as the node of its value if all its names are short enough. -/
theorem ofText?_json (v : Json) :
    Node.ofText? v.text = if v.namesFit then some v.node else none := by
  have hroot : takeRoot? v.tokens = take? (5 * v.tokens.length + 5) .lines v.tokens := by
    cases v <;> rfl
  have htake := take?_tokens v (5 * v.tokens.length + 5) (by omega) .lines []
  rw [List.append_nil] at htake
  rw [Node.ofText?, Token.ofText?_json, Option.bind_eq_bind, Option.bind_some, hroot, htake]
  cases v.namesFit <;> rfl

/-! ## What a node says -/

theorem ofMembers_of_words {rows : List (Option String × Document × Document)}
    {members : List (String × Document)}
    (h : rows.mapM (fun (words, _, value) => words.map fun words => (words, value)) =
      some members) : ofMembers rows = .record members := by
  simp only [ofMembers, h]

mutual

/-- A node says what the value says that it was read from. -/
theorem document_node (nodes : Anchored Node) (known : Anchored Document) (v : Json) :
    document nodes known v.node = v.document :=
  match v with
  | .null => rfl
  | .bool true => rfl
  | .bool false => rfl
  | .natural n => Scalar.plainValue_natural n
  | .decimal d => Scalar.plainValue_decimal d
  | .string _ => rfl
  | .array items => congrArg Document.list (documents_itemNodes nodes known items)
  | .object members => ofMembers_of_words (mapM_rows nodes known members)

theorem documents_itemNodes (nodes : Anchored Node) (known : Anchored Document)
    (items : List Json) : documents nodes known (itemNodes items) = itemDocuments items :=
  match items with
  | [] => rfl
  | item :: items => by
    rw [itemNodes, documents, document_node nodes known item,
      documents_itemNodes nodes known items, itemDocuments]

theorem mapM_rows (nodes : Anchored Node) (known : Anchored Document)
    (members : List (String × Json)) :
    (rows nodes known (memberNodes members)).mapM
      (fun (words, _, value) => words.map fun words => (words, value)) =
        some (memberDocuments members) :=
  match members with
  | [] => rfl
  | (name, value) :: members => by
    rw [memberNodes, rows, List.mapM_cons, mapM_rows nodes known members,
      document_node nodes known value]
    rfl

end

theorem toDocument_node (v : Json) (depth : Nat) : v.node.toDocument depth = v.document := by
  rw [toDocument, document_node]

/-! ## Counting aliases -/

/-- A way of counting that finds nothing in the nodes of values. -/
def CountsNone (count : Node → Nat) : Prop := ∀ v : Json, count v.node = 0

theorem countsNone_scalar (nodes : Anchored Node) : CountsNone (aliasesInScalar nodes) := by
  intro v
  cases v <;> rfl

theorem countsNone_list (nodes : Anchored Node) {inItem : Node → Nat} (h : CountsNone inItem) :
    CountsNone (aliasesInList nodes inItem) := by
  have hitems (items : List Json) (start : Nat) :
      (itemNodes items).foldl (fun count item => count + inItem item) start = start := by
    induction items with
    | nil => rfl
    | cons item items ih => rw [itemNodes, List.foldl_cons, h item, Nat.add_zero, ih]
  intro v
  cases v with
  | array items => exact hitems items 0
  | _ => rfl

theorem countsNone_record (nodes : Anchored Node) {inValues : List (String × (Node → Nat))}
    (h : ∀ inValue ∈ inValues, CountsNone inValue.2) :
    CountsNone (aliasesInRecord nodes inValues) := by
  have hmember (name : String) (value : Json) :
      aliasesInMember nodes inValues (.scalar {} ⟨.doubleQuoted, name⟩, value.node) = 0 := by
    cases hlookup : inValues.lookup name with
    | none => simp [aliasesInMember, aliasesInScalar, countThrough, words?, hlookup]
    | some inValue =>
      obtain ⟨before, after, rfl, _⟩ := List.lookup_eq_some_iff.mp hlookup
      have hvalue : inValue value.node = 0 := h (name, inValue) (by simp) value
      simp [aliasesInMember, aliasesInScalar, countThrough, words?, hlookup, hvalue]
  have hmembers (members : List (String × Json)) (start : Nat) :
      (memberNodes members).foldl
        (fun count member => count + aliasesInMember nodes inValues member) start = start := by
    induction members with
    | nil => rfl
    | cons member members ih =>
      rw [memberNodes, List.foldl_cons, hmember, Nat.add_zero, ih]
  intro v
  cases v with
  | object members => exact hmembers members 0
  | _ => rfl

end Node
end Chip8
