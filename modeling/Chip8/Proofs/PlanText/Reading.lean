import Chip8.Proofs.Json.Nodes
import Chip8.RunPlan.Reader

/-!
# Reading plans from JSON texts

What a JSON value says as a plan is a relation between the two (`Json.SaysPlan`), built from one
relation for each kind of value.  Each reader of the parts of a plan accepts the values that say
something, and gives what they say (`RunPlan.Reader.Reads`).  So a text is read as a plan if its value
says one and all its names are short enough (`RunPlan.ofText_eq_ok`).
-/

namespace Chip8

namespace Json

/-! ## What values say -/

/-- An object has a member with a name, and its value says something. -/
def Requires {α : Type} (members : List (String × Json)) (name : String)
    (Says : Json → α → Prop) (a : α) : Prop :=
  ∃ value, (name, value) ∈ members ∧ Says value a

/-- An object has no member with a name, and something is meant by default, or the value of the
member says it. -/
def Allows {α : Type} (members : List (String × Json)) (name : String)
    (Says : Json → α → Prop) (default a : α) : Prop :=
  Requires members name Says a ∨ (name ∉ members.map Prod.fst ∧ a = default)

/-- A whole number of 64 bits. -/
def SaysWord (v : Json) (n : Nat) : Prop := v = .natural n ∧ n < 0x10000000000000000

/-- Null, which says that there is no value, or what says a value. -/
def SaysOrNull {α : Type} (Says : Json → α → Prop) (v : Json) : Option α → Prop
  | none => v = .null
  | some a => v ≠ .null ∧ Says v a

def SaysFlag (v : Json) (value : Bool) : Prop := v = .bool value

/-- A whole number below sixteen. -/
def SaysKey (v : Json) (key : Key) : Prop := v = .natural key.val

/-- A list of values each of which says something. -/
def SaysEach {α : Type} (Says : Json → α → Prop) (v : Json) (as : List α) : Prop :=
  ∃ items, v = .array items ∧ List.Forall₂ Says items as

def SaysSettings (v : Json) (settings : Settings) : Prop :=
  ∃ members, v = .object members ∧
    Allows members "clock_frequency" (SaysOrNull SaysWord) none settings.clock ∧
    Allows members "history_capacity" SaysWord 2500 settings.historyCapacity ∧
    Allows members "rng_seed" (SaysOrNull SaysWord) none settings.seed

def SaysKeyChange (v : Json) (change : KeyChange) : Prop :=
  ∃ members, v = .object members ∧
    Requires members "frame" SaysWord change.frame ∧
    Requires members "key" SaysKey change.key ∧
    Allows members "pressed" SaysFlag true change.down

def SaysPlan (v : Json) (plan : RunPlan) : Prop :=
  ∃ members, v = .object members ∧
    Allows members "vm" SaysSettings ⟨none, 2500, none⟩ plan.settings ∧
    Allows members "frames" SaysWord 600 plan.frames ∧
    Allows members "throttle" SaysFlag false plan.throttle ∧
    Allows members "keys" (SaysEach SaysKeyChange) [] plan.keys

end Json

namespace RunPlan

open Json

/-! ## Readers -/

theorem bind_eq_ok {α β : Type} {x : Except PlanError α} {f : α → Except PlanError β} {b : β} :
    (x >>= f) = .ok b ↔ ∃ a, x = .ok a ∧ f a = .ok b := by
  cases x with
  | error e =>
    constructor
    · intro h
      cases h
    · rintro ⟨a, h, _⟩
      cases h
  | ok a =>
    constructor
    · intro h
      exact ⟨a, rfl, h⟩
    · rintro ⟨a', h, hb⟩
      cases h
      exact hb

namespace Reader

/-- A reader gives what values say, and accepts no other values. -/
def Reads {α : Type} (read : Reader α) (Says : Json → α → Prop) : Prop :=
  ∀ (v : Json), v.Distinct → ∀ (place : String) (a : α), read place v.document = .ok a ↔ Says v a

theorem ofOption_eq_ok {α : Type} {expected place : String} {read : Document → Option α}
    {document : Document} {a : α} :
    ofOption expected read place document = .ok a ↔ read document = some a := by
  rw [ofOption]
  cases read document <;> simp

/-- Only a whole number is below a limit. -/
theorem below?_document (v : Json) (limit a : Nat) :
    v.document.below? limit = some a ↔ v = .natural a ∧ a < limit := by
  cases v with
  | natural n =>
    by_cases hn : n < limit
    · simp only [document, Document.below?, Document.untagged, if_pos hn, Option.some.injEq,
        Json.natural.injEq]
      constructor
      · rintro rfl
        exact ⟨rfl, hn⟩
      · exact And.left
    · simp only [document, Document.below?, Document.untagged, if_neg hn, Json.natural.injEq]
      constructor
      · intro h
        cases h
      · rintro ⟨rfl, h⟩
        exact absurd h hn
  | _ => simp [document, Document.below?, Document.untagged]

theorem reads_word : Reads word SaysWord := by
  intro v _ place a
  rw [word, ofOption_eq_ok, below?_document]
  rfl

theorem reads_flag : Reads flag SaysFlag := by
  intro v _ place a
  rw [flag, ofOption_eq_ok]
  cases v <;> simp [document, Document.flag?, Document.untagged, SaysFlag]

theorem reads_key : Reads key SaysKey := by
  intro v _ place a
  rw [key, ofOption_eq_ok]
  cases hbelow : v.document.below? 16 with
  | none =>
    constructor
    · intro h
      cases h
    · intro h
      have hsome := (below?_document v 16 a.val).mpr ⟨h, a.isLt⟩
      rw [hbelow] at hsome
      cases hsome
  | some code =>
    rcases (below?_document v 16 code).mp hbelow with ⟨rfl, hcode⟩
    simp only [Key.ofNat, dif_pos hcode, Except.toOption, Option.some.injEq, SaysKey,
      Json.natural.injEq]
    exact Fin.ext_iff

theorem reads_orNull {α : Type} {read : Reader α} {Says : Json → α → Prop} (h : Reads read Says) :
    Reads read.orNull (SaysOrNull Says) := by
  intro v hv place a
  have hread := h v hv place
  have hnotNull (hne : v ≠ .null) : read.orNull place v.document =
      (read place v.document).map some := by
    cases v <;> first | rfl | exact absurd rfl hne
  by_cases hnull : v = .null
  · subst hnull
    cases a with
    | none => simp [orNull, document, SaysOrNull]
    | some a => simp [orNull, document, SaysOrNull]
  · rw [hnotNull hnull]
    cases a with
    | none => cases read place v.document <;> simp [Except.map, SaysOrNull, hnull]
    | some a =>
      rw [SaysOrNull, ← hread a]
      cases read place v.document <;> simp [Except.map, hnull]

theorem mapM_documents {α : Type} {read : Reader α} {Says : Json → α → Prop} (h : Reads read Says)
    (items : List Json) (hitems : DistinctItems items) (place : String) (as : List α) :
    (itemDocuments items).mapM (read place) = .ok as ↔ List.Forall₂ Says items as := by
  induction items generalizing as with
  | nil =>
    rw [itemDocuments, List.mapM_nil, List.forall₂_nil_left_iff]
    constructor
    · intro has
      cases has
      rfl
    · rintro rfl
      rfl
  | cons item items ih =>
    rcases hitems with ⟨hitem, hitems⟩
    rw [itemDocuments, List.mapM_cons, List.forall₂_cons_left_iff, bind_eq_ok]
    constructor
    · rintro ⟨a, ha, hrest⟩
      rcases bind_eq_ok.mp hrest with ⟨bs, hbs, heq⟩
      cases heq
      exact ⟨a, bs, (h item hitem place a).mp ha, (ih hitems bs).mp hbs, rfl⟩
    · rintro ⟨a, bs, ha, hbs, rfl⟩
      exact ⟨a, (h item hitem place a).mpr ha, bind_eq_ok.mpr ⟨bs, (ih hitems bs).mpr hbs, rfl⟩⟩

theorem reads_each {α : Type} {read : Reader α} {Says : Json → α → Prop} (h : Reads read Says) :
    Reads read.each (SaysEach Says) := by
  intro v hv place as
  have hother (hne : ∀ items, v ≠ .array items) :
      read.each place v.document = .ok as ↔ SaysEach Says v as := by
    have hitems : v.document.items? = none := by
      cases v <;> first | rfl | exact absurd rfl (hne _)
    rw [each, hitems]
    constructor
    · intro h
      cases h
    · rintro ⟨items, rfl, _⟩
      exact absurd rfl (hne items)
  cases v with
  | array items =>
    have hitems : (Json.array items).document.items? = some (itemDocuments items) := rfl
    rw [each, hitems]
    refine (mapM_documents h items hv place as).trans ⟨fun has => ⟨items, rfl, has⟩, ?_⟩
    rintro ⟨_, heq, has⟩
    cases heq
    exact has
  | _ => exact hother nofun

/-! ## Members -/

theorem named_of_notMem {members : List (String × Json)} {name : String}
    (h : name ∉ members.map Prod.fst) : Document.named name (memberDocuments members) = [] := by
  induction members with
  | nil => rfl
  | cons member members ih =>
    simp only [List.map_cons, List.mem_cons, not_or] at h
    have hne : (member.1 == name) = false := by simpa using Ne.symm h.1
    have hrest := ih h.2
    rw [Document.named] at hrest ⊢
    rw [memberDocuments, List.filter_cons, hne]
    exact hrest

theorem named_of_mem {members : List (String × Json)} (hnames : (members.map Prod.fst).Nodup)
    {name : String} {value : Json} (h : (name, value) ∈ members) :
    Document.named name (memberDocuments members) = [value.document] := by
  induction members with
  | nil => cases h
  | cons member members ih =>
    rw [List.map_cons, List.nodup_cons] at hnames
    rcases List.mem_cons.mp h with rfl | hrest
    · have hnone := named_of_notMem hnames.1
      rw [Document.named] at hnone ⊢
      rw [memberDocuments, List.filter_cons, beq_self_eq_true, if_pos rfl, List.map_cons, hnone]
    · have hne : (member.1 == name) = false := by
        rw [beq_eq_false_iff_ne]
        rintro rfl
        exact hnames.1 (List.mem_map.mpr ⟨(_, value), hrest, rfl⟩)
      have hvalue := ih hnames.2 hrest
      rw [Document.named] at hvalue ⊢
      rw [memberDocuments, List.filter_cons, hne]
      exact hvalue

theorem distinct_of_mem {members : List (String × Json)} (h : DistinctMembers members)
    {name : String} {value : Json} (hmem : (name, value) ∈ members) : value.Distinct := by
  induction members with
  | nil => cases hmem
  | cons member members ih =>
    rcases List.mem_cons.mp hmem with rfl | hrest
    · exact h.1
    · exact ih h.2 hrest

section

variable {α : Type} {read : Reader α} {Says : Json → α → Prop} {ms : List (String × Json)}
  {name : String} {value : Json}

theorem required_of_mem (h : Reads read Says) (hms : (Json.object ms).Distinct)
    (hmem : (name, value) ∈ ms) (a : α) :
    required read name (memberDocuments ms) = .ok a ↔ Says value a := by
  rw [required, member?, named_of_mem hms.1 hmem]
  exact h value (distinct_of_mem hms.2 hmem) name a

theorem withDefault_of_mem (h : Reads read Says) (hms : (Json.object ms).Distinct)
    (hmem : (name, value) ∈ ms) (default a : α) :
    withDefault read name default (memberDocuments ms) = .ok a ↔ Says value a := by
  rw [withDefault, member?, named_of_mem hms.1 hmem]
  exact h value (distinct_of_mem hms.2 hmem) name a

theorem required_eq_ok (h : Reads read Says) (hms : (Json.object ms).Distinct) (a : α) :
    required read name (memberDocuments ms) = .ok a ↔ Requires ms name Says a := by
  constructor
  · intro hread
    by_cases hname : name ∈ ms.map Prod.fst
    · rcases List.mem_map.mp hname with ⟨⟨_, value⟩, hmem, rfl⟩
      exact ⟨value, hmem, (required_of_mem h hms hmem a).mp hread⟩
    · rw [required, member?, named_of_notMem hname] at hread
      cases hread
  · rintro ⟨value, hmem, hvalue⟩
    exact (required_of_mem h hms hmem a).mpr hvalue

theorem withDefault_eq_ok (h : Reads read Says) (hms : (Json.object ms).Distinct) (default a : α) :
    withDefault read name default (memberDocuments ms) = .ok a ↔ Allows ms name Says default a := by
  constructor
  · intro hread
    by_cases hname : name ∈ ms.map Prod.fst
    · rcases List.mem_map.mp hname with ⟨⟨_, value⟩, hmem, rfl⟩
      exact .inl ⟨value, hmem, (withDefault_of_mem h hms hmem default a).mp hread⟩
    · rw [withDefault, member?, named_of_notMem hname] at hread
      cases hread
      exact .inr ⟨hname, rfl⟩
  · rintro (⟨value, hmem, hvalue⟩ | ⟨hname, rfl⟩)
    · exact (withDefault_of_mem h hms hmem default a).mpr hvalue
    · rw [withDefault, member?, named_of_notMem hname]
      rfl

end

/-- Only an object has members to read. -/
theorem members_bind_eq_ok {α : Type} {v : Json} {place : String}
    {read : List (String × Document) → Except PlanError α} {a : α} :
    (members place v.document >>= read) = .ok a ↔
      ∃ ms, v = .object ms ∧ read (memberDocuments ms) = .ok a := by
  rw [bind_eq_ok]
  constructor
  · rintro ⟨fields, hfields, ha⟩
    rw [members, ofOption_eq_ok] at hfields
    cases v with
    | object ms =>
      cases hfields
      exact ⟨ms, rfl, ha⟩
    | _ => cases hfields
  · rintro ⟨ms, rfl, ha⟩
    exact ⟨memberDocuments ms, rfl, ha⟩

/-! ## Parts of a plan -/

theorem reads_settings : Reads settings SaysSettings := by
  intro v hv place s
  rw [settings, members_bind_eq_ok]
  refine exists_congr fun ms => and_congr_right fun hobject => ?_
  rw [hobject] at hv
  simp only [bind_eq_ok, withDefault_eq_ok (reads_orNull reads_word) hv,
    withDefault_eq_ok reads_word hv]
  constructor
  · rintro ⟨clock, hclock, capacity, hcapacity, seed, hseed, hs⟩
    cases hs
    exact ⟨hclock, hcapacity, hseed⟩
  · rintro ⟨hclock, hcapacity, hseed⟩
    exact ⟨_, hclock, _, hcapacity, _, hseed, rfl⟩

theorem reads_keyChange : Reads keyChange SaysKeyChange := by
  intro v hv place change
  rw [keyChange, members_bind_eq_ok]
  refine exists_congr fun ms => and_congr_right fun hobject => ?_
  rw [hobject] at hv
  simp only [bind_eq_ok, required_eq_ok reads_word hv, required_eq_ok reads_key hv,
    withDefault_eq_ok reads_flag hv]
  constructor
  · rintro ⟨frame, hframe, key, hkey, down, hdown, hchange⟩
    cases hchange
    exact ⟨hframe, hkey, hdown⟩
  · rintro ⟨hframe, hkey, hdown⟩
    exact ⟨_, hframe, _, hkey, _, hdown, rfl⟩

end Reader

theorem ofDocument_eq_ok {v : Json} (hv : v.Distinct) (plan : RunPlan) :
    ofDocument v.document = .ok plan ↔ v.SaysPlan plan := by
  rw [ofDocument, Reader.members_bind_eq_ok]
  refine exists_congr fun ms => and_congr_right fun hobject => ?_
  rw [hobject] at hv
  simp only [bind_eq_ok, Reader.withDefault_eq_ok Reader.reads_settings hv,
    Reader.withDefault_eq_ok Reader.reads_word hv, Reader.withDefault_eq_ok Reader.reads_flag hv,
    Reader.withDefault_eq_ok (Reader.reads_each Reader.reads_keyChange) hv]
  constructor
  · rintro ⟨settings, hsettings, frames, hframes, throttle, hthrottle, keys, hkeys, hplan⟩
    cases hplan
    exact ⟨hsettings, hframes, hthrottle, hkeys⟩
  · rintro ⟨hsettings, hframes, hthrottle, hkeys⟩
    exact ⟨_, hsettings, _, hframes, _, hthrottle, _, hkeys, rfl⟩

/-! ## Texts -/

theorem aliasCount_node (v : Json) : aliasCount v.node = 0 := by
  have hscalar := Node.countsNone_scalar v.node.anchored
  have hparts (a b c : String) : Node.CountsNone (Node.aliasesInRecord v.node.anchored
      [(a, Node.aliasesInScalar v.node.anchored), (b, Node.aliasesInScalar v.node.anchored),
       (c, Node.aliasesInScalar v.node.anchored)]) := by
    refine Node.countsNone_record _ fun inValue hmem => ?_
    simp only [List.mem_cons, List.not_mem_nil, or_false] at hmem
    rcases hmem with rfl | rfl | rfl <;> exact hscalar
  refine Node.countsNone_record _ (fun inValue hmem => ?_) v
  simp only [List.mem_cons, List.not_mem_nil, or_false] at hmem
  rcases hmem with rfl | rfl | rfl | rfl
  · exact hparts _ _ _
  · exact hscalar
  · exact hscalar
  · exact Node.countsNone_list _ (hparts _ _ _)

/-- A JSON text is a document if all its names are short enough, and is read as what its value
says. -/
theorem ofText_json (v : Json) :
    ofText v.text = if v.namesFit then ofDocument v.document else .error .unreadable := by
  rw [ofText, Node.ofText?_json]
  cases v.namesFit with
  | false => rfl
  | true => simp [aliasCount_node, Node.toDocument_node]

theorem ofText_eq_ok {v : Json} (hv : v.Distinct) (plan : RunPlan) :
    ofText v.text = .ok plan ↔ v.namesFit = true ∧ v.SaysPlan plan := by
  rw [ofText_json]
  cases hfit : v.namesFit with
  | false => simp
  | true => simpa using ofDocument_eq_ok hv plan

end RunPlan

end Chip8
