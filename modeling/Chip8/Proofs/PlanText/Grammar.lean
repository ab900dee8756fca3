import Mathlib.Data.List.Nodup
import Chip8.Proofs.PlanText.Reading

/-!
# The grammar of plans

Which JSON texts are plans, and what they say.  What counts is only which members an object has, so
neither the order of the members matters nor those with names that a plan does not know
(`Json.SamePlan`).  And everything has to be right at once: one bad part of one key change makes a
text no plan (`Json.Garbled`).
-/

namespace Chip8

/-! ## Order and unknown members -/

namespace Json

/-- A member is in both of two objects, with values that are the same for some purpose, or in none
of them. -/
def SameMember (Same : Json → Json → Prop) (ms ns : List (String × Json)) (name : String) : Prop :=
  (∀ v, (name, v) ∈ ms → ∃ w, (name, w) ∈ ns ∧ Same v w) ∧
    ∀ w, (name, w) ∈ ns → ∃ v, (name, v) ∈ ms ∧ Same v w

/-- Two values are equal or objects with the same settings. -/
def SameSettings (v w : Json) : Prop :=
  v = w ∨ ∃ ms ns, v = .object ms ∧ w = .object ns ∧
    ∀ name ∈ ["clock_frequency", "history_capacity", "rng_seed"], SameMember Eq ms ns name

/-- Two values are equal or objects with the same parts of a key change. -/
def SameKeyChange (v w : Json) : Prop :=
  v = w ∨ ∃ ms ns, v = .object ms ∧ w = .object ns ∧
    ∀ name ∈ ["frame", "key", "pressed"], SameMember Eq ms ns name

/-- Two values are equal or lists of key changes that are the same one by one. -/
def SameKeys (v w : Json) : Prop :=
  v = w ∨ ∃ items items', v = .array items ∧ w = .array items' ∧
    List.Forall₂ SameKeyChange items items'

/-- Two values are equal or objects with the same parts of a plan.  They may differ in the order of
their members and in those with other names, and so may the objects in them. -/
def SamePlan (v w : Json) : Prop :=
  v = w ∨ ∃ ms ns, v = .object ms ∧ w = .object ns ∧
    SameMember SameSettings ms ns "vm" ∧ SameMember Eq ms ns "frames" ∧
    SameMember Eq ms ns "throttle" ∧ SameMember SameKeys ms ns "keys"

theorem sameMember_of_perm {ms ns : List (String × Json)} {known : List String}
    (h : (ms.filter (·.1 ∈ known)).Perm (ns.filter (·.1 ∈ known))) {name : String}
    (hname : name ∈ known) : SameMember Eq ms ns name := by
  have hmem (v : Json) : (name, v) ∈ ms ↔ (name, v) ∈ ns := by
    simpa [List.mem_filter, hname] using h.mem_iff (a := (name, v))
  exact ⟨fun v hv => ⟨v, (hmem v).mp hv, rfl⟩, fun w hw => ⟨w, (hmem w).mpr hw, rfl⟩⟩

theorem SameMember.mono {Same Same' : Json → Json → Prop} {ms ns : List (String × Json)}
    {name : String} (h : SameMember Same ms ns name) (hsame : ∀ v w, Same v w → Same' v w) :
    SameMember Same' ms ns name := by
  refine ⟨fun v hv => ?_, fun w hw => ?_⟩
  · rcases h.1 v hv with ⟨w, hw, hvw⟩
    exact ⟨w, hw, hsame v w hvw⟩
  · rcases h.2 w hw with ⟨v, hv, hvw⟩
    exact ⟨v, hv, hsame v w hvw⟩

/-- Two objects are the same plan if their known members are the same up to the order. -/
theorem samePlan_of_perm {ms ns : List (String × Json)}
    (h : (ms.filter (·.1 ∈ ["vm", "frames", "throttle", "keys"])).Perm
      (ns.filter (·.1 ∈ ["vm", "frames", "throttle", "keys"]))) :
    SamePlan (.object ms) (.object ns) := by
  refine .inr ⟨ms, ns, rfl, rfl, ?_, ?_, ?_, ?_⟩
  · exact (sameMember_of_perm h (by decide)).mono fun _ _ => .inl
  · exact sameMember_of_perm h (by decide)
  · exact sameMember_of_perm h (by decide)
  · exact (sameMember_of_perm h (by decide)).mono fun _ _ => .inl

section

variable {α : Type} {Same : Json → Json → Prop} {Says : Json → α → Prop}
  {ms ns : List (String × Json)} {name : String}

theorem SameMember.mem_names (h : SameMember Same ms ns name) :
    name ∈ ms.map Prod.fst ↔ name ∈ ns.map Prod.fst := by
  constructor
  · intro hname
    rcases List.mem_map.mp hname with ⟨⟨_, v⟩, hv, rfl⟩
    rcases h.1 v hv with ⟨w, hw, _⟩
    exact List.mem_map.mpr ⟨(_, w), hw, rfl⟩
  · intro hname
    rcases List.mem_map.mp hname with ⟨⟨_, w⟩, hw, rfl⟩
    rcases h.2 w hw with ⟨v, hv, _⟩
    exact List.mem_map.mpr ⟨(_, v), hv, rfl⟩

theorem SameMember.requires_iff (h : SameMember Same ms ns name)
    (hagree : ∀ v w, Same v w → ∀ a, Says v a ↔ Says w a) (a : α) :
    Requires ms name Says a ↔ Requires ns name Says a := by
  constructor
  · rintro ⟨v, hv, ha⟩
    rcases h.1 v hv with ⟨w, hw, hsame⟩
    exact ⟨w, hw, (hagree v w hsame a).mp ha⟩
  · rintro ⟨w, hw, ha⟩
    rcases h.2 w hw with ⟨v, hv, hsame⟩
    exact ⟨v, hv, (hagree v w hsame a).mpr ha⟩

theorem SameMember.allows_iff (h : SameMember Same ms ns name)
    (hagree : ∀ v w, Same v w → ∀ a, Says v a ↔ Says w a) (default a : α) :
    Allows ms name Says default a ↔ Allows ns name Says default a := by
  rw [Allows, Allows, h.requires_iff hagree, h.mem_names]

theorem says_iff_of_eq (v w : Json) (h : v = w) (a : α) : Says v a ↔ Says w a := by
  rw [h]

end

theorem SameSettings.says_iff (v w : Json) (h : SameSettings v w) (settings : Settings) :
    SaysSettings v settings ↔ SaysSettings w settings := by
  rcases h with rfl | ⟨ms, ns, rfl, rfl, hsame⟩
  · rfl
  · simp only [List.forall_mem_cons] at hsame
    rcases hsame with ⟨hclock, hcapacity, hseed, _⟩
    simp only [SaysSettings, Json.object.injEq, exists_eq_left', hclock.allows_iff says_iff_of_eq,
      hcapacity.allows_iff says_iff_of_eq, hseed.allows_iff says_iff_of_eq]

theorem SameKeyChange.says_iff (v w : Json) (h : SameKeyChange v w) (change : KeyChange) :
    SaysKeyChange v change ↔ SaysKeyChange w change := by
  rcases h with rfl | ⟨ms, ns, rfl, rfl, hsame⟩
  · rfl
  · simp only [List.forall_mem_cons] at hsame
    rcases hsame with ⟨hframe, hkey, hpressed, _⟩
    simp only [SaysKeyChange, Json.object.injEq, exists_eq_left',
      hframe.requires_iff says_iff_of_eq, hkey.requires_iff says_iff_of_eq,
      hpressed.allows_iff says_iff_of_eq]

theorem SameKeys.says_iff (v w : Json) (h : SameKeys v w) (keys : List KeyChange) :
    SaysEach SaysKeyChange v keys ↔ SaysEach SaysKeyChange w keys := by
  rcases h with rfl | ⟨items, items', rfl, rfl, hsame⟩
  · rfl
  · have hitems : List.Forall₂ SaysKeyChange items keys ↔
        List.Forall₂ SaysKeyChange items' keys := by
      induction hsame generalizing keys with
      | nil => rfl
      | cons hitem _ ih =>
        cases keys with
        | nil => simp
        | cons change keys =>
          rw [List.forall₂_cons, List.forall₂_cons, hitem.says_iff, ih]
    simp only [SaysEach, Json.array.injEq, exists_eq_left', hitems]

theorem SamePlan.says_iff {v w : Json} (h : SamePlan v w) (plan : RunPlan) :
    SaysPlan v plan ↔ SaysPlan w plan := by
  rcases h with rfl | ⟨ms, ns, rfl, rfl, hsettings, hframes, hthrottle, hkeys⟩
  · rfl
  · simp only [SaysPlan, Json.object.injEq, exists_eq_left',
      hsettings.allows_iff SameSettings.says_iff, hframes.allows_iff says_iff_of_eq,
      hthrottle.allows_iff says_iff_of_eq, hkeys.allows_iff SameKeys.says_iff]

/-! ## Refused key changes -/

/-- Some part of a key change is there and says nothing that it could say. -/
def Garbled (fields : List (String × Json)) : Prop :=
  (∃ value, ("frame", value) ∈ fields ∧ ∀ n, ¬ SaysWord value n) ∨
    (∃ value, ("key", value) ∈ fields ∧ ∀ key, ¬ SaysKey value key) ∨
    ∃ value, ("pressed", value) ∈ fields ∧ ∀ down, ¬ SaysFlag value down

theorem eq_of_mem {ms : List (String × Json)} (hms : (Json.object ms).Distinct) {name : String}
    {v w : Json} (hv : (name, v) ∈ ms) (hw : (name, w) ∈ ms) : v = w :=
  congrArg Prod.snd (List.inj_on_of_nodup_map hms.1 hv hw rfl)

theorem Requires.of_mem {α : Type} {ms : List (String × Json)} (hms : (Json.object ms).Distinct)
    {name : String} {v : Json} (hv : (name, v) ∈ ms) {Says : Json → α → Prop} {a : α}
    (h : Requires ms name Says a) : Says v a := by
  rcases h with ⟨w, hw, ha⟩
  rwa [eq_of_mem hms hv hw]

theorem Allows.of_mem {α : Type} {ms : List (String × Json)} (hms : (Json.object ms).Distinct)
    {name : String} {v : Json} (hv : (name, v) ∈ ms) {Says : Json → α → Prop} {default a : α}
    (h : Allows ms name Says default a) : Says v a := by
  rcases h with h | ⟨hname, _⟩
  · exact h.of_mem hms hv
  · exact absurd (List.mem_map.mpr ⟨(name, v), hv, rfl⟩) hname

theorem not_saysKeyChange_of_garbled {fields : List (String × Json)}
    (hfields : (Json.object fields).Distinct) (h : Garbled fields) (change : KeyChange) :
    ¬ SaysKeyChange (.object fields) change := by
  rintro ⟨_, heq, hframe, hkey, hpressed⟩
  cases heq
  rcases h with ⟨value, hvalue, hnone⟩ | ⟨value, hvalue, hnone⟩ | ⟨value, hvalue, hnone⟩
  · exact hnone _ (hframe.of_mem hfields hvalue)
  · exact hnone _ (hkey.of_mem hfields hvalue)
  · exact hnone _ (hpressed.of_mem hfields hvalue)

theorem distinct_of_mem_items {items : List Json} (h : DistinctItems items) {item : Json}
    (hmem : item ∈ items) : item.Distinct := by
  induction items with
  | nil => cases hmem
  | cons first items ih =>
    rcases List.mem_cons.mp hmem with rfl | hrest
    · exact h.1
    · exact ih h.2 hrest

theorem exists_of_mem_left {α β : Type} {R : α → β → Prop} {as : List α} {bs : List β}
    (h : List.Forall₂ R as bs) {a : α} (ha : a ∈ as) : ∃ b, R a b := by
  induction h with
  | nil => cases ha
  | cons hfirst _ ih =>
    rcases List.mem_cons.mp ha with rfl | hrest
    · exact ⟨_, hfirst⟩
    · exact ih hrest

/-- An object whose key changes hold a garbled one says no plan. -/
theorem not_saysPlan_of_garbled {ms : List (String × Json)} (hms : (Json.object ms).Distinct)
    {items : List Json} (hkeys : ("keys", .array items) ∈ ms) {fields : List (String × Json)}
    (hitem : .object fields ∈ items) (h : Garbled fields) (plan : RunPlan) :
    ¬ SaysPlan (.object ms) plan := by
  rintro ⟨_, heq, _, _, _, hplan⟩
  cases heq
  rcases hplan.of_mem hms hkeys with ⟨_, heq, hchanges⟩
  cases heq
  have hitems : DistinctItems items := RunPlan.Reader.distinct_of_mem hms.2 hkeys
  rcases exists_of_mem_left hchanges hitem with ⟨change, hchange⟩
  exact not_saysKeyChange_of_garbled (distinct_of_mem_items hitems hitem) h change hchange

end Json

/-! ## The grammar -/

namespace RunPlan

open Json

/-- A JSON text is read as the plan that its value says, if it says one and each of its names takes at
most 1024 bytes in the text.  What is read does not depend on the order of members or on unknown ones,
and one garbled key change makes a text no plan. -/
theorem ofText_accepts_grammar {v : Json} (hv : v.Distinct) :
    (∀ plan, ofText v.text = .ok plan ↔ v.namesFit = true ∧ v.SaysPlan plan) ∧
    (∀ w : Json, w.Distinct → w.namesFit = v.namesFit → v.SamePlan w →
      ∀ plan, ofText v.text = .ok plan ↔ ofText w.text = .ok plan) ∧
    ∀ ms items fields, v = .object ms → ("keys", .array items) ∈ ms → .object fields ∈ items →
      Garbled fields → ∀ plan, ofText v.text ≠ .ok plan := by
  refine ⟨ofText_eq_ok hv, ?_, ?_⟩
  · intro w hw hnames hsame plan
    rw [ofText_eq_ok hv, ofText_eq_ok hw, hnames, hsame.says_iff]
  · rintro ms items fields rfl hkeys hitem hgarbled plan hplan
    exact not_saysPlan_of_garbled hv hkeys hitem hgarbled plan ((ofText_eq_ok hv plan).mp hplan).2

/-- A plan that gives a clock, a seed, a number of frames and two key changes. -/
def sample : Json :=
  .object [
    ("vm", .object [("clock_frequency", .natural 1200), ("rng_seed", .natural 7)]),
    ("frames", .natural 30),
    ("keys", .array [
      .object [("frame", .natural 2), ("key", .natural 10)],
      .object [("frame", .natural 4), ("key", .natural 10), ("pressed", .bool false)]])]

theorem ofText_sample : sample.Distinct ∧
    ofText sample.text = .ok ⟨⟨some 1200, 2500, some 7⟩, 30, false,
      [⟨2, 10, true⟩, ⟨4, 10, false⟩]⟩ := by
  have hdistinct : sample.Distinct := by
    simp [sample, Distinct, DistinctItems, DistinctMembers]
  have hword (n : Nat) (hn : n < 2 ^ 64) : SaysWord (.natural n) n := ⟨rfl, hn⟩
  have hsettings : SaysSettings
      (.object [("clock_frequency", .natural 1200), ("rng_seed", .natural 7)])
      ⟨some 1200, 2500, some 7⟩ :=
    ⟨_, rfl, .inl ⟨.natural 1200, by simp, nofun, hword 1200 (by decide)⟩, .inr ⟨by simp, rfl⟩,
      .inl ⟨.natural 7, by simp, nofun, hword 7 (by decide)⟩⟩
  have hpress : SaysKeyChange (.object [("frame", .natural 2), ("key", .natural 10)])
      ⟨2, 10, true⟩ :=
    ⟨_, rfl, ⟨_, by simp, hword 2 (by decide)⟩, ⟨.natural 10, by simp, rfl⟩, .inr ⟨by simp, rfl⟩⟩
  have hrelease : SaysKeyChange
      (.object [("frame", .natural 4), ("key", .natural 10), ("pressed", .bool false)])
      ⟨4, 10, false⟩ :=
    ⟨_, rfl, ⟨_, by simp, hword 4 (by decide)⟩, ⟨.natural 10, by simp, rfl⟩,
      .inl ⟨_, by simp, rfl⟩⟩
  refine ⟨hdistinct, ((ofText_accepts_grammar hdistinct).1 _).mpr ⟨by decide, _, rfl, ?_⟩⟩
  exact ⟨.inl ⟨_, by simp, hsettings⟩, .inl ⟨_, by simp, hword 30 (by decide)⟩,
    .inr ⟨by simp, rfl⟩, .inl ⟨_, by simp, _, rfl, .cons hpress (.cons hrelease .nil)⟩⟩

/-- A name of some letters. -/
def lettered (count : Nat) : String := String.ofList (List.replicate count 'k')

/-- The quotes of a name count. -/
theorem nameFits_lettered (count : Nat) :
    nameFits (lettered count) = decide (count + 2 ≤ Candidate.sizeLimit) := by
  have hchar : quotedChar 'k' = ['k'] := by decide
  have hletter : 'k'.utf8Size = 1 := by decide
  have hquote : '"'.utf8Size = 1 := by decide
  have htail (count : Nat) : byteCount (List.replicate count 'k' ++ ['"']) = count + 1 := by
    induction count with
    | zero => rfl
    | succ count ih =>
      rw [List.replicate_succ, List.cons_append, byteCount, ih, hletter, Nat.add_comm]
  have hsize : byteCount (quoted (lettered count)) = count + 2 := by
    rw [quoted, escaped, lettered, String.toList_ofList, List.flatMap_replicate, hchar,
      List.flatten_replicate_singleton, List.cons_append, byteCount, htail, hquote, Nat.add_comm]
  rw [nameFits, hsize, Candidate.sizeLimit]

theorem ne_lettered {name : String} {count : Nat} (h : name.toList.length < count) :
    name ≠ lettered count := by
  rintro rfl
  rw [lettered, String.toList_ofList, List.length_replicate] at h
  exact Nat.lt_irrefl count h

/-- A member that a plan does not know makes a text no plan if its name is too long. -/
theorem ofText_longName : (Json.object [(lettered 1023, .natural 0)]).Distinct ∧
    (Json.object [(lettered 1023, .natural 0)]).SaysPlan {} ∧
    ∀ plan, ofText (Json.object [(lettered 1023, .natural 0)]).text ≠ .ok plan := by
  have hname (name : String) (h : name.toList.length < 1023) :
      name ∉ [(lettered 1023, Json.natural 0)].map Prod.fst :=
    fun hmem => ne_lettered h (List.mem_singleton.mp hmem)
  have hnames : (Json.object [(lettered 1023, .natural 0)]).namesFit = false := by
    rw [namesFit, namesFitMembers, nameFits_lettered]
    rfl
  refine ⟨⟨List.nodup_singleton _, trivial, trivial⟩, ⟨_, rfl, ?_⟩, fun plan => ?_⟩
  · exact ⟨.inr ⟨hname _ (by decide), rfl⟩, .inr ⟨hname _ (by decide), rfl⟩,
      .inr ⟨hname _ (by decide), rfl⟩, .inr ⟨hname _ (by decide), rfl⟩⟩
  · rw [ofText_json, hnames]
    exact nofun

end RunPlan
end Chip8
