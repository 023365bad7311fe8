import BinaryReport.Proofs.Check.Places
import BinaryReport.Proofs.Json.Members
import BinaryReport.Snapshot.Schema

/-!
# Schemas as data

A schema says what a value has to be: which type it is of, which members an object has, what stands for
a member that is missing, what the items of an array are. `Schema.places` lists the places at which a
value is looked at, depth first: a value before its parts, members in the order of the schema, items in
their order. At each place something may be wrong (`Schema.Place.complaint?`).

A check implements a schema if it refuses a value for the first place at which something is wrong, and
if it does not notice that a value is edited where the schema does not care (`Check.Implements`,
`Schema.Edit`). Each building block of checks implements its schema.
-/

namespace BinaryReport

open Check

/-- Whether a member has to be there. -/
inductive Presence where
  /-- It has to be there. -/
  | required
  /-- It may be missing. -/
  | optional
  /-- It may be missing, and then a value stands for it. -/
  | default (value : Json)

mutual

/-- The schema of a value. -/
inductive Schema where
  /-- A string. -/
  | text
  /-- A string that is not empty. -/
  | nonemptyText
  /-- A truth value. -/
  | truth
  /-- One of some strings. -/
  | choice (names : List String)
  /-- A number that keeps some rules. -/
  | number (rules : List NumberRule)
  /-- One of some numbers. -/
  | oneOf (numbers : List Binary64)
  /-- A string of bytes in hexadecimal. -/
  | bytes
  /-- An array of items, with one at least if it must not be empty. -/
  | list (nonempty : Bool) (item : Schema)
  /-- An object with some members. -/
  | record (fields : List Field)

/-- A member of an object. -/
inductive Field where
  /-- A key, with the schema of its value. -/
  | mk (key : String) (presence : Presence) (schema : Schema)

end

/-- The key of a member. -/
def Field.key : Field → String
  | .mk key _ _ => key

namespace Schema

/-! ## Places -/

/-- What a schema expects, as messages name it. -/
def expected : Schema → String
  | text => "string"
  | nonemptyText => "string"
  | truth => "boolean"
  | choice names => Complaint.quotedNames " | " names
  | number _ => "number"
  | oneOf _ => "number"
  | bytes => "string"
  | list _ _ => "array"
  | record _ => "object"

/-- What is wrong with a value, apart from its parts. -/
def complaint? : Schema → Json → Option Complaint
  | text, .string _ => none
  | nonemptyText, .string s => if s.isEmpty then some .emptyText else none
  | truth, .bool _ => none
  | choice names, .string s => if s ∈ names then none else some (.badChoice names s)
  | number rules, .number (.finite q) =>
    (rules.find? fun rule => !rule.holds (.finite q)).map NumberRule.complaint
  | number rules, .number (.infinite negative) =>
    (rules.find? fun rule => !rule.holds (.infinite negative)).map NumberRule.complaint
  | oneOf numbers, .number x => if x ∈ numbers then none else some .noneOf
  | oneOf _, _ => some .noneOf
  | bytes, .string s =>
    if (readHexBytes? s).isSome then none
    else some (.badForm "expected space-separated hex byte pairs")
  | list nonempty _, .array vs => if nonempty && vs.isEmpty then some .emptyArray else none
  | record _, .object _ => none
  | schema, v => some (.mismatch schema.expected v.typeName)

/-- A place at which a value is looked at. -/
structure Place where
  /-- The path to the place. -/
  path : List PathStep
  /-- The schema of what has to be there. -/
  schema : Schema
  /-- What is there, unless it is missing. -/
  value? : Option Json

namespace Place

/-- The place with a step before its path. -/
def under (step : PathStep) (p : Place) : Place := ⟨step :: p.path, p.schema, p.value?⟩

/-- What is wrong at a place. -/
def complaint? (p : Place) : Option Complaint :=
  match p.value? with
  | some v => p.schema.complaint? v
  | none => some (.missing p.schema.expected)

/-- The issue of a place. -/
def issue? (p : Place) : Option Issue := p.complaint?.map fun c => ⟨p.path, c⟩

end Place

mutual

/-- The places at which a value is looked at, depth first. -/
def places : Schema → Json → List Place
  | list nonempty item, v =>
    ⟨[], list nonempty item, some v⟩ ::
      match v with
      | .array vs => vs.zipIdx.flatMap fun (w, n) => (item.places w).map (.under (.index n))
      | _ => []
  | record fields, v =>
    ⟨[], record fields, some v⟩ ::
      match v with
      | .object ms => memberPlaces fields ms
      | _ => []
  | schema, v => [⟨[], schema, some v⟩]

/-- The places in a member of an object. A member that is missing has a place if it has to be there. -/
def fieldPlaces : Field → Members → List Place
  | .mk key presence schema, ms =>
    match Json.lookup key ms, presence with
    | some w, _ => (schema.places w).map (.under (.key key))
    | none, .required => [⟨[.key key], schema, none⟩]
    | none, _ => []

/-- The places in the members of an object. -/
def memberPlaces : List Field → Members → List Place
  | [], _ => []
  | f :: fields, ms => fieldPlaces f ms ++ memberPlaces fields ms

end

/-- The first issue of a value: that of the first place at which something is wrong. -/
def firstIssue? (schema : Schema) (v : Json) : Option Issue :=
  (schema.places v).findSome? Place.issue?

theorem Place.issue?_eq_none_iff {p : Place} : p.issue? = none ↔ p.complaint? = none :=
  Option.map_eq_none_iff

theorem firstIssue?_eq_none_iff {schema : Schema} {v : Json} :
    schema.firstIssue? v = none ↔ ∀ p ∈ schema.places v, p.complaint? = none := by
  simp only [firstIssue?, List.findSome?_eq_none_iff, Place.issue?_eq_none_iff]

/-- The first issue is that of a place in front of which nothing is wrong. -/
theorem firstIssue?_eq_some_iff {schema : Schema} {v : Json} {i : Issue} :
    schema.firstIssue? v = some i ↔
      ∃ before p after c, schema.places v = before ++ p :: after ∧
        (∀ q ∈ before, q.complaint? = none) ∧ p.complaint? = some c ∧ ⟨p.path, c⟩ = i := by
  constructor
  · intro h
    obtain ⟨before, p, after, hplaces, hissue, hbefore⟩ := List.findSome?_eq_some_iff.1 h
    obtain ⟨c, hc, hi⟩ := Option.map_eq_some_iff.1 hissue
    exact ⟨before, p, after, c, hplaces, fun q hq => Place.issue?_eq_none_iff.1 (hbefore q hq), hc, hi⟩
  · rintro ⟨before, p, after, c, hplaces, hbefore, hc, hi⟩
    refine List.findSome?_eq_some_iff.2 ⟨before, p, after, hplaces, ?_, fun q hq => ?_⟩
    · exact Option.map_eq_some_iff.2 ⟨c, hc, hi⟩
    · exact Place.issue?_eq_none_iff.2 (hbefore q hq)

theorem memberPlaces_append (fields fields' : List Field) (ms : Members) :
    memberPlaces (fields ++ fields') ms = memberPlaces fields ms ++ memberPlaces fields' ms := by
  induction fields with
  | nil => rfl
  | cons f fields ih => rw [List.cons_append, memberPlaces, memberPlaces, ih, List.append_assoc]

section Fields

variable {key : String} {schema : Schema} {ms : Members}

theorem fieldPlaces_of_lookup {w : Json} (presence : Presence) (h : Json.lookup key ms = some w) :
    fieldPlaces (.mk key presence schema) ms = (schema.places w).map (.under (.key key)) := by
  simp only [fieldPlaces, h]

theorem fieldPlaces_of_missing {presence : Presence} (h : Json.lookup key ms = none) :
    fieldPlaces (.mk key presence schema) ms =
      match presence with
      | .required => [⟨[.key key], schema, none⟩]
      | _ => [] := by
  cases presence with
  | required | optional | default => simp only [fieldPlaces, h]

end Fields

/-! ## Edits -/

/-- A change of a value at a place where the schema does not care: a member that equals its default is
deleted, or a member that is not listed is added, in the value or in a part of it. -/
inductive Edit : Schema → Json → Json → Prop where
  /-- A member that equals its default is deleted. -/
  | delete {fields : List Field} {ms : Members} {key : String} {default : Json} {schema : Schema}
    (hfield : .mk key (.default default) schema ∈ fields)
    (hvalue : Json.lookup key ms = some default) :
    Edit (record fields) (.object ms) (.object (ms.filter fun m => m.1 ≠ key))
  /-- A member that is not listed is added. -/
  | add {fields : List Field} {before after : Members} {key : String} {w : Json}
    (hunlisted : key ∉ fields.map Field.key) :
    Edit (record fields) (.object (before ++ after)) (.object (before ++ (key, w) :: after))
  /-- A member that is listed is edited. -/
  | member {fields : List Field} {before after : Members} {key : String} {presence : Presence}
    {schema : Schema} {w w' : Json} (hfield : .mk key presence schema ∈ fields)
    (h : Edit schema w w') :
    Edit (record fields) (.object (before ++ (key, w) :: after))
      (.object (before ++ (key, w') :: after))
  /-- An item is edited. -/
  | item {nonempty : Bool} {schema : Schema} {before after : List Json} {w w' : Json}
    (h : Edit schema w w') :
    Edit (list nonempty schema) (.array (before ++ w :: after)) (.array (before ++ w' :: after))

/-- What an edit of an object comes to for a member that is listed. -/
inductive Alike : Field → Members → Members → Prop where
  /-- It is the same. -/
  | same {field : Field} {ms ms' : Members}
    (h : Json.lookup field.key ms' = Json.lookup field.key ms) : Alike field ms ms'
  /-- It was equal to its default and is missing now. -/
  | deleted {key : String} {default : Json} {schema : Schema} {ms ms' : Members}
    (h : Json.lookup key ms = some default) (hmissing : Json.lookup key ms' = none) :
    Alike (.mk key (.default default) schema) ms ms'
  /-- It was edited. -/
  | edited {key : String} {presence : Presence} {schema : Schema} {ms ms' : Members} {w w' : Json}
    (h : Json.lookup key ms = some w) (h' : Json.lookup key ms' = some w') (hedit : Edit schema w w') :
    Alike (.mk key presence schema) ms ms'

theorem eq_of_key_eq {fields : List Field} (hkeys : (fields.map Field.key).Nodup) {f g : Field}
    (hf : f ∈ fields) (hg : g ∈ fields) (h : f.key = g.key) : f = g :=
  List.inj_on_of_nodup_map hkeys hf hg h

theorem lookup_filter_ne {key other : String} (h : other ≠ key) (ms : Members) :
    Json.lookup other (ms.filter fun m => m.1 ≠ key) = Json.lookup other ms := by
  induction ms with
  | nil => rfl
  | cons m ms ih =>
    by_cases hm : m.1 = key
    · rw [List.filter_cons_of_neg (by simpa using hm), ih, Json.lookup_cons,
        if_neg (hm ▸ h.symm)]
    · rw [List.filter_cons_of_pos (by simpa using hm), Json.lookup_cons, Json.lookup_cons, ih]

theorem lookup_filter_self (key : String) (ms : Members) :
    Json.lookup key (ms.filter fun m => m.1 ≠ key) = none := by
  rw [Json.lookup, Option.map_eq_none_iff, List.find?_eq_none]
  intro m hm
  simpa using (List.mem_filter.1 hm).2

/-- A member is found in front of a place, or at it, or behind it. -/
theorem lookup_insert (key other : String) (w : Json) (before after : Members) :
    Json.lookup other (before ++ (key, w) :: after) =
      (Json.lookup other before).or
        (if key = other then some w else Json.lookup other after) := by
  induction before with
  | nil => exact Json.lookup_cons (key, w) after
  | cons m before ih =>
    rw [List.cons_append, Json.lookup_cons, Json.lookup_cons, ih]
    split_ifs <;> rfl

theorem lookup_append (key : String) (before after : Members) :
    Json.lookup key (before ++ after) = (Json.lookup key before).or (Json.lookup key after) := by
  induction before with
  | nil => rfl
  | cons m before ih =>
    rw [List.cons_append, Json.lookup_cons, Json.lookup_cons, ih]
    split_ifs <;> rfl

/-- An edit of an object leaves the members that are listed alike. -/
theorem Edit.alike {fields : List Field} (hkeys : (fields.map Field.key).Nodup) {v v' : Json}
    (h : Edit (record fields) v v') :
    ∃ ms ms', v = .object ms ∧ v' = .object ms' ∧ ∀ f ∈ fields, Alike f ms ms' := by
  cases h with
  | @delete _ ms key default schema hfield hvalue =>
    refine ⟨_, _, rfl, rfl, fun f hf => ?_⟩
    by_cases hkey : f.key = key
    · obtain rfl := eq_of_key_eq hkeys hf hfield hkey
      exact .deleted hvalue (lookup_filter_self key ms)
    · exact .same (lookup_filter_ne hkey ms)
  | @add _ before after key w hunlisted =>
    refine ⟨_, _, rfl, rfl, fun f hf => .same ?_⟩
    have hne : key ≠ f.key := fun heq => hunlisted (heq ▸ List.mem_map_of_mem hf)
    rw [lookup_insert, if_neg hne, lookup_append]
  | @member _ before after key presence schema w w' hfield hedit =>
    refine ⟨_, _, rfl, rfl, fun f hf => ?_⟩
    by_cases hkey : key = f.key
    · obtain rfl := eq_of_key_eq hkeys hfield hf hkey
      cases hbefore : Json.lookup key before with
      | some u =>
        refine .same ?_
        show Json.lookup key _ = Json.lookup key _
        rw [lookup_insert, lookup_insert, hbefore]
        rfl
      | none =>
        refine .edited ?_ ?_ hedit
        · rw [lookup_insert, hbefore, if_pos rfl]
          rfl
        · rw [lookup_insert, hbefore, if_pos rfl]
          rfl
    · refine .same ?_
      rw [lookup_insert, lookup_insert, if_neg hkey, if_neg hkey]

end Schema

end BinaryReport
