import BinaryReport.Proofs.Check.Schema

/-!
# Checks that implement schemas

A check implements a schema if it refuses a value for its first issue, and if it has the same verdict on
a value before and after an edit (`Check.Implements`). The building blocks of checks implement the
schemas that they are written for; a check of objects does if each of its members is read as the schema
says, in the order of the schema (`Check.ReadsMembers`).
-/

namespace BinaryReport

open Schema (Alike Place firstIssue? places fieldPlaces memberPlaces memberPlaces_append)

variable {α β : Type}

/-! ## First issues -/

/-- The issue for which a value is refused, if it is. -/
def Verdict.first? (x : Verdict α) : Option Issue := x.issues.head?

namespace Verdict

theorem first?_map (f : α → β) (x : Verdict α) : (f <$> x).first? = x.first? := by
  rw [first?, issues_map, first?]

theorem first?_seq (f : Verdict (α → β)) (x : Verdict α) :
    (f <*> x).first? = f.first?.or x.first? := by
  rw [first?, issues_seq, List.head?_append, first?, first?]

theorem first?_under (step : PathStep) (x : Verdict α) :
    (x.under step).first? = x.first?.map (Issue.under step) := by
  rw [first?, issues_under, List.head?_map, first?]

end Verdict

namespace Schema

theorem issue?_under (step : PathStep) (p : Place) :
    (p.under step).issue? = p.issue?.map (Issue.under step) := by
  show (p.complaint?.map fun c => (⟨step :: p.path, c⟩ : Issue)) = _
  unfold Place.issue?
  rw [Option.map_map]
  rfl

theorem findSome?_under (step : PathStep) (ps : List Place) :
    (ps.map (Place.under step)).findSome? Place.issue? =
      (ps.findSome? Place.issue?).map (Issue.under step) := by
  induction ps with
  | nil => rfl
  | cons p ps ih =>
    rw [List.map_cons, List.findSome?_cons, List.findSome?_cons, issue?_under, ih]
    cases p.issue? with
    | none => rfl
    | some i => rfl

end Schema

namespace Check

/-- The check refuses a value for its first issue, and does not notice edits. -/
structure Implements (c : Check α) (schema : Schema) : Prop where
  /-- What is expected is called the same. -/
  expected : c.expected = schema.expected
  /-- The value is refused for its first issue, and accepted if it has none. -/
  first : ∀ v, (c.run v).first? = schema.firstIssue? v
  /-- The verdict is the same after an edit. -/
  edit : ∀ {v v'}, schema.Edit v v' → c.run v' = c.run v

/-! ## Leaves -/

theorem firstIssue?_leaf {schema : Schema} {v : Json}
    (h : schema.places v = [⟨[], schema, some v⟩]) :
    schema.firstIssue? v = (schema.complaint? v).map fun c => ⟨[], c⟩ := by
  have hissue : Place.issue? ⟨[], schema, some v⟩ =
      (schema.complaint? v).map fun c => ⟨[], c⟩ := rfl
  rw [firstIssue?, h, List.findSome?_cons, hissue]
  cases schema.complaint? v with
  | none => rfl
  | some c => rfl

/-- A verdict that is about the value itself. -/
theorem first?_of_complaint? {schema : Schema} {v : Json} {x : Verdict α}
    (h : schema.places v = [⟨[], schema, some v⟩])
    (hx : match schema.complaint? v with
      | some c => x = .complain c
      | none => ∃ a, x = .accepted a) : x.first? = schema.firstIssue? v := by
  rw [firstIssue?_leaf h]
  cases hc : schema.complaint? v with
  | none =>
    rw [hc] at hx
    obtain ⟨a, rfl⟩ := hx
    rfl
  | some c =>
    rw [hc] at hx
    obtain rfl := hx
    rfl

theorem implements_anyText : anyText.Implements .text where
  expected := rfl
  first v := by
    refine first?_of_complaint? rfl ?_
    cases v with
    | string s => exact ⟨s, rfl⟩
    | null | bool | number | array | object => rfl
  edit h := by cases h

theorem implements_nonemptyText : nonemptyText.Implements .nonemptyText where
  expected := rfl
  first v := by
    refine first?_of_complaint? rfl ?_
    cases v with
    | string s =>
      show match (if s.isEmpty then some Complaint.emptyText else none) with
        | some c => (if s.isEmpty then Verdict.complain .emptyText else .accepted s) = .complain c
        | none => ∃ a, (if s.isEmpty then Verdict.complain .emptyText else .accepted s) = .accepted a
      split_ifs with hempty
      · rfl
      · exact ⟨s, rfl⟩
    | null | bool | number | array | object => rfl
  edit h := by cases h

theorem implements_bool : bool.Implements .truth where
  expected := rfl
  first v := by
    refine first?_of_complaint? rfl ?_
    cases v with
    | bool b => exact ⟨b, rfl⟩
    | null | number | string | array | object => rfl
  edit h := by cases h

theorem implements_choice (options : List (String × α)) :
    (choice options).Implements (.choice (options.map Prod.fst)) where
  expected := rfl
  first v := by
    refine first?_of_complaint? rfl ?_
    cases v with
    | string s =>
      have hmem : s ∈ options.map Prod.fst ↔ (options.lookup s).isSome = true := by
        rw [List.lookup_isSome_iff, List.mem_map]
        constructor
        · rintro ⟨o, ho, rfl⟩
          exact ⟨o, ho, beq_self_eq_true o.1⟩
        · rintro ⟨o, ho, heq⟩
          exact ⟨o, ho, (beq_iff_eq.1 heq).symm⟩
      unfold choice Schema.complaint?
      dsimp only
      cases hlookup : options.lookup s with
      | some a =>
        rw [if_pos (hmem.2 (by rw [hlookup]; rfl))]
        exact ⟨a, rfl⟩
      | none =>
        rw [if_neg (mt hmem.1 (by rw [hlookup]; nofun))]
    | null | bool | number | array | object => rfl
  edit h := by cases h

/-- One of some values, each by its name. -/
theorem implements_names (all : List α) (name : α → String) :
    (choice (all.map fun a => (name a, a))).Implements (.choice (all.map name)) := by
  have hnames : (all.map fun a => (name a, a)).map Prod.fst = all.map name := by
    rw [List.map_map]
    rfl
  exact hnames ▸ implements_choice (all.map fun a => (name a, a))

theorem first?_judge (rules : List NumberRule) (x : Binary64) :
    (NumberRule.judge rules x).first? =
      ((rules.find? fun rule => !rule.holds x).map NumberRule.complaint).map fun c => ⟨[], c⟩ := by
  unfold NumberRule.judge
  rw [Verdict.first?, Verdict.issues_ofIssues, List.head?_map, List.head?_filter, Option.map_map]
  rfl

theorem implements_number (rules : List NumberRule) : (number rules).Implements (.number rules) where
  expected := rfl
  first v := by
    cases v with
    | number x =>
      cases x with
      | nan => exact first?_of_complaint? rfl rfl
      | finite q =>
        rw [firstIssue?_leaf rfl]
        exact first?_judge rules (.finite q)
      | infinite negative =>
        rw [firstIssue?_leaf rfl]
        exact first?_judge rules (.infinite negative)
    | null | bool | string | array | object => exact first?_of_complaint? rfl rfl
  edit h := by cases h

/-! ## Arrays -/

section Arrays

variable {c : Check α} {schema : Schema}

theorem first?_items (hc : c.Implements schema) (n : Nat) (vs : List Json) :
    (items c n vs).first? =
      ((vs.zipIdx n).flatMap fun (w, n) =>
        (schema.places w).map (.under (.index n))).findSome? Place.issue? := by
  induction vs generalizing n with
  | nil => rfl
  | cons w vs ih =>
    have hitem : ((schema.places w).map (.under (.index n))).findSome? Place.issue? =
        ((c.run w).under (.index n)).first? := by
      rw [Schema.findSome?_under, Verdict.first?_under, hc.first, firstIssue?]
    show (List.cons <$> (c.run w).under (.index n) <*> items c (n + 1) vs).first? = _
    rw [Verdict.first?_seq, Verdict.first?_map, List.zipIdx_cons, List.flatMap_cons,
      List.findSome?_append, hitem, ih]

/-- The verdict on an item is all that counts of it. -/
theorem items_edit {w w' : Json} (h : c.run w' = c.run w) (n : Nat) (before after : List Json) :
    items c n (before ++ w' :: after) = items c n (before ++ w :: after) := by
  induction before generalizing n with
  | nil => rw [List.nil_append, List.nil_append, items, items, h]
  | cons u before ih => rw [List.cons_append, List.cons_append, items, items, ih]

theorem firstIssue?_list {nonempty : Bool} {vs : List Json}
    (h : nonempty = false ∨ vs ≠ []) :
    (Schema.list nonempty schema).firstIssue? (.array vs) =
      (vs.zipIdx.flatMap fun (w, n) =>
        (schema.places w).map (.under (.index n))).findSome? Place.issue? := by
  have hfine : ¬ (nonempty && vs.isEmpty) = true := by
    rw [Bool.and_eq_true, List.isEmpty_iff]
    rintro ⟨rfl, hempty⟩
    exact h.elim nofun fun hne => hne hempty
  have hhere : Place.issue? ⟨[], .list nonempty schema, some (.array vs)⟩ = none := by
    show (if nonempty && vs.isEmpty then some Complaint.emptyArray else none).map _ = none
    rw [if_neg hfine]
    rfl
  rw [firstIssue?, places, List.findSome?_cons, hhere]

theorem implements_array (hc : c.Implements schema) : (array c).Implements (.list false schema) where
  expected := rfl
  first v := by
    cases v with
    | array vs =>
      rw [firstIssue?_list (Or.inl rfl)]
      exact first?_items hc 0 vs
    | null | bool | number | string | object => exact first?_of_complaint? rfl rfl
  edit h := by
    cases h with
    | item h => exact items_edit (hc.edit h) 0 _ _

theorem implements_nonemptyArray (hc : c.Implements schema) :
    (nonemptyArray c).Implements (.list true schema) where
  expected := rfl
  first v := by
    cases v with
    | array vs =>
      cases vs with
      | nil => exact first?_of_complaint? rfl rfl
      | cons w vs =>
        rw [firstIssue?_list (Or.inr (List.cons_ne_nil w vs))]
        exact first?_items hc 0 (w :: vs)
    | null | bool | number | string | object => exact first?_of_complaint? rfl rfl
  edit h := by
    cases h with
    | @item _ _ before after w w' h =>
      have hrun (u : Json) : (nonemptyArray c).run (.array (before ++ u :: after)) =
          items c 0 (before ++ u :: after) := by
        cases before with
        | nil => rfl
        | cons u' before => rfl
      rw [hrun, hrun, items_edit (hc.edit h)]

end Arrays

/-! ## Objects -/

/-- Some members of an object are read as the schema says, in its order. -/
structure ReadsMembers (read : Members → Verdict α) (fields : List Field) : Prop where
  /-- The members are refused for their first issue. -/
  first : ∀ ms, (read ms).first? = (memberPlaces fields ms).findSome? Place.issue?
  /-- Nothing but the members that are listed counts. -/
  edit : ∀ {ms ms'}, (∀ f ∈ fields, Alike f ms ms') → read ms' = read ms

theorem ReadsMembers.map {read : Members → Verdict α} {fields : List Field}
    (h : ReadsMembers read fields) (f : α → β) : ReadsMembers (fun ms => f <$> read ms) fields where
  first ms := by rw [Verdict.first?_map, h.first]
  edit halike := congrArg (f <$> ·) (h.edit halike)

theorem ReadsMembers.seq {read : Members → Verdict (α → β)} {next : Members → Verdict α}
    {fields fields' : List Field} (h : ReadsMembers read fields) (h' : ReadsMembers next fields') :
    ReadsMembers (fun ms => read ms <*> next ms) (fields ++ fields') where
  first ms := by
    rw [Verdict.first?_seq, h.first, h'.first, memberPlaces_append, List.findSome?_append]
  edit halike := by
    rw [h.edit fun f hf => halike f (List.mem_append_left _ hf),
      h'.edit fun f hf => halike f (List.mem_append_right _ hf)]

section Members

variable {c : Check α} {schema : Schema} {key : String} {ms : Members}

/-- The verdict on a member is about its value. -/
theorem first?_member {w : Json} (hc : c.Implements schema) (presence : Presence)
    (hlookup : Json.lookup key ms = some w) :
    ((c.run w).under (.key key)).first? =
      (memberPlaces [.mk key presence schema] ms).findSome? Place.issue? := by
  rw [memberPlaces, memberPlaces, List.append_nil, Schema.fieldPlaces_of_lookup presence hlookup,
    Schema.findSome?_under, Verdict.first?_under, hc.first, firstIssue?]

theorem reads_required (key : String) (hc : c.Implements schema) :
    ReadsMembers (required key c) [.mk key .required schema] where
  first ms := by
    unfold required
    cases hlookup : Json.lookup key ms with
    | some w => exact first?_member hc .required hlookup
    | none =>
      rw [memberPlaces, memberPlaces, Schema.fieldPlaces_of_missing hlookup, hc.expected]
      rfl
  edit {ms ms'} halike := by
    unfold required
    cases halike _ (List.mem_singleton_self _) with
    | same h =>
      have hsame : Json.lookup key ms' = Json.lookup key ms := h
      rw [hsame]
    | edited h h' hedit =>
      rw [h, h']
      dsimp only
      rw [hc.edit hedit]

theorem reads_optional (key : String) (hc : c.Implements schema) :
    ReadsMembers (optional key c) [.mk key .optional schema] where
  first ms := by
    unfold optional
    cases hlookup : Json.lookup key ms with
    | some w =>
      rw [← first?_member hc .optional hlookup]
      exact Verdict.first?_map some _
    | none =>
      rw [memberPlaces, memberPlaces, Schema.fieldPlaces_of_missing hlookup]
      rfl
  edit {ms ms'} halike := by
    unfold optional
    cases halike _ (List.mem_singleton_self _) with
    | same h =>
      have hsame : Json.lookup key ms' = Json.lookup key ms := h
      rw [hsame]
    | edited h h' hedit =>
      rw [h, h']
      dsimp only
      rw [hc.edit hedit]

/-- A default has to pass the check of its member. -/
theorem reads_withDefault (key : String) {default : α} {w : Json} (hc : c.Implements schema)
    (hdefault : c.run w = .accepted default) :
    ReadsMembers (withDefault key default c) [.mk key (.default w) schema] where
  first ms := by
    unfold withDefault
    cases hlookup : Json.lookup key ms with
    | some u => exact first?_member hc (.default w) hlookup
    | none =>
      rw [memberPlaces, memberPlaces, Schema.fieldPlaces_of_missing hlookup]
      rfl
  edit {ms ms'} halike := by
    unfold withDefault
    cases halike _ (List.mem_singleton_self _) with
    | same h =>
      have hsame : Json.lookup key ms' = Json.lookup key ms := h
      rw [hsame]
    | deleted h hmissing =>
      rw [h, hmissing]
      dsimp only
      rw [hdefault]
      rfl
    | edited h h' hedit =>
      rw [h, h']
      dsimp only
      rw [hc.edit hedit]

end Members

theorem implements_record {read : Members → Verdict α} {fields : List Field}
    (hkeys : (fields.map Field.key).Nodup) (hread : ReadsMembers read fields) :
    (record read).Implements (.record fields) where
  expected := rfl
  first v := by
    cases v with
    | object ms => exact hread.first ms
    | null | bool | number | string | array => exact first?_of_complaint? rfl rfl
  edit h := by
    obtain ⟨ms, ms', rfl, rfl, halike⟩ := h.alike hkeys
    exact hread.edit halike

end Check

end BinaryReport
