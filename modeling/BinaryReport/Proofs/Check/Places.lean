import BinaryReport.Check
import BinaryReport.Proofs.Verdict
import Mathlib.Data.List.Forall2

/-!
# Where issues are found

`Json.at?` follows a path into a value. The issues of a check are found in the value that is checked:
the path of an issue leads to a part of the value, or it names a member that has to be there and is
missing (`Json.HasPlace`). Every building block of schemas keeps this (`Check.Locates`).

The converse is about acceptance. What a check accepts has the members that the schema requires, so the
parts of what an accepted value denotes have their places in the value (`Check.required_eq_accepted`,
`Check.array_eq_accepted`).
-/

namespace BinaryReport

variable {α β : Type}

/-! ## Places -/

/-- The part of a value at a path, if there is one. -/
def Json.at? : Json → List PathStep → Option Json
  | v, [] => some v
  | v, .key key :: path => (v.get? key).bind fun w => at? w path
  | v, .index n :: path => (v.array?.bind fun vs => vs[n]?).bind fun w => at? w path

/-- A path leads to a part of a value, or it names a member that is missing there; the message says
which. -/
inductive Json.HasPlace (v : Json) : List PathStep → String → Prop where
  /-- There is a part at the path. -/
  | present {path : List PathStep} (h : (v.at? path).isSome = true) (message : String) :
    HasPlace v path message
  /-- There is an object that does not have the member. -/
  | missing {path : List PathStep} {key : String} {members : List (String × Json)}
    (h : v.at? path = some (.object members)) (hmissing : Json.lookup key members = none) :
    HasPlace v (path ++ [.key key]) "Required"

namespace Json

theorem at?_append (v : Json) (path path' : List PathStep) :
    v.at? (path ++ path') = (v.at? path).bind fun w => w.at? path' := by
  induction path generalizing v with
  | nil => rfl
  | cons step path ih =>
    have hrest : (fun w : Json => w.at? (path ++ path')) =
        fun w => (w.at? path).bind fun w => w.at? path' := funext ih
    cases step with
    | key key =>
      show ((v.get? key).bind fun w => w.at? (path ++ path')) =
        ((v.get? key).bind fun w => w.at? path).bind fun w => w.at? path'
      rw [hrest, Option.bind_assoc]
    | index n =>
      show ((v.array?.bind fun vs => vs[n]?).bind fun w => w.at? (path ++ path')) =
        ((v.array?.bind fun vs => vs[n]?).bind fun w => w.at? path).bind fun w => w.at? path'
      rw [hrest, ← Option.bind_assoc]

/-- A place of a part is a place of the whole. -/
theorem HasPlace.under {v w : Json} {step : PathStep} {path : List PathStep} {message : String}
    (hstep : v.at? [step] = some w) (h : w.HasPlace path message) :
    v.HasPlace (step :: path) message := by
  have hpath (path : List PathStep) : v.at? (step :: path) = w.at? path := by
    have hsplit := v.at?_append [step] path
    rw [hstep] at hsplit
    exact hsplit
  cases h with
  | present h message =>
    refine .present ?_ message
    rw [hpath]
    exact h
  | @missing path key members h hmissing =>
    have hobject : v.at? (step :: path) = some (.object members) := (hpath path).trans h
    exact .missing hobject hmissing

theorem at?_key {key : String} {members : List (String × Json)} {w : Json}
    (h : lookup key members = some w) : (Json.object members).at? [.key key] = some w := by
  show ((lookup key members).bind fun w => some w) = some w
  rw [h]
  rfl

theorem at?_index {n : Nat} {items : List Json} {w : Json} (h : items[n]? = some w) :
    (Json.array items).at? [.index n] = some w := by
  show ((items[n]?).bind fun w => some w) = some w
  rw [h]
  rfl

end Json

namespace Check

/-! ## Issues -/

/-- The issues of a verdict are found in a value. -/
def FoundIn (v : Json) (x : Verdict α) : Prop :=
  ∀ issue ∈ x.issues, v.HasPlace issue.path issue.message

/-- The issues of a check are found in the value that is checked. -/
def Locates (c : Check α) : Prop := ∀ v, FoundIn v (c.run v)

section FoundIn

variable {v : Json}

theorem foundIn_accepted (a : α) : FoundIn v (.accepted a) := nofun

theorem foundIn_complain (c : Complaint) : FoundIn v (.complain c : Verdict α) := by
  intro issue hissue
  obtain rfl := List.mem_singleton.1 hissue
  exact .present rfl c.message

theorem FoundIn.map {x : Verdict α} (h : FoundIn v x) (f : α → β) : FoundIn v (f <$> x) := by
  intro issue hissue
  rw [Verdict.issues_map] at hissue
  exact h issue hissue

theorem FoundIn.seq {f : Verdict (α → β)} {x : Verdict α} (hf : FoundIn v f) (hx : FoundIn v x) :
    FoundIn v (f <*> x) := by
  intro issue hissue
  rw [Verdict.issues_seq] at hissue
  rcases List.mem_append.1 hissue with hissue | hissue
  · exact hf issue hissue
  · exact hx issue hissue

theorem FoundIn.under {w : Json} {step : PathStep} {x : Verdict α}
    (hstep : v.at? [step] = some w) (h : FoundIn w x) : FoundIn v (x.under step) := by
  intro issue hissue
  rw [Verdict.issues_under] at hissue
  obtain ⟨inner, hinner, rfl⟩ := List.mem_map.1 hissue
  exact (h inner hinner).under hstep

end FoundIn

/-! ## Leaves -/

theorem locates_anyText : Locates anyText := by
  intro v
  cases v with
  | string s => exact foundIn_accepted s
  | null | bool | number | array | object => exact foundIn_complain _

theorem locates_nonemptyText : Locates nonemptyText := by
  intro v
  cases v with
  | string s =>
    show FoundIn _ (if s.isEmpty then Verdict.complain .emptyText else .accepted s)
    split
    · exact foundIn_complain _
    · exact foundIn_accepted s
  | null | bool | number | array | object => exact foundIn_complain _

theorem locates_bool : Locates bool := by
  intro v
  cases v with
  | bool b => exact foundIn_accepted b
  | null | number | string | array | object => exact foundIn_complain _

theorem locates_choice (options : List (String × α)) : Locates (choice options) := by
  intro v
  cases v with
  | string s =>
    unfold choice
    dsimp only
    split
    · exact foundIn_accepted _
    · exact foundIn_complain _
  | null | bool | number | array | object => exact foundIn_complain _

theorem foundIn_judge {v : Json} (rules : List NumberRule) (x : Binary64) :
    FoundIn v (NumberRule.judge rules x) := by
  intro issue hissue
  unfold NumberRule.judge at hissue
  rw [Verdict.issues_ofIssues] at hissue
  obtain ⟨rule, -, rfl⟩ := List.mem_map.1 hissue
  exact .present rfl _

theorem locates_number (rules : List NumberRule) : Locates (number rules) := by
  intro v
  cases v with
  | number x =>
    cases x with
    | nan => exact foundIn_complain _
    | finite q => exact foundIn_judge rules _
    | infinite negative => exact foundIn_judge rules _
  | null | bool | string | array | object => exact foundIn_complain _

/-! ## Arrays and records -/

theorem foundIn_items {c : Check α} (hc : Locates c) (before vs : List Json) :
    FoundIn (.array (before ++ vs)) (items c before.length vs) := by
  induction vs generalizing before with
  | nil => exact foundIn_accepted []
  | cons w vs ih =>
    have hat : (before ++ w :: vs)[before.length]? = some w := by simp
    have hrest := ih (before ++ [w])
    rw [List.append_assoc, List.length_append] at hrest
    exact (((hc w).under (Json.at?_index hat)).map List.cons).seq hrest

theorem locates_array {c : Check α} (hc : Locates c) : Locates (array c) := by
  intro v
  cases v with
  | array vs => exact foundIn_items hc [] vs
  | null | bool | number | string | object => exact foundIn_complain _

theorem locates_nonemptyArray {c : Check α} (hc : Locates c) : Locates (nonemptyArray c) := by
  intro v
  cases v with
  | array vs =>
    cases vs with
    | nil => exact foundIn_complain _
    | cons w vs => exact foundIn_items hc [] (w :: vs)
  | null | bool | number | string | object => exact foundIn_complain _

section Members

variable {c : Check α} {ms : Members} {key : String}

theorem foundIn_required (hc : Locates c) : FoundIn (.object ms) (required key c ms) := by
  unfold required
  split
  · next w hw => exact (hc w).under (Json.at?_key hw)
  · next hmissing =>
    intro issue hissue
    obtain rfl := List.mem_singleton.1 hissue
    have hhere : (Json.object ms).at? [] = some (.object ms) := rfl
    exact .missing hhere hmissing

theorem foundIn_optional (hc : Locates c) : FoundIn (.object ms) (optional key c ms) := by
  unfold optional
  split
  · next w hw => exact ((hc w).under (Json.at?_key hw)).map some
  · exact foundIn_accepted none

theorem foundIn_withDefault (default : α) (hc : Locates c) :
    FoundIn (.object ms) (withDefault key default c ms) := by
  unfold withDefault
  split
  · next w hw => exact (hc w).under (Json.at?_key hw)
  · exact foundIn_accepted default

theorem locates_record {read : Members → Verdict α}
    (hread : ∀ ms, FoundIn (.object ms) (read ms)) : Locates (record read) := by
  intro v
  cases v with
  | object ms => exact hread ms
  | null | bool | number | string | array => exact foundIn_complain _

/-! ## Acceptance -/

theorem record_eq_accepted {read : Members → Verdict α} {v : Json} {a : α}
    (h : (record read).run v = .accepted a) : ∃ ms, v = .object ms ∧ read ms = .accepted a := by
  cases v with
  | object ms => exact ⟨ms, rfl, h⟩
  | null | bool | number | string | array => cases h

theorem strictRecord_eq_accepted_iff {known : List String} {read : Members → Verdict α} {a : α} :
    (strictRecord known read).run (.object ms) = .accepted a ↔
      read ms = .accepted a ∧ unknownKeys known ms = [] := by
  have hrun : (strictRecord known read).run (.object ms) =
      ((read ms).map fun a _ => a).apply (if (unknownKeys known ms).isEmpty then .accepted () else
        .complain (.unknownKeys (unknownKeys known ms)) : Verdict Unit) := rfl
  rw [hrun]
  cases hread : read ms with
  | accepted b =>
    by_cases hunknown : unknownKeys known ms = []
    · rw [hunknown]
      exact (and_iff_left rfl).symm
    · rw [if_neg (mt List.isEmpty_iff.1 hunknown)]
      exact iff_of_false nofun fun h => hunknown h.2
  | refused first others =>
    split_ifs
    · exact iff_of_false nofun nofun
    · exact iff_of_false nofun nofun

theorem required_eq_accepted {a : α} (h : required key c ms = .accepted a) :
    ∃ w, Json.lookup key ms = some w ∧ c.run w = .accepted a := by
  unfold required at h
  split at h
  · next w hw => exact ⟨w, hw, Verdict.under_eq_accepted h⟩
  · cases h

theorem withDefault_eq_accepted {default a : α} (h : withDefault key default c ms = .accepted a) :
    (∃ w, Json.lookup key ms = some w ∧ c.run w = .accepted a) ∨ a = default := by
  unfold withDefault at h
  split at h
  · next w hw => exact Or.inl ⟨w, hw, Verdict.under_eq_accepted h⟩
  · exact Or.inr (Verdict.accepted.inj h).symm

end Members

theorem number_eq_accepted {rules : List NumberRule} {v : Json} {x : Binary64}
    (h : (number rules).run v = .accepted x) : v = .number x ∧ ∀ rule ∈ rules, rule.holds x = true := by
  have hjudge {y : Binary64} (hy : NumberRule.judge rules y = .accepted x) :
      y = x ∧ ∀ rule ∈ rules, rule.holds x = true := by
    obtain ⟨rfl, hnone⟩ := Verdict.ofIssues_eq_accepted hy
    have hkept := List.filter_eq_nil_iff.1 (List.map_eq_nil_iff.1 hnone)
    exact ⟨rfl, fun rule hrule => by simpa using hkept rule hrule⟩
  cases v with
  | number y =>
    cases y with
    | nan => cases h
    | finite q =>
      obtain ⟨rfl, hkept⟩ := hjudge h
      exact ⟨rfl, hkept⟩
    | infinite negative =>
      obtain ⟨rfl, hkept⟩ := hjudge h
      exact ⟨rfl, hkept⟩
  | null | bool | string | array | object => cases h

theorem items_eq_accepted {c : Check α} {vs : List Json} {index : Nat} {as : List α}
    (h : items c index vs = .accepted as) :
    List.Forall₂ (fun w a => c.run w = .accepted a) vs as := by
  induction vs generalizing index as with
  | nil =>
    obtain rfl := Verdict.accepted.inj h
    exact .nil
  | cons w vs ih =>
    obtain ⟨g, rest, hg, hrest, rfl⟩ := Verdict.seq_eq_accepted h
    obtain ⟨a, ha, rfl⟩ := Verdict.map_eq_accepted hg
    exact .cons (Verdict.under_eq_accepted ha) (ih hrest)

theorem array_eq_accepted {c : Check α} {v : Json} {as : List α}
    (h : (array c).run v = .accepted as) :
    ∃ vs, v = .array vs ∧ List.Forall₂ (fun w a => c.run w = .accepted a) vs as := by
  cases v with
  | array vs => exact ⟨vs, rfl, items_eq_accepted h⟩
  | null | bool | number | string | object => cases h

theorem nonemptyArray_eq_accepted {c : Check α} {v : Json} {as : List α}
    (h : (nonemptyArray c).run v = .accepted as) :
    ∃ vs, v = .array vs ∧ List.Forall₂ (fun w a => c.run w = .accepted a) vs as := by
  cases v with
  | array vs =>
    cases vs with
    | nil => cases h
    | cons w vs => exact ⟨w :: vs, rfl, items_eq_accepted h⟩
  | null | bool | number | string | object => cases h

end Check

end BinaryReport
