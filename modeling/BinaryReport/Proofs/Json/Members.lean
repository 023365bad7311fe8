import BinaryReport.Json.Basic
import BinaryReport.Proofs.Sorting

/-!
# Members of objects

An object that is built from a list of members has each of their keys once, wherever it puts them
(`mem_keys_ofMembers`), and under each key the value that is listed last (`lookup_ofMembers`).
-/

namespace BinaryReport.Json

/-- The values that are listed under a key, in order. -/
def valuesOf {α : Type} (key : String) (members : List (String × α)) : List α :=
  (members.filter fun m => m.1 = key).map Prod.snd

section Values

variable {α β : Type} {key : String}

theorem valuesOf_cons (m : String × α) (members : List (String × α)) :
    valuesOf key (m :: members) =
      if m.1 = key then m.2 :: valuesOf key members else valuesOf key members := by
  rw [valuesOf, List.filter_cons]
  split_ifs with h h' h'
  · rfl
  · exact absurd (of_decide_eq_true h) h'
  · exact absurd (decide_eq_true h') h
  · rfl

theorem valuesOf_append (members members' : List (String × α)) :
    valuesOf key (members ++ members') = valuesOf key members ++ valuesOf key members' := by
  rw [valuesOf, List.filter_append, List.map_append]
  rfl

theorem valuesOf_map (f : α → β) (members : List (String × α)) :
    valuesOf key (members.map fun m => (m.1, f m.2)) = (valuesOf key members).map f := by
  rw [valuesOf, List.filter_map, List.map_map, valuesOf, List.map_map]
  rfl

theorem valuesOf_eq_nil_iff {members : List (String × α)} :
    valuesOf key members = [] ↔ key ∉ members.map Prod.fst := by
  rw [valuesOf, List.map_eq_nil_iff, List.filter_eq_nil_iff, List.mem_map, not_exists]
  refine forall_congr' fun m => ?_
  rw [decide_eq_true_iff, not_and]

end Values

variable {key : String} {members : List (String × Json)}

/-! ## Setting a member -/

theorem lookup_cons (m : String × Json) (members : List (String × Json)) :
    lookup key (m :: members) = if m.1 = key then some m.2 else lookup key members := by
  rw [lookup, List.find?_cons]
  by_cases h : m.1 = key
  · rw [if_pos h, beq_iff_eq.2 h]
    rfl
  · rw [if_neg h, beq_false_of_ne h]
    rfl

theorem lookup_assign (key key' : String) (value : Json) (members : List (String × Json)) :
    lookup key (assign key' value members) =
      if key' = key then some value else lookup key members := by
  induction members with
  | nil => exact lookup_cons (key', value) []
  | cons m members ih =>
    rw [assign]
    by_cases hm : m.1 = key'
    · rw [if_pos (beq_iff_eq.2 hm), lookup_cons, lookup_cons, hm]
      split_ifs
      · rfl
      · rfl
    · rw [if_neg (mt beq_iff_eq.1 hm), lookup_cons, lookup_cons, ih]
      by_cases hkey : m.1 = key
      · rw [if_pos hkey, if_pos hkey, if_neg fun heq => hm (hkey.trans heq.symm)]
      · rw [if_neg hkey, if_neg hkey]

theorem mem_keys_assign (key key' : String) (value : Json) (members : List (String × Json)) :
    key ∈ (assign key' value members).map Prod.fst ↔ key = key' ∨ key ∈ members.map Prod.fst := by
  induction members with
  | nil => simp [assign]
  | cons m members ih =>
    rw [assign]
    split_ifs with hm
    · obtain rfl := beq_iff_eq.1 hm
      simp
    · rw [List.map_cons, List.mem_cons, ih, List.map_cons, List.mem_cons]
      exact or_left_comm

theorem nodup_assign (key : String) (value : Json) (h : (members.map Prod.fst).Nodup) :
    ((assign key value members).map Prod.fst).Nodup := by
  induction members with
  | nil => exact List.nodup_singleton key
  | cons m members ih =>
    obtain ⟨hm, hrest⟩ := List.nodup_cons.1 h
    rw [assign]
    split_ifs with hkey
    · obtain rfl := beq_iff_eq.1 hkey
      exact h
    · refine List.nodup_cons.2 ⟨fun hmem => ?_, ih hrest⟩
      rcases (mem_keys_assign ..).1 hmem with heq | hmem
      · exact hkey (beq_iff_eq.2 heq)
      · exact hm hmem

/-! ## Setting one member after another -/

/-- The members set one after another. -/
def assignAll (members done : List (String × Json)) : List (String × Json) :=
  members.foldl (fun done m => assign m.1 m.2 done) done

theorem lookup_assignAll (key : String) (members done : List (String × Json)) :
    lookup key (assignAll members done) =
      (valuesOf key members).getLast?.or (lookup key done) := by
  induction members generalizing done with
  | nil => rfl
  | cons m members ih =>
    rw [assignAll, List.foldl_cons, ← assignAll, ih, lookup_assign, valuesOf_cons]
    split_ifs
    · rw [List.getLast?_cons]
      cases (valuesOf key members).getLast? with
      | none => rfl
      | some v => rfl
    · rfl

theorem mem_keys_assignAll (key : String) (members done : List (String × Json)) :
    key ∈ (assignAll members done).map Prod.fst ↔
      key ∈ members.map Prod.fst ∨ key ∈ done.map Prod.fst := by
  induction members generalizing done with
  | nil => simp [assignAll]
  | cons m members ih =>
    rw [assignAll, List.foldl_cons, ← assignAll, ih, mem_keys_assign, List.map_cons, List.mem_cons,
      or_assoc]
    exact or_left_comm

theorem nodup_assignAll (members : List (String × Json)) {done : List (String × Json)}
    (h : (done.map Prod.fst).Nodup) : ((assignAll members done).map Prod.fst).Nodup := by
  induction members generalizing done with
  | nil => exact h
  | cons m members ih => exact ih (nodup_assign m.1 m.2 h)

/-! ## Indices first -/

theorem perm_indicesFirst (members : List (String × Json)) : (indicesFirst members).Perm members := by
  have hindexed : (members.filterMap fun m => (arrayIndex? m.1).map fun i => (i, m)).map Prod.snd =
      members.filter fun m => (arrayIndex? m.1).isSome := by
    induction members with
    | nil => rfl
    | cons m members ih =>
      cases hindex : arrayIndex? m.1 with
      | none => simpa [hindex] using ih
      | some i => simpa [hindex] using ih
  have hsorted := (List.mergeSort_perm (members.filterMap fun m =>
    (arrayIndex? m.1).map fun i => (i, m)) fun a b => a.1 ≤ b.1).map Prod.snd
  rw [hindexed] at hsorted
  refine (hsorted.append_right _).trans ?_
  simp only [← Option.not_isSome]
  exact List.filter_append_perm _ members

/-- Among distinct keys the order does not matter to a search. -/
theorem lookup_eq_some_iff (h : (members.map Prod.fst).Nodup) {value : Json} :
    lookup key members = some value ↔ (key, value) ∈ members := by
  have hfind {m : String × Json} : members.find? (fun m => m.1 == key) = some m ↔
      m ∈ members ∧ m.1 = key := Sorting.find?_key_eq_some_iff h
  rw [lookup, Option.map_eq_some_iff]
  constructor
  · rintro ⟨m, hm, rfl⟩
    obtain ⟨hmem, rfl⟩ := hfind.1 hm
    exact hmem
  · intro hmem
    exact ⟨(key, value), hfind.2 ⟨hmem, rfl⟩, rfl⟩

theorem lookup_perm {members' : List (String × Json)} (hperm : members.Perm members')
    (h : (members'.map Prod.fst).Nodup) : lookup key members = lookup key members' := by
  have h' := (hperm.map Prod.fst).nodup_iff.2 h
  refine Option.ext fun value => ?_
  rw [lookup_eq_some_iff h', lookup_eq_some_iff h, hperm.mem_iff]

/-- An object has under a key the value that is listed last. -/
theorem lookup_ofMembers (key : String) (members : List (String × Json)) :
    lookup key (indicesFirst (assignAll members [])) = (valuesOf key members).getLast? := by
  have hnodup : ((assignAll members []).map Prod.fst).Nodup := nodup_assignAll members List.nodup_nil
  rw [lookup_perm (perm_indicesFirst _) hnodup, lookup_assignAll]
  exact Option.or_none

theorem mem_keys_ofMembers (key : String) (members : List (String × Json)) :
    key ∈ (indicesFirst (assignAll members [])).map Prod.fst ↔ key ∈ members.map Prod.fst := by
  rw [((perm_indicesFirst _).map Prod.fst).mem_iff, mem_keys_assignAll]
  exact or_iff_left List.not_mem_nil

end BinaryReport.Json
