import BinaryReport.Proofs.Program.Entries
import BinaryReport.Proofs.Program.Layout
import Mathlib.Data.List.Induction

/-!
# Placing data in turn

A unit of data is placed exactly if it fits (`DataUnit.Fits`): it ends inside the space and meets
neither an instruction nor a unit at another address. A list of units is placed one by one, each with
what the earlier ones have left (`settle`): at every address the latest unit listed there
(`mem_settle_iff`).

Lengths are exact here: no type is longer than `exactLimit`.
-/

namespace BinaryReport

open Binary64 Outcome

/-! ## Fitting -/

/-- There is room for a unit beside the instructions and the units at other addresses. -/
structure DataUnit.Fits (space : AddressSpace) (instructions : List Instruction)
    (data : List DataUnit) (u : DataUnit) : Prop where
  /-- The unit ends inside the space. -/
  inside : u.last < space.size
  /-- The unit meets no instruction. -/
  clear : ∀ i ∈ instructions, u.last < i.address.offset ∨ i.last < u.address.offset
  /-- The unit meets no unit at another address. -/
  apart : ∀ v ∈ data, v.address ≠ u.address →
    u.last < v.address.offset ∨ v.last < u.address.offset

theorem exists_length_eq {t : DataType} (hcount : IsCount t.length)
    (hexact : t.length ≤ Binary64.ofNat exactLimit) :
    ∃ n : Nat, 0 < n ∧ n ≤ exactLimit ∧ t.length = .finite n := by
  generalize hlength : t.length = length at hcount hexact
  cases hcount with
  | infinite =>
    rw [ofNat_eq (le_refl _)] at hexact
    cases hexact
  | @finite n hn => exact ⟨n, hn, le_ofNat_exactLimit_iff.1 hexact, rfl⟩

theorem AddressSpace.advance_lastDisplacement {space : AddressSpace} {a : Address} {t : DataType}
    {n : Nat} (hpos : 0 < n) (hle : n ≤ exactLimit) (hlength : t.length = .finite n)
    (hinside : a.offset + n ≤ space.size) :
    space.advance a (Program.lastDisplacement t) = .ok ⟨a.offset + (n - 1)⟩ := by
  have hlast : (Program.lastDisplacement t).toInt? = some ((n - 1 : Nat) : Int) := by
    rw [Program.lastDisplacement, hlength, sub_one_of_le hpos hle]
    exact toInt?_finite_natCast (n - 1)
  have hshift : space.shift? a ((n - 1 : Nat) : Int) = some ⟨a.offset + (n - 1)⟩ :=
    shift?_eq_some_iff.2 ⟨rfl, by omega⟩
  unfold advance
  rw [hlast]
  dsimp only
  rw [hshift]

namespace Program

variable {p p' : Program}

theorem conflict?_eq_none_iff {a : Address} {last : Int} :
    p.conflict? a last = none ↔
      (∀ i ∈ p.instructions, last < i.address.offset ∨ i.last < a.offset) ∧
        ∀ u ∈ p.data, u.address ≠ a → last < u.address.offset ∨ u.last < a.offset := by
  constructor
  · exact conflict?_eq_none
  · rintro ⟨hclear, hapart⟩
    have hinstructions : (p.instructions.find? fun i =>
        meets a.offset last i.address.offset i.last) = none := by
      rw [List.find?_eq_none]
      intro i hi
      rw [not_meets_iff.2 (hclear i hi)]
      exact Bool.false_ne_true
    have hdata : (p.data.find? fun u =>
        u.address ≠ a && meets a.offset last u.address.offset u.last) = none := by
      rw [List.find?_eq_none]
      intro u hu hmeets
      obtain ⟨hne, hmeets⟩ := Bool.and_eq_true_iff.1 hmeets
      rw [not_meets_iff.2 (hapart u hu (of_decide_eq_true hne))] at hmeets
      cases hmeets
    unfold conflict?
    rw [hinstructions, hdata]

/-- Data is placed exactly if it fits. -/
theorem placeData_eq_ok_iff {a : Address} {t : DataType} (hcount : IsCount t.length)
    (hexact : t.length ≤ Binary64.ofNat exactLimit) :
    p.placeData a t = .ok p' ↔
      DataUnit.Fits p.space p.instructions p.data ⟨a, t⟩ ∧
        p' = { p with data := putData ⟨a, t⟩ p.data } := by
  obtain ⟨n, hpos, hle, hlength⟩ := exists_length_eq hcount hexact
  have hlast : DataUnit.last ⟨a, t⟩ = a.offset + n - 1 := by
    rw [DataUnit.last, DataUnit.length_eq hlength]
  constructor
  · intro hplace
    refine ⟨?_, placeData_eq hplace⟩
    unfold placeData at hplace
    cases hadvance : p.space.advance a (lastDisplacement t) with
    | error err =>
      rw [hadvance] at hplace
      cases hplace
    | ok last =>
      rw [hadvance] at hplace
      obtain ⟨m, -, hm, hend, hinside⟩ :=
        AddressSpace.last_of_advance hcount (Or.inr hexact) hadvance
      obtain rfl : m = n := by
        have hsame := Binary64.finite.inj (hm.symm.trans hlength)
        exact_mod_cast hsame
      have hunit : DataUnit.last ⟨a, t⟩ = last.offset := by
        rw [hlast]
        omega
      dsimp only [placeUpTo] at hplace
      cases hconflict : p.conflict? a last.offset with
      | some e =>
        rw [hconflict] at hplace
        cases hplace
      | none =>
        obtain ⟨hclear, hapart⟩ := conflict?_eq_none_iff.1 hconflict
        rw [← hunit] at hclear hapart
        refine ⟨?_, hclear, hapart⟩
        rw [hunit]
        exact Int.ofNat_lt.2 hinside
  · rintro ⟨⟨hinside, hclear, hapart⟩, rfl⟩
    rw [hlast] at hinside hclear hapart
    have hroom : a.offset + n ≤ p.space.size := by omega
    have hconflict : p.conflict? a ((a.offset + (n - 1) : Nat) : Int) = none := by
      have hend : ((a.offset + (n - 1) : Nat) : Int) = a.offset + n - 1 := by omega
      rw [hend]
      exact conflict?_eq_none_iff.2 ⟨hclear, hapart⟩
    unfold placeData
    rw [AddressSpace.advance_lastDisplacement hpos hle hlength hroom]
    dsimp only [placeUpTo]
    rw [hconflict]

/-! ## One after the other -/

/-- What is there after units have been put one by one. -/
def settle (data units : List DataUnit) : List DataUnit :=
  units.foldl (fun data u => putData u data) data

/-- Every unit fits when the earlier ones have been put. -/
def FitInTurn (space : AddressSpace) (instructions : List Instruction) :
    List DataUnit → List DataUnit → Prop
  | _, [] => True
  | data, u :: units =>
    u.Fits space instructions data ∧ FitInTurn space instructions (putData u data) units

theorem settle_append_singleton (data units : List DataUnit) (u : DataUnit) :
    settle data (units ++ [u]) = putData u (settle data units) := by
  unfold settle
  rw [List.foldl_append]
  rfl

theorem fitInTurn_iff {space : AddressSpace} {instructions : List Instruction}
    {data units : List DataUnit} :
    FitInTurn space instructions data units ↔
      ∀ earlier u later, units = earlier ++ u :: later →
        u.Fits space instructions (settle data earlier) := by
  induction units generalizing data with
  | nil =>
    constructor
    · intro _ earlier u later h
      exact absurd h.symm (List.append_ne_nil_of_right_ne_nil _ (List.cons_ne_nil u later))
    · intro _
      trivial
  | cons v units ih =>
    constructor
    · rintro ⟨hfits, hrest⟩ earlier u later h
      cases earlier with
      | nil =>
        obtain ⟨rfl, -⟩ := List.cons.inj h
        exact hfits
      | cons w earlier =>
        obtain ⟨rfl, rfl⟩ := List.cons.inj h
        exact ih.1 hrest earlier u later rfl
    · intro h
      refine ⟨h [] v units rfl, ih.2 fun earlier u later hunits => ?_⟩
      subst hunits
      exact h (v :: earlier) u later rfl

theorem mem_putData_iff {u v : DataUnit} {data : List DataUnit}
    (hnodup : (data.map (·.address)).Nodup) :
    v ∈ putData u data ↔ v = u ∨ v ∈ data ∧ v.address ≠ u.address := by
  refine ⟨mem_putData hnodup, ?_⟩
  rintro (rfl | ⟨hv, hne⟩)
  · exact mem_putData_self v data
  · clear hnodup
    induction data with
    | nil => cases hv
    | cons w data ih =>
      rw [putData]
      split
      · next hw =>
        rcases List.mem_cons.1 hv with rfl | hv
        · exact absurd hw hne
        · exact List.mem_cons_of_mem u hv
      · rcases List.mem_cons.1 hv with rfl | hv
        · exact List.mem_cons_self
        · exact List.mem_cons_of_mem w (ih hv)

end Program

/-- A unit is the latest one of a list at its address. -/
def DataUnit.LatestIn (v : DataUnit) (units : List DataUnit) : Prop :=
  ∃ before after, units = before ++ v :: after ∧ ∀ w ∈ after, w.address ≠ v.address

namespace Program

theorem nodup_settle (units : List DataUnit) : ((settle [] units).map (·.address)).Nodup := by
  induction units using List.reverseRecOn with
  | nil => exact List.nodup_nil
  | append_singleton units u ih =>
    rw [settle_append_singleton]
    exact nodup_putData ih

/-- At every address the latest unit is there. -/
theorem mem_settle_iff {v : DataUnit} {units : List DataUnit} :
    v ∈ settle [] units ↔ v.LatestIn units := by
  induction units using List.reverseRecOn with
  | nil =>
    constructor
    · intro h
      cases h
    · rintro ⟨before, after, h, -⟩
      exact absurd h.symm (List.append_ne_nil_of_right_ne_nil _ (List.cons_ne_nil v after))
  | append_singleton units u ih =>
    rw [settle_append_singleton, mem_putData_iff (nodup_settle units), ih]
    constructor
    · rintro (rfl | ⟨⟨before, after, rfl, hafter⟩, hne⟩)
      · exact ⟨units, [], rfl, fun w hw => by cases hw⟩
      · refine ⟨before, after ++ [u], by rw [List.append_assoc]; rfl, fun w hw => ?_⟩
        rcases List.mem_append.1 hw with hw | hw
        · exact hafter w hw
        · rw [List.mem_singleton.1 hw]
          exact hne.symm
    · rintro ⟨before, after, h, hafter⟩
      rcases List.eq_nil_or_concat after with rfl | ⟨after, w, rfl⟩
      · obtain ⟨-, hlast⟩ := List.append_inj' h rfl
        exact Or.inl (List.cons.inj hlast).1.symm
      · rw [List.concat_eq_append] at h hafter
        rw [← List.cons_append, ← List.append_assoc] at h
        obtain ⟨hunits, hlast⟩ := List.append_inj' h rfl
        obtain rfl := (List.cons.inj hlast).1
        refine Or.inr ⟨⟨before, after, hunits, fun w hw => ?_⟩, ?_⟩
        · exact hafter w (List.mem_append_left _ hw)
        · exact (hafter u (List.mem_append_right _ (List.mem_singleton_self u))).symm

end Program

end BinaryReport
