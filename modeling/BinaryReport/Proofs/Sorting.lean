import Mathlib.Data.List.Sort
import Mathlib.Order.Defs.LinearOrder

/-!
# Lists sorted by a number

Sorting by a number gives ascending numbers, and there is only one strictly ascending order. In it the
first match of a search is the least one. Where no key comes twice, in whatever order, a search for a key
has one match only.
-/

namespace BinaryReport.Sorting

variable {α β : Type}

theorem pairwise_mergeSort (key : α → Nat) (as : List α) :
    (as.mergeSort fun a b => key a ≤ key b).Pairwise fun a b => key a ≤ key b := by
  have htrans : ∀ a b c : α, decide (key a ≤ key b) = true → decide (key b ≤ key c) = true →
      decide (key a ≤ key c) = true := by
    intro a b c hab hbc
    exact decide_eq_true (le_trans (of_decide_eq_true hab) (of_decide_eq_true hbc))
  have htotal : ∀ a b : α, (decide (key a ≤ key b) || decide (key b ≤ key a)) = true := by
    intro a b
    rw [Bool.or_eq_true, decide_eq_true_iff, decide_eq_true_iff]
    exact le_total (key a) (key b)
  exact (List.pairwise_mergeSort htrans htotal as).imp fun hle => of_decide_eq_true hle

theorem ascending_of_nodup {key : α → Nat} {as : List α}
    (h : as.Pairwise fun a b => key a ≤ key b) (hnodup : (as.map key).Nodup) :
    as.Pairwise fun a b => key a < key b := by
  refine h.imp₂ ?_ (List.pairwise_map.1 hnodup)
  intro a b hle hne
  exact lt_of_le_of_ne hle hne

theorem exists_ascending_perm {key : α → Nat} {as : List α} (h : (as.map key).Nodup) :
    ∃ bs : List α, bs.Perm as ∧ bs.Pairwise fun a b => key a < key b := by
  have hperm := List.mergeSort_perm as fun a b => key a ≤ key b
  have hnodup := (hperm.map key).nodup_iff.2 h
  exact ⟨_, hperm, ascending_of_nodup (pairwise_mergeSort key as) hnodup⟩

theorem eq_of_perm_of_ascending {key : α → Nat} {as bs : List α} (hperm : as.Perm bs)
    (has : as.Pairwise fun a b => key a < key b) (hbs : bs.Pairwise fun a b => key a < key b) :
    as = bs := by
  refine hperm.eq_of_pairwise ?_ has hbs
  intro a b _ _ hab hba
  exact absurd hab (lt_asymm hba)

/-- In ascending order the first match is the least one. -/
theorem find?_eq_some_iff {key : α → Nat} {as : List α} (h : as.Pairwise fun a b => key a < key b)
    {q : α → Bool} {a : α} :
    as.find? q = some a ↔ a ∈ as ∧ q a = true ∧ ∀ b ∈ as, q b = true → key a ≤ key b := by
  have hfirst {a : α} (hfind : as.find? q = some a) : ∀ b ∈ as, q b = true → key a ≤ key b := by
    obtain ⟨-, before, after, rfl, hbefore⟩ := List.find?_eq_some_iff_append.1 hfind
    intro b hb hq
    rcases List.mem_append.1 hb with hb | hb
    · exact absurd (hbefore b hb) (by simp [hq])
    · rcases List.mem_cons.1 hb with rfl | hb
      · exact le_rfl
      · exact le_of_lt ((List.pairwise_cons.1 (List.pairwise_append.1 h).2.1).1 b hb)
  constructor
  · intro hfind
    exact ⟨List.mem_of_find?_eq_some hfind, List.find?_some hfind, hfirst hfind⟩
  · rintro ⟨ha, hq, hleast⟩
    cases hfind : as.find? q with
    | none => exact absurd hq (List.find?_eq_none.1 hfind a ha)
    | some b =>
      have hb := List.mem_of_find?_eq_some hfind
      have hsame : key b = key a :=
        le_antisymm (hfirst hfind a ha hq) (hleast b hb (List.find?_some hfind))
      have hnodup : (as.map key).Nodup := List.pairwise_map.2 (h.imp ne_of_lt)
      rw [List.inj_on_of_nodup_map hnodup hb ha hsame]

/-- Among distinct keys the match of a key is the item that has it. -/
theorem find?_key_eq_some_iff [DecidableEq β] {key : α → β} {as : List α} (h : (as.map key).Nodup)
    {k : β} {a : α} : (as.find? fun b => key b = k) = some a ↔ a ∈ as ∧ key a = k := by
  constructor
  · intro hfind
    have hkey := List.find?_some hfind
    exact ⟨List.mem_of_find?_eq_some hfind, of_decide_eq_true hkey⟩
  · rintro ⟨ha, rfl⟩
    cases hfind : as.find? fun b => key b = key a with
    | none => exact absurd (decide_eq_true rfl) (List.find?_eq_none.1 hfind a ha)
    | some b =>
      have hkey := List.find?_some hfind
      have hsame : key b = key a := of_decide_eq_true hkey
      rw [List.inj_on_of_nodup_map h (List.mem_of_find?_eq_some hfind) ha hsame]

end BinaryReport.Sorting
