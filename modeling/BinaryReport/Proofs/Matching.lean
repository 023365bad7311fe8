import Mathlib.Data.List.Forall2
import Mathlib.Data.List.Perm.Basic

/-!
# Lists that match item by item

What is known about two lists that match item by item (`List.Forall₂`): every item has a match, and one
of the lists can be permuted if the other is. A list matches what is computed from it item by item.
-/

namespace BinaryReport.Matching

variable {α β γ : Type} {R : α → β → Prop} {as : List α} {bs : List β}

theorem exists_of_mem_left (h : List.Forall₂ R as bs) {a : α} (ha : a ∈ as) : ∃ b ∈ bs, R a b := by
  induction h with
  | nil => cases ha
  | @cons _ b _ bs hfirst _ ih =>
    rcases List.mem_cons.1 ha with rfl | ha
    · exact ⟨b, List.mem_cons_self, hfirst⟩
    · obtain ⟨b', hb', hmatch⟩ := ih ha
      exact ⟨b', List.mem_cons_of_mem b hb', hmatch⟩

theorem exists_of_mem_right (h : List.Forall₂ R as bs) {b : β} (hb : b ∈ bs) : ∃ a ∈ as, R a b := by
  have hflip : List.Forall₂ (flip R) bs as := List.Forall₂.flip h
  exact exists_of_mem_left hflip hb

theorem exists_getElem? (h : List.Forall₂ R as bs) {i : Nat} {b : β} (hi : bs[i]? = some b) :
    ∃ a, as[i]? = some a ∧ R a b := by
  induction h generalizing i with
  | nil => cases hi
  | cons hfirst _ ih =>
    cases i with
    | zero =>
      obtain rfl := Option.some.inj hi
      exact ⟨_, rfl, hfirst⟩
    | succ i => exact ih hi

theorem exists_forall₂ (h : ∀ a ∈ as, ∃ b, R a b) : ∃ bs, List.Forall₂ R as bs := by
  induction as with
  | nil => exact ⟨[], .nil⟩
  | cons a as ih =>
    obtain ⟨b, hb⟩ := h a List.mem_cons_self
    obtain ⟨bs, hbs⟩ := ih fun a' ha' => h a' (List.mem_cons_of_mem a ha')
    exact ⟨b :: bs, .cons hb hbs⟩

/-- What a partial function gives on a list matches the list. -/
theorem mapM_eq_some_iff {f : α → Option β} (hR : ∀ a b, f a = some b ↔ R a b) :
    as.mapM f = some bs ↔ List.Forall₂ R as bs := by
  induction as generalizing bs with
  | nil => simp [eq_comm (a := [])]
  | cons a as ih =>
    rw [List.mapM_cons, List.forall₂_cons_left_iff]
    simp only [← ih, ← hR, Option.bind_eq_bind, Option.bind_eq_some_iff, Option.pure_def,
      Option.some.injEq]
    constructor
    · rintro ⟨b, hb, bs, hbs, rfl⟩
      exact ⟨b, bs, hb, hbs, rfl⟩
    · rintro ⟨b, bs, hb, hbs, rfl⟩
      exact ⟨b, hb, bs, hbs, rfl⟩

theorem map_eq_map (h : List.Forall₂ R as bs) {f : α → γ} {g : β → γ}
    (hsame : ∀ a b, R a b → f a = g b) : as.map f = bs.map g := by
  induction h with
  | nil => rfl
  | cons hfirst _ ih => rw [List.map_cons, List.map_cons, hsame _ _ hfirst, ih]

theorem pairwise_right (h : List.Forall₂ R as bs) {S : α → α → Prop} {T : β → β → Prop}
    (htransfer : ∀ a a' b b', R a b → R a' b' → S a a' → T b b') (hpair : as.Pairwise S) :
    bs.Pairwise T := by
  induction h with
  | nil => exact .nil
  | cons hfirst hrest ih =>
    obtain ⟨hhead, htail⟩ := List.pairwise_cons.1 hpair
    refine List.pairwise_cons.2 ⟨fun b' hb' => ?_, ih htail⟩
    obtain ⟨a', ha', hmatch⟩ := exists_of_mem_right hrest hb'
    exact htransfer _ a' _ b' hfirst hmatch (hhead a' ha')

theorem exists_perm_left {cs : List β} (h : List.Forall₂ R as bs) (hperm : bs.Perm cs) :
    ∃ order, order.Perm as ∧ List.Forall₂ R order cs := by
  have hboth : Relation.Comp (List.Forall₂ R) List.Perm as cs := ⟨bs, h, hperm⟩
  rw [List.forall₂_comp_perm_eq_perm_comp_forall₂] at hboth
  obtain ⟨order, horder, hcs⟩ := hboth
  exact ⟨order, horder.symm, hcs⟩

theorem exists_perm_right {cs : List α} (h : List.Forall₂ R as bs) (hperm : cs.Perm as) :
    ∃ order, order.Perm bs ∧ List.Forall₂ R cs order := by
  have hflip : List.Forall₂ (flip R) bs as := List.Forall₂.flip h
  obtain ⟨order, horder, hcs⟩ := exists_perm_left hflip hperm.symm
  exact ⟨order, horder, List.Forall₂.flip hcs⟩

end BinaryReport.Matching
