import BinaryReport.Proofs.Check.Places

/-!
# What checks accept

A member whose value passes its check is accepted, and so are items that do. A check restores what it
reads if it accepts every value that it has read, as that value is written, and reads the same again
(`Check.Restores`). Texts, numbers and arrays do; a member does if its value does and if its default
passes the check.
-/

namespace BinaryReport.Check

variable {α : Type}

/-! ## Members -/

section Members

variable {c : Check α} {ms : Members} {key : String} {a default : α} {w : Json}

/-- A member whose value passes its check. -/
theorem required_eq (hlookup : Json.lookup key ms = some w) (h : c.run w = .accepted a) :
    required key c ms = .accepted a := by
  unfold required
  rw [hlookup]
  dsimp only
  rw [h]
  rfl

theorem optional_of_lookup (hlookup : Json.lookup key ms = some w) (h : c.run w = .accepted a) :
    optional key c ms = .accepted (some a) := by
  unfold optional
  rw [hlookup]
  dsimp only
  rw [h]
  rfl

theorem optional_of_missing (hlookup : Json.lookup key ms = none) :
    optional key c ms = .accepted none := by
  unfold optional
  rw [hlookup]

theorem withDefault_of_lookup (hlookup : Json.lookup key ms = some w) (h : c.run w = .accepted a) :
    withDefault key default c ms = .accepted a := by
  unfold withDefault
  rw [hlookup]
  dsimp only
  rw [h]
  rfl

theorem withDefault_of_missing (hlookup : Json.lookup key ms = none) :
    withDefault key default c ms = .accepted default := by
  unfold withDefault
  rw [hlookup]

end Members

/-! ## Items -/

theorem items_map {c : Check α} {f : α → Json} {as : List α}
    (h : ∀ a ∈ as, c.run (f a) = .accepted a) (index : Nat) :
    items c index (as.map f) = .accepted as := by
  induction as generalizing index with
  | nil => rfl
  | cons a as ih =>
    obtain ⟨ha, has⟩ := List.forall_mem_cons.1 h
    rw [List.map_cons, items, ha, ih has]
    rfl

theorem array_map {c : Check α} {f : α → Json} (h : ∀ a, c.run (f a) = .accepted a)
    (as : List α) : (array c).run (.array (as.map f)) = .accepted as :=
  items_map (fun a _ => h a) 0

/-! ## Restoring -/

/-- What the check reads, it accepts as it is written, and reads it again. -/
def Restores (c : Check α) (write : α → Json) : Prop :=
  ∀ {v a}, c.run v = .accepted a → c.run (write a) = .accepted a

theorem restores_anyText : anyText.Restores .string := by
  intro v s _
  rfl

theorem restores_nonemptyText : nonemptyText.Restores .string := by
  intro v s h
  cases v with
  | string s' =>
    have hrun : (if s'.isEmpty then Verdict.complain .emptyText else .accepted s') =
        .accepted s := h
    split_ifs at hrun with hempty
    · cases hrun
    · obtain rfl := Verdict.accepted.inj hrun
      exact h
  | null | bool | number | array | object => cases h

theorem restores_number (rules : List NumberRule) : (number rules).Restores .number := by
  intro v x h
  obtain ⟨rfl, -⟩ := number_eq_accepted h
  exact h

section Parts

variable {c : Check α} {write : α → Json} {key : String} {ms : Members}

theorem Restores.of_mem {vs : List Json} {as : List α} (hc : c.Restores write)
    (h : List.Forall₂ (fun w a => c.run w = .accepted a) vs as) :
    ∀ a ∈ as, c.run (write a) = .accepted a := by
  induction h with
  | nil => exact nofun
  | cons hw _ ih => exact List.forall_mem_cons.2 ⟨hc hw, ih⟩

theorem restores_array (hc : c.Restores write) :
    (array c).Restores fun as => .array (as.map write) := by
  intro v as h
  obtain ⟨vs, -, hitems⟩ := array_eq_accepted h
  exact items_map (hc.of_mem hitems) 0

theorem restores_nonemptyArray (hc : c.Restores write) :
    (nonemptyArray c).Restores fun as => .array (as.map write) := by
  intro v as h
  obtain ⟨vs, rfl, hitems⟩ := nonemptyArray_eq_accepted h
  have hmap := items_map (hc.of_mem hitems) 0
  cases hitems with
  | nil => cases h
  | cons hw hrest => exact hmap

theorem Restores.required {a : α} (hc : c.Restores write) (h : required key c ms = .accepted a) :
    c.run (write a) = .accepted a := by
  obtain ⟨w, -, hw⟩ := required_eq_accepted h
  exact hc hw

theorem Restores.withDefault {default a : α} (hc : c.Restores write)
    (hdefault : c.run (write default) = .accepted default)
    (h : withDefault key default c ms = .accepted a) : c.run (write a) = .accepted a := by
  rcases withDefault_eq_accepted h with ⟨w, -, hw⟩ | rfl
  · exact hc hw
  · exact hdefault

end Parts

end BinaryReport.Check
