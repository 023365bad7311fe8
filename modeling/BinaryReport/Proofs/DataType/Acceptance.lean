import BinaryReport.Proofs.DataType.Grammar
import Mathlib.Algebra.BigOperators.Ring.List

/-!
# Which texts are data types

A text is a data type if it follows the grammar, its words are those of a built-in type that has a size
or is pointed to, and no dimension is zero (`TypeText.IsAcceptable`). Its length is then the product of
the unit and the dimensions, as long as that is exact (`foldl_mul_dimensions`). Of the things
that can be wrong with a text, which may be several, the first one is the error
(`DataType.parse_accepts_grammar`).
-/

namespace BinaryReport

open Binary64

/-! ## Base types and lengths -/

theorem baseSize?_eq_some_iff {name : String} {size : BaseSize} :
    baseSize? name = some size ↔ (name, size) ∈ baseTypes := by
  have hall : ∀ entry ∈ baseTypes, baseSize? entry.1 = some entry.2 := by decide +kernel
  constructor
  · intro h
    obtain ⟨before, after, hentries, -⟩ := List.lookup_eq_some_iff.1 h
    rw [hentries]
    exact List.mem_append_right before List.mem_cons_self
  · exact hall (name, size)

theorem baseSize?_eq_none_iff {name : String} :
    baseSize? name = none ↔ name ∉ baseTypes.map Prod.fst := by
  rw [Option.eq_none_iff_forall_ne_some]
  simp only [ne_eq, baseSize?_eq_some_iff, List.mem_map, Prod.exists, exists_and_right,
    exists_eq_right, not_exists]

theorem BaseSize.unit_eq_zero_iff {pointerSize : Nat} (hpointer : 0 < pointerSize) {size : BaseSize}
    {stars : Nat} : size.unit pointerSize stars = 0 ↔ size = .bytes 0 ∧ stars = 0 := by
  unfold unit
  by_cases hstars : stars = 0
  · cases size with
    | bytes n => simp [hstars, toNat]
    | pointer => simp [hstars, toNat, Nat.ne_of_gt hpointer]
  · simp [hstars, Nat.ne_of_gt hpointer]

theorem Binary64.IsCount.isZero {x : Binary64} (h : IsCount x) : x.isZero = false := by
  cases h with
  | finite hn => simp [Binary64.isZero, Nat.pos_iff_ne_zero.1 hn]
  | infinite => rfl

theorem isZero_ofNat_iff {n : Nat} : (Binary64.ofNat n).isZero = true ↔ n = 0 := by
  constructor
  · intro h
    by_contra hne
    have hcount := (isCount_ofNat (Nat.pos_of_ne_zero hne)).isZero
    rw [h] at hcount
    cases hcount
  · rintro rfl
    decide +kernel

theorem ofNat_mul_ofNat {m n : Nat} (hm : m ≤ exactLimit) (hn : n ≤ exactLimit) :
    Binary64.ofNat m * Binary64.ofNat n = Binary64.ofNat (m * n) := by
  rw [ofNat_eq hm, ofNat_eq hn]
  show Binary64.round (m * n) = Binary64.round (m * n : Nat)
  rw [Nat.cast_mul]

/-- As long as the product of a unit and of dimensions is exact, it is computed exactly. -/
theorem foldl_mul_dimensions {unit : Nat} (hunit : 0 < unit) {ns : List Nat} (hns : 0 ∉ ns)
    (h : unit * ns.prod ≤ exactLimit) :
    (ns.map Binary64.ofNat).foldl (· * ·) (Binary64.ofNat unit) = .finite (unit * ns.prod : Nat) := by
  induction ns generalizing unit with
  | nil =>
    rw [List.prod_nil, Nat.mul_one] at h ⊢
    exact ofNat_eq h
  | cons n ns ih =>
    have hn : 0 < n := Nat.pos_of_ne_zero fun hzero => hns (hzero ▸ List.mem_cons_self)
    have hrest : 0 ∉ ns := fun hmem => hns (List.mem_cons_of_mem n hmem)
    rw [List.prod_cons, ← Nat.mul_assoc] at h ⊢
    -- No factor is above the product, so the first step is exact.
    have hprod : 0 < ns.prod := Nat.pos_of_ne_zero (List.prod_ne_zero hrest)
    have hproduct : unit * n ≤ exactLimit := (Nat.le_mul_of_pos_right _ hprod).trans h
    have hunit' : unit ≤ exactLimit := (Nat.le_mul_of_pos_right _ hn).trans hproduct
    have hn' : n ≤ exactLimit := (Nat.le_mul_of_pos_left _ hunit).trans hproduct
    rw [List.map_cons, List.foldl_cons, ofNat_mul_ofNat hunit' hn']
    exact ih (Nat.mul_pos hunit hn) hrest h

/-! ## Acceptance -/

/-- The words are those of a built-in type that has a size or is pointed to, and no dimension is
zero. -/
structure TypeText.IsAcceptable (t : TypeText) : Prop where
  /-- The type is built in. -/
  known : t.base ∈ baseTypes.map Prod.fst
  /-- A type without a size is pointed to. -/
  sized : (t.base, .bytes 0) ∈ baseTypes → t.stars ≠ 0
  /-- No dimension is zero. -/
  positive : 0 ∉ t.dimensions

/-- The unit of an acceptable text has a byte at least. -/
theorem TypeText.IsAcceptable.unit_pos {t : TypeText} (h : t.IsAcceptable) {pointerSize : Nat}
    (hpointer : 0 < pointerSize) {size : BaseSize} (hbase : baseSize? t.base = some size) :
    0 < size.unit pointerSize t.stars := by
  refine Nat.pos_of_ne_zero fun hzero => ?_
  obtain ⟨rfl, hstars⟩ := (BaseSize.unit_eq_zero_iff hpointer).1 hzero
  exact h.sized (baseSize?_eq_some_iff.1 hbase) hstars

/-- What is wrong with a text, each thing for itself. -/
inductive DataTypeError.Applies (text : String) : DataTypeError → Prop where
  /-- The text does not follow the grammar. -/
  | malformed (h : ∀ t, ¬ TypeText.Denotes text.toList t) : Applies text (.malformed text)
  /-- Its words are those of no built-in type. -/
  | unknownBase {t : TypeText} (h : t.Denotes text.toList)
    (hbase : t.base ∉ baseTypes.map Prod.fst) : Applies text (.unknownBase t.base)
  /-- Its type has no size and is not pointed to. -/
  | sizeless {t : TypeText} (h : t.Denotes text.toList) (hbase : (t.base, .bytes 0) ∈ baseTypes)
    (hstars : t.stars = 0) : Applies text (.sizeless t.base)
  /-- A dimension is zero. -/
  | zeroDimension {t : TypeText} (h : t.Denotes text.toList) (hzero : 0 ∈ t.dimensions) :
    Applies text (.zeroDimension text)

namespace DataTypeError

/-- The place of an error among those that are looked for. -/
def rank : DataTypeError → Nat
  | .malformed _ => 0
  | .unknownBase _ => 1
  | .sizeless _ => 2
  | .zeroDimension _ => 3

section Applies

variable {text : String} {t : TypeText} {e e' : DataTypeError}

theorem Applies.rank_pos (happlies : Applies text e) (h : t.Denotes text.toList) : 1 ≤ e.rank := by
  cases happlies with
  | malformed hnone => exact absurd h (hnone t)
  | unknownBase => exact Nat.le_refl 1
  | sizeless => exact Nat.le_succ 1
  | zeroDimension => exact Nat.le_add_left 1 2

theorem Applies.two_le_rank (happlies : Applies text e) (h : t.Denotes text.toList)
    (hknown : t.base ∈ baseTypes.map Prod.fst) : 2 ≤ e.rank := by
  cases happlies with
  | malformed hnone => exact absurd h (hnone t)
  | unknownBase h' hbase => exact absurd hknown (h.unique h' ▸ hbase)
  | sizeless => exact Nat.le_refl 2
  | zeroDimension => exact Nat.le_succ 2

theorem Applies.three_le_rank (happlies : Applies text e) (h : t.Denotes text.toList)
    (hknown : t.base ∈ baseTypes.map Prod.fst)
    (hsized : (t.base, .bytes 0) ∈ baseTypes → t.stars ≠ 0) : 3 ≤ e.rank := by
  cases happlies with
  | malformed hnone => exact absurd h (hnone t)
  | unknownBase h' hbase => exact absurd hknown (h.unique h' ▸ hbase)
  | sizeless h' hbase hstars =>
    obtain rfl := h.unique h'
    exact absurd hstars (hsized hbase)
  | zeroDimension => exact Nat.le_refl 3

theorem not_applies_of_isAcceptable (h : t.Denotes text.toList) (hacceptable : t.IsAcceptable) :
    ¬ Applies text e := by
  intro happlies
  have hrank := happlies.three_le_rank h hacceptable.known hacceptable.sized
  cases happlies with
  | zeroDimension h' hzero => exact hacceptable.positive (h.unique h' ▸ hzero)
  | _ => simp [rank] at hrank

/-- No two errors of the same place are wrong with a text. -/
theorem Applies.unique (happlies : Applies text e) (happlies' : Applies text e')
    (hrank : e.rank = e'.rank) : e = e' := by
  cases happlies with
  | malformed =>
    cases happlies' with
    | malformed => rfl
    | _ => cases hrank
  | unknownBase h =>
    cases happlies' with
    | unknownBase h' => rw [h.unique h']
    | _ => cases hrank
  | sizeless h =>
    cases happlies' with
    | sizeless h' => rw [h.unique h']
    | _ => cases hrank
  | zeroDimension =>
    cases happlies' with
    | zeroDimension => rfl
    | _ => cases hrank

end Applies

end DataTypeError

namespace DataType

open DataTypeError

variable {pointerSize : Nat}

/-- The error is the first thing that is wrong with the text. -/
def Blames (text : String) (e : DataTypeError) : Prop :=
  Applies text e ∧ ∀ e', Applies text e' → e.rank ≤ e'.rank

/-- A text that follows the grammar fails for the first thing that is wrong with it, or it is
acceptable. -/
theorem parse_cases (hpointer : 0 < pointerSize) (text : String) :
    (∃ e, parse pointerSize text = .error e ∧ Blames text e) ∨
      ∃ (t : TypeText) (size : BaseSize), t.Denotes text.toList ∧ t.IsAcceptable ∧
        baseSize? t.base = some size ∧
        parse pointerSize text =
          .ok ⟨nameOf t.base t.stars (t.dimensions.map Binary64.ofNat),
            (t.dimensions.map Binary64.ofNat).foldl (· * ·)
              (.ofNat (size.unit pointerSize t.stars))⟩ := by
  cases hread : TypeText.read? text with
  | none =>
    have hnone : ∀ t, ¬ TypeText.Denotes text.toList t := by
      intro t h
      rw [TypeText.read?_eq_some_iff.2 h] at hread
      cases hread
    refine Or.inl ⟨.malformed text, ?_, .malformed hnone, fun e' _ => Nat.zero_le e'.rank⟩
    rw [parse, hread]
  | some t =>
    have h := TypeText.read?_eq_some_iff.1 hread
    rw [parse_of_read hread]
    cases hbase : baseSize? t.base with
    | none =>
      have hunknown := baseSize?_eq_none_iff.1 hbase
      refine Or.inl ⟨.unknownBase t.base, ?_, .unknownBase h hunknown, fun e' he' => he'.rank_pos h⟩
      rw [ofTypeText, hbase]
    | some size =>
      have hmem := baseSize?_eq_some_iff.1 hbase
      have hknown : t.base ∈ baseTypes.map Prod.fst := List.mem_map_of_mem hmem
      by_cases hunit : size.unit pointerSize t.stars = 0
      · obtain ⟨rfl, hstars⟩ := (BaseSize.unit_eq_zero_iff hpointer).1 hunit
        refine Or.inl ⟨.sizeless t.base, ?_, .sizeless h hmem hstars,
          fun e' he' => he'.two_le_rank h hknown⟩
        rw [ofTypeText, hbase]
        exact if_pos hunit
      · have hsized : (t.base, .bytes 0) ∈ baseTypes → t.stars ≠ 0 := by
          intro hvoid hstars
          have hsize := hbase.symm.trans (baseSize?_eq_some_iff.2 hvoid)
          exact hunit ((BaseSize.unit_eq_zero_iff hpointer).2 ⟨Option.some.inj hsize, hstars⟩)
        by_cases hzero : 0 ∈ t.dimensions
        · refine Or.inl ⟨.zeroDimension text, ?_, .zeroDimension h hzero,
            fun e' he' => he'.three_le_rank h hknown hsized⟩
          have hany : (t.dimensions.map Binary64.ofNat).any isZero = true := by
            simpa [isZero_ofNat_iff] using hzero
          rw [ofTypeText, hbase]
          exact (if_neg hunit).trans (if_pos hany)
        · refine Or.inr ⟨t, size, h, ⟨hknown, hsized, hzero⟩, hbase, ?_⟩
          refine ofTypeText_eq_ok_iff.2 ⟨size, hbase, hunit, fun n hn => ?_, rfl⟩
          refine Bool.eq_false_iff.2 fun hn' => hzero ?_
          rwa [isZero_ofNat_iff.1 hn'] at hn

theorem exists_parse_iff (hpointer : 0 < pointerSize) (text : String) :
    (∃ t, parse pointerSize text = .ok t) ↔
      ∃ parts : TypeText, parts.Denotes text.toList ∧ parts.IsAcceptable := by
  obtain ⟨e, hparse, hblames⟩ | ⟨parts, _, h, hacceptable, -, hparse⟩ :=
    parse_cases hpointer text
  · refine iff_of_false ?_ ?_
    · rintro ⟨t, ht⟩
      rw [hparse] at ht
      cases ht
    · rintro ⟨parts, h, hacceptable⟩
      exact not_applies_of_isAcceptable h hacceptable hblames.1
  · exact iff_of_true ⟨_, hparse⟩ ⟨parts, h, hacceptable⟩

theorem parse_eq_error_iff (hpointer : 0 < pointerSize) (text : String) (e : DataTypeError) :
    parse pointerSize text = .error e ↔ Blames text e := by
  obtain ⟨e', hparse, hblames⟩ | ⟨parts, _, h, hacceptable, -, hparse⟩ :=
    parse_cases hpointer text
  · rw [hparse]
    constructor
    · intro he
      obtain rfl := Except.error.inj he
      exact hblames
    · intro hblames'
      -- Neither error comes before the other, so they are of one kind.
      have hrank := le_antisymm (hblames.2 e hblames'.1) (hblames'.2 e' hblames.1)
      rw [hblames.1.unique hblames'.1 hrank]
  · rw [hparse]
    refine iff_of_false nofun fun hblames => ?_
    exact not_applies_of_isAcceptable h hacceptable hblames.1

theorem length_eq_prod (hpointer : 0 < pointerSize) {text : String} {t : DataType} {parts : TypeText}
    {size : BaseSize} (ht : parse pointerSize text = .ok t) (hparts : parts.Denotes text.toList)
    (hbase : baseSize? parts.base = some size)
    (hlimit : size.unit pointerSize parts.stars * parts.dimensions.prod ≤ 2 ^ 53) :
    t.length = .finite (size.unit pointerSize parts.stars * parts.dimensions.prod : Nat) ∧
      1 ≤ size.unit pointerSize parts.stars * parts.dimensions.prod := by
  obtain ⟨e, hparse, -⟩ | ⟨parts', size', h, hacceptable, hbase', hparse⟩ :=
    parse_cases hpointer text
  · rw [hparse] at ht
    cases ht
  · obtain rfl := h.unique hparts
    obtain rfl := Option.some.inj (hbase'.symm.trans hbase)
    obtain rfl := Except.ok.inj (hparse.symm.trans ht)
    have hunit := hacceptable.unit_pos hpointer hbase
    have hprod := Nat.pos_of_ne_zero (List.prod_ne_zero hacceptable.positive)
    exact ⟨foldl_mul_dimensions hunit hacceptable.positive hlimit, Nat.mul_pos hunit hprod⟩

/-- A text is a data type exactly if it follows the grammar and is acceptable. Its length is the product
of the unit and the dimensions, if that is at most `2 ^ 53`. Any other text is refused for the first
thing that is wrong with it. -/
theorem parse_accepts_grammar (hpointer : 0 < pointerSize) (text : String) :
    ((∃ t, parse pointerSize text = .ok t) ↔
        ∃ parts : TypeText, parts.Denotes text.toList ∧ parts.IsAcceptable) ∧
      (∀ (t : DataType) (parts : TypeText) (size : BaseSize), parse pointerSize text = .ok t →
        parts.Denotes text.toList → baseSize? parts.base = some size →
        size.unit pointerSize parts.stars * parts.dimensions.prod ≤ 2 ^ 53 →
        t.length = .finite (size.unit pointerSize parts.stars * parts.dimensions.prod : Nat) ∧
          1 ≤ size.unit pointerSize parts.stars * parts.dimensions.prod) ∧
      (∀ e, parse pointerSize text = .error e ↔ Blames text e) ∧
      ∀ e, parse pointerSize text = .error e → e.raised.kind? = some .typeParse := by
  refine ⟨exists_parse_iff hpointer text, ?_, parse_eq_error_iff hpointer text, fun _ _ => rfl⟩
  intro t parts size ht hparts hbase hlimit
  exact length_eq_prod hpointer ht hparts hbase hlimit

/-- A text with blanks wherever they may be, and one with two faults. -/
theorem parse_accepts_grammar_spaced :
    0 < 4 ∧
      (∃ parts : TypeText, parts.Denotes " unsigned  char * [ 03 ] [2]".toList ∧
        parts.IsAcceptable) ∧
      Blames "void [0]" (.sizeless "void") := by
  have hspaced : parse 4 " unsigned  char * [ 03 ] [2]" =
      .ok ⟨"unsigned char *[3][2]", .finite 24⟩ := by decide +kernel
  have hvoid : parse 4 "void [0]" = .error (.sizeless "void") := by decide +kernel
  obtain ⟨haccepted, -, -, -⟩ :=
    parse_accepts_grammar (by decide : 0 < 4) " unsigned  char * [ 03 ] [2]"
  obtain ⟨-, -, hrefused, -⟩ := parse_accepts_grammar (by decide : 0 < 4) "void [0]"
  exact ⟨by decide, haccepted.1 ⟨_, hspaced⟩, (hrefused _).1 hvoid⟩

end DataType

end BinaryReport
