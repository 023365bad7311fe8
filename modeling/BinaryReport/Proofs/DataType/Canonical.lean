import BinaryReport.Proofs.Binary64.Order
import BinaryReport.Proofs.DataType.Grammar

/-!
# Canonical names of data types

The name that is made of the parts of a text consists of the same parts, so it is read back as them
(`TypeText.Denotes.name`), and texts of different parts have different names (`DataType.name_canonical`).
This needs dimensions that are written as they are. They are if the length is exact
(`DataType.parse_name`): it is a product of the dimensions then, and the factors of a count are not above
it (`le_exactLimit_of_foldl_mul`).
-/

namespace BinaryReport

open Binary64

/-! ## Factors -/

namespace Binary64

/-- The next representable number behind the limit. -/
theorem ofNat_next : ofNat (exactLimit + 2) = .finite (exactLimit + 2 : Nat) := by decide +kernel

theorem ofNat_next_le_infinite : ofNat (exactLimit + 2) ≤ .infinite false := by
  rw [ofNat_next]
  rfl

theorem not_ofNat_le_exactLimit {x : Binary64} (hlarge : ofNat (exactLimit + 2) ≤ x) :
    ¬ x ≤ ofNat exactLimit := by
  intro hle
  have hcross : ¬ ofNat (exactLimit + 2) ≤ ofNat exactLimit := by
    rw [ofNat_next, le_ofNat_exactLimit_iff]
    omega
  exact hcross (Binary64.le_trans hlarge hle)

/-- Behind the limit the next representable number is two away. -/
theorem le_exactLimit_or {x : Binary64} (hcount : IsCount x) (hrounded : IsRounded x) :
    x ≤ ofNat exactLimit ∨ ofNat (exactLimit + 2) ≤ x := by
  cases hcount with
  | infinite => exact Or.inr ofNat_next_le_infinite
  | @finite n hn =>
    by_cases hle : n ≤ exactLimit
    · exact Or.inl (le_ofNat_exactLimit_iff.2 hle)
    · right
      obtain ⟨m, hm⟩ := hrounded n rfl
      have hnext : exactLimit + 2 ≤ n := by
        rcases isRepresentable_of_round hm with hsmall | ⟨hdvd, -⟩
        · exact absurd hsmall hle
        · have hlog : 53 ≤ n.log2 := (Nat.le_log2 (by omega)).2 (le_of_lt (not_le.1 hle))
          have heven : 2 ∣ n := (Nat.pow_dvd_pow 2 (by omega : 1 ≤ n.log2 - 52)).trans hdvd
          have hlimit : exactLimit % 2 = 0 := by decide
          omega
      rw [ofNat_next]
      exact finite_le_finite_iff.2 (Nat.cast_le.2 hnext)

/-- A product of counts is behind the limit if a factor is. -/
theorem IsCount.large_mul {x y : Binary64} (hx : IsCount x) (hy : IsCount y)
    (hlarge : ofNat (exactLimit + 2) ≤ x ∨ ofNat (exactLimit + 2) ≤ y) :
    ofNat (exactLimit + 2) ≤ x * y := by
  cases hx with
  | infinite =>
    rw [infinite_mul_count hy]
    exact ofNat_next_le_infinite
  | @finite n hn =>
    cases hy with
    | infinite =>
      rw [count_mul_infinite (.finite hn)]
      exact ofNat_next_le_infinite
    | @finite m hm =>
      have hfactor : exactLimit + 2 ≤ n ∨ exactLimit + 2 ≤ m := by
        rw [ofNat_next, finite_le_finite_iff, finite_le_finite_iff, Nat.cast_le, Nat.cast_le] at hlarge
        exact hlarge
      have hproduct : exactLimit + 2 ≤ n * m := by
        rcases hfactor with hle | hle
        · exact hle.trans (Nat.le_mul_of_pos_right n hm)
        · exact hle.trans (Nat.le_mul_of_pos_left m hn)
      show _ ≤ round (n * m)
      rw [← Nat.cast_mul]
      exact ofNat_mono hproduct

theorem IsCount.le_exactLimit_of_mul {x y : Binary64} (hx : IsCount x) (hy : IsCount y)
    (hx' : IsRounded x) (hy' : IsRounded y) (h : x * y ≤ ofNat exactLimit) :
    x ≤ ofNat exactLimit ∧ y ≤ ofNat exactLimit := by
  have hsmall := fun hlarge => not_ofNat_le_exactLimit (hx.large_mul hy hlarge) h
  exact ⟨(le_exactLimit_or hx hx').resolve_right fun hlarge => hsmall (Or.inl hlarge),
    (le_exactLimit_or hy hy').resolve_right fun hlarge => hsmall (Or.inr hlarge)⟩

theorem le_exactLimit_of_foldl_mul {x : Binary64} {ys : List Binary64} (hx : IsCount x)
    (hx' : IsRounded x) (hys : ∀ y ∈ ys, IsCount y ∧ IsRounded y)
    (h : ys.foldl (· * ·) x ≤ ofNat exactLimit) :
    x ≤ ofNat exactLimit ∧ ∀ y ∈ ys, y ≤ ofNat exactLimit := by
  induction ys generalizing x with
  | nil => exact ⟨h, nofun⟩
  | cons y ys ih =>
    obtain ⟨⟨hy, hy'⟩, hrest⟩ := List.forall_mem_cons.1 hys
    obtain ⟨hproduct, hall⟩ := ih (hx.mul hy) (hx.isRounded_mul hy) hrest h
    obtain ⟨hfirst, hsecond⟩ := hx.le_exactLimit_of_mul hy hx' hy' hproduct
    exact ⟨hfirst, List.forall_mem_cons.2 ⟨hsecond, hall⟩⟩

theorem text_natCast {n : Nat} (h : n ≤ exactLimit) :
    Binary64.text (.finite n) = String.ofList (Nat.toDigits 10 n) := by
  by_cases hzero : n = 0
  · subst hzero
    rfl
  · have hne : ¬ (n : Rat) = 0 := Nat.cast_ne_zero.2 hzero
    have hsign : ¬ (n : Rat) < 0 := not_lt.2 (Nat.cast_nonneg n)
    unfold Binary64.text positiveText
    dsimp only
    rw [if_neg hne, if_neg hsign, Rat.den_natCast, Rat.num_natCast, Int.natAbs_natCast,
      if_pos ⟨rfl, h⟩]

end Binary64

/-! ## Names as texts -/

namespace TypeText

/-- The bracketed text of dimensions. -/
def brackets (ns : List Nat) : List Char := ns.flatMap fun n => '[' :: Nat.toDigits 10 n ++ [']']

theorem dimensions_brackets (ns : List Nat) : Dimensions (brackets ns) ns := by
  induction ns with
  | nil => exact .none
  | cons n ns ih =>
    have hdigits := Text.isNumeral_toDigits (by decide) (by decide : 10 ≤ 16) n
    have h := @Dimensions.dimension [] _ [] [] _ n ns nofun hdigits nofun nofun ih
    simpa [brackets] using h

theorem stars_replicate (stars : Nat) : Stars (List.replicate stars '*') stars := by
  induction stars with
  | zero => exact .none
  | succ stars ih => exact @Stars.star [] _ stars nofun ih

/-- What stands between the words of a base type and the stars, if there are any. -/
def gap (stars : Nat) : List Char := if stars = 0 then [] else [' ']

theorem areBlank_gap (stars : Nat) : Text.AreBlank (gap stars) := by
  unfold gap
  split
  · exact nofun
  · intro c hc
    obtain rfl := List.mem_singleton.1 hc
    decide

theorem toList_dimensionText {n : Nat} (h : n ≤ exactLimit) :
    (DataType.dimensionText (.ofNat n)).toList = '[' :: Nat.toDigits 10 n ++ [']'] := by
  rw [DataType.dimensionText, ofNat_eq h, text_natCast h, String.toList_append, String.toList_append,
    String.toList_ofList]
  simp

theorem toList_join_dimensionText {ns : List Nat} (h : ∀ n ∈ ns, n ≤ exactLimit) :
    (String.join ((ns.map Binary64.ofNat).map DataType.dimensionText)).toList = brackets ns := by
  rw [String.toList_join]
  unfold brackets
  induction ns with
  | nil => rfl
  | cons n ns ih =>
    obtain ⟨hn, hns⟩ := List.forall_mem_cons.1 h
    rw [List.map_cons, List.map_cons, List.flatMap_cons, List.flatMap_cons, toList_dimensionText hn,
      ih hns]

theorem toList_nameOf (name : String) (stars : Nat) {ns : List Nat} (h : ∀ n ∈ ns, n ≤ exactLimit) :
    (DataType.nameOf name stars (ns.map Binary64.ofNat)).toList =
      (name.toList ++ gap stars) ++ (List.replicate stars '*' ++ brackets ns) := by
  have hstars : (if stars = 0 then "" else String.ofList (' ' :: List.replicate stars '*')).toList =
      gap stars ++ List.replicate stars '*' := by
    unfold gap
    split
    · next hzero => rw [hzero]; rfl
    · rw [String.toList_ofList]
      rfl
  rw [DataType.nameOf, String.toList_append, String.toList_append, hstars,
    toList_join_dimensionText h]
  simp only [List.append_assoc]

/-- The name that is made of parts consists of these parts, whatever the text that they are from. -/
theorem Denotes.name {cs : List Char} {t : TypeText} (h : t.Denotes cs) {ns : List Nat}
    (hns : ∀ n ∈ ns, n ≤ exactLimit) :
    Denotes (DataType.nameOf t.base t.stars (ns.map Binary64.ofNat)).toList ⟨t.words, t.stars, ns⟩ := by
  obtain ⟨head, -, -, -, hwords, hne, hidentifiers, -, -⟩ := h
  have hbase : t.base.toList = [' '].intercalate (t.words.map String.toList) :=
    String.toList_intercalate
  have hspaced : Text.Spaced (t.base.toList ++ gap t.stars) (t.words.map String.toList) := by
    rw [hbase]
    exact (Text.spaced_intercalate (by decide) hwords.isWord).append (areBlank_gap t.stars)
  exact ⟨_, _, _, toList_nameOf t.base t.stars hns, hspaced, hne, hidentifiers,
    stars_replicate t.stars, dimensions_brackets ns⟩

end TypeText

namespace DataType

variable {pointerSize : Nat} {text : String} {t : DataType} {parts : TypeText}

/-- Exact counts are numbers that are denoted exactly. -/
theorem exists_exact_dimensions {ys : List Binary64}
    (h : ∀ y ∈ ys, IsCount y ∧ y ≤ Binary64.ofNat exactLimit) :
    ∃ ns : List Nat, (∀ n ∈ ns, n ≤ exactLimit) ∧ ns.map Binary64.ofNat = ys := by
  induction ys with
  | nil => exact ⟨[], nofun, rfl⟩
  | cons y ys ih =>
    obtain ⟨⟨hcount, hle⟩, hrest⟩ := List.forall_mem_cons.1 h
    obtain ⟨ns, hns, rfl⟩ := ih hrest
    cases hcount with
    | infinite =>
      have hcross : ¬ Binary64.infinite false ≤ Binary64.ofNat exactLimit := by
        rw [ofNat_eq (Nat.le_refl _)]
        exact Bool.false_ne_true
      exact absurd hle hcross
    | @finite n hn =>
      have hsmall := le_ofNat_exactLimit_iff.1 hle
      refine ⟨n :: ns, List.forall_mem_cons.2 ⟨hsmall, hns⟩, ?_⟩
      rw [List.map_cons, ofNat_eq hsmall]

theorem parse_eq_ok_iff (hparts : parts.Denotes text.toList) :
    parse pointerSize text = .ok t ↔ ofTypeText pointerSize text parts = .ok t := by
  rw [parse_of_read (TypeText.read?_eq_some_iff.2 hparts)]

theorem exists_denotes (h : parse pointerSize text = .ok t) :
    ∃ parts : TypeText, parts.Denotes text.toList := by
  cases hread : TypeText.read? text with
  | none =>
    rw [parse, hread] at h
    cases h
  | some parts => exact ⟨parts, TypeText.read?_eq_some_iff.1 hread⟩

/-- The name of a type is read back as that type, with its dimensions as numbers that are small enough
to be exact. -/
theorem parse_name_of_dimensions (h : parse pointerSize text = .ok t)
    (hparts : parts.Denotes text.toList) {ns : List Nat} (hns : ∀ n ∈ ns, n ≤ exactLimit)
    (hdimensions : ns.map Binary64.ofNat = parts.dimensions.map Binary64.ofNat) :
    TypeText.Denotes t.name.toList ⟨parts.words, parts.stars, ns⟩ ∧
      parse pointerSize t.name = .ok t := by
  obtain ⟨size, hsize, hunit, hzero, rfl⟩ := ofTypeText_eq_ok_iff.1 ((parse_eq_ok_iff hparts).1 h)
  have hname := hparts.name hns
  rw [hdimensions] at hname
  refine ⟨hname, (parse_eq_ok_iff hname).2 (ofTypeText_eq_ok_iff.2 ⟨size, hsize, hunit, ?_, ?_⟩)⟩
  · intro n hn
    have hmem := List.mem_map_of_mem (f := Binary64.ofNat) hn
    rw [hdimensions] at hmem
    obtain ⟨m, hm, heq⟩ := List.mem_map.1 hmem
    rw [← heq]
    exact hzero m hm
  · rw [hdimensions]
    rfl

/-- The name of a type whose length is exact is read back as that type. -/
theorem parse_name (h : parse pointerSize text = .ok t)
    (hexact : t.length ≤ Binary64.ofNat exactLimit) : parse pointerSize t.name = .ok t := by
  obtain ⟨parts, hparts⟩ := exists_denotes h
  obtain ⟨size, -, hunit, hzero, rfl⟩ := ofTypeText_eq_ok_iff.1 ((parse_eq_ok_iff hparts).1 h)
  have hcounts : ∀ y ∈ parts.dimensions.map Binary64.ofNat, IsCount y ∧ IsRounded y := by
    intro y hy
    obtain ⟨n, hn, rfl⟩ := List.mem_map.1 hy
    exact ⟨isCount_ofNat_of_isZero (hzero n hn), isRounded_ofNat n⟩
  have hsmall := (le_exactLimit_of_foldl_mul (isCount_ofNat (Nat.pos_of_ne_zero hunit))
    (isRounded_ofNat _) hcounts hexact).2
  obtain ⟨ns, hns, hdimensions⟩ :=
    exists_exact_dimensions fun y hy => ⟨(hcounts y hy).1, hsmall y hy⟩
  exact (parse_name_of_dimensions h hparts hns hdimensions).2

theorem name_eq (h : parse pointerSize text = .ok t) (hparts : parts.Denotes text.toList) :
    t.name = nameOf parts.base parts.stars (parts.dimensions.map Binary64.ofNat) := by
  obtain ⟨size, -, -, -, rfl⟩ := ofTypeText_eq_ok_iff.1 ((parse_eq_ok_iff hparts).1 h)
  rfl

/-- A name is read back as the type that it is the name of, and it is the name of those texts that have
the same words, as many stars and the same dimensions, if no dimension is above `2 ^ 53`. -/
theorem name_canonical (h : parse pointerSize text = .ok t) (hparts : parts.Denotes text.toList)
    (hexact : ∀ n ∈ parts.dimensions, n ≤ 2 ^ 53) :
    parse pointerSize t.name = .ok t ∧
      ∀ (other : String) (u : DataType) (parts' : TypeText), parse pointerSize other = .ok u →
        parts'.Denotes other.toList → (∀ n ∈ parts'.dimensions, n ≤ 2 ^ 53) →
        (u.name = t.name ↔ parts'.words = parts.words ∧ parts'.stars = parts.stars ∧
          parts'.dimensions = parts.dimensions) := by
  obtain ⟨hname, hparse⟩ := parse_name_of_dimensions h hparts hexact rfl
  refine ⟨hparse, fun other u parts' h' hparts' hexact' => ?_⟩
  constructor
  · intro hsame
    obtain ⟨hname', -⟩ := parse_name_of_dimensions h' hparts' hexact' rfl
    rw [hsame] at hname'
    obtain rfl : parts' = parts := hname'.unique hname
    exact ⟨rfl, rfl, rfl⟩
  · rintro ⟨hwords, hstars, hdimensions⟩
    rw [name_eq h hparts, name_eq h' hparts', TypeText.base, hwords, hstars, hdimensions]
    rfl

/-- Blanks and zeros in front of a dimension do not make a different name. -/
theorem name_canonical_spaced :
    ∃ t u, parse 4 "unsigned  char*[ 003 ]" = .ok t ∧ parse 4 " unsigned char * [3]" = .ok u ∧
      parse 4 t.name = .ok t ∧ u.name = t.name := by
  have h : parse 4 "unsigned  char*[ 003 ]" = .ok ⟨"unsigned char *[3]", .finite 12⟩ := by
    decide +kernel
  have h' : parse 4 " unsigned char * [3]" = .ok ⟨"unsigned char *[3]", .finite 12⟩ := by
    decide +kernel
  have hparts : TypeText.Denotes "unsigned  char*[ 003 ]".toList ⟨["unsigned", "char"], 1, [3]⟩ :=
    TypeText.read?_eq_some_iff.1 (by decide +kernel)
  have hparts' : TypeText.Denotes " unsigned char * [3]".toList ⟨["unsigned", "char"], 1, [3]⟩ :=
    TypeText.read?_eq_some_iff.1 (by decide +kernel)
  obtain ⟨hparse, hname⟩ := name_canonical h hparts (by decide)
  exact ⟨_, _, h, h', hparse, (hname _ _ _ h' hparts' (by decide)).2 ⟨rfl, rfl, rfl⟩⟩

end DataType

end BinaryReport
