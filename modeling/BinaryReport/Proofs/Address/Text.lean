import BinaryReport.Proofs.Address.Grammar

/-!
# Addresses as text

A text is an address of a space if it denotes an offset in the space and names no other space
(`AddressSpace.parse_eq_ok_iff`). It is refused for anything else, and for one reason only
(`AddressSpace.parse_eq_error_iff`). Both forms in which an address is written denote its offset, so
whatever a report shows as an address can be handed to a tool (`AddressSpace.parse_canonical`).
-/

namespace BinaryReport

open Text

/-- A canonical text consists of digits and the mark of their base. -/
theorem Address.cases_of_mem_canonical {a : Address} {c : Char} (h : c ∈ a.canonical.toList) :
    c = 'x' ∨ ∃ d < 16, c = Nat.digitChar d := by
  unfold canonical at h
  rw [String.toList_ofList] at h
  rcases List.mem_cons.1 h with rfl | h
  · exact Or.inr ⟨0, by decide, rfl⟩
  rcases List.mem_cons.1 h with rfl | h
  · exact Or.inl rfl
  · exact Or.inr (Text.exists_digitChar_of_mem_hexDigits h)

namespace AddressSpace

variable {space : AddressSpace} {text : String} {space? : Option String} {a : Address} {n : Nat}

/-! ## Written addresses -/

theorem denotes_numeral {mark digits : List Char}
    (hspace : ∀ named ∈ space?, isIdentifier named.toList = true) (hmark : mark ∈ marks)
    (hdigits : IsNumeral 16 digits n) : Denotes (front space? ++ (mark ++ digits)) space? n :=
  ⟨[], mark, digits, [], (List.append_nil _).symm, nofun, hspace, hmark, hdigits, nofun⟩

theorem isNumeral_hexDigits (n : Nat) : IsNumeral 16 (hexDigits n) n :=
  isNumeral_toDigits (by decide) (by decide) n

theorem exists_numeral {form : String} (h : form = a.canonical ∨ form = space.native a) :
    ∃ mark ∈ marks, ∃ digits, IsNumeral 16 digits a.offset ∧ form.toList = mark ++ digits := by
  rcases h with rfl | rfl
  · refine ⟨['0', 'x'], by decide, _, isNumeral_hexDigits a.offset, ?_⟩
    rw [Address.canonical, String.toList_ofList]
    rfl
  · have hpadded := (isNumeral_hexDigits a.offset).replicate_zero (by decide)
      (2 * space.pointerSize - (hexDigits a.offset).length)
    refine ⟨[], by decide, _, hpadded, ?_⟩
    rw [native, String.toList_ofList]
    rfl

theorem denotes_written {form : String} (h : form = a.canonical ∨ form = space.native a) :
    Denotes form.toList none a.offset ∧ Denotes ("ram:" ++ form).toList (some name) a.offset := by
  obtain ⟨mark, hmark, digits, hdigits, hform⟩ := exists_numeral h
  constructor
  · rw [hform]
    exact @denotes_numeral none _ _ _ nofun hmark hdigits
  · have hspace : ∀ named ∈ some name, isIdentifier named.toList = true := by
      rintro _ ⟨⟩
      decide +kernel
    rw [String.toList_append, hform]
    exact denotes_numeral hspace hmark hdigits

/-! ## Reading -/

/-- A text denotes an offset without naming another space. -/
def DenotesOwn (cs : List Char) (n : Nat) : Prop :=
  ∃ space?, (∀ named ∈ space?, named = name) ∧ Denotes cs space? n

/-- What a text is refused for: it does not follow the grammar, it names another space, or its offset
lies behind the end of the space. -/
inductive Refuses (space : AddressSpace) (text : String) : AddressError → Prop where
  /-- The text does not follow the grammar. -/
  | malformed (h : ∀ space? n, ¬ Denotes text.toList space? n) : Refuses space text (.malformed text)
  /-- The text names another space, with whatever offset. -/
  | unknownSpace {other : String} {n : Nat} (h : Denotes text.toList (some other) n)
    (hother : other ≠ name) : Refuses space text (.unknownSpace other)
  /-- The offset lies behind the end of the space. -/
  | outOfRange {n : Nat} (h : DenotesOwn text.toList n)
    (hlarge : 2 ^ (8 * space.pointerSize) - 1 < n) : Refuses space text (.outOfRange text)

theorem lt_size_iff : n < space.size ↔ n ≤ 2 ^ (8 * space.pointerSize) - 1 :=
  Nat.lt_iff_le_pred (Nat.two_pow_pos (8 * space.pointerSize))

theorem parse_of_denotesOwn (h : DenotesOwn text.toList n) :
    space.parse text = if n < space.size then .ok ⟨n⟩ else .error (.outOfRange text) := by
  obtain ⟨space?, hown, h⟩ := h
  have hfilter : space?.filter (· ≠ name) = none := by
    cases space? with
    | none => rfl
    | some named => simp [hown named rfl]
  rw [parse, readParts?_eq_some_iff.2 h]
  dsimp only
  rw [hfilter]

theorem parse_of_refuses {e : AddressError} (h : space.Refuses text e) : space.parse text = .error e := by
  cases h with
  | malformed hnone =>
    have hread : readParts? text = none :=
      Option.eq_none_iff_forall_ne_some.2 fun _ hparts => hnone _ _ (readParts?_eq_some_iff.1 hparts)
    rw [parse, hread]
  | @unknownSpace other _ h hother =>
    have hfilter : (some other).filter (· ≠ name) = some other := by simp [hother]
    rw [parse, readParts?_eq_some_iff.2 h]
    dsimp only
    rw [hfilter]
  | outOfRange h hlarge => rw [parse_of_denotesOwn h, if_neg (mt lt_size_iff.1 (not_le.2 hlarge))]

/-- A text denotes an offset of the space, or there is something that it is refused for. -/
theorem denotesOwn_or_refuses (space : AddressSpace) (text : String) :
    (∃ n ≤ 2 ^ (8 * space.pointerSize) - 1, DenotesOwn text.toList n) ∨ ∃ e, space.Refuses text e := by
  by_cases hread : ∃ space? n, Denotes text.toList space? n
  · obtain ⟨space?, n, h⟩ := hread
    by_cases hown : ∀ named ∈ space?, named = name
    · rcases le_or_gt n (2 ^ (8 * space.pointerSize) - 1) with hle | hlarge
      · exact Or.inl ⟨n, hle, space?, hown, h⟩
      · exact Or.inr ⟨_, .outOfRange ⟨space?, hown, h⟩ hlarge⟩
    · push Not at hown
      obtain ⟨other, rfl, hother⟩ := hown
      exact Or.inr ⟨_, .unknownSpace h hother⟩
  · push Not at hread
    exact Or.inr ⟨_, .malformed hread⟩

theorem parse_eq_ok_iff : space.parse text = .ok a ↔
    DenotesOwn text.toList a.offset ∧ a.offset ≤ 2 ^ (8 * space.pointerSize) - 1 := by
  constructor
  · intro h
    obtain ⟨n, hle, hdenotes⟩ | ⟨e, hrefuses⟩ := space.denotesOwn_or_refuses text
    · rw [parse_of_denotesOwn hdenotes, if_pos (lt_size_iff.2 hle)] at h
      obtain rfl := Except.ok.inj h
      exact ⟨hdenotes, hle⟩
    · rw [parse_of_refuses hrefuses] at h
      cases h
  · rintro ⟨hdenotes, hle⟩
    rw [parse_of_denotesOwn hdenotes, if_pos (lt_size_iff.2 hle)]

theorem parse_eq_error_iff {e : AddressError} : space.parse text = .error e ↔ space.Refuses text e := by
  constructor
  · intro h
    obtain ⟨n, hle, hdenotes⟩ | ⟨e', hrefuses⟩ := space.denotesOwn_or_refuses text
    · rw [parse_of_denotesOwn hdenotes, if_pos (lt_size_iff.2 hle)] at h
      cases h
    · rw [parse_of_refuses hrefuses] at h
      obtain rfl := Except.error.inj h
      exact hrefuses
  · exact parse_of_refuses

/-- The canonical text of an address of the space is read back. -/
theorem parse_canonical (h : a.offset < space.size) : space.parse a.canonical = .ok a := by
  obtain ⟨hdenotes, -⟩ := @denotes_written space a _ (Or.inl rfl)
  exact parse_eq_ok_iff.2 ⟨⟨none, nofun, hdenotes⟩, lt_size_iff.1 h⟩

theorem offset_lt_of_parse (h : space.parse text = .ok a) : a.offset < space.size :=
  lt_size_iff.2 (parse_eq_ok_iff.1 h).2

/-- A text is an address of the space exactly if it denotes an offset of the space, and it is refused for
anything else. The canonical and the native form of an address denote its offset, with the name of the
space in front or without it. So two texts of addresses have the same canonical text exactly if they
denote the same offset. -/
theorem parse_iff_denotes (space : AddressSpace) (text : String) :
    (∀ a, space.parse text = .ok a ↔
        DenotesOwn text.toList a.offset ∧ a.offset ≤ 2 ^ (8 * space.pointerSize) - 1) ∧
      (∀ e, space.parse text = .error e ↔ space.Refuses text e) ∧
      (∀ e, space.parse text = .error e → e.raised.kind? = some .addressParse) ∧
      (∀ a, a.offset ≤ 2 ^ (8 * space.pointerSize) - 1 →
        ∀ form, form = a.canonical ∨ form = space.native a →
          space.parse form = .ok a ∧ space.parse ("ram:" ++ form) = .ok a) ∧
      ∀ other a b m n, space.parse text = .ok a → space.parse other = .ok b →
        DenotesOwn text.toList m → DenotesOwn other.toList n →
        (a.canonical = b.canonical ↔ m = n) := by
  refine ⟨fun a => parse_eq_ok_iff, fun e => parse_eq_error_iff, fun _ _ => rfl, ?_, ?_⟩
  · intro a hle form hform
    obtain ⟨hplain, hnamed⟩ := denotes_written hform
    have hown : ∀ named ∈ some name, named = name := fun _ hnamed => (Option.some.inj hnamed).symm
    exact ⟨parse_eq_ok_iff.2 ⟨⟨none, nofun, hplain⟩, hle⟩,
      parse_eq_ok_iff.2 ⟨⟨some name, hown, hnamed⟩, hle⟩⟩
  · intro other a b m n ha hb hm hn
    have hoffset {text : String} {a : Address} {m : Nat} (ha : space.parse text = .ok a)
        (hm : DenotesOwn text.toList m) : a.offset = m := by
      obtain ⟨_, -, h⟩ := (parse_eq_ok_iff.1 ha).1
      obtain ⟨_, -, h'⟩ := hm
      exact (h.unique h').2
    rw [Address.canonical_inj, ← hoffset ha hm, ← hoffset hb hn]
    exact Address.offset_injective.eq_iff.symm

/-- The letters of a name can be digits, and a zero in front can be one of several. -/
theorem parse_iff_denotes_ambiguous :
    (∃ n, DenotesOwn " face".toList n) ∧ Refuses ⟨4⟩ "face:00" (.unknownSpace "face") ∧
      DenotesOwn "ram:0X00ff".toList 255 := by
  have hplain : parse ⟨4⟩ " face" = .ok ⟨64206⟩ := by decide +kernel
  have hnamed : parse ⟨4⟩ "face:00" = .error (.unknownSpace "face") := by decide +kernel
  have hmarked : parse ⟨4⟩ "ram:0X00ff" = .ok ⟨255⟩ := by decide +kernel
  obtain ⟨haccepted, -⟩ := parse_iff_denotes ⟨4⟩ " face"
  obtain ⟨-, hrefused, -⟩ := parse_iff_denotes ⟨4⟩ "face:00"
  obtain ⟨haccepted', -⟩ := parse_iff_denotes ⟨4⟩ "ram:0X00ff"
  exact ⟨⟨_, ((haccepted _).1 hplain).1⟩, (hrefused _).1 hnamed, ((haccepted' _).1 hmarked).1⟩

end AddressSpace

end BinaryReport
