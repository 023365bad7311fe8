import BinaryReport.Proofs.Json.Pretty

/-!
# Scanning JSON

A scan goes through a text and keeps only whether it stands in a string (`Place`). It fails at an
underscore outside of strings, where valid JSON has none. Reading a value moves the scan along
(`scanned`), so that all of a valid text is scanned, back to a place outside of strings
(`scan_of_readChars?`).

A text that is cut off inside a string is therefore not valid (`readChars?_cut`): the scan of the
whole text would meet the character at the cut outside of strings.
-/

namespace BinaryReport.Json

/-- Where a scan stands. -/
inductive Place where
  /-- Outside of strings. -/
  | outside
  /-- In a string. -/
  | inside
  /-- In a string, behind a backslash. -/
  | escape
deriving DecidableEq

/-- The place behind a character; nothing behind an underscore outside of strings. -/
def Place.next? : Place → Char → Option Place
  | .outside, c => if c = '_' then none else some (if c = '"' then .inside else .outside)
  | .inside, c => some (if c = '"' then .outside else if c = '\\' then .escape else .inside)
  | .escape, _ => some .inside

/-- The place behind a text. -/
def scan (place : Place) : List Char → Option Place
  | [] => some place
  | c :: cs => (place.next? c).bind fun next => scan next cs

/-! ## Pieces of a text -/

theorem scan_append (place : Place) (a b : List Char) :
    scan place (a ++ b) = (scan place a).bind fun next => scan next b := by
  induction a generalizing place with
  | nil => rfl
  | cons c a ih =>
    rw [List.cons_append, scan, scan]
    cases place.next? c with
    | none => rfl
    | some next => exact ih next

/-- A character that neither opens a string nor is an underscore. -/
def isBare (c : Char) : Bool := c ≠ '"' && c ≠ '_'

theorem scan_cons_of_isBare {c : Char} (h : isBare c = true) (cs : List Char) :
    scan .outside (c :: cs) = scan .outside cs := by
  simp only [isBare, Bool.and_eq_true, decide_eq_true_eq] at h
  rw [scan, Place.next?, if_neg h.2, if_neg h.1]
  rfl

theorem scan_append_of_isBare {a : List Char} (h : ∀ c ∈ a, isBare c = true) (b : List Char) :
    scan .outside (a ++ b) = scan .outside b := by
  induction a with
  | nil => rfl
  | cons c a ih =>
    rw [List.cons_append, scan_cons_of_isBare (h c List.mem_cons_self)]
    exact ih fun d hd => h d (List.mem_cons_of_mem c hd)

theorem scan_dropWhile {p : Char → Bool} (h : ∀ c, p c = true → isBare c = true)
    (cs : List Char) : scan .outside (cs.dropWhile p) = scan .outside cs := by
  have hsplit : cs.takeWhile p ++ cs.dropWhile p = cs := List.takeWhile_append_dropWhile
  have hbare : ∀ c ∈ cs.takeWhile p, isBare c = true := fun c hc =>
    h c (List.all_eq_true.1 (List.all_takeWhile ..) c hc)
  rw [← scan_append_of_isBare hbare, hsplit]

theorem isBare_of_isSeparator {c : Char} (h : isSeparator c = true) : isBare c = true := by
  simp only [isSeparator, Bool.or_eq_true, decide_eq_true_eq] at h
  rcases h with ((rfl | rfl) | rfl) | rfl <;> rfl

theorem scan_skipSeparators (cs : List Char) :
    scan .outside (skipSeparators cs) = scan .outside cs :=
  scan_dropWhile (fun _ h => isBare_of_isSeparator h) cs

/-! ## Strings -/

/-- A character that is no quote and no backslash leaves the scan in the string. -/
theorem scan_inside_cons {c : Char} (h1 : c ≠ '"') (h2 : c ≠ '\\') (cs : List Char) :
    scan .inside (c :: cs) = scan .inside cs := by
  rw [scan, Place.next?, if_neg h1, if_neg h2]
  rfl

theorem digit_ne {c : Char} (h : Text.isDigitOf 16 c = true) : c ≠ '"' ∧ c ≠ '\\' := by
  constructor
  · rintro rfl
    exact absurd h (by decide)
  · rintro rfl
    exact absurd h (by decide)

theorem scan_inside_hexUnit {a b c d : Char} {u : Nat} (h : hexUnit? a b c d = some u)
    (cs : List Char) : scan .inside (a :: b :: c :: d :: cs) = scan .inside cs := by
  simp only [hexUnit?, Text.readDigits?, Option.ite_none_right_eq_some, Bool.and_eq_true,
    List.all_cons, List.all_nil] at h
  obtain ⟨⟨-, ha, hb, hc, hd, -⟩, -⟩ := h
  rw [scan_inside_cons (digit_ne ha).1 (digit_ne ha).2,
    scan_inside_cons (digit_ne hb).1 (digit_ne hb).2,
    scan_inside_cons (digit_ne hc).1 (digit_ne hc).2,
    scan_inside_cons (digit_ne hd).1 (digit_ne hd).2]

/-- Reading a string takes the scan from the string to the place behind it. -/
theorem scan_of_readString {pending : Option Nat} {done cs rest : List Char} {s : String}
    (h : readString pending done cs = some (s, rest)) : scan .inside cs = scan .outside rest := by
  fun_induction readString pending done cs with
  | case1 pending done rest' =>
    obtain ⟨-, rfl⟩ := Prod.mk.inj (Option.some.inj h)
    rfl
  | case2 => cases h
  | case3 pending done a b c d rest' u hu pending' done' hunit ih =>
    have hescape : scan .inside ('\\' :: 'u' :: a :: b :: c :: d :: rest') =
        scan .inside (a :: b :: c :: d :: rest') := rfl
    rw [hescape, scan_inside_hexUnit hu]
    exact ih h
  | case4 pending done c rest' hlong e he ih => exact ih h
  | case5 => cases h
  | case6 => cases h
  | case7 pending done c rest' hquote hlong hshort hlow ih =>
    have hback : c ≠ '\\' := by
      -- A last backslash is no beginning of an escape, but nothing follows it.
      rintro rfl
      cases rest' with
      | nil => cases h
      | cons d rest' => exact hshort d rest' rfl rfl
    rw [scan_inside_cons (fun hc => hquote hc) hback]
    exact ih h
  | case8 => cases h

/-! ## Numbers and other leaves -/

theorem isBare_of_isDecimal {c : Char} (h : Binary64.isDecimal c = true) : isBare c = true := by
  have hquote : c ≠ '"' := by
    rintro rfl
    exact absurd h (by decide)
  have hline : c ≠ '_' := by
    rintro rfl
    exact absurd h (by decide)
  simp [isBare, hquote, hline]

theorem scan_dropWhile_isDecimal (cs : List Char) :
    scan .outside (cs.dropWhile Binary64.isDecimal) = scan .outside cs :=
  scan_dropWhile (fun _ h => isBare_of_isDecimal h) cs

theorem scan_of_readWhole? {cs digits rest : List Char} (h : readWhole? cs = some (digits, rest)) :
    scan .outside cs = scan .outside rest := by
  unfold readWhole? at h
  split at h
  · obtain ⟨-, rfl⟩ := Prod.mk.inj (Option.some.inj h)
    rfl
  · simp only [Option.ite_none_left_eq_some] at h
    obtain ⟨-, rfl⟩ := Prod.mk.inj (Option.some.inj h.2)
    rw [scan_dropWhile_isDecimal]

theorem scan_of_readFraction? {cs digits rest : List Char}
    (h : readFraction? cs = some (digits, rest)) : scan .outside cs = scan .outside rest := by
  unfold readFraction? at h
  split at h
  · simp only [Option.ite_none_left_eq_some] at h
    obtain ⟨-, rfl⟩ := Prod.mk.inj (Option.some.inj h.2)
    rw [scan_dropWhile_isDecimal]
    rfl
  · obtain ⟨-, rfl⟩ := Prod.mk.inj (Option.some.inj h)
    rfl

theorem scan_of_readExponent? {cs rest : List Char} {n : Int}
    (h : Binary64.readExponent? cs = some (n, rest)) : scan .outside cs = scan .outside rest := by
  unfold Binary64.readExponent? at h
  simp only [Option.ite_none_left_eq_some] at h
  obtain ⟨-, rfl⟩ := Prod.mk.inj (Option.some.inj h.2)
  rw [scan_dropWhile_isDecimal]
  split <;> rfl

theorem scan_of_readMarkedExponent? {cs rest : List Char} {n : Int}
    (h : readMarkedExponent? cs = some (n, rest)) : scan .outside cs = scan .outside rest := by
  unfold readMarkedExponent? at h
  split at h
  · rw [← scan_of_readExponent? h, scan_cons_of_isBare rfl]
  · rw [← scan_of_readExponent? h, scan_cons_of_isBare rfl]
  · obtain ⟨-, rfl⟩ := Prod.mk.inj (Option.some.inj h)
    rfl

theorem scan_of_readNumber? {cs rest : List Char} {n : Binary64}
    (h : readNumber? cs = some (n, rest)) : scan .outside cs = scan .outside rest := by
  simp only [readNumber?, Option.bind_eq_bind, Option.bind_eq_some_iff, Option.some.injEq,
    Prod.exists, Prod.mk.injEq] at h
  obtain ⟨whole, cs₁, hwhole, fraction, cs₂, hfraction, exponent, cs₃, hexponent, -, rfl⟩ := h
  rw [← scan_of_readMarkedExponent? hexponent, ← scan_of_readFraction? hfraction,
    ← scan_of_readWhole? hwhole]
  split <;> rfl

/-- Reading one of the three names takes the scan behind it. -/
theorem scan_of_dropBeginning? {name : List Char} (hname : name.all isBare = true)
    {cs rest : List Char} {v w : Json}
    (h : (Text.dropBeginning? name cs).map (fun rest => (v, rest)) = some (w, rest)) :
    scan .outside cs = scan .outside rest := by
  simp only [Option.map_eq_some_iff, Prod.mk.injEq] at h
  obtain ⟨rest', hdrop, -, rfl⟩ := h
  rw [Text.dropBeginning?_eq_some_iff.1 hdrop, scan_append_of_isBare (List.all_eq_true.1 hname)]

theorem scan_of_readAtom? {cs rest : List Char} {v : Json} (h : readAtom? cs = some (v, rest)) :
    scan .outside cs = scan .outside rest := by
  unfold readAtom? at h
  split at h
  · simp only [Option.map_eq_some_iff, Prod.exists, Prod.mk.injEq] at h
    obtain ⟨s, rest', hstring, -, rfl⟩ := h
    exact scan_of_readString hstring
  · exact scan_of_dropBeginning? (by decide) h
  · exact scan_of_dropBeginning? (by decide) h
  · exact scan_of_dropBeginning? (by decide) h
  · simp only [Option.map_eq_some_iff, Prod.exists, Prod.mk.injEq] at h
    obtain ⟨n, rest', hnumber, -, rfl⟩ := h
    exact scan_of_readNumber? hnumber

/-! ## Values -/

/-- What reading with a number of steps does to the scan. -/
structure Scanned (fuel : Nat) : Prop where
  /-- Reading a value. -/
  value : ∀ {cs rest : List Char} {v : Json}, readValue fuel cs = some (v, rest) →
    scan .outside cs = scan .outside rest
  /-- Reading the items of an array. -/
  items : ∀ {cs rest : List Char} {vs : List Json}, readItems fuel cs = some (vs, rest) →
    scan .outside cs = scan .outside rest
  /-- Reading the members of an object. -/
  members : ∀ {cs rest : List Char} {ms : List (String × Json)},
    readMembers fuel cs = some (ms, rest) → scan .outside cs = scan .outside rest

/-- A separator-free beginning that the reader looks at is bare, and the scan passes it. -/
theorem scan_of_skipSeparators {c : Char} {cs rest : List Char} (hc : isBare c = true)
    (h : skipSeparators cs = c :: rest) : scan .outside cs = scan .outside rest := by
  rw [← scan_skipSeparators, h, scan_cons_of_isBare hc]

theorem Scanned.readValue {fuel : Nat} (ih : Scanned fuel) {cs rest : List Char} {v : Json}
    (h : readValue (fuel + 1) cs = some (v, rest)) : scan .outside cs = scan .outside rest := by
  rw [Json.readValue] at h
  split at h
  · next inner hopen =>
    rw [scan_of_skipSeparators rfl hopen]
    split at h
    · next hclose =>
      obtain ⟨-, rfl⟩ := Prod.mk.inj (Option.some.inj h)
      exact scan_of_skipSeparators rfl hclose
    · simp only [Option.map_eq_some_iff, Prod.exists, Prod.mk.injEq] at h
      obtain ⟨vs, rest', hitems, -, rfl⟩ := h
      rw [← scan_skipSeparators, ih.items hitems]
  · next inner hopen =>
    rw [scan_of_skipSeparators rfl hopen]
    split at h
    · next hclose =>
      obtain ⟨-, rfl⟩ := Prod.mk.inj (Option.some.inj h)
      exact scan_of_skipSeparators rfl hclose
    · simp only [Option.map_eq_some_iff, Prod.exists, Prod.mk.injEq] at h
      obtain ⟨ms, rest', hmembers, -, rfl⟩ := h
      rw [← scan_skipSeparators, ih.members hmembers]
  · rw [← scan_skipSeparators, scan_of_readAtom? h]

theorem Scanned.readItems {fuel : Nat} (ih : Scanned fuel) {cs rest : List Char} {vs : List Json}
    (h : readItems (fuel + 1) cs = some (vs, rest)) : scan .outside cs = scan .outside rest := by
  simp only [Json.readItems, Option.bind_eq_bind, Option.bind_eq_some_iff, Prod.exists] at h
  obtain ⟨item, cs₁, hitem, h⟩ := h
  rw [ih.value hitem]
  split at h
  · next rest' hcomma =>
    simp only [Option.bind_eq_some_iff, Option.some.injEq, Prod.exists, Prod.mk.injEq] at h
    obtain ⟨items, cs₂, hitems, -, rfl⟩ := h
    rw [scan_of_skipSeparators rfl hcomma, ih.items hitems]
  · next rest' hclose =>
    obtain ⟨-, rfl⟩ := Prod.mk.inj (Option.some.inj h)
    exact scan_of_skipSeparators rfl hclose
  · cases h

theorem scan_of_readKey? {cs rest : List Char} {key : String}
    (h : readMembers.readKey? cs = some (key, rest)) : scan .outside cs = scan .outside rest := by
  unfold readMembers.readKey? at h
  split at h
  · split at h
    · next hstring =>
      split at h
      · next hcolon =>
        obtain ⟨-, rfl⟩ := Prod.mk.inj (Option.some.inj h)
        rw [← scan_of_skipSeparators rfl hcolon, ← scan_of_readString hstring]
        rfl
      · cases h
    · cases h
  · cases h

theorem Scanned.readMembers {fuel : Nat} (ih : Scanned fuel) {cs rest : List Char}
    {ms : List (String × Json)} (h : readMembers (fuel + 1) cs = some (ms, rest)) :
    scan .outside cs = scan .outside rest := by
  simp only [Json.readMembers, Option.bind_eq_bind, Option.bind_eq_some_iff, Prod.exists] at h
  obtain ⟨key, cs₁, hkey, v, cs₂, hvalue, h⟩ := h
  rw [← scan_skipSeparators, scan_of_readKey? hkey, ih.value hvalue]
  split at h
  · next rest' hcomma =>
    simp only [Option.bind_eq_some_iff, Option.some.injEq, Prod.exists, Prod.mk.injEq] at h
    obtain ⟨members, cs₃, hmembers, -, rfl⟩ := h
    rw [scan_of_skipSeparators rfl hcomma, ih.members hmembers]
  · next rest' hclose =>
    obtain ⟨-, rfl⟩ := Prod.mk.inj (Option.some.inj h)
    exact scan_of_skipSeparators rfl hclose
  · cases h

theorem scanned (fuel : Nat) : Scanned fuel := by
  induction fuel with
  | zero => exact ⟨(nomatch ·), (nomatch ·), (nomatch ·)⟩
  | succ fuel ih => exact ⟨ih.readValue, ih.readItems, ih.readMembers⟩

/-- A valid text is scanned to its end, which is outside of strings. -/
theorem scan_of_readChars? {cs : List Char} {v : Json} (h : readChars? cs = some v) :
    scan .outside cs = some .outside := by
  unfold readChars? at h
  split at h
  · next value rest hread =>
    simp only [Option.ite_none_right_eq_some] at h
    rw [(scanned _).value hread, ← scan_skipSeparators, List.isEmpty_iff.1 h.1]
    rfl
  · cases h

/-- The beginning of a valid text up to an underscore is not valid, whatever bare characters are
taken off at its end: the underscore stands in a string. -/
theorem readChars?_cut {beginning cut rest : List Char} {v : Json}
    (h : readChars? (beginning ++ cut ++ '_' :: rest) = some v)
    (hcut : ∀ c ∈ cut, isBare c = true) : readChars? beginning = none := by
  cases hread : readChars? beginning with
  | none => rfl
  | some w =>
    have hall := scan_of_readChars? h
    rw [List.append_assoc, scan_append, scan_of_readChars? hread] at hall
    rw [Option.bind_some, scan_append_of_isBare hcut] at hall
    cases hall

end BinaryReport.Json
