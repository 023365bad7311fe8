import BinaryReport.Proofs.Address.Grammar
import BinaryReport.Proofs.Program.Layout

/-!
# The grammar of data types

A text of a data type is words, then stars, then bracketed dimensions, with blanks at the ends and
around every star and bracket (`TypeText.Denotes`). Reading accepts exactly these texts and gives their
parts (`TypeText.read?_eq_some_iff`). It goes through the text span by span; trimming changes nothing in
that, since the blanks at the ends of the text are passed over anyway (`TypeText.readAs_surrounded`).
-/

namespace BinaryReport

open Text Binary64

namespace TypeText

/-! ## Grammar -/

/-- Stars, with blanks behind each. -/
inductive Stars : List Char → Nat → Prop where
  /-- No stars. -/
  | none : Stars [] 0
  /-- A star and the stars behind it. -/
  | star {gap rest : List Char} {n : Nat} (hgap : AreBlank gap) (hrest : Stars rest n) :
    Stars ('*' :: gap ++ rest) (n + 1)

/-- Bracketed dimensions, with blanks inside the brackets and behind them. -/
inductive Dimensions : List Char → List Nat → Prop where
  /-- No dimensions. -/
  | none : Dimensions [] []
  /-- A dimension and the dimensions behind it. -/
  | dimension {before digits after gap rest : List Char} {n : Nat} {ns : List Nat}
    (hbefore : AreBlank before) (hdigits : IsNumeral 10 digits n) (hafter : AreBlank after)
    (hgap : AreBlank gap) (hrest : Dimensions rest ns) :
    Dimensions ('[' :: (before ++ digits ++ after) ++ ']' :: (gap ++ rest)) (n :: ns)

/-- A text consists of the parts: of words that are identifiers, of stars and of dimensions. -/
def Denotes (cs : List Char) (t : TypeText) : Prop :=
  ∃ head stars brackets, cs = head ++ (stars ++ brackets) ∧
    Spaced head (t.words.map String.toList) ∧ t.words ≠ [] ∧
    (∀ word ∈ t.words, AddressSpace.isIdentifier word.toList = true) ∧
    Stars stars t.stars ∧ Dimensions brackets t.dimensions

/-! ## Stars -/

theorem Stars.spec {cs : List Char} {n : Nat} (h : Stars cs n) :
    (∀ c ∈ cs, isStarOrBlank c = true) ∧ (∀ c ∈ cs.head?, c = '*') ∧ cs.count '*' = n := by
  induction h with
  | none => exact ⟨nofun, by simp, rfl⟩
  | @star gap rest n hgap _ ih =>
    obtain ⟨hall, -, hcount⟩ := ih
    have hstar : '*' ∉ gap := fun hmem => absurd (hgap _ hmem) (by decide)
    refine ⟨fun c hc => ?_, ?_, ?_⟩
    · simp only [List.cons_append, List.mem_cons, List.mem_append] at hc
      rcases hc with rfl | hc | hc
      · rfl
      · simp [isStarOrBlank, hgap c hc]
      · exact hall c hc
    · intro c hc
      exact (Option.some.inj hc).symm
    · simp [List.count_eq_zero_of_not_mem hstar, hcount]

/-- Stars and blanks are blanks and then stars with blanks behind each. -/
theorem exists_stars {cs : List Char} (h : ∀ c ∈ cs, isStarOrBlank c = true) :
    ∃ gap rest, cs = gap ++ rest ∧ AreBlank gap ∧ Stars rest (cs.count '*') := by
  induction cs with
  | nil => exact ⟨[], [], rfl, nofun, .none⟩
  | cons c cs ih =>
    obtain ⟨hc, hcs⟩ := List.forall_mem_cons.1 h
    obtain ⟨gap, rest, rfl, hgap, hrest⟩ := ih hcs
    by_cases hstar : c = '*'
    · subst hstar
      refine ⟨[], _, rfl, nofun, ?_⟩
      rw [List.count_cons_self]
      exact .star hgap hrest
    · have hblank : isBlank c = true := by simpa [isStarOrBlank, hstar] using hc
      refine ⟨c :: gap, rest, rfl, List.forall_mem_cons.2 ⟨hblank, hgap⟩, ?_⟩
      rwa [List.count_cons_of_ne hstar]

/-! ## Dimensions -/

theorem notMem_of_areBlank {c : Char} (hc : isBlank c = false) {cs : List Char} (h : AreBlank cs) :
    c ∉ cs := by
  intro hmem
  rw [h c hmem] at hc
  cases hc

theorem notMem_of_isNumeral {digits : List Char} {n : Nat} (h : IsNumeral 10 digits n) :
    ']' ∉ digits := by
  have hbracket : ∀ d < 10, Nat.digitChar d ≠ ']' ∧ (Nat.digitChar d).toUpper ≠ ']' := by decide
  exact fun hmem => h.forall_mem (P := (· ≠ ']')) hbracket _ hmem rfl

theorem readDimension?_eq_some_iff {piece : List Char} {n : Nat} :
    readDimension? piece = some n ↔
      ∃ gap before digits after, piece = gap ++ '[' :: (before ++ digits ++ after) ∧
        AreBlank gap ∧ AreBlank before ∧ IsNumeral 10 digits n ∧ AreBlank after := by
  constructor
  · intro h
    have hgap : AreBlank (piece.takeWhile isBlank) := List.all_eq_true.1 List.all_takeWhile
    have hpiece : piece = piece.takeWhile isBlank ++ dropBlanks piece :=
      List.takeWhile_append_dropWhile.symm
    unfold readDimension? at h
    split at h
    · next inner hinner =>
      obtain ⟨before, after, hbefore, hafter, htrim⟩ := exists_trimChars inner
      have hdigits := (readDigits?_eq_some_iff (by decide)).1 h
      refine ⟨_, before, _, after, ?_, hgap, hbefore, hdigits, hafter⟩
      rw [← htrim, ← hinner]
      exact hpiece
    · cases h
  · rintro ⟨gap, before, digits, after, rfl, hgap, hbefore, hdigits, hafter⟩
    have hopen : isBlank '[' = false := by decide
    unfold readDimension?
    rw [dropBlanks_append hgap, dropBlanks_cons hopen]
    show readDigits? 10 (trimChars (before ++ digits ++ after)) = some n
    rw [trimChars_surrounded hbefore hafter (hdigits.notBlank (by decide)),
      readDigits?_eq_some_iff (by decide)]
    exact hdigits

theorem readDimensions?_cons {piece : List Char} {rest : List (List Char)} (h : rest ≠ []) :
    readDimensions? (piece :: rest) =
      (readDimension? piece).bind fun n => (readDimensions? rest).bind fun ns => some (n :: ns) := by
  cases rest with
  | nil => exact absurd rfl h
  | cons last rest => rfl

theorem readDimensions?_singleton (last : List Char) :
    readDimensions? [last] = if last.all isBlank then some [] else none := rfl

/-- What stands behind the last closing bracket is blank, and each piece before it is a dimension. -/
theorem readDimensions?_cons_eq_some_iff {piece cs : List Char} {ns : List Nat} :
    readDimensions? (piece :: splitAt ']' cs) = some ns ↔
      ∃ n rest, readDimension? piece = some n ∧ readDimensions? (splitAt ']' cs) = some rest ∧
        ns = n :: rest := by
  rw [readDimensions?_cons (splitAt_ne_nil ']' cs)]
  simp only [Option.bind_eq_some_iff, Option.some.injEq, eq_comm (a := ns)]
  constructor
  · rintro ⟨n, hn, rest, hrest, rfl⟩
    exact ⟨n, rest, hn, hrest, rfl⟩
  · rintro ⟨n, rest, hn, hrest, rfl⟩
    exact ⟨n, hn, rest, hrest, rfl⟩

theorem readDimensions?_of_dimensions {cs gap : List Char} {ns : List Nat} (h : Dimensions cs ns)
    (hgap : AreBlank gap) : readDimensions? (splitAt ']' (gap ++ cs)) = some ns := by
  have hclose : isBlank ']' = false := by decide
  induction h generalizing gap with
  | none =>
    rw [List.append_nil, splitAt_of_notMem (notMem_of_areBlank hclose hgap),
      readDimensions?_singleton, if_pos (List.all_eq_true.2 hgap)]
  | @dimension before digits after behind rest n ns hbefore hdigits hafter hbehind _ ih =>
    have hpiece : ']' ∉ gap ++ '[' :: (before ++ digits ++ after) := by
      simp [notMem_of_areBlank hclose hgap, notMem_of_areBlank hclose hbefore,
        notMem_of_areBlank hclose hafter, notMem_of_isNumeral hdigits]
    have hdimension : readDimension? (gap ++ '[' :: (before ++ digits ++ after)) = some n :=
      readDimension?_eq_some_iff.2 ⟨gap, before, digits, after, rfl, hgap, hbefore, hdigits, hafter⟩
    rw [← List.append_assoc, splitAt_append hpiece, readDimensions?_cons_eq_some_iff]
    exact ⟨n, ns, hdimension, ih hbehind, rfl⟩

theorem exists_dimensions {cs : List Char} {ns : List Nat}
    (h : readDimensions? (splitAt ']' cs) = some ns) :
    ∃ gap rest, cs = gap ++ rest ∧ AreBlank gap ∧ Dimensions rest ns := by
  induction ns generalizing cs with
  | nil =>
    rcases splitAt_cases ']' cs with ⟨-, hsplit⟩ | ⟨piece, rest, -, -, hsplit⟩
    · rw [hsplit, readDimensions?_singleton] at h
      split_ifs at h with hblank
      exact ⟨cs, [], (List.append_nil cs).symm, List.all_eq_true.1 hblank, .none⟩
    · rw [hsplit, readDimensions?_cons_eq_some_iff] at h
      obtain ⟨n, ns, -, -, hcons⟩ := h
      cases hcons
  | cons n ns ih =>
    rcases splitAt_cases ']' cs with ⟨-, hsplit⟩ | ⟨piece, rest, -, rfl, hsplit⟩
    · rw [hsplit, readDimensions?_singleton] at h
      split_ifs at h with hblank
      cases h
    · rw [hsplit, readDimensions?_cons_eq_some_iff] at h
      obtain ⟨n', ns', hpiece, hrest, hcons⟩ := h
      obtain ⟨rfl, rfl⟩ := List.cons.inj hcons
      obtain ⟨gap, before, digits, after, rfl, hgap, hbefore, hdigits, hafter⟩ :=
        readDimension?_eq_some_iff.1 hpiece
      obtain ⟨behind, others, rfl, hbehind, hothers⟩ := ih hrest
      refine ⟨gap, _, List.append_assoc gap _ _, hgap, ?_⟩
      exact .dimension hbefore hdigits hafter hbehind hothers

/-- Blanks at the end come behind the last closing bracket. -/
theorem readDimensions?_append {after : List Char} (h : AreBlank after) (cs : List Char) :
    readDimensions? (splitAt ']' (cs ++ after)) = readDimensions? (splitAt ']' cs) := by
  have hclose := notMem_of_areBlank (by decide : isBlank ']' = false) h
  induction hlength : cs.length using Nat.strongRecOn generalizing cs with
  | ind length ih =>
    rcases splitAt_cases ']' cs with ⟨hnot, hsplit⟩ | ⟨piece, rest, hpiece, rfl, hsplit⟩
    · have hnot' : ']' ∉ cs ++ after := by simp [hnot, hclose]
      have hall : after.all isBlank = true := List.all_eq_true.2 h
      rw [hsplit, splitAt_of_notMem hnot', readDimensions?_singleton, readDimensions?_singleton,
        List.all_append, hall, Bool.and_true]
    · have hshorter : rest.length < length := by
        rw [List.length_append, List.length_cons] at hlength
        omega
      rw [hsplit, List.append_assoc, List.cons_append, splitAt_append hpiece,
        readDimensions?_cons (splitAt_ne_nil _ _), readDimensions?_cons (splitAt_ne_nil _ _),
        ih rest.length hshorter rest rfl]

/-! ## Reading -/

/-- What is read before the first star or bracket. -/
def head (cs : List Char) : List Char := cs.takeWhile (!endsBase ·)

/-- What is read from the first star or bracket on. -/
def tail (cs : List Char) : List Char := cs.dropWhile (!endsBase ·)

/-- The parts of a text as they are read, span by span. -/
structure ReadAs (cs : List Char) (t : TypeText) : Prop where
  /-- There is a word. -/
  nonempty : t.words ≠ []
  /-- The words are identifiers. -/
  identifiers : ∀ word ∈ t.words, AddressSpace.isIdentifier word.toList = true
  /-- They stand before the first star or bracket. -/
  words : Text.words (head cs) = t.words.map String.toList
  /-- The stars are counted among the blanks behind. -/
  stars : ((tail cs).takeWhile isStarOrBlank).count '*' = t.stars
  /-- The rest is dimensions. -/
  dimensions : readDimensions? (splitAt ']' ((tail cs).dropWhile isStarOrBlank)) = some t.dimensions

theorem refused_iff {words : List (List Char)} :
    (words.isEmpty || !words.all AddressSpace.isIdentifier) = true ↔
      ¬ (words ≠ [] ∧ ∀ word ∈ words, AddressSpace.isIdentifier word = true) := by
  cases words with
  | nil => simp
  | cons word words => simp [imp_iff_not_or]

theorem read?_eq_some_iff_readAs {text : String} {t : TypeText} :
    read? text = some t ↔ ReadAs (trimChars text.toList) t := by
  unfold read?
  constructor
  · intro h
    dsimp only at h
    split at h
    · cases h
    · next hguard =>
      obtain ⟨hne, hidentifiers⟩ := not_not.1 (mt refused_iff.2 hguard)
      obtain ⟨dimensions, hdimensions, ht⟩ := Option.bind_eq_some_iff.1 h
      obtain rfl := Option.some.inj ht
      refine ⟨by simpa using hne, fun word hword => ?_, ?_, rfl, hdimensions⟩
      · obtain ⟨cs, hcs, rfl⟩ := List.mem_map.1 hword
        rw [String.toList_ofList]
        exact hidentifiers cs hcs
      · simp [head]
  · rintro ⟨hne, hidentifiers, hwords, hstars, hdimensions⟩
    unfold head at hwords
    unfold tail at hstars hdimensions
    have haccepted : t.words.map String.toList ≠ [] ∧
        ∀ word ∈ t.words.map String.toList, AddressSpace.isIdentifier word = true := by
      simpa using ⟨hne, hidentifiers⟩
    dsimp only
    rw [hwords, if_neg (fun h => refused_iff.1 h haccepted), hstars, hdimensions]
    simp

theorem not_endsBase_of_isBlank {c : Char} (hc : isBlank c = true) : (!endsBase c) = true := by
  have hstar : c ≠ '*' := by
    rintro rfl
    exact absurd hc (by decide)
  have hbracket : c ≠ '[' := by
    rintro rfl
    exact absurd hc (by decide)
  simp [endsBase, hstar, hbracket]

theorem isStarOrBlank_of_isBlank {c : Char} (hc : isBlank c = true) : isStarOrBlank c = true := by
  simp [isStarOrBlank, hc]

/-- Blanks at the ends of a text change nothing in what is read. -/
theorem readAs_surrounded {before cs after : List Char} (hbefore : AreBlank before)
    (hafter : AreBlank after) {t : TypeText} : ReadAs (before ++ cs ++ after) t ↔ ReadAs cs t := by
  have hfront : ∀ c ∈ before, (!endsBase c) = true := fun c hc =>
    not_endsBase_of_isBlank (hbefore c hc)
  obtain ⟨inside, behind, hinside, hbehind, hhead, htail⟩ :=
    span_append_blanks (fun c => not_endsBase_of_isBlank) hafter cs
  obtain ⟨among, last, hamong, hlast, hstars, hbrackets⟩ :=
    span_append_blanks (fun c => isStarOrBlank_of_isBlank) hbehind (tail cs)
  have hwords : Text.words (head (before ++ cs ++ after)) = Text.words (head cs) := by
    unfold head
    rw [List.append_assoc, List.takeWhile_append_of_pos hfront, words_append hbefore, hhead,
      words_append_blanks hinside]
  have htail' : tail (before ++ cs ++ after) = tail cs ++ behind := by
    unfold tail
    rw [List.append_assoc, List.dropWhile_append_of_pos hfront, htail]
  have hcount : ((tail (before ++ cs ++ after)).takeWhile isStarOrBlank).count '*' =
      ((tail cs).takeWhile isStarOrBlank).count '*' := by
    have hnone : '*' ∉ among := notMem_of_areBlank (by decide) hamong
    rw [htail', hstars, List.count_append, List.count_eq_zero_of_not_mem hnone, Nat.add_zero]
  have hdimensions :
      readDimensions? (splitAt ']' ((tail (before ++ cs ++ after)).dropWhile isStarOrBlank)) =
        readDimensions? (splitAt ']' ((tail cs).dropWhile isStarOrBlank)) := by
    rw [htail', hbrackets, readDimensions?_append hlast]
  constructor
  · rintro ⟨hne, hidentifiers, h, h', h''⟩
    exact ⟨hne, hidentifiers, hwords.symm.trans h, hcount.symm.trans h', hdimensions.symm.trans h''⟩
  · rintro ⟨hne, hidentifiers, h, h', h''⟩
    exact ⟨hne, hidentifiers, hwords.trans h, hcount.trans h', hdimensions.trans h''⟩

theorem Dimensions.front {cs : List Char} {ns : List Nat} (h : Dimensions cs ns) :
    ∀ c ∈ cs.head?, c = '[' := by
  cases h with
  | none => simp
  | dimension => simp

theorem not_endsBase_of_mem_identifier {word : List Char}
    (hword : AddressSpace.isIdentifier word = true) {c : Char} (hc : c ∈ word) :
    (!endsBase c) = true := by
  have hplain := AddressSpace.isWordChar_of_mem_identifier hword hc
  have hstar : c ≠ '*' := by
    rintro rfl
    exact absurd hplain (by decide)
  have hbracket : c ≠ '[' := by
    rintro rfl
    exact absurd hplain (by decide)
  simp [endsBase, hstar, hbracket]

/-- What is read is what the grammar says. -/
theorem readAs_iff_denotes {cs : List Char} {t : TypeText} : ReadAs cs t ↔ Denotes cs t := by
  constructor
  · rintro ⟨hne, hidentifiers, hwords, hstars, hdimensions⟩
    have hwhole : cs = head cs ++ ((tail cs).takeWhile isStarOrBlank ++
        (tail cs).dropWhile isStarOrBlank) := by
      rw [List.takeWhile_append_dropWhile]
      exact List.takeWhile_append_dropWhile.symm
    refine ⟨_, _, _, hwhole, words_eq_iff.1 hwords, hne, hidentifiers, ?_, ?_⟩
    · obtain ⟨gap, rest, hrest, hgap, h⟩ :=
        exists_stars (List.all_eq_true.1 (List.all_takeWhile (l := tail cs)))
      -- The first character behind the words is a star or a bracket, so there are no blanks in front.
      have hfront : ∀ c ∈ (gap ++ rest).head?, isBlank c = false := by
        intro c hc
        rw [← hrest, List.head?_takeWhile] at hc
        have hends := head?_dropWhile (Option.mem_filter_iff.1 hc).1
        exact Bool.eq_false_iff.2 fun hblank => by simp [not_endsBase_of_isBlank hblank] at hends
      have hnone := eq_nil_of_areBlank hgap hfront
      subst hnone
      rw [List.nil_append] at hrest
      rw [hstars] at h
      rw [hrest]
      exact h
    · obtain ⟨gap, rest, hrest, hgap, h⟩ := exists_dimensions hdimensions
      have hfront : ∀ c ∈ (gap ++ rest).head?, isBlank c = false := by
        intro c hc
        rw [← hrest] at hc
        have hends := head?_dropWhile hc
        exact Bool.eq_false_iff.2 fun hblank => by simp [isStarOrBlank_of_isBlank hblank] at hends
      have hnone := eq_nil_of_areBlank hgap hfront
      subst hnone
      rw [hrest]
      exact h
  · rintro ⟨front, stars, brackets, rfl, hwords, hne, hidentifiers, hstars, hdimensions⟩
    obtain ⟨hall, hfirst, hcount⟩ := hstars.spec
    have hfront : ∀ c ∈ front, (!endsBase c) = true := by
      intro c hc
      obtain hblank | ⟨word, hword, hc⟩ := hwords.mem hc
      · exact not_endsBase_of_isBlank hblank
      · obtain ⟨name, hname, rfl⟩ := List.mem_map.1 hword
        exact not_endsBase_of_mem_identifier (hidentifiers name hname) hc
    have hends : ∀ c ∈ (stars ++ brackets).head?, (!endsBase c) = false := by
      intro c hc
      cases stars with
      | nil =>
        rw [hdimensions.front c hc]
        rfl
      | cons d stars =>
        rw [hfirst c hc]
        rfl
    have hbracket : ∀ c ∈ brackets.head?, isStarOrBlank c = false := by
      intro c hc
      rw [hdimensions.front c hc]
      decide
    obtain ⟨hhead, htail⟩ := span_append hfront hends
    obtain ⟨hstars', hbrackets⟩ := span_append hall hbracket
    refine ⟨hne, hidentifiers, ?_, ?_, ?_⟩
    · rw [head, hhead]
      exact words_of_spaced hwords
    · rw [tail, htail, hstars', hcount]
    · rw [tail, htail, hbrackets]
      exact @readDimensions?_of_dimensions brackets [] t.dimensions hdimensions nofun

/-- A text is read exactly if it follows the grammar, and then as the parts it consists of. -/
theorem read?_eq_some_iff {text : String} {t : TypeText} :
    read? text = some t ↔ Denotes text.toList t := by
  obtain ⟨before, after, hbefore, hafter, htext⟩ := exists_trimChars text.toList
  rw [read?_eq_some_iff_readAs, ← readAs_iff_denotes]
  nth_rewrite 2 [htext]
  exact (readAs_surrounded hbefore hafter).symm

theorem Denotes.unique {text : String} {t t' : TypeText} (h : Denotes text.toList t)
    (h' : Denotes text.toList t') : t = t' :=
  Option.some.inj ((read?_eq_some_iff.2 h).symm.trans (read?_eq_some_iff.2 h'))

end TypeText

end BinaryReport
