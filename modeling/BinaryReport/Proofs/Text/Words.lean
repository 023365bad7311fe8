import BinaryReport.Text.Blank
import Mathlib.Data.List.TakeWhile

/-!
# Trimming and words

Trimming takes off blanks at both ends and nothing else (`Text.exists_trimChars`), and what stands
between blanks comes through untouched (`Text.trimChars_surrounded`). The words of a text are
specified by a grammar (`Text.Spaced`): blanks, or a word and then what begins with a blank or is
nothing. Taking a text apart into words is exactly this relation (`Text.words_eq_iff`).
-/

namespace BinaryReport.Text

/-- Blanks alone, or nothing. -/
abbrev AreBlank (cs : List Char) : Prop := ∀ c ∈ cs, isBlank c = true

theorem areBlank_append {cs ds : List Char} (hcs : AreBlank cs) (hds : AreBlank ds) :
    AreBlank (cs ++ ds) := by
  intro c hc
  rcases List.mem_append.1 hc with hc | hc
  · exact hcs c hc
  · exact hds c hc

/-- There are no blanks in front of a text that does not begin with one. -/
theorem eq_nil_of_areBlank {gap rest : List Char} (hgap : AreBlank gap)
    (h : ∀ c ∈ (gap ++ rest).head?, isBlank c = false) : gap = [] := by
  cases gap with
  | nil => rfl
  | cons c gap =>
    have hblank := hgap c List.mem_cons_self
    rw [h c rfl] at hblank
    cases hblank

/-! ## Trimming -/

theorem dropBlanks_append {lead : List Char} (h : AreBlank lead) (cs : List Char) :
    dropBlanks (lead ++ cs) = dropBlanks cs :=
  List.dropWhile_append_of_pos h

theorem dropBlanks_cons {c : Char} (h : isBlank c = false) (cs : List Char) :
    dropBlanks (c :: cs) = c :: cs := by
  simp [dropBlanks, h]

theorem exists_dropBlanksEnd (cs : List Char) :
    ∃ cut, cs = dropBlanksEnd cs ++ cut ∧ AreBlank cut := by
  refine ⟨(cs.reverse.takeWhile isBlank).reverse, ?_, fun c hc => ?_⟩
  · rw [dropBlanksEnd, ← List.reverse_append, List.takeWhile_append_dropWhile, List.reverse_reverse]
  · exact List.all_eq_true.1 List.all_takeWhile c (List.mem_reverse.1 hc)

theorem dropBlanksEnd_append {cut : List Char} (h : AreBlank cut)
    (cs : List Char) : dropBlanksEnd (cs ++ cut) = dropBlanksEnd cs := by
  have hcut : ∀ c ∈ cut.reverse, isBlank c = true := fun c hc => h c (List.mem_reverse.1 hc)
  rw [dropBlanksEnd, List.reverse_append, List.dropWhile_append_of_pos hcut]
  rfl

theorem dropBlanksEnd_concat {c : Char} (h : isBlank c = false) (cs : List Char) :
    dropBlanksEnd (cs ++ [c]) = cs ++ [c] := by
  simp [dropBlanksEnd, h]

theorem dropBlanksEnd_of_areBlank {cs : List Char} (h : AreBlank cs) : dropBlanksEnd cs = [] :=
  dropBlanksEnd_append h []

theorem dropBlanksEnd_append_of_not {cs : List Char} (h : ¬AreBlank cs) (front : List Char) :
    dropBlanksEnd (front ++ cs) = front ++ dropBlanksEnd cs := by
  have hstays : (cs.reverse.dropWhile isBlank).isEmpty = false := by
    rw [← Bool.not_eq_true, List.isEmpty_iff, List.dropWhile_eq_nil_iff]
    exact fun hall => h fun c hc => hall c (List.mem_reverse.2 hc)
  rw [dropBlanksEnd, List.reverse_append, List.dropWhile_append, hstays, if_neg Bool.false_ne_true,
    List.reverse_append, List.reverse_reverse]
  rfl

theorem mem_of_mem_dropBlanksEnd {c : Char} {cs : List Char} (h : c ∈ dropBlanksEnd cs) :
    c ∈ cs := by
  obtain ⟨cut, hcs, -⟩ := exists_dropBlanksEnd cs
  rw [hcs]
  exact List.mem_append_left cut h

/-- Whether a character is trimmed off does not depend on what stands in front of all of them. -/
theorem mem_dropBlanksEnd_append {c : Char} {front : List Char} (h : c ∉ front) (cs : List Char) :
    c ∈ dropBlanksEnd (front ++ cs) ↔ c ∈ dropBlanksEnd cs := by
  by_cases hcs : AreBlank cs
  · rw [dropBlanksEnd_append hcs, dropBlanksEnd_of_areBlank hcs]
    exact iff_of_false (fun hc => h (mem_of_mem_dropBlanksEnd hc)) List.not_mem_nil
  · rw [dropBlanksEnd_append_of_not hcs, List.mem_append, or_iff_right h]

/-- Nor does it depend on other blanks in the middle. -/
theorem mem_dropBlanksEnd_gap {c : Char} {gap : List Char} (hgap : AreBlank gap) (h : c ∉ gap)
    (cs ds : List Char) : c ∈ dropBlanksEnd (cs ++ (gap ++ ds)) ↔ c ∈ dropBlanksEnd (cs ++ ds) := by
  by_cases hds : AreBlank ds
  · rw [dropBlanksEnd_append (areBlank_append hgap hds), dropBlanksEnd_append hds]
  · have hnot : ¬AreBlank (gap ++ ds) := fun hall => hds fun d hd =>
      hall d (List.mem_append_right gap hd)
    rw [dropBlanksEnd_append_of_not hnot, dropBlanksEnd_append_of_not hds,
      dropBlanksEnd_append_of_not hds, List.mem_append, List.mem_append, List.mem_append,
      or_iff_right h]

/-- What is trimmed off is blank. -/
theorem exists_trimChars (cs : List Char) :
    ∃ before after, AreBlank before ∧ AreBlank after ∧ cs = before ++ trimChars cs ++ after := by
  obtain ⟨after, hrest, hafter⟩ := exists_dropBlanksEnd (dropBlanks cs)
  have hbefore : AreBlank (cs.takeWhile isBlank) := List.all_eq_true.1 List.all_takeWhile
  refine ⟨cs.takeWhile isBlank, after, hbefore, hafter, ?_⟩
  calc cs = cs.takeWhile isBlank ++ dropBlanks cs := List.takeWhile_append_dropWhile.symm
    _ = cs.takeWhile isBlank ++ trimChars cs ++ after := by
      rw [List.append_assoc, trimChars, ← hrest]

theorem trimChars_of_ends {cs : List Char} (hfront : ∀ c ∈ cs.head?, isBlank c = false)
    (hback : ∀ c ∈ cs.getLast?, isBlank c = false) : trimChars cs = cs := by
  have hdrop {cs : List Char} (h : ∀ c ∈ cs.head?, isBlank c = false) :
      cs.dropWhile isBlank = cs := by
    cases cs with
    | nil => rfl
    | cons c cs => rw [List.dropWhile_cons, h c rfl, if_neg Bool.false_ne_true]
  unfold trimChars dropBlanks dropBlanksEnd
  rw [hdrop hfront, hdrop (by rwa [List.head?_reverse]), List.reverse_reverse]

theorem trimChars_of_forall {cs : List Char} (h : ∀ c ∈ cs, isBlank c = false) :
    trimChars cs = cs := by
  refine trimChars_of_ends (fun c hc => h c ?_) (fun c hc => h c ?_)
  · exact List.mem_of_mem_head? hc
  · exact List.mem_of_mem_getLast? hc

/-- A text without blanks is what trimming leaves of it among blanks. -/
theorem trimChars_surrounded {before cs after : List Char} (hbefore : AreBlank before)
    (hafter : AreBlank after) (h : ∀ c ∈ cs, isBlank c = false) :
    trimChars (before ++ cs ++ after) = cs := by
  have hrest : dropBlanksEnd (dropBlanks (cs ++ after)) = cs := by
    cases cs with
    | nil =>
      have hnone : dropBlanks after = [] := List.dropWhile_eq_nil_iff.2 hafter
      rw [List.nil_append, hnone]
      rfl
    | cons c cs =>
      have hc := h c List.mem_cons_self
      rw [List.cons_append, dropBlanks_cons hc, ← List.cons_append, dropBlanksEnd_append hafter]
      have htrim := trimChars_of_forall h
      rwa [trimChars, dropBlanks_cons hc] at htrim
  rw [trimChars, List.append_assoc, dropBlanks_append hbefore, hrest]

/-- A span that blanks may belong to takes the blanks at the end of the text if it gets there. -/
theorem span_append_blanks {p : Char → Bool} (hp : ∀ c, isBlank c = true → p c = true)
    {after : List Char} (hafter : AreBlank after) (cs : List Char) :
    ∃ inside behind, AreBlank inside ∧ AreBlank behind ∧
      (cs ++ after).takeWhile p = cs.takeWhile p ++ inside ∧
      (cs ++ after).dropWhile p = cs.dropWhile p ++ behind := by
  have hspan : ∀ c ∈ after, p c = true := fun c hc => hp c (hafter c hc)
  induction cs with
  | nil =>
    refine ⟨after, [], hafter, nofun, ?_, ?_⟩
    · simpa using hspan
    · simpa using hspan
  | cons c cs ih =>
    obtain ⟨inside, behind, hinside, hbehind, htake, hdrop⟩ := ih
    by_cases hc : p c = true
    · refine ⟨inside, behind, hinside, hbehind, ?_, ?_⟩
      · simp [hc, htake]
      · simp [hc, hdrop]
    · refine ⟨[], after, nofun, hafter, ?_, ?_⟩
      · simp [hc]
      · simp [hc]

/-! ## Words -/

/-- A run of characters none of which is blank. -/
def IsWord (cs : List Char) : Prop := cs ≠ [] ∧ ∀ c ∈ cs, isBlank c = false

/-- Words with blanks between them. At the ends there may be blanks, too. -/
inductive Spaced : List Char → List (List Char) → Prop where
  /-- Blanks hold no word. -/
  | blank {gap : List Char} (hgap : AreBlank gap) : Spaced gap []
  /-- A word ends where a blank follows or the text ends. -/
  | word {gap word rest : List Char} {others : List (List Char)} (hgap : AreBlank gap)
    (hword : IsWord word) (hend : ∀ c ∈ rest.head?, isBlank c = true)
    (hrest : Spaced rest others) : Spaced (gap ++ word ++ rest) (word :: others)

theorem words_append {gap : List Char} (h : AreBlank gap) (cs : List Char) :
    words (gap ++ cs) = words cs := by
  induction gap with
  | nil => rfl
  | cons c gap ih =>
    obtain ⟨hc, hgap⟩ := List.forall_mem_cons.1 h
    rw [List.cons_append, words, if_pos hc, ih hgap]

theorem words_cons_of_end {c : Char} {rest : List Char} (hc : isBlank c = false)
    (hend : ∀ c ∈ rest.head?, isBlank c = true) : words (c :: rest) = [c] :: words rest := by
  have hall : rest.head?.all isBlank = true := by
    cases hhead : rest.head? with
    | none => rfl
    | some d => exact hend d hhead
  rw [words, hc, if_neg Bool.false_ne_true, if_pos hall]

theorem words_word_append {word rest : List Char} (h : IsWord word)
    (hend : ∀ c ∈ rest.head?, isBlank c = true) : words (word ++ rest) = word :: words rest := by
  obtain ⟨hne, hword⟩ := h
  induction word with
  | nil => exact absurd rfl hne
  | cons c word ih =>
    obtain ⟨hc, hword⟩ := List.forall_mem_cons.1 hword
    -- A last character is a word of its own, and any other one is put in front of the word behind it.
    cases word with
    | nil => exact words_cons_of_end hc hend
    | cons d word =>
      have hd : isBlank d = false := hword d List.mem_cons_self
      have hrest := ih (List.cons_ne_nil d word) hword
      have hgoes : ¬ (d :: word ++ rest).head?.all isBlank = true := by
        simp [hd]
      rw [List.cons_append, words, hc, if_neg Bool.false_ne_true, if_neg hgoes, hrest]

theorem words_of_spaced {cs : List Char} {items : List (List Char)} (h : Spaced cs items) :
    words cs = items := by
  induction h with
  | @blank gap hgap =>
    have hall := words_append hgap []
    rwa [List.append_nil] at hall
  | @word gap word rest others hgap hword hend _ ih =>
    rw [List.append_assoc, words_append hgap, words_word_append hword hend, ih]

theorem Spaced.cons_blank {c : Char} {cs : List Char} {items : List (List Char)}
    (hc : isBlank c = true) (h : Spaced cs items) : Spaced (c :: cs) items := by
  cases h with
  | blank hgap => exact .blank (List.forall_mem_cons.2 ⟨hc, hgap⟩)
  | @word gap word rest others hgap hword hend hrest =>
    have hgap' : AreBlank (c :: gap) := List.forall_mem_cons.2 ⟨hc, hgap⟩
    exact Spaced.word hgap' hword hend hrest

theorem Spaced.of_word {word rest : List Char} {others : List (List Char)} (hword : IsWord word)
    (hend : ∀ c ∈ rest.head?, isBlank c = true) (hrest : Spaced rest others) :
    Spaced (word ++ rest) (word :: others) :=
  @Spaced.word [] word rest others nofun hword hend hrest

/-- A character that is not blank begins the first word, if that begins at once. -/
theorem Spaced.cons_word {c d : Char} {cs : List Char} {items : List (List Char)}
    (hc : isBlank c = false) (hd : isBlank d = false) (h : Spaced (d :: cs) items) :
    ∃ word others, items = word :: others ∧ Spaced (c :: d :: cs) ((c :: word) :: others) := by
  generalize hwhole : d :: cs = whole at h
  cases h with
  | blank hgap =>
    subst hwhole
    rw [hgap d List.mem_cons_self] at hd
    cases hd
  | @word gap word rest others hgap hword hend hrest =>
    have hfront : ∀ b ∈ (gap ++ (word ++ rest)).head?, isBlank b = false := by
      rw [← List.append_assoc, ← hwhole]
      simpa using hd
    obtain rfl := eq_nil_of_areBlank hgap hfront
    have hlonger : IsWord (c :: word) :=
      ⟨List.cons_ne_nil c word, List.forall_mem_cons.2 ⟨hc, hword.2⟩⟩
    refine ⟨word, others, rfl, ?_⟩
    exact Spaced.of_word hlonger hend hrest

theorem spaced_words (cs : List Char) : Spaced cs (words cs) := by
  induction cs with
  | nil => exact .blank nofun
  | cons c cs ih =>
    cases hc : isBlank c with
    | true =>
      rw [words, if_pos hc]
      exact ih.cons_blank hc
    | false =>
      have hone : IsWord [c] := ⟨List.cons_ne_nil c [], by simpa using hc⟩
      cases cs with
      | nil =>
        have hend : ∀ b ∈ ([] : List Char).head?, isBlank b = true := by simp
        rw [words_cons_of_end hc hend]
        exact Spaced.of_word hone hend ih
      | cons d cs =>
        cases hd : isBlank d with
        | true =>
          have hend : ∀ b ∈ (d :: cs).head?, isBlank b = true := by simpa using hd
          rw [words_cons_of_end hc hend]
          exact Spaced.of_word hone hend ih
        | false =>
          obtain ⟨word, others, hitems, hspaced⟩ := ih.cons_word hc hd
          have hgoes : ¬ (d :: cs).head?.all isBlank = true := by
            simp [hd]
          rw [words, hc, if_neg Bool.false_ne_true, if_neg hgoes, hitems]
          exact hspaced

/-- The words of a text are what the grammar says. -/
theorem words_eq_iff {cs : List Char} {items : List (List Char)} :
    words cs = items ↔ Spaced cs items := by
  constructor
  · rintro rfl
    exact spaced_words cs
  · exact words_of_spaced

theorem Spaced.append {cs after : List Char} {items : List (List Char)} (h : Spaced cs items)
    (hafter : AreBlank after) : Spaced (cs ++ after) items := by
  induction h with
  | blank hgap => exact .blank (areBlank_append hgap hafter)
  | @word gap word rest others hgap hword hend _ ih =>
    have hend' : ∀ c ∈ (rest ++ after).head?, isBlank c = true := by
      cases rest with
      | nil => exact fun c hc => hafter c (List.mem_of_mem_head? hc)
      | cons d rest => exact hend
    rw [List.append_assoc]
    exact .word hgap hword hend' ih

/-- Words that a blank is put between are words with blanks between them. -/
theorem spaced_intercalate {blank : Char} (hblank : isBlank blank = true) {items : List (List Char)}
    (h : ∀ item ∈ items, IsWord item) : Spaced ([blank].intercalate items) items := by
  induction items with
  | nil => exact .blank nofun
  | cons item items ih =>
    obtain ⟨hitem, hitems⟩ := List.forall_mem_cons.1 h
    cases items with
    | nil =>
      rw [List.intercalate_singleton]
      have hend : ∀ c ∈ ([] : List Char).head?, isBlank c = true := by simp
      simpa using Spaced.of_word hitem hend (.blank nofun)
    | cons next items =>
      rw [List.intercalate_cons_cons, List.append_assoc, List.singleton_append]
      have hend : ∀ c ∈ (blank :: [blank].intercalate (next :: items)).head?, isBlank c = true := by
        simpa using hblank
      exact Spaced.of_word hitem hend ((ih hitems).cons_blank hblank)

theorem words_append_blanks {after : List Char} (h : AreBlank after) (cs : List Char) :
    words (cs ++ after) = words cs :=
  words_of_spaced ((spaced_words cs).append h)

theorem Spaced.isWord {cs : List Char} {items : List (List Char)} (h : Spaced cs items) :
    ∀ item ∈ items, IsWord item := by
  induction h with
  | blank => exact nofun
  | word _ hword _ _ ih => exact List.forall_mem_cons.2 ⟨hword, ih⟩

/-- Besides blanks a text has the characters of its words in it. -/
theorem Spaced.mem {cs : List Char} {items : List (List Char)} (h : Spaced cs items) {c : Char}
    (hc : c ∈ cs) : isBlank c = true ∨ ∃ item ∈ items, c ∈ item := by
  induction h with
  | blank hgap => exact Or.inl (hgap c hc)
  | @word gap word rest others hgap _ _ _ ih =>
    simp only [List.mem_append] at hc
    rcases hc with (hc | hc) | hc
    · exact Or.inl (hgap c hc)
    · exact Or.inr ⟨word, List.mem_cons_self, hc⟩
    · obtain hblank | ⟨item, hitem, hmem⟩ := ih hc
      · exact Or.inl hblank
      · exact Or.inr ⟨item, List.mem_cons_of_mem word hitem, hmem⟩

end BinaryReport.Text
