import BinaryReport.Text.Split
import Mathlib.Data.List.TakeWhile

/-!
# Finding words in text

`splitFirst?` finds the first occurrence of a word: what it gives back is the text again
(`splitFirst?_eq_append`), no occurrence starts earlier (`length_le_of_splitFirst?`), and one is
found if there is any (`exists_splitFirst?`). A word that follows a line break is found there unless
the text before the line break has it already (`splitFirst?_of_boundary`).

The second part is about occurrences in a text that is put together from pieces. A character that is
not in the word separates occurrences: none spans it.

The last part is about cutting at a character: `splitAt` goes through a text separator by separator
(`splitAt_cases`), and a span ends where the first character outside it stands (`span_append`).
-/

namespace BinaryReport.Text

variable {word : List Char}

/-! ## The first occurrence -/

theorem dropBeginning?_eq_some_iff {text rest : List Char} :
    dropBeginning? word text = some rest ↔ text = word ++ rest := by
  induction word generalizing text with
  | nil => simp [dropBeginning?]
  | cons c word ih =>
    cases text with
    | nil => simp [dropBeginning?]
    | cons d text =>
      simp only [dropBeginning?, List.cons_append, List.cons.injEq]
      split
      · next h => rw [ih, h]; simp
      · next h => simp [Ne.symm h]

theorem splitFirst?_eq_append {text before after : List Char}
    (h : splitFirst? word text = some (before, after)) : text = before ++ (word ++ after) := by
  induction text generalizing before with
  | nil =>
    simp only [splitFirst?, Option.map_eq_some_iff, Prod.mk.injEq] at h
    obtain ⟨rest, hrest, rfl, rfl⟩ := h
    rw [List.nil_append]
    exact dropBeginning?_eq_some_iff.1 hrest
  | cons c text ih =>
    simp only [splitFirst?] at h
    split at h
    · next rest hrest =>
      obtain ⟨rfl, rfl⟩ := Prod.mk.injEq .. |>.mp (Option.some.inj h)
      rw [List.nil_append]
      exact dropBeginning?_eq_some_iff.1 hrest
    · next hnone =>
      simp only [Option.map_eq_some_iff, Prod.exists, Prod.mk.injEq] at h
      obtain ⟨front, rest, hsplit, rfl, rfl⟩ := h
      rw [ih hsplit, List.cons_append]

/-- No occurrence starts before the one that is found. -/
theorem length_le_of_splitFirst? {text before after x y : List Char}
    (h : splitFirst? word text = some (before, after)) (hxy : text = x ++ (word ++ y)) :
    before.length ≤ x.length := by
  induction text generalizing before x with
  | nil =>
    simp only [splitFirst?, Option.map_eq_some_iff, Prod.mk.injEq] at h
    obtain ⟨rest, -, rfl, -⟩ := h
    simp
  | cons c text ih =>
    simp only [splitFirst?] at h
    split at h
    · obtain ⟨rfl, -⟩ := Prod.mk.injEq .. |>.mp (Option.some.inj h)
      simp
    · next hnone =>
      simp only [Option.map_eq_some_iff, Prod.exists, Prod.mk.injEq] at h
      obtain ⟨front, rest, hsplit, rfl, rfl⟩ := h
      cases x with
      | nil =>
        rw [List.nil_append] at hxy
        rw [dropBeginning?_eq_some_iff.2 hxy] at hnone
        cases hnone
      | cons d x =>
        have htext := (List.cons.inj hxy).2
        have := ih hsplit htext
        simp only [List.length_cons]
        omega

/-- A word that occurs is found. -/
theorem exists_splitFirst? (word x y : List Char) :
    ∃ before after, splitFirst? word (x ++ (word ++ y)) = some (before, after) := by
  induction x with
  | nil =>
    have hdrop := dropBeginning?_eq_some_iff.2 (rfl : word ++ y = word ++ y)
    refine ⟨[], y, ?_⟩
    rw [List.nil_append]
    cases htext : word ++ y with
    | nil => rw [htext] at hdrop; simp [splitFirst?, hdrop]
    | cons c text => rw [htext] at hdrop; simp [splitFirst?, hdrop]
  | cons d x ih =>
    obtain ⟨before, after, h⟩ := ih
    rw [List.cons_append, splitFirst?]
    split
    · next rest _ => exact ⟨[], rest, rfl⟩
    · exact ⟨d :: before, after, by rw [h]; rfl⟩

/-! ## Occurrences in pieces -/

theorem eq_false_of_any {p : Char → Bool} {cs : List Char} (h : cs.any p = false) :
    ∀ c ∈ cs, p c = false := by
  intro c hc
  exact eq_false_of_ne_true (List.any_eq_false.1 h c hc)

/-- An occurrence ends before a character that is not in the word, or starts behind it. -/
theorem beside_of_append_eq {c : Char} (hc : c ∉ word) {x y a b : List Char}
    (h : x ++ (word ++ y) = a ++ c :: b) :
    (∃ d, a = x ++ (word ++ d)) ∨ ∃ d, x = a ++ c :: d ∧ b = d ++ (word ++ y) := by
  rcases List.append_eq_append_iff.1 h with ⟨d, ha, hd⟩ | ⟨d, hx, hd⟩
  · rcases List.append_eq_append_iff.1 hd with ⟨e, he, -⟩ | ⟨e, he, hb⟩
    · exact Or.inl ⟨e, by rw [ha, he]⟩
    · cases e with
      | nil => exact Or.inl ⟨[], by rw [ha, he, List.append_nil, List.append_nil]⟩
      | cons f e =>
        obtain ⟨rfl, -⟩ := List.cons.inj hb
        exact absurd (he ▸ List.mem_append_right d List.mem_cons_self) hc
  · cases d with
    | nil =>
      rw [List.append_nil] at hx
      cases word with
      | nil => exact Or.inl ⟨[], by rw [hx]; simp⟩
      | cons f word =>
        obtain ⟨rfl, -⟩ := List.cons.inj hd
        exact absurd List.mem_cons_self hc
    | cons f d =>
      obtain ⟨rfl, hb⟩ := List.cons.inj hd
      exact Or.inr ⟨d, hx, hb⟩

/-- No occurrence spans a character that is not in the word. -/
theorem isInfix_append_cons_iff {c : Char} (hc : c ∉ word) (a b : List Char) :
    word <:+: a ++ c :: b ↔ word <:+: a ∨ word <:+: b := by
  constructor
  · rintro ⟨x, y, h⟩
    rw [List.append_assoc] at h
    rcases beside_of_append_eq hc h with ⟨d, rfl⟩ | ⟨d, -, rfl⟩
    · exact Or.inl ⟨x, d, List.append_assoc ..⟩
    · exact Or.inr ⟨d, y, List.append_assoc ..⟩
  · rintro (⟨x, y, rfl⟩ | ⟨x, y, rfl⟩)
    · exact ⟨x, y ++ c :: b, by simp⟩
    · exact ⟨a ++ c :: x, y, by simp⟩

/-- Pieces without a character of the word hold no part of an occurrence. -/
theorem isInfix_append_iff_of_disjoint (hne : word ≠ []) {a : List Char} (ha : ∀ c ∈ a, c ∉ word)
    (b : List Char) : word <:+: a ++ b ↔ word <:+: b := by
  induction a with
  | nil => rw [List.nil_append]
  | cons c a ih =>
    have hc : c ∉ word := ha c List.mem_cons_self
    have hnil : ¬ word <:+: [] := fun h => hne (List.infix_nil.1 h)
    have hcons := isInfix_append_cons_iff hc [] (a ++ b)
    rw [List.nil_append] at hcons
    rw [List.cons_append, hcons, ih fun d hd => ha d (List.mem_cons_of_mem c hd)]
    exact ⟨fun h => h.resolve_left hnil, Or.inr⟩

/-- A word behind a text that does not have it is found there, if the text is empty or its last
character is not in the word. -/
theorem splitFirst?_of_boundary {before : List Char} (hbefore : ¬ word <:+: before)
    (hlast : ∀ c ∈ before.getLast?, c ∉ word) (after : List Char) :
    splitFirst? word (before ++ (word ++ after)) = some (before, after) := by
  obtain ⟨front, rest, h⟩ := exists_splitFirst? word before after
  have heq := splitFirst?_eq_append h
  have hle := length_le_of_splitFirst? h rfl
  have hlen : before.length ≤ front.length := by
    rcases List.eq_nil_or_concat before with rfl | ⟨init, last, rfl⟩
    · exact Nat.zero_le _
    · have hc : last ∉ word := hlast last (by simp)
      rw [List.concat_eq_append, List.append_assoc] at heq
      rcases beside_of_append_eq hc heq.symm with ⟨d, hd⟩ | ⟨d, hd, -⟩
      · have hinit : word <:+: init := ⟨front, d, by rw [hd, List.append_assoc]⟩
        exact absurd (hinit.trans (List.prefix_append init [last]).isInfix)
          (List.concat_eq_append ▸ hbefore)
      · rw [hd]
        simp
  obtain ⟨rfl, hrest⟩ := List.append_inj heq (Nat.le_antisymm hlen hle)
  rw [h, List.append_cancel_left hrest]

/-! ## Pieces -/

section Pieces

variable {separator : Char} {piece : List Char}

theorem splitAt_of_notMem (h : separator ∉ piece) : splitAt separator piece = [piece] := by
  induction piece with
  | nil => rfl
  | cons c piece ih =>
    have hne : c ≠ separator := fun heq => h (heq ▸ List.mem_cons_self)
    have hrest := ih fun hmem => h (List.mem_cons_of_mem c hmem)
    rw [splitAt, if_neg hne, hrest]

/-- A piece without the separator, and what follows the separator. -/
theorem splitAt_append (h : separator ∉ piece) (cs : List Char) :
    splitAt separator (piece ++ separator :: cs) = piece :: splitAt separator cs := by
  induction piece with
  | nil => rw [List.nil_append, splitAt, if_pos rfl]
  | cons c piece ih =>
    have hne : c ≠ separator := fun heq => h (heq ▸ List.mem_cons_self)
    have hrest := ih fun hmem => h (List.mem_cons_of_mem c hmem)
    rw [List.cons_append, splitAt, if_neg hne, hrest]

/-- A text is one piece, or a first piece and then what follows the first separator. -/
theorem splitAt_cases (separator : Char) (cs : List Char) :
    separator ∉ cs ∧ splitAt separator cs = [cs] ∨
      ∃ piece rest, separator ∉ piece ∧ cs = piece ++ separator :: rest ∧
        splitAt separator cs = piece :: splitAt separator rest := by
  by_cases hmem : separator ∈ cs
  · obtain ⟨piece, rest, rfl, hpiece⟩ := List.eq_append_cons_of_mem hmem
    exact Or.inr ⟨piece, rest, hpiece, rfl, splitAt_append hpiece rest⟩
  · exact Or.inl ⟨hmem, splitAt_of_notMem hmem⟩

theorem splitAt_ne_nil (separator : Char) (cs : List Char) : splitAt separator cs ≠ [] := by
  rcases splitAt_cases separator cs with ⟨-, h⟩ | ⟨piece, rest, -, -, h⟩
  · rw [h]
    exact List.cons_ne_nil cs []
  · rw [h]
    exact List.cons_ne_nil piece _

/-- A span ends at the first character that does not belong to it. -/
theorem span_append {p : Char → Bool} {front rest : List Char} (hfront : ∀ c ∈ front, p c = true)
    (hrest : ∀ c ∈ rest.head?, p c = false) :
    (front ++ rest).takeWhile p = front ∧ (front ++ rest).dropWhile p = rest := by
  rw [List.takeWhile_append_of_pos hfront, List.dropWhile_append_of_pos hfront]
  cases rest with
  | nil => simp
  | cons c rest => simp [hrest c rfl]

theorem head?_dropWhile {p : Char → Bool} {cs : List Char} {c : Char}
    (h : c ∈ (cs.dropWhile p).head?) : p c = false := by
  have hnot := List.head?_dropWhile_not p cs
  rw [Option.mem_def.1 h] at hnot
  exact hnot

end Pieces

end BinaryReport.Text
