import BinaryReport.Proofs.Text.Join
import BinaryReport.Proofs.Text.Search
import Mathlib.Data.List.Basic

/-!
# Lines of text

Texts that are joined by line feeds are taken apart into the lines of each of them
(`lines_joinLines`), and a text is put together again from its lines (`joinLines_lines`). A text is a
line of its own exactly if it has no line feed, so a run of texts in the middle of a page takes one line
each exactly if none of them has one (`lines_page_iff`).
-/

namespace BinaryReport.Text

variable {separator : Char}

theorem splitAt_append_cons (separator : Char) (cs ds : List Char) :
    splitAt separator (cs ++ separator :: ds) = splitAt separator cs ++ splitAt separator ds := by
  induction cs with
  | nil => exact if_pos rfl
  | cons c cs ih =>
    obtain ⟨piece, rest, hpieces⟩ := List.exists_cons_of_ne_nil (splitAt_ne_nil separator cs)
    rw [hpieces] at ih
    by_cases hc : c = separator
    · simp [splitAt, hc, ih, hpieces]
    · simp [splitAt, hc, ih, hpieces]

theorem splitAt_intercalate {pieces : List (List Char)} (h : pieces ≠ []) :
    splitAt separator ([separator].intercalate pieces) = pieces.flatMap (splitAt separator) := by
  induction pieces with
  | nil => exact absurd rfl h
  | cons piece pieces ih =>
    cases pieces with
    | nil => rw [List.intercalate_singleton, List.flatMap_singleton]
    | cons next pieces =>
      have hrest := ih (List.cons_ne_nil next pieces)
      rw [List.intercalate_cons_cons, List.append_assoc, List.singleton_append, splitAt_append_cons,
        hrest, List.flatMap_cons (x := piece)]

theorem notMem_of_mem_splitAt {cs piece : List Char} (h : piece ∈ splitAt separator cs) :
    separator ∉ piece := by
  induction hlength : cs.length using Nat.strong_induction_on generalizing cs with
  | _ n ih =>
    rcases splitAt_cases separator cs with ⟨hcs, hpieces⟩ | ⟨first, rest, hfirst, rfl, hpieces⟩
    · rw [hpieces, List.mem_singleton] at h
      exact h ▸ hcs
    · rw [hpieces] at h
      rcases List.mem_cons.1 h with rfl | h
      · exact hfirst
      · have hlt : rest.length < n := by
          rw [← hlength, List.length_append, List.length_cons]
          omega
        exact ih rest.length hlt h rfl

/-- A character of joined texts is in one of them or in the separator. -/
theorem notMem_intercalate {c : Char} {separator : String} (hseparator : c ∉ separator.toList)
    {pieces : List String} (hpieces : ∀ piece ∈ pieces, c ∉ piece.toList) :
    c ∉ (separator.intercalate pieces).toList := by
  rw [String.toList_intercalate]
  cases pieces with
  | nil => exact List.not_mem_nil
  | cons piece pieces =>
    rw [List.map_cons, intercalate_cons_eq, List.mem_append, List.mem_flatMap]
    rintro (hc | ⟨_, hnext, hc⟩)
    · exact hpieces piece List.mem_cons_self hc
    · obtain ⟨next, hmem, rfl⟩ := List.mem_map.1 hnext
      rcases List.mem_append.1 hc with hc | hc
      · exact hseparator hc
      · exact hpieces next (List.mem_cons_of_mem piece hmem) hc

theorem intercalate_splitAt (separator : Char) (cs : List Char) :
    [separator].intercalate (splitAt separator cs) = cs := by
  induction cs with
  | nil => rfl
  | cons c cs ih =>
    obtain ⟨piece, rest, hpieces⟩ := List.exists_cons_of_ne_nil (splitAt_ne_nil separator cs)
    rw [hpieces, intercalate_cons_eq] at ih
    by_cases hc : c = separator
    · simpa [splitAt, hc, hpieces, intercalate_cons_eq] using ih
    · simpa [splitAt, hc, hpieces, intercalate_cons_eq] using ih

/-! ## Lines -/

theorem joinLines_lines (s : String) : joinLines (lines s) = s := by
  have hfeed : "\n".toList = ['\n'] := rfl
  have hchars : (lines s).map String.toList = splitAt '\n' s.toList := by
    simp [lines, List.map_map, Function.comp_def]
  rw [← String.toList_inj, joinLines, String.toList_intercalate, hfeed, hchars, intercalate_splitAt]

/-- The text of some lines with a line feed behind each. -/
def terminated : List String → String
  | [] => ""
  | l :: ls => l ++ "\n" ++ terminated ls

/-- Joined lines of which the last one is empty have a line feed behind each of the others. -/
theorem joinLines_concat_empty (ls : List String) : joinLines (ls ++ [""]) = terminated ls := by
  induction ls with
  | nil => rfl
  | cons l ls ih =>
    obtain ⟨m, ms, hms⟩ := List.exists_cons_of_ne_nil (List.concat_ne_nil "" ls)
    have hjoin : joinLines (l :: (ls ++ [""])) = l ++ "\n" ++ joinLines (ls ++ [""]) := by
      rw [hms]
      simp [joinLines, String.intercalate_cons_cons]
    rw [List.cons_append, hjoin, ih, terminated]

/-- The lines of a page are those of the texts that it is joined from. -/
theorem lines_joinLines {ls : List String} (h : ls ≠ []) :
    lines (joinLines ls) = ls.flatMap lines := by
  have hne : ls.map String.toList ≠ [] := mt List.map_eq_nil_iff.1 h
  have hfeed : "\n".toList = ['\n'] := rfl
  rw [lines, joinLines, String.toList_intercalate, hfeed, splitAt_intercalate hne, List.flatMap_map,
    List.map_flatMap]
  rfl

theorem notMem_of_mem_lines {s l : String} (h : l ∈ lines s) : '\n' ∉ l.toList := by
  obtain ⟨piece, hpiece, rfl⟩ := List.mem_map.1 h
  rw [String.toList_ofList]
  exact notMem_of_mem_splitAt hpiece

theorem lines_of_notMem {s : String} (h : '\n' ∉ s.toList) : lines s = [s] := by
  rw [lines, splitAt_of_notMem h, List.map_singleton, String.ofList_toList]

theorem flatMap_lines_eq_self_iff {ls : List String} :
    ls.flatMap lines = ls ↔ ∀ l ∈ ls, '\n' ∉ l.toList := by
  constructor
  · intro heq l hl
    rw [← heq] at hl
    obtain ⟨s, -, hs⟩ := List.mem_flatMap.1 hl
    exact notMem_of_mem_lines hs
  · intro h
    calc ls.flatMap lines = ls.flatMap fun l => [l] :=
          List.flatMap_congr fun l hl => lines_of_notMem (h l hl)
      _ = ls := List.flatMap_singleton' ls

/-- A run of texts in a page takes one line each exactly if none of them has a line feed. -/
theorem lines_page_iff {above below items : List String} (h : above ++ items ++ below ≠ []) :
    lines (joinLines (above ++ items ++ below)) = above.flatMap lines ++ items ++ below.flatMap lines ↔
      ∀ item ∈ items, '\n' ∉ item.toList := by
  rw [lines_joinLines h, List.flatMap_append, List.flatMap_append, List.append_cancel_right_eq,
    List.append_cancel_left_eq, flatMap_lines_eq_self_iff]

end BinaryReport.Text
