import Mathlib.Data.List.Basic

/-!
# Joined text

Pieces that each end in a mark, which they have nowhere else, can be told apart in the text that they
are joined to, whatever stands between them (`intercalate_inj_of_endsIn`).
-/

namespace BinaryReport.Text

variable {mark : Char} {separator : List Char}

/-- The mark ends the piece and occurs nowhere else in it. -/
def EndsIn (mark : Char) (piece : List Char) : Prop := ∃ body, mark ∉ body ∧ piece = body ++ [mark]

theorem EndsIn.ne_nil {piece : List Char} (h : EndsIn mark piece) : piece ≠ [] := by
  obtain ⟨body, -, rfl⟩ := h
  exact List.concat_ne_nil _ _

/-- What precedes the first mark is the same in equal texts. -/
theorem append_cons_inj {body body' u v : List Char} (hbody : mark ∉ body) (hbody' : mark ∉ body')
    (h : body ++ mark :: u = body' ++ mark :: v) : body = body' ∧ u = v := by
  induction body generalizing body' with
  | nil =>
    cases body' with
    | nil => exact ⟨rfl, (List.cons.inj h).2⟩
    | cons c body' =>
      obtain ⟨rfl, -⟩ := List.cons.inj h
      exact absurd List.mem_cons_self hbody'
  | cons c body ih =>
    cases body' with
    | nil =>
      obtain ⟨rfl, -⟩ := List.cons.inj h
      exact absurd List.mem_cons_self hbody
    | cons d body' =>
      obtain ⟨rfl, hrest⟩ := List.cons.inj h
      have hsame := ih (mt (List.mem_cons_of_mem c) hbody) (mt (List.mem_cons_of_mem c) hbody') hrest
      exact ⟨congrArg (c :: ·) hsame.1, hsame.2⟩

/-- Texts that begin with pieces begin with the same piece if they are equal. -/
theorem EndsIn.append_inj {x y u v : List Char} (hx : EndsIn mark x) (hy : EndsIn mark y)
    (h : x ++ u = y ++ v) : x = y ∧ u = v := by
  obtain ⟨body, hbody, rfl⟩ := hx
  obtain ⟨body', hbody', rfl⟩ := hy
  rw [List.append_assoc, List.append_assoc, List.singleton_append, List.singleton_append] at h
  obtain ⟨rfl, rfl⟩ := append_cons_inj hbody hbody' h
  exact ⟨rfl, rfl⟩

theorem intercalate_cons_eq (x : List Char) (xs : List (List Char)) :
    separator.intercalate (x :: xs) = x ++ xs.flatMap (separator ++ ·) := by
  induction xs generalizing x with
  | nil => rw [List.intercalate_singleton, List.flatMap_nil, List.append_nil]
  | cons y xs ih => rw [List.intercalate_cons_cons, ih, List.flatMap_cons, List.append_assoc,
      List.append_assoc]

theorem flatMap_inj_of_endsIn {xs ys : List (List Char)} (hxs : ∀ x ∈ xs, EndsIn mark x)
    (hys : ∀ y ∈ ys, EndsIn mark y)
    (h : xs.flatMap (separator ++ ·) = ys.flatMap (separator ++ ·)) : xs = ys := by
  have hcons {x : List Char} (xs : List (List Char)) (hx : EndsIn mark x) :
      (x :: xs).flatMap (separator ++ ·) ≠ [] := by
    rw [List.flatMap_cons]
    exact List.append_ne_nil_of_left_ne_nil (List.append_ne_nil_of_right_ne_nil _ hx.ne_nil) _
  induction xs generalizing ys with
  | nil =>
    cases ys with
    | nil => rfl
    | cons y ys => exact absurd h.symm (hcons ys (hys y List.mem_cons_self))
  | cons x xs ih =>
    obtain ⟨hx, hxs'⟩ := List.forall_mem_cons.1 hxs
    cases ys with
    | nil => exact absurd h (hcons xs hx)
    | cons y ys =>
      obtain ⟨hy, hys'⟩ := List.forall_mem_cons.1 hys
      rw [List.flatMap_cons, List.flatMap_cons, List.append_assoc, List.append_assoc] at h
      obtain ⟨rfl, hrest⟩ := hx.append_inj hy (List.append_cancel_left h)
      rw [ih hxs' hys' hrest]

/-- The joined text determines the pieces. -/
theorem intercalate_inj_of_endsIn {xs ys : List (List Char)} (hxs : ∀ x ∈ xs, EndsIn mark x)
    (hys : ∀ y ∈ ys, EndsIn mark y) (h : separator.intercalate xs = separator.intercalate ys) :
    xs = ys := by
  cases xs with
  | nil =>
    cases ys with
    | nil => rfl
    | cons y ys =>
      rw [intercalate_cons_eq] at h
      have hne := (hys y List.mem_cons_self).ne_nil
      exact absurd h.symm (List.append_ne_nil_of_left_ne_nil hne _)
  | cons x xs =>
    obtain ⟨hx, hxs'⟩ := List.forall_mem_cons.1 hxs
    cases ys with
    | nil =>
      rw [intercalate_cons_eq] at h
      exact absurd h (List.append_ne_nil_of_left_ne_nil hx.ne_nil _)
    | cons y ys =>
      obtain ⟨hy, hys'⟩ := List.forall_mem_cons.1 hys
      rw [intercalate_cons_eq, intercalate_cons_eq] at h
      obtain ⟨rfl, hrest⟩ := hx.append_inj hy h
      rw [flatMap_inj_of_endsIn hxs' hys' hrest]

end BinaryReport.Text
