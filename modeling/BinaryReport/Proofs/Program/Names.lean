import BinaryReport.Program.Basic
import Mathlib.Data.List.Forall2

/-!
# Names

A function owns the symbol that names it, so a program is settled by its symbol table and by what is
not in it (`Program.withSymbols`). Giving a symbol another name changes one place of the table and
nothing else (`Program.renameIndex_eq`); the functions stay the same ones in the same order, under
other names at most (`Program.renamed_renameIndex`).
-/

namespace BinaryReport

/-! ## Functions -/

namespace Function

/-- The function with another symbol. -/
def withSymbol (f : Function) (s : Symbol) : Function := { f with symbol := s }

/-- Two functions that differ in the name and its source at most. -/
def Renamed (f g : Function) : Prop :=
  ∃ name source, g = Program.renameFunction name source f

theorem Renamed.refl (f : Function) : Renamed f f := ⟨f.symbol.name, f.symbol.source, rfl⟩

end Function

namespace Program

variable {p : Program}

/-! ## The symbol table -/

/-- The program with another symbol table of the same length. -/
def withSymbols (p : Program) (table : List Symbol) : Program :=
  { p with
    functions := p.functions.zipWith Function.withSymbol table
    labels := table.drop p.functions.length }

theorem map_zipWith_withSymbol (functions : List Function) {table : List Symbol}
    (h : functions.length ≤ table.length) :
    (functions.zipWith Function.withSymbol table).map (·.symbol) = table.take functions.length := by
  induction functions generalizing table with
  | nil => rfl
  | cons f functions ih =>
    cases table with
    | nil => cases h
    | cons s table =>
      have hrest := ih (Nat.le_of_succ_le_succ h)
      rw [List.zipWith_cons_cons, List.map_cons, hrest]
      rfl

/-- The table is the one that was given. -/
theorem symbols_withSymbols {table : List Symbol} (h : table.length = p.symbols.length) :
    (p.withSymbols table).symbols = table := by
  have hlength : p.functions.length ≤ table.length := by
    rw [h, symbols, List.length_append, List.length_map]
    omega
  have htable := map_zipWith_withSymbol p.functions hlength
  unfold withSymbols symbols
  dsimp only
  rw [htable, List.take_append_drop]

/-! ## Giving names -/

theorem zipWith_withSymbol_self (functions : List Function) (labels : List Symbol) :
    functions.zipWith Function.withSymbol (functions.map (·.symbol) ++ labels) = functions := by
  induction functions with
  | nil => rfl
  | cons f functions ih =>
    rw [List.map_cons, List.cons_append, List.zipWith_cons_cons, ih]
    rfl

theorem zipWith_withSymbol_modify (functions : List Function) (labels : List Symbol) (index : Nat)
    (name : String) (source : Source) :
    functions.zipWith Function.withSymbol
        ((functions.map (·.symbol) ++ labels).modify index (rename name source)) =
      functions.modify index (renameFunction name source) := by
  induction functions generalizing index with
  | nil => rw [List.zipWith_nil_left, List.modify_nil]
  | cons f functions ih =>
    rw [List.map_cons, List.cons_append]
    cases index with
    | zero =>
      rw [List.modify_zero_cons, List.modify_zero_cons, List.zipWith_cons_cons,
        zipWith_withSymbol_self]
      rfl
    | succ index =>
      rw [List.modify_succ_cons, List.modify_succ_cons, List.zipWith_cons_cons, ih]
      rfl

/-- Giving a symbol another name changes its place of the table and nothing else. -/
theorem renameIndex_eq (p : Program) (index : Nat) (name : String) (source : Source) :
    p.renameIndex index name source =
      p.withSymbols (p.symbols.modify index (rename name source)) := by
  have hfunctions := zipWith_withSymbol_modify p.functions p.labels index name source
  have hdrop : p.symbols.drop p.functions.length = p.labels := by
    unfold symbols
    rw [List.drop_left' (List.length_map _)]
  unfold renameIndex withSymbols
  by_cases hindex : index < p.functions.length
  · rw [if_pos hindex, List.drop_modify_of_lt _ _ _ _ hindex, hdrop]
    unfold symbols
    rw [hfunctions]
  · have hge := Nat.le_of_not_lt hindex
    rw [if_neg hindex, List.drop_modify_of_ge _ _ _ _ hge, hdrop]
    unfold symbols
    rw [hfunctions, List.modify_eq_self hge]

theorem renamed_self (functions : List Function) :
    List.Forall₂ Function.Renamed functions functions :=
  List.forall₂_same.2 fun f _ => .refl f

theorem renamed_modify (functions : List Function) (index : Nat) (name : String)
    (source : Source) : List.Forall₂ Function.Renamed functions
      (functions.modify index (renameFunction name source)) := by
  induction functions generalizing index with
  | nil =>
    rw [List.modify_nil]
    exact .nil
  | cons f functions ih =>
    cases index with
    | zero =>
      rw [List.modify_zero_cons]
      exact .cons ⟨name, source, rfl⟩ (renamed_self functions)
    | succ index =>
      rw [List.modify_succ_cons]
      exact .cons (.refl f) (ih index)

/-- The functions stay the same ones in the same order. -/
theorem renamed_renameIndex (p : Program) (index : Nat) (name : String) (source : Source) :
    List.Forall₂ Function.Renamed p.functions (p.renameIndex index name source).functions := by
  unfold renameIndex
  split_ifs with hindex
  · exact renamed_modify p.functions index name source
  · exact renamed_self p.functions

/-! ## The first symbol at an address -/

/-- If there is a symbol at an address, the table is in three parts: the symbols that are elsewhere,
the first one there, and the rest. -/
theorem exists_symbols_eq_append {a : Address} (h : p.symbolsAt a ≠ []) :
    ∃ before s after, p.symbols = before ++ s :: after ∧ isBoundAt a s = true ∧
      (∀ x ∈ before, isBoundAt a x = false) ∧
      p.symbols.findIdx (isBoundAt a) = before.length := by
  cases hfind : p.symbols.find? (isBoundAt a) with
  | none =>
    rw [List.find?_eq_none] at hfind
    exact absurd (List.filter_eq_nil_iff.2 hfind) h
  | some s =>
    obtain ⟨hs, before, after, heq, hbefore⟩ := List.find?_eq_some_iff_append.1 hfind
    have hnot : ∀ x ∈ before, isBoundAt a x = false := by
      intro x hx
      simpa using hbefore x hx
    refine ⟨before, s, after, heq, hs, hnot, ?_⟩
    have hlength : before.findIdx (isBoundAt a) = before.length := List.findIdx_eq_length.2 hnot
    rw [heq, List.findIdx_append, hlength, if_neg (Nat.lt_irrefl _), List.findIdx_cons, hs]
    exact Nat.zero_add _

theorem modify_append_cons {α : Type} (before : List α) (s : α) (after : List α) (f : α → α) :
    (before ++ s :: after).modify before.length f = before ++ f s :: after :=
  List.modifyTailIdx_add (List.modifyHead f) 0 before (s :: after)

end Program

end BinaryReport
