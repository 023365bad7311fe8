import BinaryReport.Proofs.Engine.History
import BinaryReport.Proofs.Matching
import BinaryReport.Proofs.Program.Entries
import BinaryReport.Proofs.Program.Layout
import BinaryReport.Proofs.Program.Names
import BinaryReport.Proofs.Sorting
import BinaryReport.Proofs.Text.Digits
import Mathlib.Data.List.Nodup

/-!
# The functions of a loaded program

Loading reads the functions of a snapshot one by one, sorts them by their entries and refuses two of
one entry, so the functions of a loaded program are those of its snapshot in strictly ascending order
(`Program.HasFunctionsOf`). No change adds, drops or moves a function, so this stays true whatever names
are given (`Engine.Reached.hasFunctionsOf`).
-/

namespace BinaryReport

open Outcome

namespace Program

/-! ## Loading -/

/-- A function is the one of an entry of a snapshot, under any name. -/
structure LoadedFrom (space : AddressSpace) (e : FunctionEntry) (f : Function) : Prop where
  entry : space.parse e.entry = .ok f.entry
  kind : f.symbol.kind = .function
  inside : f.symbol.isExternal = false
  returnType : f.returnType = e.returnType
  parameters : f.parameters = e.parameters

theorem LoadedFrom.renamed {space : AddressSpace} {e : FunctionEntry} {f g : Function}
    (h : LoadedFrom space e f) (hfg : f.Renamed g) : LoadedFrom space e g := by
  obtain ⟨name, source, rfl⟩ := hfg
  exact ⟨h.entry, h.kind, h.inside, h.returnType, h.parameters⟩

namespace Load

theorem loadedFrom_function {space : AddressSpace} {index : Nat} {e : FunctionEntry} {f : Placed}
    (h : function space index e = .ok f) : LoadedFrom space e f.function := by
  obtain ⟨entry, hentry, h⟩ := bind_eq_ok h
  obtain ⟨ranges, -, h⟩ := bind_eq_ok h
  dsimp only at h
  split at h
  · obtain rfl := Except.ok.inj h
    exact ⟨ok_of_mapError hentry, rfl, rfl, rfl, rfl⟩
  · cases h

theorem addFunction_eq_ok_iff {done next : List Function} {index : Nat} {f : Placed} :
    addFunction done index f = .ok next ↔
      ∃ g, f.function = g ∧ g.entry ∉ done.map (·.entry) ∧ next = done ++ [g] := by
  have hthere : (done.any fun g => g.entry = f.function.entry) = true ↔
      f.function.entry ∈ done.map (·.entry) := any_key_iff
  unfold addFunction
  constructor
  · intro h
    split at h
    · cases h
    · next hnew => exact ⟨_, rfl, mt hthere.2 hnew, (Except.ok.inj h).symm⟩
  · rintro ⟨g, rfl, hnew, rfl⟩
    rw [if_neg (mt hthere.1 hnew)]

/-- Functions that are added one by one are all there, and no two share an entry. -/
theorem addEach_addFunction_iff {placed : List Placed} {functions : List Function} {index : Nat} :
    addEach addFunction [] index placed = .ok functions ↔
      functions = placed.map (·.function) ∧ (functions.map (·.entry)).Nodup := by
  have hadd (done : List Function) (index : Nat) (f : Placed) (next : List Function) :=
    @addFunction_eq_ok_iff done next index f
  rw [addEach_nil_eq_ok_iff hadd, ← List.forall₂_map_left_iff, List.forall₂_eq_eq_eq, eq_comm]

theorem ascending_mergeSort {placed : List Placed}
    (hnodup : (((placed.mergeSort entersBefore).map (·.function)).map (·.entry)).Nodup) :
    ((placed.mergeSort entersBefore).map (·.function)).Pairwise
      (fun f g => f.entry.offset < g.entry.offset) := by
  have hoffsets := hnodup.map Address.offset_injective
  rw [List.map_map, List.map_map] at hoffsets
  have hle := Sorting.pairwise_mergeSort (fun f : Placed => f.function.entry.offset) placed
  exact List.pairwise_map.2 (Sorting.ascending_of_nodup hle hoffsets)

end Load

/-! ## The functions of a snapshot -/

/-- The functions of a program are those of a snapshot, by strictly ascending entry, under any
names. -/
structure HasFunctionsOf (s : Snapshot) (p : Program) : Prop where
  ascending : (p.functions.map (·.entry)).Pairwise (fun a b => a.offset < b.offset)
  loaded : ∃ order, order.Perm s.functions ∧
    List.Forall₂ (LoadedFrom ⟨s.pointerSize.bytes⟩) order p.functions

theorem symbol_of_loaded {space : AddressSpace} {entries : List FunctionEntry}
    {functions : List Function} (h : List.Forall₂ (LoadedFrom space) entries functions) :
    ∀ f ∈ functions, f.symbol.kind = .function ∧ f.symbol.isExternal = false := by
  induction h with
  | nil =>
    intro f hf
    cases hf
  | cons hfirst _ ih =>
    intro f hf
    rcases List.mem_cons.1 hf with rfl | hf
    · exact ⟨hfirst.kind, hfirst.inside⟩
    · exact ih f hf

theorem HasFunctionsOf.nodup_entries {s : Snapshot} {p : Program} (h : HasFunctionsOf s p) :
    (p.functions.map (·.entry)).Nodup := by
  refine h.ascending.imp fun {a b} hlt heq => ?_
  rw [heq] at hlt
  exact lt_irrefl _ hlt

/-- The symbol of a function says that it names a function inside the program. -/
theorem HasFunctionsOf.symbol {s : Snapshot} {p : Program} (h : HasFunctionsOf s p) :
    ∀ f ∈ p.functions, f.symbol.kind = .function ∧ f.symbol.isExternal = false := by
  obtain ⟨order, -, hloaded⟩ := h.loaded
  exact symbol_of_loaded hloaded

theorem ascending_sortedFunctions {space : AddressSpace} {entries : List FunctionEntry}
    {functions : List Function} (h : Load.sortedFunctions space entries = .ok functions) :
    (functions.map (·.entry)).Pairwise (fun a b => a.offset < b.offset) := by
  obtain ⟨placed, -, h⟩ := bind_eq_ok h
  obtain ⟨rfl, hnodup⟩ := Load.addEach_addFunction_iff.1 h
  exact List.pairwise_map.2 (Load.ascending_mergeSort hnodup)

theorem loaded_sortedFunctions {space : AddressSpace} {entries : List FunctionEntry}
    {functions : List Function} (h : Load.sortedFunctions space entries = .ok functions) :
    ∃ order, order.Perm entries ∧ List.Forall₂ (LoadedFrom space) order functions := by
  obtain ⟨placed, hplaced, h⟩ := bind_eq_ok h
  obtain ⟨hsorted, -⟩ := Load.addEach_addFunction_iff.1 h
  have hloaded : List.Forall₂ (fun e f => LoadedFrom space e f.function) entries placed := by
    refine Load.forall₂_each ?_ hplaced
    intro index e f hf
    exact Load.loadedFrom_function hf
  have hperm := (List.mergeSort_perm placed Load.entersBefore).symm
  obtain ⟨order, horder, hall⟩ := Matching.exists_perm_left hloaded hperm
  refine ⟨order, horder, ?_⟩
  rw [hsorted]
  exact List.forall₂_map_right_iff.2 hall

theorem hasFunctionsOf_load {s : Snapshot} {p : Program} (h : load s = .ok p) :
    HasFunctionsOf s p := by
  obtain ⟨start, data, comments, hstart, rfl⟩ := exists_bare_of_load h
  obtain ⟨-, -, -, hfunctions⟩ := Load.bare_cases hstart
  exact ⟨ascending_sortedFunctions hfunctions, loaded_sortedFunctions hfunctions⟩

/-! ## Changes -/

theorem entries_of_renamed {functions functions' : List Function}
    (h : List.Forall₂ Function.Renamed functions functions') :
    functions'.map (·.entry) = functions.map (·.entry) := by
  induction h with
  | nil => rfl
  | cons hfg _ ih =>
    obtain ⟨name, source, rfl⟩ := hfg
    rw [List.map_cons, List.map_cons, ih]
    rfl

theorem loadedFrom_of_renamed {space : AddressSpace} {entries : List FunctionEntry}
    {functions functions' : List Function}
    (h : List.Forall₂ (LoadedFrom space) entries functions)
    (hrenamed : List.Forall₂ Function.Renamed functions functions') :
    List.Forall₂ (LoadedFrom space) entries functions' := by
  induction h generalizing functions' with
  | nil =>
    cases hrenamed
    exact .nil
  | cons hloaded _ ih =>
    cases hrenamed with
    | cons hfg hrest => exact .cons (hloaded.renamed hfg) (ih hrest)

theorem renamed_change {p p' : Program} (h : Engine.Change p p') :
    List.Forall₂ Function.Renamed p.functions p'.functions := by
  cases h with
  | none => exact renamed_self p.functions
  | name index name source hvalid => exact renamed_renameIndex p index name source
  | data haddress htype hplace =>
    rw [placeData_eq hplace]
    exact renamed_self p.functions

theorem HasFunctionsOf.change {s : Snapshot} {p p' : Program} (h : HasFunctionsOf s p)
    (hchange : Engine.Change p p') : HasFunctionsOf s p' := by
  have hrenamed := renamed_change hchange
  obtain ⟨order, hperm, hloaded⟩ := h.loaded
  refine ⟨?_, order, hperm, loadedFrom_of_renamed hloaded hrenamed⟩
  rw [entries_of_renamed hrenamed]
  exact h.ascending

end Program

/-- The functions of an engine stay those of its snapshot. -/
theorem Engine.Reached.hasFunctionsOf {s : Snapshot} {e : Engine} (h : Reached s e) :
    e.program.HasFunctionsOf s := by
  refine h.induct (fun p => Program.hasFunctionsOf_load) ?_
  intro p p' hp hchange
  exact hp.change hchange

end BinaryReport
