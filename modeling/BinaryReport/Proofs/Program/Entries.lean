import BinaryReport.Program.Load
import BinaryReport.Proofs.Outcome
import Mathlib.Data.List.Forall2
import Mathlib.Data.List.Nodup

/-!
# Loading the entries of a list

A list of entries is loaded in order, and the first entry that cannot be loaded is the error. So a
list that is loaded has all its entries loaded (`each_eq_ok_iff`), and one that is not has an entry
that is not, behind entries that are (`addEach_eq_error_iff`).

A program is loaded in three parts: what does not depend on the data (`Load.bare`), then the data,
then the comments (`load_eq_bind`).
-/

namespace BinaryReport.Program

open Outcome

namespace Load

variable {α β σ : Type}

/-! ## Lists of entries -/

theorem forall₂_each {load : Nat → α → Except LoadError β} {R : α → β → Prop}
    (hload : ∀ index a b, load index a = .ok b → R a b) {index : Nat} {entries : List α}
    {loaded : List β} (h : each load index entries = .ok loaded) :
    List.Forall₂ R entries loaded := by
  induction entries generalizing index loaded with
  | nil =>
    obtain rfl := Except.ok.inj h
    exact .nil
  | cons a entries ih =>
    obtain ⟨b, hb, h⟩ := bind_eq_ok h
    obtain ⟨bs, hbs, h⟩ := bind_eq_ok h
    obtain rfl := Except.ok.inj h
    exact .cons (hload index a b hb) (ih hbs)

/-- Loading that does not depend on the index is loading of every entry. -/
theorem each_eq_ok_iff {load : Nat → α → Except LoadError β} {R : α → β → Prop}
    (hload : ∀ index a b, load index a = .ok b ↔ R a b) {index : Nat} {entries : List α}
    {loaded : List β} : each load index entries = .ok loaded ↔ List.Forall₂ R entries loaded := by
  constructor
  · exact forall₂_each fun index a b => (hload index a b).1
  · intro h
    induction h generalizing index with
    | nil => rfl
    | @cons a b _ _ hfirst _ ih =>
      refine (bind_of_ok ((hload index a b).2 hfirst)).trans ?_
      exact bind_of_ok ih

theorem each_eq_error {load : Nat → α → Except LoadError β} {index : Nat} {entries : List α}
    {err : LoadError} (h : each load index entries = .error err) :
    ∃ i entry, entries[i]? = some entry ∧ load (index + i) entry = .error err := by
  induction entries generalizing index with
  | nil => cases h
  | cons a entries ih =>
    rcases bind_eq_error h with hfirst | ⟨b, -, h⟩
    · exact ⟨0, a, rfl, hfirst⟩
    · rcases bind_eq_error h with hrest | ⟨bs, -, h⟩
      · obtain ⟨i, entry, hi, herr⟩ := ih hrest
        refine ⟨i + 1, entry, hi, ?_⟩
        rwa [Nat.add_right_comm, Nat.add_assoc] at herr
      · cases h

theorem exists_of_mem_each {load : Nat → α → Except LoadError β} {index : Nat} {entries : List α}
    {loaded : List β} (h : each load index entries = .ok loaded) {b : β} (hb : b ∈ loaded) :
    ∃ i entry, entries[i]? = some entry ∧ load (index + i) entry = .ok b := by
  induction entries generalizing index loaded with
  | nil =>
    obtain rfl := Except.ok.inj h
    cases hb
  | cons a entries ih =>
    obtain ⟨first, hfirst, h⟩ := bind_eq_ok h
    obtain ⟨rest, hrest, h⟩ := bind_eq_ok h
    obtain rfl := Except.ok.inj h
    rcases List.mem_cons.1 hb with rfl | hb
    · exact ⟨0, a, rfl, hfirst⟩
    · obtain ⟨i, entry, hi, hload⟩ := ih hrest hb
      refine ⟨i + 1, entry, hi, ?_⟩
      rwa [Nat.add_right_comm, Nat.add_assoc] at hload

/-- Entries cannot be added if and only if one of them cannot, behind entries that can. -/
theorem addEach_eq_error_iff {add : σ → Nat → α → Except LoadError σ} {state : σ} {index : Nat}
    {entries : List α} {err : LoadError} :
    addEach add state index entries = .error err ↔
      ∃ i entry before, entries[i]? = some entry ∧
        addEach add state index (entries.take i) = .ok before ∧
        add before (index + i) entry = .error err := by
  induction entries generalizing state index with
  | nil =>
    constructor
    · intro h
      cases h
    · rintro ⟨i, entry, before, hi, -, -⟩
      cases hi
  | cons a entries ih =>
    constructor
    · intro h
      rcases bind_eq_error h with hfirst | ⟨next, hnext, hrest⟩
      · exact ⟨0, a, state, rfl, rfl, hfirst⟩
      · obtain ⟨i, entry, before, hi, hbefore, herr⟩ := ih.1 hrest
        rw [Nat.add_right_comm, Nat.add_assoc] at herr
        refine ⟨i + 1, entry, before, hi, ?_, herr⟩
        rw [List.take_succ_cons, addEach, hnext]
        exact hbefore
    · rintro ⟨i, entry, before, hi, hbefore, herr⟩
      cases i with
      | zero =>
        obtain rfl := Option.some.inj hi
        obtain rfl := Except.ok.inj hbefore
        rw [addEach]
        rw [Nat.add_zero] at herr
        rw [herr]
        rfl
      | succ i =>
        rw [List.take_succ_cons] at hbefore
        obtain ⟨next, hnext, hbefore⟩ := bind_eq_ok hbefore
        rw [addEach, hnext]
        refine ih.2 ⟨i, entry, before, hi, hbefore, ?_⟩
        rwa [Nat.add_right_comm, Nat.add_assoc]

theorem any_key_iff {key : β → Address} {done : List β} {a : Address} :
    (done.any fun b => key b = a) = true ↔ a ∈ done.map key := by
  rw [List.any_eq_true, List.mem_map]
  constructor
  · rintro ⟨b, hb, hkey⟩
    exact ⟨b, hb, of_decide_eq_true hkey⟩
  · rintro ⟨b, hb, hkey⟩
    exact ⟨b, hb, decide_eq_true hkey⟩

/-- Adding parts whose keys are not there yet adds all of them, and the keys are distinct. -/
theorem addEach_eq_ok_iff {γ : Type} {add : List β → Nat → α → Except LoadError (List β)}
    {R : α → β → Prop} {key : β → γ}
    (hadd : ∀ done index a next, add done index a = .ok next ↔
      ∃ b, R a b ∧ key b ∉ done.map key ∧ next = done ++ [b])
    {done all : List β} {index : Nat} {entries : List α} (hdone : (done.map key).Nodup) :
    addEach add done index entries = .ok all ↔
      ∃ added, List.Forall₂ R entries added ∧ all = done ++ added ∧ (all.map key).Nodup := by
  induction entries generalizing done index with
  | nil =>
    constructor
    · intro h
      obtain rfl := Except.ok.inj h
      exact ⟨[], .nil, (List.append_nil done).symm, hdone⟩
    · rintro ⟨added, hadded, rfl, -⟩
      cases hadded
      rw [List.append_nil]
      rfl
  | cons a entries ih =>
    have hsnoc {b : β} : ((done ++ [b]).map key).Nodup ↔ key b ∉ done.map key := by
      rw [List.map_append, List.map_singleton, List.nodup_middle, List.append_nil, List.nodup_cons]
      exact and_iff_left hdone
    constructor
    · intro h
      obtain ⟨next, hnext, hrest⟩ := bind_eq_ok h
      obtain ⟨b, hb, hnew, rfl⟩ := (hadd done index a next).1 hnext
      obtain ⟨added, hadded, hall, hnodup⟩ := (ih (hsnoc.2 hnew)).1 hrest
      rw [List.append_assoc] at hall
      exact ⟨b :: added, .cons hb hadded, hall, hnodup⟩
    · rintro ⟨added, hadded, hall, hnodup⟩
      cases hadded with
      | @cons _ b _ added hb hrest =>
        rw [← List.singleton_append, ← List.append_assoc] at hall
        subst hall
        have hfirst : ((done ++ [b]).map key).Nodup := by
          rw [List.map_append] at hnodup
          exact hnodup.of_append_left
        refine (bind_of_ok ((hadd done index a _).2 ⟨b, hb, hsnoc.1 hfirst, rfl⟩)).trans ?_
        exact (ih hfirst).2 ⟨added, hrest, rfl, hnodup⟩

theorem addEach_nil_eq_ok_iff {γ : Type} {add : List β → Nat → α → Except LoadError (List β)}
    {R : α → β → Prop} {key : β → γ}
    (hadd : ∀ done index a next, add done index a = .ok next ↔
      ∃ b, R a b ∧ key b ∉ done.map key ∧ next = done ++ [b])
    {all : List β} {index : Nat} {entries : List α} :
    addEach add [] index entries = .ok all ↔
      List.Forall₂ R entries all ∧ (all.map key).Nodup := by
  have hnone : (([] : List β).map key).Nodup := List.nodup_nil
  rw [addEach_eq_ok_iff hadd hnone]
  constructor
  · rintro ⟨added, hadded, rfl, hnodup⟩
    exact ⟨hadded, hnodup⟩
  · rintro ⟨hall, hnodup⟩
    exact ⟨all, hall, rfl, hnodup⟩

/-! ## Parts of a program -/

/-- Loads a snapshot without its data and its comments. -/
def bare (s : Snapshot) : Except LoadError Program := do
  let space : AddressSpace := ⟨s.pointerSize.bytes⟩
  let imageBase ← address space [.key "imageBase"] s.imageBase
  let starts ← each (fun i e => address space (member "memory" i "start") e.start) 0 s.memory
  let entryPoints ← each (fun i text => address space (item "entryPoints" i) text) 0 s.entryPoints
  let instructions ← addEach (addInstruction space) [] 0 s.instructions
  let functions ← sortedFunctions space s.functions
  let labels ← addEach (addSymbol space functions) [] 0 s.symbols
  .ok ⟨s.name, s.language, space, imageBase, least? starts, entryPoints, functions, labels,
    instructions, [], []⟩

theorem bare_cases {s : Snapshot} {p : Program} (h : bare s = .ok p) :
    p.space = ⟨s.pointerSize.bytes⟩ ∧ p.data = [] ∧
      addEach (addInstruction ⟨s.pointerSize.bytes⟩) [] 0 s.instructions = .ok p.instructions ∧
      sortedFunctions ⟨s.pointerSize.bytes⟩ s.functions = .ok p.functions := by
  obtain ⟨imageBase, -, h⟩ := bind_eq_ok h
  obtain ⟨starts, -, h⟩ := bind_eq_ok h
  obtain ⟨entryPoints, -, h⟩ := bind_eq_ok h
  obtain ⟨instructions, hinstructions, h⟩ := bind_eq_ok h
  obtain ⟨functions, hfunctions, h⟩ := bind_eq_ok h
  obtain ⟨labels, -, h⟩ := bind_eq_ok h
  obtain rfl := Except.ok.inj h
  exact ⟨rfl, rfl, hinstructions, hfunctions⟩

end Load

open Load

theorem load_eq_bind (s : Snapshot) :
    load s = (do
      let bare ← Load.bare s
      let p ← addEach addData bare 0 s.data
      let comments ← each (comment ⟨s.pointerSize.bytes⟩) 0 s.comments
      .ok { p with comments := comments }) := by
  unfold load Load.bare
  simp only [bind_assoc]
  rfl

theorem load_eq_ok_iff {s : Snapshot} {p : Program} :
    load s = .ok p ↔ ∃ start loaded comments, Load.bare s = .ok start ∧
      addEach addData start 0 s.data = .ok loaded ∧
      each (comment ⟨s.pointerSize.bytes⟩) 0 s.comments = .ok comments ∧
      p = { loaded with comments := comments } := by
  rw [load_eq_bind]
  constructor
  · intro h
    obtain ⟨start, hstart, h⟩ := bind_eq_ok h
    obtain ⟨loaded, hdata, h⟩ := bind_eq_ok h
    obtain ⟨comments, hcomments, h⟩ := bind_eq_ok h
    exact ⟨start, loaded, comments, hstart, hdata, hcomments, (Except.ok.inj h).symm⟩
  · rintro ⟨start, loaded, comments, hstart, hdata, hcomments, rfl⟩
    refine (bind_of_ok hstart).trans ?_
    refine (bind_of_ok hdata).trans ?_
    exact bind_of_ok hcomments

end BinaryReport.Program
