import BinaryReport.Proofs.Program.Loaded

/-!
# The symbol table of a loaded program

A name and an address together tell symbols apart (`Symbol.identity`). Loading goes through the symbols
that a snapshot lists and adds those whose identity is not in the table yet, so the table has every
identity once (`Program.hasUniqueSymbols_load`), and it has it from the first symbol that bears it, a
function or else a listed symbol (`Symbol.find?_firsts`). Whether a symbol is external plays no part in
this.
-/

namespace BinaryReport

open Outcome

/-- What tells symbols apart. -/
def Symbol.identity (x : Symbol) : String × Address := (x.name, x.address)

/-- No two symbols of the table have both the same name and the same address. -/
def Program.HasUniqueSymbols (p : Program) : Prop := (p.symbols.map Symbol.identity).Nodup

instance (p : Program) : Decidable p.HasUniqueSymbols :=
  inferInstanceAs (Decidable (p.symbols.map Symbol.identity).Nodup)

/-- An entry denotes a symbol. -/
def SymbolEntry.Denotes (space : AddressSpace) (e : SymbolEntry) (x : Symbol) : Prop :=
  ∃ a, space.parse e.address = .ok a ∧ x = ⟨e.name, a, e.kind, e.source, e.isExternal⟩

/-! ## First occurrences -/

namespace Symbol

/-- The symbols of a list whose identity comes neither among the known ones nor earlier in the list. -/
def firsts (known : List (String × Address)) : List Symbol → List Symbol
  | [] => []
  | x :: rest =>
    if x.identity ∈ known then firsts known rest else x :: firsts (known ++ [x.identity]) rest

theorem nodup_firsts {known : List (String × Address)} (h : known.Nodup) (xs : List Symbol) :
    (known ++ (firsts known xs).map identity).Nodup := by
  induction xs generalizing known with
  | nil => simpa [firsts] using h
  | cons x xs ih =>
    rw [firsts]
    by_cases hx : x.identity ∈ known
    · rw [if_pos hx]
      exact ih h
    · have hnext : (known ++ [x.identity]).Nodup := by
        rw [List.nodup_middle, List.append_nil]
        exact List.nodup_cons.2 ⟨hx, h⟩
      have hrest := ih hnext
      rw [if_neg hx, List.map_cons]
      simpa using hrest

theorem identity_of_find? {xs : List Symbol} {i : String × Address} {x : Symbol}
    (h : xs.find? (·.identity = i) = some x) : x.identity = i := by
  simpa using List.find?_some h

/-- The symbol of an identity is the first one, among the known symbols or in the list. -/
theorem find?_firsts (known xs : List Symbol) (i : String × Address) :
    (known ++ firsts (known.map identity) xs).find? (·.identity = i) =
      (known ++ xs).find? (·.identity = i) := by
  induction xs generalizing known with
  | nil => simp [firsts]
  | cons x xs ih =>
    rw [firsts]
    by_cases hx : x.identity ∈ known.map identity
    · rw [if_pos hx, ih known, List.find?_append, List.find?_append, List.find?_cons]
      by_cases hi : x.identity = i
      · -- A known symbol has the identity, so what is in the list does not matter.
        obtain ⟨y, hy, hyx⟩ := List.mem_map.1 hx
        have hfound : (known.find? (·.identity = i)).isSome = true := by
          rw [List.find?_isSome]
          exact ⟨y, hy, decide_eq_true (hyx.trans hi)⟩
        obtain ⟨z, hz⟩ := Option.isSome_iff_exists.1 hfound
        rw [hz, Option.some_or, Option.some_or]
      · simp [hi]
    · have hrest := ih (known ++ [x])
      rw [if_neg hx]
      simpa using hrest

end Symbol

/-! ## Loading -/

namespace Program

variable {p : Program}

namespace Load

variable {space : AddressSpace} {functions : List Function}

theorem any_identity_iff {xs : List Symbol} {name : String} {a : Address} :
    (xs.any fun x => x.name = name && x.address = a) = true ↔ (name, a) ∈ xs.map Symbol.identity := by
  simp [Symbol.identity]

theorem addSymbol_eq_ok {labels next : List Symbol} {index : Nat} {e : SymbolEntry}
    (h : addSymbol space functions labels index e = .ok next) :
    ∃ x, e.Denotes space x ∧
      next = if x.identity ∈ (functions.map (·.symbol) ++ labels).map Symbol.identity then labels
        else labels ++ [x] := by
  obtain ⟨a, ha, h⟩ := bind_eq_ok h
  have hany : (functions.any (fun f => f.symbol.name = e.name && f.symbol.address = a) ||
      labels.any fun x => x.name = e.name && x.address = a) =
        (functions.map (·.symbol) ++ labels).any fun x => x.name = e.name && x.address = a := by
    rw [List.any_append, List.any_map]
    rfl
  refine ⟨_, ⟨a, address_eq_ok_iff.1 ha, rfl⟩, ?_⟩
  dsimp only at h
  rw [hany] at h
  by_cases hknown : (e.name, a) ∈ (functions.map (·.symbol) ++ labels).map Symbol.identity
  · rw [if_pos (any_identity_iff.2 hknown)] at h
    rw [Symbol.identity, if_pos hknown]
    exact (Except.ok.inj h).symm
  · rw [if_neg (mt any_identity_iff.1 hknown)] at h
    rw [Symbol.identity, if_neg hknown]
    exact (Except.ok.inj h).symm

/-- Listed symbols are added if they are the first of their identity. -/
theorem addEach_addSymbol_eq_ok {labels all : List Symbol} {index : Nat}
    {entries : List SymbolEntry}
    (h : addEach (addSymbol space functions) labels index entries = .ok all) :
    ∃ listed, List.Forall₂ (SymbolEntry.Denotes space) entries listed ∧
      all = labels ++
        Symbol.firsts ((functions.map (·.symbol) ++ labels).map Symbol.identity) listed := by
  induction entries generalizing labels index with
  | nil =>
    obtain rfl := Except.ok.inj h
    exact ⟨[], .nil, by simp [Symbol.firsts]⟩
  | cons e entries ih =>
    obtain ⟨next, hnext, h⟩ := bind_eq_ok h
    obtain ⟨x, hx, rfl⟩ := addSymbol_eq_ok hnext
    obtain ⟨listed, hlisted, rfl⟩ := ih h
    refine ⟨x :: listed, .cons hx hlisted, ?_⟩
    rw [Symbol.firsts]
    by_cases hknown : x.identity ∈ (functions.map (·.symbol) ++ labels).map Symbol.identity
    · simp only [if_pos hknown]
    · simp only [if_neg hknown]
      simp

end Load

theorem labels_load {s : Snapshot} (h : load s = .ok p) :
    ∃ listed, List.Forall₂ (SymbolEntry.Denotes s.space) s.symbols listed ∧
      p.labels = Symbol.firsts ((p.functions.map (·.symbol)).map Symbol.identity) listed := by
  obtain ⟨start, data, comments, hstart, rfl⟩ := exists_bare_of_load h
  obtain ⟨imageBase, -, hstart⟩ := bind_eq_ok hstart
  obtain ⟨starts, -, hstart⟩ := bind_eq_ok hstart
  obtain ⟨points, -, hstart⟩ := bind_eq_ok hstart
  obtain ⟨instructions, -, hstart⟩ := bind_eq_ok hstart
  obtain ⟨functions, -, hstart⟩ := bind_eq_ok hstart
  obtain ⟨labels, hlabels, hstart⟩ := bind_eq_ok hstart
  obtain rfl := Except.ok.inj hstart
  obtain ⟨listed, hlisted, hall⟩ := Load.addEach_addSymbol_eq_ok hlabels
  rw [List.nil_append, List.append_nil] at hall
  exact ⟨listed, hlisted, hall⟩

/-- The symbol of an identity is that of the first function or listed symbol that bears it. -/
theorem find?_symbols_load {s : Snapshot} (h : load s = .ok p) :
    ∃ listed, List.Forall₂ (SymbolEntry.Denotes s.space) s.symbols listed ∧
      ∀ i, p.symbols.find? (·.identity = i) =
        (p.functions.map (·.symbol) ++ listed).find? (·.identity = i) := by
  obtain ⟨listed, hlisted, hlabels⟩ := labels_load h
  refine ⟨listed, hlisted, fun i => ?_⟩
  rw [symbols, hlabels, Symbol.find?_firsts]

theorem nodup_identity_functions {functions : List Function}
    (h : (functions.map (·.entry)).Nodup) :
    ((functions.map (·.symbol)).map Symbol.identity).Nodup := by
  refine List.Nodup.of_map Prod.snd ?_
  rw [List.map_map, List.map_map]
  exact h

theorem hasUniqueSymbols_load {s : Snapshot} (h : load s = .ok p) : p.HasUniqueSymbols := by
  obtain ⟨listed, -, hlabels⟩ := labels_load h
  have hascending := (hasFunctionsOf_load h).ascending
  rw [List.pairwise_map] at hascending
  have hfunctions := nodup_identity_functions (Load.nodup_of_ascending hascending)
  rw [HasUniqueSymbols, symbols, hlabels, List.map_append]
  exact Symbol.nodup_firsts hfunctions listed

end Program

end BinaryReport
