import BinaryReport.Proofs.Program.Symbols
import BinaryReport.Proofs.Report.Coherence

/-!
# The symbols that a report shows

A report leaves external symbols out, but loading does not look at that flag when it skips a listed
symbol whose name and address are in the table already. So a name at an address is shown if a function
has it, or if the first symbol that the snapshot lists under it is not external; one that is not
external is lost behind an external one (`Snapshot.Shadows`). The report of a loaded program shows each
of these once and nothing else (`Report.symbols_build`).
-/

namespace BinaryReport

open Outcome

namespace Snapshot

/-- A function of the snapshot has a name and is entered at an address. -/
def HasFunction (s : Snapshot) (name : String) (a : Address) : Prop :=
  ∃ e ∈ s.functions, e.name = name ∧ s.space.parse e.entry = .ok a

/-- The snapshot lists a symbol that is not external under a name at an address. -/
def ListsInside (s : Snapshot) (name : String) (a : Address) : Prop :=
  ∃ e ∈ s.symbols, e.isExternal = false ∧ e.name = name ∧ s.space.parse e.address = .ok a

/-- The first symbol that the snapshot lists under a name at an address. -/
def listed? (s : Snapshot) (name : String) (a : Address) : Option SymbolEntry :=
  s.symbols.find? fun e => e.name = name && (s.space.parse e.address).toOption = some a

/-- A listed symbol that is not external comes behind an external one of its name and address, and no
function has the two. -/
def Shadows (s : Snapshot) : Prop :=
  ∃ name a, s.ListsInside name a ∧ ¬s.HasFunction name a ∧
    ∃ e, s.listed? name a = some e ∧ e.isExternal = true

variable {s : Snapshot} {name : String} {a : Address}

theorem listed?_pred_iff {e : SymbolEntry} :
    (e.name = name && (s.space.parse e.address).toOption = some a) = true ↔
      e.name = name ∧ s.space.parse e.address = .ok a := by
  cases s.space.parse e.address with
  | ok b => simp [Except.toOption]
  | error err => simp [Except.toOption]

theorem listsInside_of_listed? {e : SymbolEntry} (h : s.listed? name a = some e)
    (hinside : e.isExternal = false) : s.ListsInside name a := by
  have hpred := List.find?_some h
  obtain ⟨hname, haddress⟩ := listed?_pred_iff.1 hpred
  exact ⟨e, List.mem_of_find?_eq_some h, hinside, hname, haddress⟩

theorem ListsInside.exists_listed? (h : s.ListsInside name a) : ∃ e, s.listed? name a = some e := by
  obtain ⟨e, he, -, hname, haddress⟩ := h
  rw [← Option.isSome_iff_exists, listed?, List.find?_isSome]
  exact ⟨e, he, listed?_pred_iff.2 ⟨hname, haddress⟩⟩

end Snapshot

/-! ## The table -/

namespace Program

variable {p : Program} {s : Snapshot}

/-- Among distinct symbols each one is found by its identity. -/
theorem HasUniqueSymbols.mem_iff (h : p.HasUniqueSymbols) {x : Symbol} :
    x ∈ p.symbols ↔ p.symbols.find? (·.identity = x.identity) = some x :=
  (and_iff_left rfl).symm.trans (Sorting.find?_key_eq_some_iff h).symm

/-- The symbol of a function is not external, and it has the name and the entry of the function. -/
theorem find?_functions (h : load s = .ok p) (name : String) (a : Address) :
    (∃ x, (p.functions.map (·.symbol)).find? (·.identity = (name, a)) = some x ∧
        x.isExternal = false ∧ s.HasFunction name a) ∨
      ((p.functions.map (·.symbol)).find? (·.identity = (name, a)) = none ∧
        ¬s.HasFunction name a) := by
  obtain ⟨listed, hlisted, hperm⟩ := functions_load h
  cases hfind : (p.functions.map (·.symbol)).find? (·.identity = (name, a)) with
  | some x =>
    obtain ⟨f, hf, rfl⟩ := List.mem_map.1 (List.mem_of_find?_eq_some hfind)
    have hidentity : f.symbol.identity = (name, a) := Symbol.identity_of_find? hfind
    obtain ⟨e, he, hdenotes⟩ := Matching.exists_of_mem_right hlisted (hperm.mem_iff.1 hf)
    have hentry := hdenotes.parse_entry
    obtain ⟨entry, ranges, -, -, -, rfl⟩ := hdenotes
    obtain ⟨hname, haddress⟩ := Prod.mk.inj hidentity
    refine Or.inl ⟨_, rfl, rfl, e, he, hname, ?_⟩
    rw [← haddress]
    exact hentry
  | none =>
    refine Or.inr ⟨rfl, ?_⟩
    rintro ⟨e, he, hname, haddress⟩
    obtain ⟨f, hf, hdenotes⟩ := Matching.exists_of_mem_left hlisted he
    have hentry := Except.ok.inj (hdenotes.parse_entry.symm.trans haddress)
    obtain ⟨entry, ranges, -, -, -, rfl⟩ := hdenotes
    have hnot := List.find?_eq_none.1 hfind _ (List.mem_map_of_mem (hperm.mem_iff.2 hf))
    refine hnot (decide_eq_true ?_)
    exact Prod.ext hname hentry

theorem find?_denoted {entries : List SymbolEntry} {listed : List Symbol}
    (h : List.Forall₂ (SymbolEntry.Denotes s.space) entries listed) (name : String) (a : Address) :
    (listed.find? (·.identity = (name, a))).map (·.isExternal) =
      (entries.find? fun e => e.name = name &&
        (s.space.parse e.address).toOption = some a).map (·.isExternal) := by
  induction h with
  | nil => rfl
  | @cons e x entries listed hfirst _ ih =>
    obtain ⟨b, hb, rfl⟩ := hfirst
    have hentry : (e.name = name && (s.space.parse e.address).toOption = some a) =
        decide ((e.name, b) = (name, a)) := by
      simp [hb, Except.toOption]
    rw [List.find?_cons, List.find?_cons, hentry]
    by_cases hsame : (e.name, b) = (name, a)
    · simp [Symbol.identity, hsame]
    · simp only [Symbol.identity, hsame, decide_false]
      exact ih

/-- A loaded program has a symbol inside it under a name at an address if a function has them, or if the
first symbol listed under them is not external. -/
theorem exists_inside_iff (h : load s = .ok p) (name : String) (a : Address) :
    (∃ x ∈ p.symbols, x.isExternal = false ∧ x.identity = (name, a)) ↔
      s.HasFunction name a ∨ ∃ e, s.listed? name a = some e ∧ e.isExternal = false := by
  have hunique := hasUniqueSymbols_load h
  obtain ⟨listed, hlisted, hfind⟩ := find?_symbols_load h
  have hdenoted := find?_denoted hlisted name a
  have hinside : (∃ x ∈ p.symbols, x.isExternal = false ∧ x.identity = (name, a)) ↔
      (p.symbols.find? (·.identity = (name, a))).map (·.isExternal) = some false := by
    rw [Option.map_eq_some_iff]
    constructor
    · rintro ⟨x, hx, hfalse, hidentity⟩
      rw [hunique.mem_iff, hidentity] at hx
      exact ⟨x, hx, hfalse⟩
    · rintro ⟨x, hx, hfalse⟩
      exact ⟨x, List.mem_of_find?_eq_some hx, hfalse, Symbol.identity_of_find? hx⟩
  rw [hinside, hfind, List.find?_append]
  rcases find?_functions h name a with ⟨x, hx, hfalse, hfunction⟩ | ⟨hnone, hno⟩
  · rw [hx, Option.some_or, Option.map_some, hfalse]
    exact iff_of_true rfl (Or.inl hfunction)
  · rw [hnone, Option.none_or, hdenoted, Option.map_eq_some_iff, or_iff_right hno]
    rfl

end Program

/-! ## Reports -/

/-- What tells the symbols of a report apart. -/
def SymbolRecord.identity (x : SymbolRecord) : String × String := (x.name, x.address)

namespace Report

/-- The canonical text of the address in an identity. -/
def shownIdentity (i : String × Address) : String × String := (i.1, i.2.canonical)

theorem shownIdentity_injective : Function.Injective shownIdentity := by
  rintro ⟨name, a⟩ ⟨name', b⟩ heq
  obtain ⟨hname, haddress⟩ := Prod.mk.inj heq
  exact Prod.ext hname (Address.canonical_inj.1 haddress)

theorem identity_records (xs : List Symbol) :
    (xs.map SymbolRecord.ofSymbol).map SymbolRecord.identity =
      (xs.map Symbol.identity).map shownIdentity := by
  rw [List.map_map, List.map_map]
  rfl

theorem nodup_identity_records {p : Program} (h : p.HasUniqueSymbols) :
    (((p.symbols.filter (!·.isExternal)).map SymbolRecord.ofSymbol).map
      SymbolRecord.identity).Nodup := by
  have hinside : ((p.symbols.filter (!·.isExternal)).map Symbol.identity).Nodup :=
    List.Nodup.sublist (List.filter_sublist.map _) h
  rw [identity_records]
  exact hinside.map shownIdentity_injective

theorem mem_identity_records {p : Program} {name text : String} :
    (name, text) ∈ ((p.symbols.filter (!·.isExternal)).map SymbolRecord.ofSymbol).map
        SymbolRecord.identity ↔
      ∃ a, text = a.canonical ∧ ∃ x ∈ p.symbols, x.isExternal = false ∧ x.identity = (name, a) := by
  rw [identity_records]
  simp only [List.mem_map, List.mem_filter, Bool.not_eq_true']
  constructor
  · rintro ⟨_, ⟨x, ⟨hx, hinside⟩, rfl⟩, hshown⟩
    obtain ⟨rfl, rfl⟩ := Prod.mk.inj hshown
    exact ⟨x.address, rfl, x, hx, hinside, rfl⟩
  · rintro ⟨a, rfl, x, hx, hinside, hidentity⟩
    exact ⟨(name, a), ⟨x, ⟨hx, hinside⟩, hidentity⟩, rfl⟩

/-- The names and addresses of the functions and of the first symbols that are listed under them are
the ones that a report shows, unless the first symbol is external; each is shown once. They are those
of the functions and of all symbols that are not external if and only if none of these is shadowed. -/
theorem symbols_build {s : Snapshot} {e : Engine} (h : Engine.ofSnapshot s = .ok e)
    (limits : Limits) :
    ∃ r, (build e limits).2.outcome = .ok (.whole r) ∧
      (r.symbols.map SymbolRecord.identity).Nodup ∧
      (∀ name text, (name, text) ∈ r.symbols.map SymbolRecord.identity ↔
        ∃ a, text = a.canonical ∧ (s.HasFunction name a ∨
          ∃ x, s.listed? name a = some x ∧ x.isExternal = false)) ∧
      ((∀ name text, (name, text) ∈ r.symbols.map SymbolRecord.identity ↔
          ∃ a, text = a.canonical ∧ (s.HasFunction name a ∨ s.ListsInside name a)) ↔
        ¬s.Shadows) := by
  obtain ⟨p, hload, rfl⟩ := Engine.ofSnapshot_cases h
  have hopen : Engine.Faultless { Engine.ofProgram p with isOpen := true } := rfl
  obtain ⟨r, hr, hfilled⟩ := exists_filled (Engine.faultless_ofProgram p) limits
  have hsymbols : r.symbols = (p.symbols.filter (!·.isExternal)).map SymbolRecord.ofSymbol :=
    hfilled.symbols_eq hopen
  have hmem (name text : String) : (name, text) ∈ r.symbols.map SymbolRecord.identity ↔
      ∃ a, text = a.canonical ∧ (s.HasFunction name a ∨
        ∃ x, s.listed? name a = some x ∧ x.isExternal = false) := by
    rw [hsymbols, mem_identity_records]
    simp only [Program.exists_inside_iff hload]
  refine ⟨r, hr, ?_, hmem, ?_⟩
  · rw [hsymbols]
    exact nodup_identity_records (Program.hasUniqueSymbols_load hload)
  constructor
  · rintro hall ⟨name, a, hlists, hno, x, hx, hexternal⟩
    have hshown := (hall name a.canonical).2 ⟨a, rfl, Or.inr hlists⟩
    obtain ⟨b, htext, hfunction | ⟨y, hy, hinside⟩⟩ := (hmem name a.canonical).1 hshown
    · rw [← Address.canonical_inj.1 htext] at hfunction
      exact hno hfunction
    · rw [← Address.canonical_inj.1 htext, hx] at hy
      obtain rfl := Option.some.inj hy
      rw [hexternal] at hinside
      cases hinside
  · intro hclear name text
    rw [hmem]
    refine exists_congr fun a => and_congr_right fun _ => ?_
    constructor
    · rintro (hfunction | ⟨x, hx, hinside⟩)
      · exact Or.inl hfunction
      · exact Or.inr (Snapshot.listsInside_of_listed? hx hinside)
    · rintro (hfunction | hlists)
      · exact Or.inl hfunction
      · obtain ⟨x, hx⟩ := hlists.exists_listed?
        by_cases hfunction : s.HasFunction name a
        · exact Or.inl hfunction
        · refine Or.inr ⟨x, hx, eq_false_of_ne_true fun hexternal => ?_⟩
          exact hclear ⟨name, a, hlists, hfunction, x, hx, hexternal⟩

theorem symbols_build_labelled :
    Engine.ofSnapshot labelledSnapshot = .ok (Engine.ofProgram labelledProgram) ∧
      ∃ r, (build (Engine.ofProgram labelledProgram) .standard).2.outcome = .ok (.whole r) ∧
        ("start", "0x8") ∈ r.symbols.map SymbolRecord.identity ∧
        (r.symbols.map SymbolRecord.identity).Nodup := by
  have hload := Engine.ofSnapshot_of_load load_labelledSnapshot
  obtain ⟨r, hr, hnodup, hmem, -⟩ := symbols_build hload .standard
  have hlisted : labelledSnapshot.HasFunction "start" ⟨8⟩ ∨
      ∃ x, labelledSnapshot.listed? "start" ⟨8⟩ = some x ∧ x.isExternal = false :=
    Or.inr ⟨_, rfl, rfl⟩
  exact ⟨hload, r, hr, (hmem "start" "0x8").2 ⟨⟨8⟩, by decide, hlisted⟩, hnodup⟩

/-- A snapshot that lists an external symbol before one of the same name and address that is not. -/
def shadowingSnapshot : Snapshot :=
  ⟨"a", "x", "0", .four, [], [], [], [], [⟨"puts", "10", .label, .imported, true⟩,
    ⟨"puts", "0x10", .label, .analysis, false⟩], [], []⟩

/-- The program of the snapshot. -/
def shadowingProgram : Program :=
  ⟨"a", "x", ⟨4⟩, ⟨0⟩, none, [], [], [⟨"puts", ⟨16⟩, .label, .imported, true⟩], [], [], []⟩

/-- The symbol that is not external is lost. -/
theorem symbols_build_shadowing :
    Engine.ofSnapshot shadowingSnapshot = .ok (Engine.ofProgram shadowingProgram) ∧
      shadowingSnapshot.ListsInside "puts" ⟨16⟩ ∧
      ∃ r, (build (Engine.ofProgram shadowingProgram) .standard).2.outcome = .ok (.whole r) ∧
        r.symbols = [] ∧ ("puts", "0x10") ∉ r.symbols.map SymbolRecord.identity := by
  have hload : Program.load shadowingSnapshot = .ok shadowingProgram := by decide +kernel
  have hopen : Engine.Faultless { Engine.ofProgram shadowingProgram with isOpen := true } := rfl
  obtain ⟨r, hr, hfilled⟩ := exists_filled (Engine.faultless_ofProgram shadowingProgram) .standard
  have hnone : r.symbols = [] := hfilled.symbols_eq hopen
  refine ⟨Engine.ofSnapshot_of_load hload, ⟨_, List.mem_cons_of_mem _ List.mem_cons_self, rfl, rfl, rfl⟩,
    r, hr, hnone, ?_⟩
  rw [hnone]
  exact List.not_mem_nil

end Report

end BinaryReport
