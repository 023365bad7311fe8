import BinaryReport.Proofs.Address.RangeSet
import BinaryReport.Proofs.Program.Functions
import BinaryReport.Proofs.Program.Placement

/-!
# What a snapshot is loaded to

The entries of a snapshot denote the parts of a program, each by itself (`InstructionEntry.Denotes` and
so on). A snapshot is loaded to the program that has exactly these parts, the functions sorted and the
data put in turn (`Snapshot.LoadsTo`), and it is refused if there is no such program
(`load_eq_ok_iff_loadsTo`). No index and no order of loading is left in this description, except for
the order of the symbols and of the data.
-/

namespace BinaryReport

open Binary64 Outcome

/-! ## What entries denote -/

/-- The space that the addresses of a snapshot are read in. -/
def Snapshot.space (s : Snapshot) : AddressSpace := ⟨s.pointerSize.bytes⟩

section Denotes

variable (space : AddressSpace)

/-- An entry denotes an instruction. -/
def InstructionEntry.Denotes (e : InstructionEntry) (i : Instruction) : Prop :=
  ∃ a, space.parse e.address = .ok a ∧
    i = ⟨a, e.mnemonic, e.operands, e.bytes.bytes.map signedByte⟩

/-- An entry denotes a range of a body, which may be inverted. -/
def BodyEntry.Denotes (e : BodyEntry) (r : AddressRange) : Prop :=
  space.parse e.start = .ok r.first ∧ space.parse e.last = .ok r.last

/-- An entry denotes a function, which is entered in one of the ranges of its body. -/
def FunctionEntry.Denotes (e : FunctionEntry) (f : Function) : Prop :=
  ∃ entry ranges, space.parse e.entry = .ok entry ∧
    List.Forall₂ (BodyEntry.Denotes space) e.body ranges ∧
    (∃ r ∈ ranges, r.contains entry = true) ∧
    f = ⟨⟨e.name, entry, .function, e.source, false⟩, .ofRanges ranges, e.returnType,
      e.parameters, e.decompiled?, e.latency⟩

/-- An entry denotes a unit of data. -/
def DataEntry.Denotes (e : DataEntry) (u : DataUnit) : Prop :=
  space.parse e.address = .ok u.address ∧ DataType.parse space.pointerSize e.type = .ok u.type

/-- An entry denotes a comment. -/
def CommentEntry.Denotes (e : CommentEntry) (c : Comment) : Prop :=
  space.parse e.address = .ok c.address ∧ c.kind = e.kind ∧ c.text = e.text

end Denotes

theorem InstructionEntry.Denotes.parse_address {space : AddressSpace} {e : InstructionEntry}
    {i : Instruction} (h : e.Denotes space i) : space.parse e.address = .ok i.address := by
  obtain ⟨a, ha, rfl⟩ := h
  exact ha

theorem FunctionEntry.Denotes.parse_entry {space : AddressSpace} {e : FunctionEntry} {f : Function}
    (h : e.Denotes space f) : space.parse e.entry = .ok f.entry := by
  obtain ⟨entry, ranges, hentry, -, -, rfl⟩ := h
  exact hentry

theorem BodyEntry.rightUnique_denotes (space : AddressSpace) :
    Relator.RightUnique (BodyEntry.Denotes space) := by
  rintro e ⟨first, last⟩ ⟨first', last'⟩ ⟨hfirst, hlast⟩ ⟨hfirst', hlast'⟩
  obtain rfl := Except.ok.inj (hfirst.symm.trans hfirst')
  obtain rfl := Except.ok.inj (hlast.symm.trans hlast')
  rfl

theorem FunctionEntry.rightUnique_denotes (space : AddressSpace) :
    Relator.RightUnique (FunctionEntry.Denotes space) := by
  rintro e f g ⟨entry, ranges, hentry, hranges, -, rfl⟩ ⟨entry', ranges', hentry', hranges', -, rfl⟩
  obtain rfl := Except.ok.inj (hentry.symm.trans hentry')
  obtain rfl := List.right_unique_forall₂' (BodyEntry.rightUnique_denotes space) hranges hranges'
  rfl

/-- No type of the data of a snapshot is longer than `2 ^ 53`. -/
def Snapshot.HasExactTypes (s : Snapshot) : Prop :=
  ∀ entry ∈ s.data, ∀ t, DataType.parse s.pointerSize.bytes entry.type = .ok t →
    t.length ≤ Binary64.ofNat (2 ^ 53)

theorem Snapshot.hasExactTypes_iff {s : Snapshot} :
    (s.data.all fun entry => (DataType.parse s.pointerSize.bytes entry.type).toOption.all fun t =>
        t.length ≤ Binary64.ofNat (2 ^ 53)) = true ↔ s.HasExactTypes := by
  rw [List.all_eq_true]
  refine forall₂_congr fun entry _ => ?_
  cases DataType.parse s.pointerSize.bytes entry.type with
  | ok t =>
    constructor
    · intro h t' ht'
      obtain rfl := Except.ok.inj ht'
      exact of_decide_eq_true h
    · intro h
      exact decide_eq_true (h t rfl)
  | error err =>
    constructor
    · intro _ t ht
      cases ht
    · intro _
      rfl

instance (s : Snapshot) : Decidable s.HasExactTypes := decidable_of_iff _ Snapshot.hasExactTypes_iff

namespace Program.Load

variable {space : AddressSpace}

/-! ## Loading entries -/

theorem address_eq_ok_iff {path : List PathStep} {text : String} {a : Address} :
    address space path text = .ok a ↔ space.parse text = .ok a := by
  constructor
  · intro h
    exact ok_of_mapError h
  · intro h
    unfold address
    rw [h, mapError_ok]

theorem addInstruction_eq_ok_iff {done next : List Instruction} {index : Nat}
    {e : InstructionEntry} :
    addInstruction space done index e = .ok next ↔
      ∃ i, e.Denotes space i ∧ i.address ∉ done.map (·.address) ∧ next = done ++ [i] := by
  constructor
  · intro h
    obtain ⟨a, ha, h⟩ := bind_eq_ok h
    split at h
    · cases h
    · next hnew =>
      have hnew : a ∉ done.map (·.address) := mt any_key_iff.2 hnew
      exact ⟨_, ⟨a, address_eq_ok_iff.1 ha, rfl⟩, hnew, (Except.ok.inj h).symm⟩
  · rintro ⟨i, ⟨a, ha, rfl⟩, hnew, rfl⟩
    have hnew : ¬ (done.any (·.address = a)) = true := mt any_key_iff.1 hnew
    refine (bind_of_ok (address_eq_ok_iff.2 ha)).trans ?_
    rw [if_neg hnew]

theorem addEach_addInstruction_iff {entries : List InstructionEntry} {is : List Instruction}
    {index : Nat} :
    addEach (addInstruction space) [] index entries = .ok is ↔
      List.Forall₂ (InstructionEntry.Denotes space) entries is ∧ (is.map (·.address)).Nodup := by
  have hadd (done : List Instruction) (index : Nat) (e : InstructionEntry)
      (next : List Instruction) := @addInstruction_eq_ok_iff space done next index e
  exact addEach_nil_eq_ok_iff hadd

theorem bodyRange_eq_ok_iff {function index : Nat} {e : BodyEntry} {r : AddressRange} :
    bodyRange space function index e = .ok r ↔ e.Denotes space r := by
  constructor
  · intro h
    obtain ⟨first, hfirst, h⟩ := bind_eq_ok h
    obtain ⟨last, hlast, h⟩ := bind_eq_ok h
    obtain rfl := Except.ok.inj h
    exact ⟨address_eq_ok_iff.1 hfirst, address_eq_ok_iff.1 hlast⟩
  · rintro ⟨hfirst, hlast⟩
    refine (bind_of_ok (address_eq_ok_iff.2 hfirst)).trans ?_
    exact bind_of_ok (address_eq_ok_iff.2 hlast)

theorem function_eq_ok_iff {index : Nat} {e : FunctionEntry} {f : Placed} :
    function space index e = .ok f ↔
      f.index = index ∧ f.entryText = e.entry ∧ e.Denotes space f.function := by
  have hrange (j : Nat) (range : BodyEntry) (r : AddressRange) :=
    @bodyRange_eq_ok_iff space index j range r
  have hbody (ranges : List AddressRange) :
      each (bodyRange space index) 0 e.body = .ok ranges ↔
        List.Forall₂ (BodyEntry.Denotes space) e.body ranges :=
    each_eq_ok_iff hrange
  constructor
  · intro h
    obtain ⟨entry, hentry, h⟩ := bind_eq_ok h
    obtain ⟨ranges, hranges, h⟩ := bind_eq_ok h
    dsimp only at h
    split at h
    · next hinside =>
      obtain rfl := Except.ok.inj h
      exact ⟨rfl, rfl, entry, ranges, address_eq_ok_iff.1 hentry, (hbody ranges).1 hranges,
        RangeSet.contains_ofRanges.1 hinside, rfl⟩
    · cases h
  · rintro ⟨rfl, htext, entry, ranges, hentry, hranges, hinside, hfunction⟩
    obtain ⟨index, text, g⟩ := f
    obtain rfl : text = e.entry := htext
    obtain rfl : g = _ := hfunction
    refine (bind_of_ok (address_eq_ok_iff.2 hentry)).trans ?_
    refine (bind_of_ok ((hbody ranges).2 hranges)).trans ?_
    dsimp only
    rw [if_pos (RangeSet.contains_ofRanges.2 hinside)]

theorem exists_each_function_iff {entries : List FunctionEntry} {functions : List Function}
    {index : Nat} :
    (∃ placed, each (function space) index entries = .ok placed ∧
        placed.map (·.function) = functions) ↔
      List.Forall₂ (FunctionEntry.Denotes space) entries functions := by
  induction entries generalizing functions index with
  | nil =>
    constructor
    · rintro ⟨placed, h, rfl⟩
      obtain rfl := Except.ok.inj h
      exact .nil
    · intro h
      cases h
      exact ⟨[], rfl, rfl⟩
  | cons e entries ih =>
    constructor
    · rintro ⟨placed, h, rfl⟩
      obtain ⟨f, hf, h⟩ := bind_eq_ok h
      obtain ⟨rest, hrest, h⟩ := bind_eq_ok h
      obtain rfl := Except.ok.inj h
      obtain ⟨-, -, hdenotes⟩ := function_eq_ok_iff.1 hf
      exact .cons hdenotes (ih.1 ⟨rest, hrest, rfl⟩)
    · intro h
      cases h with
      | @cons _ f _ functions hdenotes hrest =>
        obtain ⟨rest, hload, rfl⟩ := (@ih functions (index + 1)).2 hrest
        have hf : function space index e = .ok ⟨index, e.entry, f⟩ :=
          function_eq_ok_iff.2 ⟨rfl, rfl, hdenotes⟩
        refine ⟨⟨index, e.entry, f⟩ :: rest, ?_, rfl⟩
        refine (bind_of_ok hf).trans ?_
        exact bind_of_ok hload

/-- Functions in strictly ascending order of their entries. -/
abbrev Ascending (functions : List Function) : Prop :=
  functions.Pairwise fun f g => f.entry.offset < g.entry.offset

theorem nodup_of_ascending {functions : List Function} (h : Ascending functions) :
    (functions.map (·.entry)).Nodup := by
  refine List.pairwise_map.2 (h.imp fun hlt heq => ?_)
  rw [heq] at hlt
  exact lt_irrefl _ hlt

/-- The functions are loaded to what their entries denote, in the only order that is ascending. -/
theorem sortedFunctions_eq_ok_iff {entries : List FunctionEntry} {functions : List Function} :
    sortedFunctions space entries = .ok functions ↔
      Ascending functions ∧ ∃ listed, List.Forall₂ (FunctionEntry.Denotes space) entries listed ∧
        functions.Perm listed := by
  constructor
  · intro h
    have hascending := List.pairwise_map.1 (ascending_sortedFunctions h)
    obtain ⟨placed, hplaced, h⟩ := bind_eq_ok h
    obtain ⟨rfl, -⟩ := addEach_addFunction_iff.1 h
    exact ⟨hascending, placed.map (·.function), exists_each_function_iff.1 ⟨placed, hplaced, rfl⟩,
      (List.mergeSort_perm placed entersBefore).map _⟩
  · rintro ⟨hascending, listed, hlisted, hperm⟩
    obtain ⟨placed, hplaced, rfl⟩ := exists_each_function_iff.2 hlisted
    have hsorted : functions.Perm ((placed.mergeSort entersBefore).map (·.function)) :=
      hperm.trans ((List.mergeSort_perm placed entersBefore).symm.map _)
    have hnodup := nodup_of_ascending hascending
    -- The sorted functions ascend strictly, too, since no two of them share an entry.
    have hstrict : Ascending ((placed.mergeSort entersBefore).map (·.function)) :=
      ascending_mergeSort ((hsorted.map (·.entry)).nodup_iff.1 hnodup)
    have hsame := Sorting.eq_of_perm_of_ascending hsorted hascending hstrict
    refine (bind_of_ok hplaced).trans ?_
    exact addEach_addFunction_iff.2 ⟨hsame, hnodup⟩

theorem exists_addEach_addSymbol_iff {functions : List Function} {labels : List Symbol}
    {entries : List SymbolEntry} {index : Nat} :
    (∃ all, addEach (addSymbol space functions) labels index entries = .ok all) ↔
      ∀ e ∈ entries, ∃ a, space.parse e.address = .ok a := by
  induction entries generalizing labels index with
  | nil =>
    constructor
    · intro _ e he
      cases he
    · intro _
      exact ⟨labels, rfl⟩
  | cons e entries ih =>
    rw [List.forall_mem_cons]
    constructor
    · rintro ⟨all, h⟩
      obtain ⟨next, hnext, hrest⟩ := bind_eq_ok h
      obtain ⟨a, ha, -⟩ := bind_eq_ok hnext
      exact ⟨⟨a, address_eq_ok_iff.1 ha⟩, ih.1 ⟨all, hrest⟩⟩
    · rintro ⟨⟨a, ha⟩, hrest⟩
      have hnext : ∃ next, addSymbol space functions labels index e = .ok next := by
        unfold addSymbol
        rw [address_eq_ok_iff.2 ha]
        dsimp only [bind, Except.bind]
        split
        · exact ⟨_, rfl⟩
        · exact ⟨_, rfl⟩
      obtain ⟨next, hnext⟩ := hnext
      obtain ⟨all, hall⟩ := (@ih next (index + 1)).2 hrest
      exact ⟨all, (bind_of_ok hnext).trans hall⟩

theorem comment_eq_ok_iff {index : Nat} {e : CommentEntry} {c : Comment} :
    comment space index e = .ok c ↔ e.Denotes space c := by
  constructor
  · intro h
    obtain ⟨a, ha, h⟩ := bind_eq_ok h
    obtain rfl := Except.ok.inj h
    exact ⟨address_eq_ok_iff.1 ha, rfl, rfl⟩
  · rintro ⟨ha, hkind, htext⟩
    obtain ⟨a, kind, text⟩ := c
    obtain rfl : kind = e.kind := hkind
    obtain rfl : text = e.text := htext
    exact bind_of_ok (address_eq_ok_iff.2 ha)

theorem addData_eq_ok_iff {p p' : Program} {index : Nat} {e : DataEntry}
    (hexact : ∀ t, DataType.parse p.space.pointerSize e.type = .ok t →
      t.length ≤ Binary64.ofNat exactLimit) :
    addData p index e = .ok p' ↔
      ∃ u, e.Denotes p.space u ∧ u.Fits p.space p.instructions p.data ∧
        p' = { p with data := putData u p.data } := by
  constructor
  · intro h
    obtain ⟨a, ha, h⟩ := bind_eq_ok h
    obtain ⟨t, ht, h⟩ := bind_eq_ok h
    have htype : DataType.parse p.space.pointerSize e.type = .ok t := ok_of_mapError ht
    obtain ⟨hfits, hp⟩ :=
      (placeData_eq_ok_iff (DataType.isCount_of_parse htype) (hexact t htype)).1 (ok_of_mapError h)
    exact ⟨⟨a, t⟩, ⟨address_eq_ok_iff.1 ha, htype⟩, hfits, hp⟩
  · rintro ⟨⟨a, t⟩, ⟨ha, ht⟩, hfits, hp⟩
    have hplace : p.placeData a t = .ok p' :=
      (placeData_eq_ok_iff (DataType.isCount_of_parse ht) (hexact t ht)).2 ⟨hfits, hp⟩
    have htype : p.parseType e.type = .ok t := ht
    refine (bind_of_ok (address_eq_ok_iff.2 ha)).trans ?_
    rw [htype, mapError_ok]
    show (p.placeData a t).mapError _ = _
    rw [hplace, mapError_ok]

theorem addEach_addData_iff {p p' : Program} {entries : List DataEntry} {index : Nat}
    (hexact : ∀ e ∈ entries, ∀ t, DataType.parse p.space.pointerSize e.type = .ok t →
      t.length ≤ Binary64.ofNat exactLimit) :
    addEach addData p index entries = .ok p' ↔
      ∃ units, List.Forall₂ (DataEntry.Denotes p.space) entries units ∧
        FitInTurn p.space p.instructions p.data units ∧
        p' = { p with data := settle p.data units } := by
  induction entries generalizing p index with
  | nil =>
    constructor
    · intro h
      obtain rfl := Except.ok.inj h
      exact ⟨[], .nil, trivial, rfl⟩
    · rintro ⟨units, hunits, -, rfl⟩
      cases hunits
      rfl
  | cons e entries ih =>
    have hfirst := hexact e List.mem_cons_self
    have hrest : ∀ e ∈ entries, ∀ t, DataType.parse p.space.pointerSize e.type = .ok t →
        t.length ≤ Binary64.ofNat exactLimit :=
      fun e he => hexact e (List.mem_cons_of_mem _ he)
    constructor
    · intro h
      obtain ⟨next, hnext, h⟩ := bind_eq_ok h
      obtain ⟨u, hu, hfits, rfl⟩ := (addData_eq_ok_iff hfirst).1 hnext
      obtain ⟨units, hunits, hturn, rfl⟩ := (@ih { p with data := putData u p.data } _ hrest).1 h
      exact ⟨u :: units, .cons hu hunits, ⟨hfits, hturn⟩, rfl⟩
    · rintro ⟨units, hunits, hturn, rfl⟩
      cases hunits with
      | @cons _ u _ units hu hunits =>
        obtain ⟨hfits, hturn⟩ := hturn
        refine (bind_of_ok ((addData_eq_ok_iff hfirst).2 ⟨u, hu, hfits, rfl⟩)).trans ?_
        exact (@ih { p with data := putData u p.data } _ hrest).2 ⟨units, hunits, hturn, rfl⟩

end Program.Load

/-! ## Loading snapshots -/

open Program Program.Load

/-- The functions are those that the entries denote, in another order at most. -/
theorem Program.functions_load {s : Snapshot} {p : Program} (h : load s = .ok p) :
    ∃ listed, List.Forall₂ (FunctionEntry.Denotes s.space) s.functions listed ∧
      p.functions.Perm listed := by
  obtain ⟨start, data, comments, hstart, rfl⟩ := exists_bare_of_load h
  obtain ⟨-, -, -, hfunctions⟩ := bare_cases hstart
  exact (sortedFunctions_eq_ok_iff.1 hfunctions).2

/-- A function of a loaded program is denoted by an entry of the snapshot. -/
theorem Program.exists_denotes_of_load {s : Snapshot} {p : Program} (h : load s = .ok p)
    {f : Function} (hf : f ∈ p.functions) : ∃ entry ∈ s.functions, entry.Denotes s.space f := by
  obtain ⟨listed, hlisted, hperm⟩ := functions_load h
  exact Matching.exists_of_mem_right hlisted (hperm.mem_iff.1 hf)

/-- A program is what a snapshot is loaded to. -/
structure Snapshot.LoadsTo (s : Snapshot) (p : Program) : Prop where
  name : p.name = s.name
  language : p.language = s.language
  space : p.space = s.space
  imageBase : s.space.parse s.imageBase = .ok p.imageBase
  memory : ∃ starts, List.Forall₂ (fun e a => s.space.parse e.start = .ok a) s.memory starts ∧
    p.minAddress? = least? starts
  entryPoints : List.Forall₂ (fun text a => s.space.parse text = .ok a) s.entryPoints p.entryPoints
  instructions : List.Forall₂ (InstructionEntry.Denotes s.space) s.instructions p.instructions
  distinct : (p.instructions.map (·.address)).Nodup
  functions : ∃ listed, List.Forall₂ (FunctionEntry.Denotes s.space) s.functions listed ∧
    p.functions.Perm listed
  ascending : Ascending p.functions
  labels : addEach (addSymbol s.space p.functions) [] 0 s.symbols = .ok p.labels
  data : ∃ units, List.Forall₂ (DataEntry.Denotes s.space) s.data units ∧
    FitInTurn s.space p.instructions [] units ∧ p.data = settle [] units
  comments : List.Forall₂ (CommentEntry.Denotes s.space) s.comments p.comments

/-- A snapshot is loaded to the program that its entries denote, and to nothing if there is none. -/
theorem Program.load_eq_ok_iff_loadsTo {s : Snapshot} {p : Program} (hexact : s.HasExactTypes) :
    load s = .ok p ↔ s.LoadsTo p := by
  have hstarts {starts : List Address} :
      each (fun i e => address s.space (member "memory" i "start") e.start) 0 s.memory = .ok starts ↔
        List.Forall₂ (fun e a => s.space.parse e.start = .ok a) s.memory starts :=
    each_eq_ok_iff (R := fun (e : MemoryEntry) a => s.space.parse e.start = .ok a)
      fun i e a => address_eq_ok_iff
  have hentryPoints {points : List Address} :
      each (fun i text => address s.space (item "entryPoints" i) text) 0 s.entryPoints =
          .ok points ↔
        List.Forall₂ (fun text a => s.space.parse text = .ok a) s.entryPoints points :=
    each_eq_ok_iff (R := fun text a => s.space.parse text = .ok a) fun i text a =>
      address_eq_ok_iff
  have hcomments {comments : List Comment} :
      each (comment s.space) 0 s.comments = .ok comments ↔
        List.Forall₂ (CommentEntry.Denotes s.space) s.comments comments :=
    each_eq_ok_iff (R := CommentEntry.Denotes s.space) fun i e c => comment_eq_ok_iff
  rw [load_eq_ok_iff]
  constructor
  · rintro ⟨start, loaded, comments, hstart, hdata, hcomment, rfl⟩
    obtain ⟨imageBase, himageBase, hstart⟩ := bind_eq_ok hstart
    obtain ⟨starts, hstart', hstart⟩ := bind_eq_ok hstart
    obtain ⟨points, hpoints, hstart⟩ := bind_eq_ok hstart
    obtain ⟨instructions, hinstructions, hstart⟩ := bind_eq_ok hstart
    obtain ⟨functions, hfunctions, hstart⟩ := bind_eq_ok hstart
    obtain ⟨labels, hlabels, hstart⟩ := bind_eq_ok hstart
    obtain rfl := Except.ok.inj hstart
    have hplaced := @addEach_addData_iff ⟨s.name, s.language, s.space, imageBase, least? starts,
      points, functions, labels, instructions, [], []⟩ loaded s.data 0 hexact
    obtain ⟨units, hunits, hturn, rfl⟩ := hplaced.1 hdata
    obtain ⟨hdenoted, hdistinct⟩ := addEach_addInstruction_iff.1 hinstructions
    obtain ⟨hascending, hlisted⟩ := sortedFunctions_eq_ok_iff.1 hfunctions
    exact {
      name := rfl
      language := rfl
      space := rfl
      imageBase := address_eq_ok_iff.1 himageBase
      memory := ⟨starts, hstarts.1 hstart', rfl⟩
      entryPoints := hentryPoints.1 hpoints
      instructions := hdenoted
      distinct := hdistinct
      functions := hlisted
      ascending := hascending
      labels := hlabels
      data := ⟨units, hunits, hturn, rfl⟩
      comments := hcomments.1 hcomment }
  · intro h
    obtain ⟨starts, hmemory, hleast⟩ := h.memory
    obtain ⟨units, hunits, hturn, hsettled⟩ := h.data
    refine ⟨{ p with data := [], comments := [] }, { p with comments := [] }, p.comments, ?_, ?_,
      hcomments.2 h.comments, rfl⟩
    · refine (bind_of_ok (address_eq_ok_iff.2 h.imageBase)).trans ?_
      refine (bind_of_ok (hstarts.2 hmemory)).trans ?_
      refine (bind_of_ok (hentryPoints.2 h.entryPoints)).trans ?_
      refine (bind_of_ok (addEach_addInstruction_iff.2 ⟨h.instructions, h.distinct⟩)).trans ?_
      refine (bind_of_ok (sortedFunctions_eq_ok_iff.2 ⟨h.ascending, h.functions⟩)).trans ?_
      refine (bind_of_ok h.labels).trans ?_
      rw [← h.name, ← h.language, ← hleast]
      congr 2
      exact h.space.symm
    · have hspace : p.space = s.space := h.space
      refine (addEach_addData_iff ?_).2 ⟨units, ?_, ?_, ?_⟩
      · intro e he t ht
        rw [show ({ p with data := [], comments := [] } : Program).space = s.space from hspace] at ht
        exact hexact e he t ht
      · rw [← hspace] at hunits
        exact hunits
      · rw [← hspace] at hturn
        exact hturn
      · rw [← hsettled]

end BinaryReport
