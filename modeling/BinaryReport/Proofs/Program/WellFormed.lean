import BinaryReport.Proofs.Engine.Faultless
import BinaryReport.Proofs.Program.Loaded

/-!
# Well-formed snapshots

The snapshots that can be loaded, described entry by entry (`Snapshot.WellFormed`): all texts can be
read, no two instructions and no two functions share an address, functions are entered in their
bodies, and there is room for the data. Loading accepts exactly these (`exists_load_iff_wellFormed`), as
long as the lengths of types are exact.
-/

namespace BinaryReport

open Program Program.Load

/-- A text denotes an address of the program. -/
def Snapshot.IsAddress (s : Snapshot) (text : String) : Prop := ∃ a, s.space.parse text = .ok a

/-- Everything in a snapshot can be loaded. -/
structure Snapshot.WellFormed (s : Snapshot) : Prop where
  imageBase : s.IsAddress s.imageBase
  memory : ∀ e ∈ s.memory, s.IsAddress e.start
  entryPoints : ∀ text ∈ s.entryPoints, s.IsAddress text
  instructions : ∀ e ∈ s.instructions, s.IsAddress e.address
  entries : ∀ e ∈ s.functions, s.IsAddress e.entry
  bodies : ∀ e ∈ s.functions, ∀ r ∈ e.body, s.IsAddress r.start ∧ s.IsAddress r.last
  symbols : ∀ e ∈ s.symbols, s.IsAddress e.address
  data : ∀ e ∈ s.data, s.IsAddress e.address
  comments : ∀ e ∈ s.comments, s.IsAddress e.address
  /-- No two instructions have the same address. -/
  distinctInstructions : s.instructions.Pairwise fun e e' =>
    s.space.parse e.address ≠ s.space.parse e'.address
  /-- No two functions have the same entry. -/
  distinctEntries : s.functions.Pairwise fun e e' =>
    s.space.parse e.entry ≠ s.space.parse e'.entry
  /-- The entry of a function lies in one of the listed ranges of its body. -/
  inside : ∀ e ∈ s.functions, ∃ r ∈ e.body, ∃ entry first last,
    s.space.parse e.entry = .ok entry ∧ s.space.parse r.start = .ok first ∧
      s.space.parse r.last = .ok last ∧
      first.offset ≤ entry.offset ∧ entry.offset ≤ last.offset
  /-- The types of data can be read. -/
  types : ∀ e ∈ s.data, ∃ t, DataType.parse s.pointerSize.bytes e.type = .ok t
  /-- A unit of data ends inside the space, and it meets no instruction and no unit that is the latest
  one listed before it at another address. -/
  room : ∀ units, List.Forall₂ (DataEntry.Denotes s.space) s.data units →
    ∀ (earlier : List DataUnit) (u : DataUnit) (later : List DataUnit),
      units = earlier ++ u :: later → u.last < s.space.size ∧
        (∀ e ∈ s.instructions, ∀ i : Instruction, e.Denotes s.space i →
          u.last < i.address.offset ∨ i.last < u.address.offset) ∧
        ∀ v : DataUnit, v.LatestIn earlier → v.address ≠ u.address →
          u.last < v.address.offset ∨ v.last < u.address.offset

variable {s : Snapshot} {p : Program}

/-! ## Entries and what they denote -/

theorem DataEntry.rightUnique_denotes (space : AddressSpace) :
    Relator.RightUnique (DataEntry.Denotes space) := by
  rintro e ⟨a, t⟩ ⟨a', t'⟩ ⟨ha, ht⟩ ⟨ha', ht'⟩
  obtain rfl := Except.ok.inj (ha.symm.trans ha')
  obtain rfl := Except.ok.inj (ht.symm.trans ht')
  rfl

/-- Entries with addresses that are read denote parts with distinct addresses if and only if no two
texts denote the same address. -/
theorem pairwise_parse_ne_iff {α β : Type} {space : AddressSpace} {R : α → β → Prop}
    {text : α → String} {key : β → Address} {entries : List α} {parts : List β}
    (h : List.Forall₂ R entries parts)
    (hread : ∀ e b, R e b → space.parse (text e) = .ok (key b)) :
    (entries.Pairwise fun e e' => space.parse (text e) ≠ space.parse (text e')) ↔
      (parts.map key).Nodup := by
  have hinjective : Function.Injective (Except.ok : Address → Except AddressError Address) :=
    fun _ _ => Except.ok.inj
  have hsame : (entries.map fun e => space.parse (text e)) = (parts.map key).map Except.ok := by
    rw [List.map_map]
    exact Matching.map_eq_map h hread
  rw [← List.nodup_map_iff hinjective, ← hsame]
  exact List.pairwise_map.symm

/-- A function entry denotes a function if and only if its texts can be read and its entry is inside
its body. -/
theorem FunctionEntry.exists_denotes_iff {space : AddressSpace} {e : FunctionEntry} :
    (∃ f, e.Denotes space f) ↔
      (∀ r ∈ e.body, (∃ a, space.parse r.start = .ok a) ∧ ∃ a, space.parse r.last = .ok a) ∧
        ∃ r ∈ e.body, ∃ entry first last, space.parse e.entry = .ok entry ∧
          space.parse r.start = .ok first ∧ space.parse r.last = .ok last ∧
          first.offset ≤ entry.offset ∧ entry.offset ≤ last.offset := by
  constructor
  · rintro ⟨f, entry, ranges, hentry, hranges, ⟨range, hrange, hinside⟩, -⟩
    constructor
    · intro r hr
      obtain ⟨range, -, hstart, hlast⟩ := Matching.exists_of_mem_left hranges hr
      exact ⟨⟨range.first, hstart⟩, range.last, hlast⟩
    · obtain ⟨r, hr, hstart, hlast⟩ := Matching.exists_of_mem_right hranges hrange
      obtain ⟨hfirst, hend⟩ := AddressRange.contains_iff.1 hinside
      exact ⟨r, hr, entry, range.first, range.last, hentry, hstart, hlast, hfirst, hend⟩
  · rintro ⟨hbody, r, hr, entry, first, last, hentry, hstart, hlast, hfirst, hend⟩
    have hranges : ∀ r ∈ e.body, ∃ range, BodyEntry.Denotes space r range := by
      intro r hr
      obtain ⟨⟨first, hstart⟩, last, hlast⟩ := hbody r hr
      exact ⟨⟨first, last⟩, hstart, hlast⟩
    obtain ⟨ranges, hranges⟩ := Matching.exists_forall₂ hranges
    obtain ⟨range, hrange, hstart', hlast'⟩ := Matching.exists_of_mem_left hranges hr
    obtain rfl := Except.ok.inj (hstart.symm.trans hstart')
    obtain rfl := Except.ok.inj (hlast.symm.trans hlast')
    exact ⟨_, entry, ranges, hentry, hranges,
      ⟨range, hrange, AddressRange.contains_iff.2 ⟨hfirst, hend⟩⟩, rfl⟩

/-! ## Acceptance -/

theorem Snapshot.LoadsTo.wellFormed (h : s.LoadsTo p) : s.WellFormed := by
  obtain ⟨starts, hstarts, -⟩ := h.memory
  obtain ⟨listed, hlisted, hperm⟩ := h.functions
  obtain ⟨units, hunits, hturn, -⟩ := h.data
  have hfunctions : ∀ e ∈ s.functions, ∃ f, e.Denotes s.space f := by
    intro e he
    obtain ⟨f, -, hf⟩ := Matching.exists_of_mem_left hlisted he
    exact ⟨f, hf⟩
  constructor
  case imageBase => exact ⟨p.imageBase, h.imageBase⟩
  case memory =>
    intro e he
    obtain ⟨a, -, ha⟩ := Matching.exists_of_mem_left hstarts he
    exact ⟨a, ha⟩
  case entryPoints =>
    intro text htext
    obtain ⟨a, -, ha⟩ := Matching.exists_of_mem_left h.entryPoints htext
    exact ⟨a, ha⟩
  case instructions =>
    intro e he
    obtain ⟨i, -, hi⟩ := Matching.exists_of_mem_left h.instructions he
    exact ⟨i.address, hi.parse_address⟩
  case entries =>
    intro e he
    obtain ⟨f, hf⟩ := hfunctions e he
    exact ⟨f.entry, hf.parse_entry⟩
  case bodies =>
    intro e he
    exact (FunctionEntry.exists_denotes_iff.1 (hfunctions e he)).1
  case symbols => exact exists_addEach_addSymbol_iff.1 ⟨p.labels, h.labels⟩
  case data =>
    intro e he
    obtain ⟨u, -, ha, -⟩ := Matching.exists_of_mem_left hunits he
    exact ⟨u.address, ha⟩
  case comments =>
    intro e he
    obtain ⟨c, -, ha, -⟩ := Matching.exists_of_mem_left h.comments he
    exact ⟨c.address, ha⟩
  case distinctInstructions =>
    exact (pairwise_parse_ne_iff h.instructions fun _ _ hi => hi.parse_address).2 h.distinct
  case distinctEntries =>
    refine (pairwise_parse_ne_iff hlisted fun _ _ hf => hf.parse_entry).2 ?_
    exact (hperm.map _).nodup_iff.1 (nodup_of_ascending h.ascending)
  case inside =>
    intro e he
    exact (FunctionEntry.exists_denotes_iff.1 (hfunctions e he)).2
  case types =>
    intro e he
    obtain ⟨u, -, -, ht⟩ := Matching.exists_of_mem_left hunits he
    exact ⟨u.type, ht⟩
  case room =>
    intro units' hunits' earlier u later hsplit
    obtain rfl := List.right_unique_forall₂' (DataEntry.rightUnique_denotes s.space) hunits hunits'
    obtain ⟨hinside, hclear, hapart⟩ := fitInTurn_iff.1 hturn earlier u later hsplit
    refine ⟨hinside, fun e he i hi => ?_, fun v hv => hapart v (mem_settle_iff.2 hv)⟩
    obtain ⟨i', hi', a, ha, rfl⟩ := Matching.exists_of_mem_left h.instructions he
    obtain ⟨a', ha', rfl⟩ := hi
    obtain rfl := Except.ok.inj (ha.symm.trans ha')
    exact hclear _ hi'

theorem Snapshot.WellFormed.exists_loadsTo (h : s.WellFormed) : ∃ p, s.LoadsTo p := by
  obtain ⟨imageBase, himageBase⟩ := h.imageBase
  obtain ⟨starts, hstarts⟩ := Matching.exists_forall₂ h.memory
  obtain ⟨points, hpoints⟩ := Matching.exists_forall₂ h.entryPoints
  have hinstruction : ∀ e ∈ s.instructions, ∃ i, InstructionEntry.Denotes s.space e i := by
    intro e he
    obtain ⟨a, ha⟩ := h.instructions e he
    exact ⟨_, a, ha, rfl⟩
  obtain ⟨instructions, hinstructions⟩ := Matching.exists_forall₂ hinstruction
  have hfunction : ∀ e ∈ s.functions, ∃ f, FunctionEntry.Denotes s.space e f := by
    intro e he
    exact FunctionEntry.exists_denotes_iff.2 ⟨h.bodies e he, h.inside e he⟩
  obtain ⟨listed, hlisted⟩ := Matching.exists_forall₂ hfunction
  have hunit : ∀ e ∈ s.data, ∃ u, DataEntry.Denotes s.space e u := by
    intro e he
    obtain ⟨a, ha⟩ := h.data e he
    obtain ⟨t, ht⟩ := h.types e he
    exact ⟨⟨a, t⟩, ha, ht⟩
  obtain ⟨units, hunits⟩ := Matching.exists_forall₂ hunit
  have hcomment : ∀ e ∈ s.comments, ∃ c, CommentEntry.Denotes s.space e c := by
    intro e he
    obtain ⟨a, ha⟩ := h.comments e he
    exact ⟨⟨a, e.kind, e.text⟩, ha, rfl, rfl⟩
  obtain ⟨comments, hcomments⟩ := Matching.exists_forall₂ hcomment
  have hoffsets : (listed.map fun f => f.entry.offset).Nodup := by
    have hentries : (listed.map (·.entry)).Nodup :=
      (pairwise_parse_ne_iff hlisted fun _ _ hf => hf.parse_entry).1 h.distinctEntries
    have hmapped := hentries.map Address.offset_injective
    rw [List.map_map] at hmapped
    exact hmapped
  obtain ⟨functions, hperm, hascending⟩ := Sorting.exists_ascending_perm hoffsets
  have hsymbols := @exists_addEach_addSymbol_iff s.space functions [] s.symbols 0
  obtain ⟨labels, hlabels⟩ := hsymbols.2 h.symbols
  have hturn : FitInTurn s.space instructions [] units := by
    refine fitInTurn_iff.2 fun earlier u later hsplit => ?_
    obtain ⟨hinside, hclear, hapart⟩ := h.room units hunits earlier u later hsplit
    refine ⟨hinside, fun i hi => ?_, fun v hv => hapart v (mem_settle_iff.1 hv)⟩
    obtain ⟨e, he, hdenotes⟩ := Matching.exists_of_mem_right hinstructions hi
    exact hclear e he i hdenotes
  exact ⟨⟨s.name, s.language, s.space, imageBase, least? starts, points, functions, labels,
    instructions, settle [] units, comments⟩, {
      name := rfl
      language := rfl
      space := rfl
      imageBase := himageBase
      memory := ⟨starts, hstarts, rfl⟩
      entryPoints := hpoints
      instructions := hinstructions
      distinct := (pairwise_parse_ne_iff hinstructions fun _ _ hi => hi.parse_address).1
        h.distinctInstructions
      functions := ⟨listed, hlisted, hperm⟩
      ascending := hascending
      labels := hlabels
      data := ⟨units, hunits, hturn, rfl⟩
      comments := hcomments }⟩

/-- A snapshot can be loaded if and only if it is well formed. -/
theorem exists_load_iff_wellFormed (hexact : s.HasExactTypes) :
    (∃ p, load s = .ok p) ↔ s.WellFormed := by
  constructor
  · rintro ⟨p, h⟩
    exact ((load_eq_ok_iff_loadsTo hexact).1 h).wellFormed
  · intro h
    obtain ⟨p, hloads⟩ := h.exists_loadsTo
    exact ⟨p, (load_eq_ok_iff_loadsTo hexact).2 hloads⟩

namespace Engine

/-- An engine is made of exactly the well-formed snapshots, if the lengths of types are exact. -/
theorem exists_ofSnapshot_iff_wellFormed (s : Snapshot) (hexact : s.HasExactTypes) :
    (∃ e, ofSnapshot s = .ok e) ↔ s.WellFormed := by
  rw [exists_ofSnapshot_iff]
  exact exists_load_iff_wellFormed hexact

/-- A snapshot with data that fits only because the unit before it was replaced by a shorter one. -/
def crowdedSnapshot : Snapshot :=
  ⟨"a", "x", "0", .four, ["0x10"], [⟨"m", "ram:0", 64⟩], [⟨"10", "RET", "", ⟨"c3", by decide⟩⟩],
    [⟨"f", "10", [⟨"8", "11"⟩], "void", [], .analysis, none, 0⟩],
    [⟨"start", "10", .label, .imported, false⟩], [⟨"20", "int"⟩, ⟨"20", "char"⟩, ⟨"21", "int[2]"⟩],
    [⟨"10", .before, "entry"⟩]⟩

theorem exists_ofSnapshot_iff_wellFormed_crowded :
    crowdedSnapshot.HasExactTypes ∧ crowdedSnapshot.WellFormed := by
  have hexact : crowdedSnapshot.HasExactTypes := by decide +kernel
  have hloads : ∃ e, ofSnapshot crowdedSnapshot = .ok e :=
    exists_ofSnapshot_iff.2 (Outcome.exists_ok_of_toBool (by decide +kernel))
  exact ⟨hexact, (exists_ofSnapshot_iff_wellFormed crowdedSnapshot hexact).1 hloads⟩

end Engine

end BinaryReport
