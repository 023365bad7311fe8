import BinaryReport.Proofs.Engine.History
import BinaryReport.Proofs.Program.Layout
import Mathlib.Data.List.Infix

/-!
# The layout of data along a history

The data of a loaded program stays well laid whatever changes are asked of its engine
(`wellLaid_editAll`).
-/

namespace BinaryReport

open Binary64

namespace Program

theorem space_of_change {p p' : Program} (h : Engine.Change p p') : p'.space = p.space := by
  cases h with
  | none => rfl
  | name index name source hvalid =>
    unfold renameIndex
    split_ifs
    · rfl
    · rfl
  | data haddress htype hplace => rw [placeData_eq hplace]

/-- A change keeps the layout, if the lengths of the types in the changed program are exact. -/
theorem WellLaid.change {p p' : Program} (h : p.WellLaid) (hchange : Engine.Change p p')
    (hexact : ∀ u ∈ p'.data, u.type.IsExactIn p.space) : p'.WellLaid := by
  cases hchange with
  | none => exact h
  | name index name source hvalid =>
    unfold renameIndex
    split_ifs
    · exact h.congr rfl rfl rfl
    · exact h.congr rfl rfl rfl
  | @data a t p' address type haddress htype hplace =>
    have hmem : ⟨a, t⟩ ∈ p'.data := by
      rw [placeData_eq hplace]
      exact mem_putData_self _ _
    exact h.placeData (DataType.isCount_of_parse htype) (hexact _ hmem) hplace

end Program

namespace Engine

/-- The types that are applied along a history have exact lengths: those of the snapshot, and those
of the data after every change. -/
def AppliesExactTypes (s : Snapshot) (e : Engine) (edits : List Edit) : Prop :=
  (∀ entry ∈ s.data, ∀ t, DataType.parse s.pointerSize.bytes entry.type = .ok t →
    t.length ≤ Binary64.ofNat exactLimit) ∧
  ∀ done, done <+: edits → ∀ u ∈ (e.editAll done).program.data,
    u.type.length ≤ Binary64.ofNat exactLimit

theorem wellLaid_editAll_of_exact {e : Engine} (hfaultless : e.Faultless)
    (hlaid : e.program.WellLaid) {edits : List Edit} (hexact : ∀ done, done <+: edits →
      ∀ u ∈ (e.editAll done).program.data, u.type.IsExactIn e.program.space) :
    (e.editAll edits).program.WellLaid ∧ (e.editAll edits).program.space = e.program.space := by
  induction edits generalizing e with
  | nil => exact ⟨hlaid, rfl⟩
  | cons x edits ih =>
    obtain ⟨p, hchange, hp⟩ := hfaultless.edit_cases x
    have hprogram : (e.edit x).program = p := by rw [hp]
    have hspace : (e.edit x).program.space = e.program.space := by
      rw [hprogram]
      exact Program.space_of_change hchange
    have hone : ∀ u ∈ p.data, u.type.IsExactIn e.program.space := by
      intro u hu
      refine hexact [x] ⟨edits, rfl⟩ u ?_
      show u ∈ (e.edit x).program.data
      rw [hprogram]
      exact hu
    have hlaid' : (e.edit x).program.WellLaid := by
      rw [hprogram]
      exact hlaid.change hchange hone
    obtain ⟨hrest, hrestSpace⟩ := ih (hfaultless.edit x) hlaid' fun done hdone => by
      rw [hspace]
      exact hexact (x :: done) (List.cons_prefix_cons.2 ⟨rfl, hdone⟩)
    exact ⟨hrest, hrestSpace.trans hspace⟩

/-- The data of a loaded program stays well laid along every history of changes: with pointers of
four bytes always, with pointers of eight bytes if the applied types have exact lengths. -/
theorem wellLaid_editAll {s : Snapshot} {e : Engine} (hload : ofSnapshot s = .ok e)
    (edits : List Edit) (hexact : s.pointerSize = .four ∨ AppliesExactTypes s e edits) :
    (e.editAll edits).program.WellLaid ∧
      (e.editAll edits).program.space = ⟨s.pointerSize.bytes⟩ := by
  unfold ofSnapshot at hload
  split at hload
  · next p hprogram =>
    obtain rfl := Except.ok.inj hload
    have hload : (∀ entry ∈ s.data, ∀ t, DataType.parse s.pointerSize.bytes entry.type = .ok t →
        t.IsExactIn ⟨s.pointerSize.bytes⟩) ∧ ∀ done, done <+: edits →
          ∀ u ∈ ((ofProgram p).editAll done).program.data,
            u.type.IsExactIn ⟨s.pointerSize.bytes⟩ := by
      rcases hexact with hfour | ⟨hentries, hedits⟩
      · have hbytes : s.pointerSize.bytes = 4 := by
          rw [hfour]
          rfl
        exact ⟨fun _ _ _ _ => Or.inl hbytes, fun _ _ _ _ => Or.inl hbytes⟩
      · exact ⟨fun entry hentry t ht => Or.inr (hentries entry hentry t ht),
          fun done hdone u hu => Or.inr (hedits done hdone u hu)⟩
    obtain ⟨hlaid, hspace⟩ := Program.wellLaid_load hprogram hload.1
    have hedits : ∀ done, done <+: edits → ∀ u ∈ ((ofProgram p).editAll done).program.data,
        u.type.IsExactIn (ofProgram p).program.space := by
      show ∀ done, done <+: edits → ∀ u ∈ ((ofProgram p).editAll done).program.data,
        u.type.IsExactIn p.space
      rw [hspace]
      exact hload.2
    obtain ⟨hall, hallSpace⟩ := wellLaid_editAll_of_exact (faultless_ofProgram p) hlaid hedits
    exact ⟨hall, hallSpace.trans hspace⟩
  · cases hload

/-- A snapshot with a unit of data at the end of its space. -/
def topSnapshot : Snapshot :=
  ⟨"a", "x", "0", .eight, [], [], [], [], [], [⟨"fffffffffffffffc", "int"⟩], []⟩

/-- The program of the snapshot. -/
def topProgram : Program :=
  ⟨"a", "x", ⟨8⟩, ⟨0⟩, none, [], [], [], [], [⟨⟨0xfffffffffffffffc⟩, ⟨"int", 4⟩⟩], []⟩

/-- A unit that would meet the one there is, one that replaces it, and one in the room that is
left. -/
def topEdits : List Edit :=
  [.create "fffffffffffffffa" "char[4]", .retype "fffffffffffffffc" "char[3]",
    .create "ffffffffffffffff" "char"]

theorem wellLaid_editAll_topSnapshot :
    ofSnapshot topSnapshot = .ok (ofProgram topProgram) ∧
      AppliesExactTypes topSnapshot (ofProgram topProgram) topEdits ∧
      ((ofProgram topProgram).editAll topEdits).program.WellLaid := by
  have hload : ofSnapshot topSnapshot = .ok (ofProgram topProgram) := by
    have hprogram : Program.load topSnapshot = .ok topProgram := by decide +kernel
    rw [ofSnapshot, hprogram]
  have hexact : AppliesExactTypes topSnapshot (ofProgram topProgram) topEdits := by
    constructor
    · intro entry hentry t ht
      have hint : DataType.parse 8 "int" = .ok ⟨"int", 4⟩ := by decide +kernel
      rw [List.mem_singleton.1 hentry] at ht
      obtain rfl := Except.ok.inj (hint.symm.trans ht)
      decide +kernel
    · have hinits : ∀ done ∈ topEdits.inits, ∀ u ∈ ((ofProgram topProgram).editAll done).program.data,
          u.type.length ≤ Binary64.ofNat exactLimit := by
        decide +kernel
      intro done hdone
      exact hinits done ((List.mem_inits done topEdits).2 hdone)
  exact ⟨hload, hexact, (wellLaid_editAll hload topEdits (Or.inr hexact)).1⟩

end Engine

end BinaryReport
