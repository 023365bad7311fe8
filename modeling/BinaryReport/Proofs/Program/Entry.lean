import BinaryReport.Proofs.Address.Text
import BinaryReport.Proofs.Engine.History
import BinaryReport.Proofs.Program.Layout
import BinaryReport.Proofs.Program.Names

/-!
# Where a program is entered

A program is entered at its first entry point, or else at its lowest memory, or else at the base of its
image. All of these are read from text by loading, so they lie in the address space, and no change moves
them (`Engine.Reached.entry_lt`).
-/

namespace BinaryReport

open Outcome

namespace Program

/-- Every address at which a program may be entered lies in its address space. -/
structure EntriesInside (p : Program) : Prop where
  imageBase : p.imageBase.offset < p.space.size
  minAddress : ∀ a, p.minAddress? = some a → a.offset < p.space.size
  entryPoints : ∀ a ∈ p.entryPoints, a.offset < p.space.size

variable {p p' : Program}

theorem EntriesInside.entryFrom (h : p.EntriesInside) :
    (p.entryFrom p.entryPoints).offset < p.space.size := by
  unfold Program.entryFrom
  cases hpoints : p.entryPoints with
  | cons a points => exact h.entryPoints a (by simp [hpoints])
  | nil =>
    cases hmin : p.minAddress? with
    | some a => exact h.minAddress a hmin
    | none => exact h.imageBase

/-! ## Loading -/

namespace Load

theorem mem_of_least? {as : List Address} {a : Address} (h : least? as = some a) : a ∈ as := by
  induction as generalizing a with
  | nil => cases h
  | cons b as ih =>
    rw [least?] at h
    cases hleast : least? as with
    | none =>
      rw [hleast] at h
      obtain rfl := Option.some.inj h
      exact List.mem_cons_self
    | some c =>
      rw [hleast] at h
      obtain rfl := Option.some.inj h
      by_cases hlt : c.offset < b.offset
      · simpa [hlt] using Or.inr (ih hleast)
      · simp [hlt]

theorem offset_lt_of_each {α : Type} {space : AddressSpace} {path : Nat → α → List PathStep}
    {text : α → String} {index : Nat} {entries : List α} {as : List Address}
    (h : each (fun i e => address space (path i e) (text e)) index entries = .ok as) :
    ∀ a ∈ as, a.offset < space.size := by
  intro a ha
  obtain ⟨i, e, -, hread⟩ := exists_of_mem_each h ha
  exact AddressSpace.offset_lt_of_parse (ok_of_mapError hread)

theorem entriesInside_bare {s : Snapshot} (h : bare s = .ok p) : p.EntriesInside := by
  obtain ⟨imageBase, himageBase, h⟩ := bind_eq_ok h
  obtain ⟨starts, hstarts, h⟩ := bind_eq_ok h
  obtain ⟨points, hpoints, h⟩ := bind_eq_ok h
  obtain ⟨instructions, -, h⟩ := bind_eq_ok h
  obtain ⟨functions, -, h⟩ := bind_eq_ok h
  obtain ⟨labels, -, h⟩ := bind_eq_ok h
  obtain rfl := Except.ok.inj h
  have hbase := AddressSpace.offset_lt_of_parse (ok_of_mapError himageBase)
  have hmemory := offset_lt_of_each hstarts
  exact ⟨hbase, fun a ha => hmemory a (mem_of_least? ha), offset_lt_of_each hpoints⟩

end Load

theorem EntriesInside.placeData (h : p.EntriesInside) {a : Address} {t : DataType}
    (hplace : p.placeData a t = .ok p') : p'.EntriesInside := by
  rw [placeData_eq hplace]
  exact ⟨h.imageBase, h.minAddress, h.entryPoints⟩

theorem entriesInside_load {s : Snapshot} (h : load s = .ok p) : p.EntriesInside := by
  obtain ⟨start, data, comments, hstart, rfl⟩ := exists_bare_of_load h
  have hinside := Load.entriesInside_bare hstart
  exact ⟨hinside.imageBase, hinside.minAddress, hinside.entryPoints⟩

/-! ## Changes -/

theorem EntriesInside.change (h : p.EntriesInside) (hchange : Engine.Change p p') :
    p'.EntriesInside := by
  cases hchange with
  | none => exact h
  | name index name source hvalid =>
    rw [renameIndex_eq]
    exact ⟨h.imageBase, h.minAddress, h.entryPoints⟩
  | data haddress htype hplace => exact h.placeData hplace

end Program

/-- A program is entered inside its address space, whatever was changed. -/
theorem Engine.Reached.entry_lt {s : Snapshot} {e : Engine} (h : Reached s e) :
    (e.program.entryFrom e.program.entryPoints).offset < e.program.space.size := by
  have hinside : e.program.EntriesInside := by
    refine h.induct (fun p => Program.entriesInside_load) ?_
    intro p p' hp hchange
    exact hp.change hchange
  exact hinside.entryFrom

end BinaryReport
