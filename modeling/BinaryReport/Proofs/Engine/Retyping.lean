import BinaryReport.Proofs.DataType.Canonical
import BinaryReport.Proofs.Engine.Frame
import BinaryReport.Proofs.Program.Placement

/-!
# Taking a change of type back

Data gets its old type back by the name of that type (`Engine.retypeData_undo`): the name denotes the
type, the unit fits where it was, and no other unit has moved. It fits since units of exact length were
placed beside one another: such a unit ends inside the space, and it meets neither an instruction nor
another such unit (`Program.Spaced`). A longer unit may have been placed over them, so nothing is said
about those.
-/

namespace BinaryReport

open Binary64

/-- The number of bytes is small enough to be exact. -/
def DataUnit.IsExact (u : DataUnit) : Prop := u.type.length ≤ Binary64.ofNat exactLimit

instance : DecidablePred DataUnit.IsExact := fun u =>
  inferInstanceAs (Decidable (u.type.length ≤ Binary64.ofNat exactLimit))

namespace Program

variable {p p' : Program} {a : Address} {t : DataType} {u v : DataUnit} {data : List DataUnit}

/-! ## Putting a unit back -/

theorem putData_putData (h : v.address = u.address) (data : List DataUnit) :
    putData u (putData v data) = putData u data := by
  induction data with
  | nil => rw [putData, putData, putData, if_pos h]
  | cons w data ih =>
    by_cases hw : w.address = u.address
    · have hv : w.address = v.address := hw.trans h.symm
      rw [putData, if_pos hv, putData, if_pos h, putData, if_pos hw]
    · have hv : w.address ≠ v.address := fun heq => hw (heq.trans h)
      rw [putData, if_neg hv, putData, if_neg hw, ih, putData, if_neg hw]

theorem putData_of_mem (hnodup : (data.map (·.address)).Nodup) (hu : u ∈ data) :
    putData u data = data := by
  obtain ⟨before, after, rfl⟩ := List.append_of_mem hu
  refine putData_eq_append after rfl fun w hw heq => ?_
  rw [List.map_append, List.map_cons, List.nodup_middle] at hnodup
  refine (List.nodup_cons.1 hnodup).1 (List.mem_append_left _ ?_)
  rw [← heq]
  exact List.mem_map_of_mem hw

/-! ## Units beside one another -/

/-- The units whose lengths are exact. -/
def exactData (p : Program) : List DataUnit := p.data.filter fun u => u.IsExact

theorem mem_exactData : u ∈ p.exactData ↔ u ∈ p.data ∧ u.IsExact := by simp [exactData]

/-- The types of units were read, and the units of exact length have their places to themselves. -/
structure Spaced (p : Program) : Prop where
  nodup : (p.data.map (·.address)).Nodup
  denoted : ∀ u ∈ p.data, ∃ text, p.parseType text = .ok u.type
  fits : ∀ u ∈ p.exactData, u.Fits p.space p.instructions p.exactData

theorem Spaced.congr (h : p.Spaced) (hspace : p'.space = p.space)
    (hinstructions : p'.instructions = p.instructions) (hdata : p'.data = p.data) : p'.Spaced := by
  constructor
  · rw [hdata]
    exact h.nodup
  · rw [hdata]
    unfold parseType
    rw [hspace]
    exact h.denoted
  · unfold exactData
    rw [hdata, hspace, hinstructions]
    exact h.fits

/-- A unit that is placed has its place to itself, and is beside those that were there. -/
theorem Spaced.placeData (h : p.Spaced) {text : String} (htype : p.parseType text = .ok t)
    (hplace : p.placeData a t = .ok p') : p'.Spaced := by
  obtain rfl := placeData_eq hplace
  have hold {v : DataUnit} (hv : v ∈ putData ⟨a, t⟩ p.data) := mem_putData h.nodup hv
  have hnew : DataUnit.IsExact ⟨a, t⟩ → DataUnit.Fits p.space p.instructions p.data ⟨a, t⟩ :=
    fun hexact => ((placeData_eq_ok_iff (DataType.isCount_of_parse htype) hexact).1 hplace).1
  refine ⟨nodup_putData h.nodup, fun u hu => ?_, fun u hu => ?_⟩
  · rcases hold hu with rfl | ⟨hu, -⟩
    · exact ⟨text, htype⟩
    · exact h.denoted u hu
  · obtain ⟨hu, hexact⟩ := mem_exactData.1 hu
    rcases hold hu with rfl | ⟨hu, hua⟩
    · have hfits := hnew hexact
      refine ⟨hfits.inside, hfits.clear, fun v hv hne => ?_⟩
      rcases hold (mem_exactData.1 hv).1 with rfl | ⟨hv, -⟩
      · exact absurd rfl hne
      · exact hfits.apart v hv hne
    · have hfits := h.fits u (mem_exactData.2 ⟨hu, hexact⟩)
      refine ⟨hfits.inside, hfits.clear, fun v hv hne => ?_⟩
      obtain ⟨hput, hexact'⟩ := mem_exactData.1 hv
      rcases hold hput with rfl | ⟨hv, -⟩
      · exact ((hnew hexact').apart u hu hua).symm
      · exact hfits.apart v (mem_exactData.2 ⟨hv, hexact'⟩) hne

theorem spaced_load {s : Snapshot} (h : load s = .ok p) : p.Spaced := by
  obtain ⟨bare, loaded, comments, -, hdata, -, hadd, rfl⟩ := load_cases h
  have hloaded : loaded.Spaced := by
    refine Load.addEach_induct (P := Spaced) (fun q index entry q' _ hq hadd => ?_) ?_ hadd
    · obtain ⟨a, t, htype, hplace⟩ := Load.addData_cases hadd
      exact hq.placeData htype hplace
    · refine ⟨?_, ?_, fun u hu => ?_⟩
      · rw [hdata]
        exact List.nodup_nil
      · rw [hdata]
        exact nofun
      · have hmem := (mem_exactData.1 hu).1
        rw [hdata] at hmem
        cases hmem
  exact hloaded.congr rfl rfl rfl

theorem Spaced.change (h : p.Spaced) (hchange : Engine.Change p p') : p'.Spaced := by
  cases hchange with
  | none => exact h
  | name index name source hvalid =>
    rw [renameIndex_eq]
    exact h.congr rfl rfl rfl
  | data haddress htype hplace => exact h.placeData htype hplace

/-- If all units have exact lengths, a unit can be put back where it is, whatever is there now. -/
theorem Spaced.placeData_back (h : p.Spaced) (hexact : ∀ v ∈ p.data, v.IsExact) (hu : u ∈ p.data)
    (hv : v.address = u.address) :
    { p with data := putData v p.data }.placeData u.address u.type = .ok p := by
  obtain ⟨text, htype⟩ := h.denoted u hu
  have hfits : u.Fits p.space p.instructions (putData v p.data) := by
    have hself := h.fits u (mem_exactData.2 ⟨hu, hexact u hu⟩)
    refine ⟨hself.inside, hself.clear, fun w hw hne => ?_⟩
    rcases mem_putData h.nodup hw with rfl | ⟨hw, -⟩
    · exact absurd hv hne
    · exact hself.apart w (mem_exactData.2 ⟨hw, hexact w hw⟩) hne
  refine (placeData_eq_ok_iff (DataType.isCount_of_parse htype) (hexact u hu)).2 ⟨hfits, ?_⟩
  show p = { p with data := putData u (putData v p.data) }
  rw [putData_putData hv, putData_of_mem h.nodup hu]

end Program

namespace Engine

variable {s : Snapshot} {e e' : Engine} {u : DataUnit} {address address' type : String}

theorem Reached.spaced (h : Reached s e) : e.program.Spaced :=
  h.induct (fun _ => Program.spaced_load) fun _ _ => Program.Spaced.change

theorem Faultless.retypeData_of_placeData (h : e.Faultless) {a : Address} {t : DataType} {p : Program}
    (haddress : e.program.parseAddress address = .ok a) (hdata : e.program.dataAt? a ≠ none)
    (htype : e.program.parseType type = .ok t) (hplace : e.program.placeData a t = .ok p) :
    e.retypeData address type =
      ({ e with program := p }, .ok ⟨true, "Set type to " ++ type⟩) := by
  obtain ⟨u, hu⟩ := Option.ne_none_iff_exists'.1 hdata
  unfold retypeData tryRetype
  rw [h.addressOf_eq, haddress, Outcome.mapError_ok]
  dsimp only
  rw [h.dataAt_eq, hu]
  dsimp only
  rw [h.parseType_eq, htype, Outcome.mapError_ok]
  dsimp only
  rw [h.placeData_eq, hplace]
  rfl

/-- A change of type that was made is taken back by the name of the old type, by whatever text of the
address: the state is the one before, in every unit and in their order. -/
theorem retypeData_undo (h : Reached s e) (hexact : ∀ v ∈ e.program.data, v.IsExact)
    (hu : u ∈ e.program.data) (haddress : e.program.parseAddress address = .ok u.address)
    (haddress' : e.program.parseAddress address' = .ok u.address) {message : String}
    (hretype : e.retypeData address type = (e', .ok ⟨true, message⟩)) :
    e'.retypeData address' u.type.name = (e, .ok ⟨true, "Set type to " ++ u.type.name⟩) := by
  have hspaced := h.spaced
  obtain ⟨r, hr, hpossible, -, -⟩ := h.faultless.isAtomic_retypeData hspaced.nodup address type
  rw [hretype] at hr
  obtain rfl := Except.ok.inj hr
  obtain ⟨a, t, p, ha, hdata, htype, hplace⟩ := hpossible.1 rfl
  obtain rfl := Except.ok.inj (haddress.symm.trans ha)
  have hmade := h.faultless.retypeData_of_placeData ha hdata htype hplace
  obtain ⟨rfl, -⟩ := Prod.mk.inj (hretype.symm.trans hmade)
  obtain rfl := Program.placeData_eq hplace
  have hback := hspaced.placeData_back hexact hu (v := ⟨u.address, t⟩) rfl
  obtain ⟨text, hdenoted⟩ := hspaced.denoted u hu
  have hname : e.program.parseType u.type.name = .ok u.type :=
    DataType.parse_name hdenoted (hexact u hu)
  have hfaultless : Faultless { e with program :=
      { e.program with data := Program.putData ⟨u.address, t⟩ e.program.data } } := h.faultless
  refine hfaultless.retypeData_of_placeData haddress' (fun hnone => ?_) hname hback
  have hput := Program.mem_putData_self ⟨u.address, t⟩ e.program.data
  exact List.find?_eq_none.1 hnone _ hput (decide_eq_true rfl)

/-- A snapshot with an array of arrays, and a pointer right behind it. -/
def tableSnapshot : Snapshot :=
  ⟨"a", "x", "0", .four, [], [], [], [], [],
    [⟨"20", "unsigned  int [ 2 ][3]"⟩, ⟨"38", "char **"⟩], []⟩

/-- The engine of the snapshot. -/
def tableEngine : Engine :=
  ofProgram ⟨"a", "x", ⟨4⟩, ⟨0⟩, none, [], [], [], [],
    [⟨⟨32⟩, ⟨"unsigned int[2][3]", 24⟩⟩, ⟨⟨56⟩, ⟨"char **", 4⟩⟩], []⟩

/-- The array is made a byte, and by its name it becomes the array again. -/
theorem retypeData_undo_table :
    Reached tableSnapshot tableEngine ∧ (∀ v ∈ tableEngine.program.data, v.IsExact) ∧
      (⟨⟨32⟩, ⟨"unsigned int[2][3]", 24⟩⟩ : DataUnit) ∈ tableEngine.program.data ∧
      tableEngine.program.parseAddress "20" = .ok ⟨32⟩ ∧
      tableEngine.program.parseAddress " ram:0X0020 " = .ok ⟨32⟩ ∧
      ∃ e', tableEngine.retypeData "20" "byte" = (e', .ok ⟨true, "Set type to byte"⟩) ∧
        e'.program.data = [⟨⟨32⟩, ⟨"byte", 1⟩⟩, ⟨⟨56⟩, ⟨"char **", 4⟩⟩] ∧
        e'.retypeData " ram:0X0020 " "unsigned int[2][3]" =
          (tableEngine, .ok ⟨true, "Set type to unsigned int[2][3]"⟩) := by
  have hreached : Reached tableSnapshot tableEngine := by
    have hload : Program.load tableSnapshot = .ok tableEngine.program := by decide +kernel
    exact ⟨tableEngine, [], false, ofSnapshot_of_load hload, rfl⟩
  have hexact : ∀ v ∈ tableEngine.program.data, v.IsExact := by decide +kernel
  have hu : (⟨⟨32⟩, ⟨"unsigned int[2][3]", 24⟩⟩ : DataUnit) ∈ tableEngine.program.data :=
    List.mem_cons_self
  have haddress : tableEngine.program.parseAddress "20" = .ok ⟨32⟩ := by decide +kernel
  have haddress' : tableEngine.program.parseAddress " ram:0X0020 " = .ok ⟨32⟩ := by decide +kernel
  have hbyte : tableEngine.program.parseType "byte" = .ok ⟨"byte", 1⟩ := by decide +kernel
  have hplace : tableEngine.program.placeData ⟨32⟩ ⟨"byte", 1⟩ = .ok { tableEngine.program with
      data := [⟨⟨32⟩, ⟨"byte", 1⟩⟩, ⟨⟨56⟩, ⟨"char **", 4⟩⟩] } := by
    decide +kernel
  have hretype := hreached.faultless.retypeData_of_placeData haddress (by decide +kernel) hbyte hplace
  exact ⟨hreached, hexact, hu, haddress, haddress', _, hretype, rfl,
    retypeData_undo hreached hexact hu haddress haddress' hretype⟩

end Engine

end BinaryReport
