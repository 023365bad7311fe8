import BinaryReport.Command.Run
import BinaryReport.Proofs.Engine.Frame
import BinaryReport.Proofs.Report.Build
import BinaryReport.Proofs.Snapshot.Places

/-!
# What a run has to say

What can go wrong between the arguments and the engine is listed stage by stage, with the failure that
shows it (`NoEngine`, `NotReady`). Once there is an engine, nothing is raised any more. So there is always
an answer: a report is the whole report of the program or says which failure came first
(`Command.exists_reportOf`), and likewise the outcome of a change (`Command.exists_changeOf`).
-/

namespace BinaryReport

namespace Command

variable {read : FileReader} {env : Environment} {path : String}

/-! ## What can go wrong -/

/-- Why there is no engine for a file, and the failure that says so. -/
inductive NoEngine (read : FileReader) (path : String) : Failure → Prop where
  /-- The file cannot be read. -/
  | unreadable {err : ReadError} (hread : Snapshot.textOfFile read path = .error err) :
    NoEngine read path
      (.ofKind .snapshot ("Cannot read snapshot " ++ path ++ ": " ++ err.message path))
  /-- The text of the file is not JSON. -/
  | notJson {text : String} (hread : Snapshot.textOfFile read path = .ok text)
      (hjson : Json.read? text = none) :
    NoEngine read path
      (.ofKind .snapshot ("Snapshot " ++ path ++ " is not valid JSON: invalid JSON"))
  /-- The value is no snapshot. -/
  | noSnapshot {text : String} {v : Json} {first : Issue} {others : List Issue}
      (hread : Snapshot.textOfFile read path = .ok text) (hjson : Json.read? text = some v)
      (hcheck : Snapshot.check.run v = .refused first others) :
    NoEngine read path
      (.ofKind .snapshot
        ("Invalid snapshot at " ++ PathStep.pathName first.path ++ ": " ++ first.message))
  /-- The snapshot cannot be loaded. -/
  | unloadable {text : String} {v : Json} {s : Snapshot} {err : LoadError}
      (hread : Snapshot.textOfFile read path = .ok text) (hjson : Json.read? text = some v)
      (hcheck : Snapshot.check.run v = .accepted s) (hload : Program.load s = .error err) :
    NoEngine read path err.failure

/-- Why a report cannot be begun, and the failure that says so. -/
inductive NotReady (read : FileReader) (env : Environment) (path : String) : Failure → Prop where
  /-- The settings are unusable. -/
  | settings {first : Issue} {others : List Issue}
      (hcheck : Config.check.run (.object (env.map fun v => (v.1, .string v.2))) =
        .refused first others) :
    NotReady read env path
      (.ofKind .config ("Invalid environment variable " ++ PathStep.pathText first.path ++ ": "
        ++ first.message))
  /-- There is no engine. -/
  | noEngine {config : Config} {f : Failure} (hconfig : Config.load env = .ok config)
      (h : NoEngine read path f) :
    NotReady read env path f

theorem noEngine_of_engineOf {f : Failure} (h : engineOf read path = .error f) :
    NoEngine read path f := by
  unfold engineOf Snapshot.ofFile at h
  -- The stages in their order: the file, its text, the value, the snapshot.
  cases hread : Snapshot.textOfFile read path with
  | error err =>
    rw [hread] at h
    obtain rfl := Except.error.inj h
    exact .unreadable hread
  | ok text =>
    rw [hread] at h
    dsimp only at h
    cases hjson : Json.read? text with
    | none =>
      rw [hjson] at h
      obtain rfl := Except.error.inj h
      exact .notJson hread hjson
    | some v =>
      rw [hjson] at h
      dsimp only at h
      unfold Snapshot.parse at h
      cases hcheck : Snapshot.check.run v with
      | refused first others =>
        rw [hcheck] at h
        obtain rfl := Except.error.inj h
        exact .noSnapshot hread hjson hcheck
      | accepted s =>
        rw [hcheck] at h
        have hengine : Engine.ofSnapshot s = .error f := h
        unfold Engine.ofSnapshot at hengine
        cases hload : Program.load s with
        | ok p => rw [hload] at hengine; cases hengine
        | error err =>
          rw [hload] at hengine
          obtain rfl := Except.error.inj hengine
          exact .unloadable hread hjson hcheck hload

theorem notReady_of_prepare {f : Failure} (h : prepare read env path = .error f) :
    NotReady read env path f := by
  unfold prepare at h
  rcases Outcome.bind_eq_error h with hconfig | ⟨config, hconfig, hengine⟩
  · unfold Config.load at hconfig
    cases hcheck : Config.check.run (.object (env.map fun v => (v.1, .string v.2))) with
    | accepted c => rw [hcheck] at hconfig; cases hconfig
    | refused first others =>
      rw [hcheck] at hconfig
      obtain rfl := Except.error.inj hconfig
      exact .settings hcheck
  · rcases Outcome.bind_eq_error hengine with hnone | ⟨e, -, hdone⟩
    · exact .noEngine hconfig (noEngine_of_engineOf hnone)
    · cases hdone

theorem exists_snapshot_of_engineOf {e : Engine} (h : engineOf read path = .ok e) :
    ∃ s, Engine.ofSnapshot s = .ok e := by
  obtain ⟨s, -, hs⟩ := Outcome.bind_eq_ok h
  exact ⟨s, hs⟩

theorem engineOf_of_prepare {config : Config} {e : Engine}
    (h : prepare read env path = .ok (config, e)) : engineOf read path = .ok e := by
  obtain ⟨c, -, hc⟩ := Outcome.bind_eq_ok h
  obtain ⟨o, ho, hpair⟩ := Outcome.bind_eq_ok hc
  obtain rfl := (Prod.mk.inj (Except.ok.inj hpair)).2
  exact ho

/-! ## Reports -/

/-- The report of a run is that of the first failure, or the whole report of the program. -/
inductive Reports (read : FileReader) (env : Environment) (path : String)
    (max? timeout? : Option Binary64) : Report → Prop where
  /-- There is nothing to report on. -/
  | failed {f : Failure} (h : NotReady read env path f) :
    Reports read env path max? timeout?
      (.failed ⟨f.summary, f.trace, ErrorReport.unknownProgram⟩)
  /-- The program is reported. -/
  | whole {config : Config} {e : Engine} {r : AnalysisReport}
      (hready : prepare read env path = .ok (config, e))
      (hreport : e.program.HasReport (limitsOf config max? timeout?) r) :
    Reports read env path max? timeout? (.whole r)

theorem exists_reportOf (read : FileReader) (env : Environment) (path : String)
    (max? timeout? : Option Binary64) :
    ∃ r, reportOf read env path max? timeout? = .ok r ∧ Reports read env path max? timeout? r := by
  unfold reportOf
  cases hready : prepare read env path with
  | error f => exact ⟨_, rfl, .failed (notReady_of_prepare hready)⟩
  | ok ready =>
    obtain ⟨config, e⟩ := ready
    obtain ⟨s, hs⟩ := exists_snapshot_of_engineOf (engineOf_of_prepare hready)
    obtain ⟨p, -, rfl⟩ := Engine.ofSnapshot_cases hs
    obtain ⟨r, hr⟩ := Report.exists_build_whole (Engine.faultless_ofProgram p)
      (limitsOf config max? timeout?)
    have hreport : p.HasReport (limitsOf config max? timeout?) r := by
      unfold Program.HasReport
      rw [hr]
    refine ⟨.whole r, ?_, .whole hready hreport⟩
    dsimp only
    rw [hr]

/-! ## Changes -/

/-- The outcome of a change says which failure came first, or is what the engine answers. -/
inductive Changes (read : FileReader) (path : String)
    (change : Engine → Engine × Except Raised MutationResult) : MutationResult → Prop where
  /-- There is nothing to change. -/
  | failed {f : Failure} (h : NoEngine read path f) : Changes read path change ⟨false, f.summary⟩
  /-- The change was tried. -/
  | tried {e : Engine} {r : MutationResult} (hengine : engineOf read path = .ok e)
      (hchange : (change e).2 = .ok r) : Changes read path change r

/-- A change that engines of snapshots always answer. -/
theorem exists_changeOf (read : FileReader) (path : String)
    {change : Engine → Engine × Except Raised MutationResult}
    (hanswers : ∀ s e, Engine.ofSnapshot s = .ok e → ∃ r, (change e).2 = .ok r) :
    ∃ r, changeOf read path change = .ok r ∧ Changes read path change r := by
  unfold changeOf
  cases hengine : engineOf read path with
  | error f => exact ⟨_, rfl, .failed (noEngine_of_engineOf hengine)⟩
  | ok e =>
    obtain ⟨s, hs⟩ := exists_snapshot_of_engineOf hengine
    obtain ⟨r, hr⟩ := hanswers s e hs
    refine ⟨r, ?_, .tried hengine hr⟩
    dsimp only
    rw [hr]

theorem exists_renameSymbol {s : Snapshot} {e : Engine} (h : Engine.ofSnapshot s = .ok e)
    (address name : String) : ∃ r, (e.renameSymbol address name).2 = .ok r := by
  obtain ⟨r, hr, -⟩ := (Engine.faultless_ofSnapshot h).isAtomic_renameSymbol address name
  exact ⟨r, hr⟩

theorem exists_retypeData {s : Snapshot} {e : Engine} (h : Engine.ofSnapshot s = .ok e)
    (address type : String) : ∃ r, (e.retypeData address type).2 = .ok r := by
  obtain ⟨p, hload, rfl⟩ := Engine.ofSnapshot_cases h
  obtain ⟨r, hr, -⟩ := (Engine.faultless_ofProgram p).isAtomic_retypeData
    (Program.nodup_data_load hload) address type
  exact ⟨r, hr⟩

theorem exists_renamed (read : FileReader) (path address name : String) :
    ∃ r, changeOf read path (fun e => e.renameSymbol address name) = .ok r ∧
      Changes read path (fun e => e.renameSymbol address name) r :=
  exists_changeOf read path fun _ _ he => exists_renameSymbol he address name

theorem exists_retyped (read : FileReader) (path address type : String) :
    ∃ r, changeOf read path (fun e => e.retypeData address type) = .ok r ∧
      Changes read path (fun e => e.retypeData address type) r :=
  exists_changeOf read path fun _ _ he => exists_retypeData he address type

end Command

end BinaryReport
