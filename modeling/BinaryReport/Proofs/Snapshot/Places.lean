import BinaryReport.Proofs.Check.Places
import BinaryReport.Proofs.Matching
import BinaryReport.Snapshot.Schema

/-!
# Where a snapshot is found in its JSON form

The issues of a snapshot are found in the value that is checked (`Snapshot.locates_check`). If there
are none, then what loading reads of the snapshot has its place in the value, too
(`Snapshot.isSome_at?_of_place`).
-/

namespace BinaryReport

open Check

/-! ## Issues -/

theorem PointerSize.locates_check : Locates PointerSize.check := by
  intro v
  cases v with
  | number x =>
    show FoundIn _ (if x = .ofNat 4 then Verdict.accepted PointerSize.four
      else if x = .ofNat 8 then .accepted .eight else .complain .noneOf)
    split
    · exact foundIn_accepted _
    · split
      · exact foundIn_accepted _
      · exact foundIn_complain _
  | null | bool | string | array | object => exact foundIn_complain _

theorem ByteText.locates_check : Locates ByteText.check := by
  intro v
  cases v with
  | string s =>
    unfold ByteText.check
    dsimp only
    split
    · exact foundIn_accepted _
    · exact foundIn_complain _
  | null | bool | number | array | object => exact foundIn_complain _

theorem MemoryEntry.locates_check : Locates MemoryEntry.check :=
  locates_record fun _ =>
    ((foundIn_required locates_anyText).map _).seq (foundIn_required locates_anyText)
      |>.seq (foundIn_required (locates_number _))

theorem InstructionEntry.locates_check : Locates InstructionEntry.check :=
  locates_record fun _ =>
    ((foundIn_required locates_anyText).map _).seq (foundIn_required locates_nonemptyText)
      |>.seq (foundIn_withDefault _ locates_anyText)
      |>.seq (foundIn_required ByteText.locates_check)

theorem BodyEntry.locates_check : Locates BodyEntry.check :=
  locates_record fun _ =>
    ((foundIn_required locates_anyText).map _).seq (foundIn_required locates_anyText)

theorem FunctionEntry.locates_check : Locates FunctionEntry.check :=
  locates_record fun _ =>
    ((foundIn_required locates_nonemptyText).map _).seq (foundIn_required locates_anyText)
      |>.seq (foundIn_required (locates_nonemptyArray BodyEntry.locates_check))
      |>.seq (foundIn_withDefault _ locates_anyText)
      |>.seq (foundIn_withDefault _ (locates_array locates_anyText))
      |>.seq (foundIn_withDefault _ (locates_choice _))
      |>.seq (foundIn_optional locates_anyText)
      |>.seq (foundIn_withDefault _ (locates_number _))

theorem SymbolEntry.locates_check : Locates SymbolEntry.check :=
  locates_record fun _ =>
    ((foundIn_required locates_nonemptyText).map _).seq (foundIn_required locates_anyText)
      |>.seq (foundIn_withDefault _ (locates_choice _))
      |>.seq (foundIn_withDefault _ (locates_choice _))
      |>.seq (foundIn_withDefault _ locates_bool)

theorem DataEntry.locates_check : Locates DataEntry.check :=
  locates_record fun _ =>
    ((foundIn_required locates_anyText).map _).seq (foundIn_required locates_anyText)

theorem CommentEntry.locates_check : Locates CommentEntry.check :=
  locates_record fun _ =>
    ((foundIn_required locates_anyText).map _).seq (foundIn_withDefault _ (locates_choice _))
      |>.seq (foundIn_required locates_anyText)

theorem Snapshot.locates_check : Locates Snapshot.check :=
  locates_record fun _ =>
    ((foundIn_required locates_nonemptyText).map _).seq (foundIn_required locates_nonemptyText)
      |>.seq (foundIn_required locates_anyText)
      |>.seq (foundIn_withDefault _ PointerSize.locates_check)
      |>.seq (foundIn_withDefault _ (locates_array locates_anyText))
      |>.seq (foundIn_withDefault _ (locates_array MemoryEntry.locates_check))
      |>.seq (foundIn_withDefault _ (locates_array InstructionEntry.locates_check))
      |>.seq (foundIn_withDefault _ (locates_array FunctionEntry.locates_check))
      |>.seq (foundIn_withDefault _ (locates_array SymbolEntry.locates_check))
      |>.seq (foundIn_withDefault _ (locates_array DataEntry.locates_check))
      |>.seq (foundIn_withDefault _ (locates_array CommentEntry.locates_check))

/-- A snapshot that cannot be read is refused for the first issue, at its place in the value. -/
theorem Snapshot.parse_eq_error {v : Json} {f : Failure} (h : Snapshot.parse v = .error f) :
    ∃ path message, v.HasPlace path message ∧ f = invalidAt (PathStep.pathName path) message := by
  unfold Snapshot.parse at h
  have hlocates := Snapshot.locates_check v
  cases hverdict : Snapshot.check.run v with
  | accepted s => rw [hverdict] at h; cases h
  | refused first others =>
    rw [hverdict] at h hlocates
    obtain rfl := Except.error.inj h
    exact ⟨first.path, first.message, hlocates first List.mem_cons_self, rfl⟩

theorem Snapshot.check_of_parse {v : Json} {s : Snapshot} (h : Snapshot.parse v = .ok s) :
    Snapshot.check.run v = .accepted s := by
  unfold Snapshot.parse at h
  split at h
  · next hverdict =>
    obtain rfl := Except.ok.inj h
    exact hverdict
  · cases h

/-! ## Places of entries -/

/-- The places of a snapshot that loading reads. -/
inductive Snapshot.Place (s : Snapshot) : List PathStep → Prop where
  /-- The base of the image. -/
  | imageBase : Place s [.key "imageBase"]
  /-- The start of a block of memory. -/
  | memory {i : Nat} {e : MemoryEntry} (h : s.memory[i]? = some e) :
    Place s [.key "memory", .index i, .key "start"]
  /-- An entry point. -/
  | entryPoint {i : Nat} {text : String} (h : s.entryPoints[i]? = some text) :
    Place s [.key "entryPoints", .index i]
  /-- The address of an instruction. -/
  | instruction {i : Nat} {e : InstructionEntry} (h : s.instructions[i]? = some e) :
    Place s [.key "instructions", .index i, .key "address"]
  /-- The entry of a function. -/
  | entry {i : Nat} {e : FunctionEntry} (h : s.functions[i]? = some e) :
    Place s [.key "functions", .index i, .key "entry"]
  /-- The body of a function. -/
  | body {i : Nat} {e : FunctionEntry} (h : s.functions[i]? = some e) :
    Place s [.key "functions", .index i, .key "body"]
  /-- The first address of a range of a body. -/
  | bodyStart {i j : Nat} {e : FunctionEntry} {range : BodyEntry} (h : s.functions[i]? = some e)
    (hrange : e.body[j]? = some range) :
    Place s [.key "functions", .index i, .key "body", .index j, .key "start"]
  /-- The last address of a range of a body. -/
  | bodyEnd {i j : Nat} {e : FunctionEntry} {range : BodyEntry} (h : s.functions[i]? = some e)
    (hrange : e.body[j]? = some range) :
    Place s [.key "functions", .index i, .key "body", .index j, .key "end"]
  /-- The address of a symbol. -/
  | symbol {i : Nat} {e : SymbolEntry} (h : s.symbols[i]? = some e) :
    Place s [.key "symbols", .index i, .key "address"]
  /-- A unit of data. -/
  | data {i : Nat} {e : DataEntry} (h : s.data[i]? = some e) : Place s [.key "data", .index i]
  /-- The address of a unit of data. -/
  | dataAddress {i : Nat} {e : DataEntry} (h : s.data[i]? = some e) :
    Place s [.key "data", .index i, .key "address"]
  /-- The address of a comment. -/
  | comment {i : Nat} {e : CommentEntry} (h : s.comments[i]? = some e) :
    Place s [.key "comments", .index i, .key "address"]

/-- What loading reads is not the whole snapshot. -/
theorem Snapshot.Place.pathName_eq {s : Snapshot} {path : List PathStep} (h : s.Place path) :
    PathStep.pathName path = PathStep.pathText path := by
  cases h <;> rfl

section Accepted

variable {α : Type} {c : Check α} {ms : Members} {key : String} {path : List PathStep}

theorem isSome_at?_of_required {a : α} (h : required key c ms = .accepted a)
    (hc : ∀ w, c.run w = .accepted a → (w.at? path).isSome = true) :
    ((Json.object ms).at? (.key key :: path)).isSome = true := by
  obtain ⟨w, hlookup, hw⟩ := required_eq_accepted h
  show (((Json.lookup key ms).bind fun w => w.at? path)).isSome = true
  rw [hlookup]
  exact hc w hw

theorem isSome_at?_of_items {vs : List Json} {as : List α}
    (h : List.Forall₂ (fun w a => c.run w = .accepted a) vs as) {i : Nat} {a : α}
    (hi : as[i]? = some a) (hc : ∀ w, c.run w = .accepted a → (w.at? path).isSome = true) :
    ((Json.array vs).at? (.index i :: path)).isSome = true := by
  obtain ⟨w, hlookup, hw⟩ := Matching.exists_getElem? h hi
  show ((vs[i]?).bind fun w => w.at? path).isSome = true
  rw [hlookup]
  exact hc w hw

/-- The items of a list that may be missing have places, since a list with items is there. -/
theorem isSome_at?_of_list {as : List α} (h : withDefault key [] (array c) ms = .accepted as)
    {i : Nat} {a : α} (hi : as[i]? = some a)
    (hc : ∀ w, c.run w = .accepted a → (w.at? path).isSome = true) :
    ((Json.object ms).at? (.key key :: .index i :: path)).isSome = true := by
  rcases withDefault_eq_accepted h with ⟨w, hlookup, hw⟩ | rfl
  · obtain ⟨vs, rfl, hitems⟩ := array_eq_accepted hw
    show (((Json.lookup key ms).bind fun w => w.at? (.index i :: path))).isSome = true
    rw [hlookup]
    exact isSome_at?_of_items hitems hi hc
  · cases hi

end Accepted

section Entries

variable {w : Json}

theorem MemoryEntry.isSome_start {e : MemoryEntry} (h : MemoryEntry.check.run w = .accepted e) :
    (w.at? [.key "start"]).isSome = true := by
  obtain ⟨ms, rfl, hread⟩ := record_eq_accepted h
  obtain ⟨f, length, h₁, -, rfl⟩ := Verdict.seq_eq_accepted hread
  obtain ⟨f, start, -, hstart, rfl⟩ := Verdict.seq_eq_accepted h₁
  exact isSome_at?_of_required hstart fun _ _ => rfl

theorem InstructionEntry.isSome_address {e : InstructionEntry}
    (h : InstructionEntry.check.run w = .accepted e) :
    (w.at? [.key "address"]).isSome = true := by
  obtain ⟨ms, rfl, hread⟩ := record_eq_accepted h
  obtain ⟨f, bytes, h₁, -, rfl⟩ := Verdict.seq_eq_accepted hread
  obtain ⟨f, operands, h₂, -, rfl⟩ := Verdict.seq_eq_accepted h₁
  obtain ⟨f, mnemonic, h₃, -, rfl⟩ := Verdict.seq_eq_accepted h₂
  obtain ⟨address, haddress, rfl⟩ := Verdict.map_eq_accepted h₃
  exact isSome_at?_of_required haddress fun _ _ => rfl

theorem BodyEntry.isSome_ends {e : BodyEntry} (h : BodyEntry.check.run w = .accepted e) :
    (w.at? [.key "start"]).isSome = true ∧ (w.at? [.key "end"]).isSome = true := by
  obtain ⟨ms, rfl, hread⟩ := record_eq_accepted h
  obtain ⟨f, last, h₁, hlast, rfl⟩ := Verdict.seq_eq_accepted hread
  obtain ⟨start, hstart, rfl⟩ := Verdict.map_eq_accepted h₁
  exact ⟨isSome_at?_of_required hstart fun _ _ => rfl,
    isSome_at?_of_required hlast fun _ _ => rfl⟩

theorem FunctionEntry.members {e : FunctionEntry} (h : FunctionEntry.check.run w = .accepted e) :
    ∃ ms, w = .object ms ∧ required "entry" anyText ms = .accepted e.entry ∧
      required "body" (nonemptyArray BodyEntry.check) ms = .accepted e.body ∧
      withDefault "decompileLatencyMs" 0 (number [.nonnegative]) ms = .accepted e.latency := by
  obtain ⟨ms, rfl, hread⟩ := record_eq_accepted h
  obtain ⟨f, latency, h₁, hlatency, rfl⟩ := Verdict.seq_eq_accepted hread
  obtain ⟨f, decompiled?, h₂, -, rfl⟩ := Verdict.seq_eq_accepted h₁
  obtain ⟨f, source, h₃, -, rfl⟩ := Verdict.seq_eq_accepted h₂
  obtain ⟨f, parameters, h₄, -, rfl⟩ := Verdict.seq_eq_accepted h₃
  obtain ⟨f, returnType, h₅, -, rfl⟩ := Verdict.seq_eq_accepted h₄
  obtain ⟨f, body, h₆, hbody, rfl⟩ := Verdict.seq_eq_accepted h₅
  obtain ⟨f, entry, h₇, hentry, rfl⟩ := Verdict.seq_eq_accepted h₆
  obtain ⟨name, -, rfl⟩ := Verdict.map_eq_accepted h₇
  exact ⟨ms, rfl, hentry, hbody, hlatency⟩

/-- The schema admits no negative latency. -/
theorem FunctionEntry.nonneg_latency {e : FunctionEntry}
    (h : FunctionEntry.check.run w = .accepted e) : 0 ≤ e.latency := by
  have hzero : (0 : Binary64) = .finite 0 := by decide
  obtain ⟨ms, -, -, -, hlatency⟩ := FunctionEntry.members h
  rw [hzero] at hlatency ⊢
  rcases withDefault_eq_accepted hlatency with ⟨u, -, hu⟩ | heq
  · exact (number_eq_accepted hu).2 .nonnegative List.mem_cons_self
  · rw [heq]
    decide

theorem FunctionEntry.isSome_entry {e : FunctionEntry}
    (h : FunctionEntry.check.run w = .accepted e) : (w.at? [.key "entry"]).isSome = true := by
  obtain ⟨ms, rfl, hentry, -⟩ := FunctionEntry.members h
  exact isSome_at?_of_required hentry fun _ _ => rfl

theorem FunctionEntry.isSome_body {e : FunctionEntry}
    (h : FunctionEntry.check.run w = .accepted e) : (w.at? [.key "body"]).isSome = true := by
  obtain ⟨ms, rfl, -, hbody, -⟩ := FunctionEntry.members h
  exact isSome_at?_of_required hbody fun _ _ => rfl

theorem FunctionEntry.isSome_range {e : FunctionEntry} {j : Nat} {range : BodyEntry}
    {path : List PathStep} (h : FunctionEntry.check.run w = .accepted e)
    (hj : e.body[j]? = some range)
    (hrange : ∀ u, BodyEntry.check.run u = .accepted range → (u.at? path).isSome = true) :
    (w.at? (.key "body" :: .index j :: path)).isSome = true := by
  obtain ⟨ms, rfl, -, hbody, -⟩ := FunctionEntry.members h
  refine isSome_at?_of_required hbody fun u hu => ?_
  obtain ⟨vs, rfl, hitems⟩ := nonemptyArray_eq_accepted hu
  exact isSome_at?_of_items hitems hj hrange

theorem SymbolEntry.isSome_address {e : SymbolEntry} (h : SymbolEntry.check.run w = .accepted e) :
    (w.at? [.key "address"]).isSome = true := by
  obtain ⟨ms, rfl, hread⟩ := record_eq_accepted h
  obtain ⟨f, isExternal, h₁, -, rfl⟩ := Verdict.seq_eq_accepted hread
  obtain ⟨f, source, h₂, -, rfl⟩ := Verdict.seq_eq_accepted h₁
  obtain ⟨f, kind, h₃, -, rfl⟩ := Verdict.seq_eq_accepted h₂
  obtain ⟨f, address, -, haddress, rfl⟩ := Verdict.seq_eq_accepted h₃
  exact isSome_at?_of_required haddress fun _ _ => rfl

theorem DataEntry.isSome_address {e : DataEntry} (h : DataEntry.check.run w = .accepted e) :
    (w.at? [.key "address"]).isSome = true := by
  obtain ⟨ms, rfl, hread⟩ := record_eq_accepted h
  obtain ⟨f, type, h₁, -, rfl⟩ := Verdict.seq_eq_accepted hread
  obtain ⟨address, haddress, rfl⟩ := Verdict.map_eq_accepted h₁
  exact isSome_at?_of_required haddress fun _ _ => rfl

theorem CommentEntry.isSome_address {e : CommentEntry}
    (h : CommentEntry.check.run w = .accepted e) : (w.at? [.key "address"]).isSome = true := by
  obtain ⟨ms, rfl, hread⟩ := record_eq_accepted h
  obtain ⟨f, text, h₁, -, rfl⟩ := Verdict.seq_eq_accepted hread
  obtain ⟨f, kind, h₂, -, rfl⟩ := Verdict.seq_eq_accepted h₁
  obtain ⟨address, haddress, rfl⟩ := Verdict.map_eq_accepted h₂
  exact isSome_at?_of_required haddress fun _ _ => rfl

end Entries

theorem Snapshot.members {v : Json} {s : Snapshot} (h : Snapshot.check.run v = .accepted s) :
    ∃ ms, v = .object ms ∧ required "imageBase" anyText ms = .accepted s.imageBase ∧
      withDefault "entryPoints" [] (array anyText) ms = .accepted s.entryPoints ∧
      withDefault "memory" [] (array MemoryEntry.check) ms = .accepted s.memory ∧
      withDefault "instructions" [] (array InstructionEntry.check) ms = .accepted s.instructions ∧
      withDefault "functions" [] (array FunctionEntry.check) ms = .accepted s.functions ∧
      withDefault "symbols" [] (array SymbolEntry.check) ms = .accepted s.symbols ∧
      withDefault "data" [] (array DataEntry.check) ms = .accepted s.data ∧
      withDefault "comments" [] (array CommentEntry.check) ms = .accepted s.comments := by
  obtain ⟨ms, rfl, hread⟩ := record_eq_accepted h
  obtain ⟨f, comments, h₁, hcomments, rfl⟩ := Verdict.seq_eq_accepted hread
  obtain ⟨f, data, h₂, hdata, rfl⟩ := Verdict.seq_eq_accepted h₁
  obtain ⟨f, symbols, h₃, hsymbols, rfl⟩ := Verdict.seq_eq_accepted h₂
  obtain ⟨f, functions, h₄, hfunctions, rfl⟩ := Verdict.seq_eq_accepted h₃
  obtain ⟨f, instructions, h₅, hinstructions, rfl⟩ := Verdict.seq_eq_accepted h₄
  obtain ⟨f, memory, h₆, hmemory, rfl⟩ := Verdict.seq_eq_accepted h₅
  obtain ⟨f, entryPoints, h₇, hentryPoints, rfl⟩ := Verdict.seq_eq_accepted h₆
  obtain ⟨f, pointerSize, h₈, -, rfl⟩ := Verdict.seq_eq_accepted h₇
  obtain ⟨f, imageBase, h₉, himageBase, rfl⟩ := Verdict.seq_eq_accepted h₈
  obtain ⟨f, language, h₁₀, -, rfl⟩ := Verdict.seq_eq_accepted h₉
  obtain ⟨name, -, rfl⟩ := Verdict.map_eq_accepted h₁₀
  exact ⟨ms, rfl, himageBase, hentryPoints, hmemory, hinstructions, hfunctions, hsymbols, hdata,
    hcomments⟩

theorem Snapshot.nonneg_latency {v : Json} {s : Snapshot} (h : Snapshot.check.run v = .accepted s) :
    ∀ e ∈ s.functions, 0 ≤ e.latency := by
  intro e he
  obtain ⟨ms, -, -, -, -, -, hfunctions, -⟩ := Snapshot.members h
  rcases withDefault_eq_accepted hfunctions with ⟨u, -, hu⟩ | heq
  · obtain ⟨vs, -, hitems⟩ := array_eq_accepted hu
    obtain ⟨w, -, hw⟩ := Matching.exists_of_mem_right hitems he
    exact FunctionEntry.nonneg_latency hw
  · rw [heq] at he
    cases he

/-- What loading reads of a snapshot is in the value that the snapshot was read from. -/
theorem Snapshot.isSome_at?_of_place {v : Json} {s : Snapshot} {path : List PathStep}
    (h : Snapshot.check.run v = .accepted s) (hplace : s.Place path) :
    (v.at? path).isSome = true := by
  obtain ⟨ms, rfl, himageBase, hentryPoints, hmemory, hinstructions, hfunctions, hsymbols, hdata,
    hcomments⟩ := Snapshot.members h
  cases hplace with
  | imageBase => exact isSome_at?_of_required himageBase fun _ _ => rfl
  | memory hi => exact isSome_at?_of_list hmemory hi fun _ hw => MemoryEntry.isSome_start hw
  | entryPoint hi => exact isSome_at?_of_list hentryPoints hi fun _ _ => rfl
  | instruction hi =>
    exact isSome_at?_of_list hinstructions hi fun _ hw => InstructionEntry.isSome_address hw
  | entry hi => exact isSome_at?_of_list hfunctions hi fun _ hw => FunctionEntry.isSome_entry hw
  | body hi => exact isSome_at?_of_list hfunctions hi fun _ hw => FunctionEntry.isSome_body hw
  | bodyStart hi hj =>
    refine isSome_at?_of_list hfunctions hi fun _ hw => ?_
    exact FunctionEntry.isSome_range hw hj fun _ hu => (BodyEntry.isSome_ends hu).1
  | bodyEnd hi hj =>
    refine isSome_at?_of_list hfunctions hi fun _ hw => ?_
    exact FunctionEntry.isSome_range hw hj fun _ hu => (BodyEntry.isSome_ends hu).2
  | symbol hi => exact isSome_at?_of_list hsymbols hi fun _ hw => SymbolEntry.isSome_address hw
  | data hi => exact isSome_at?_of_list hdata hi fun _ _ => rfl
  | dataAddress hi => exact isSome_at?_of_list hdata hi fun _ hw => DataEntry.isSome_address hw
  | comment hi =>
    exact isSome_at?_of_list hcomments hi fun _ hw => CommentEntry.isSome_address hw

end BinaryReport
