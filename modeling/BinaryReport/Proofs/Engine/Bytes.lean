import BinaryReport.Proofs.Engine.Disassembly
import BinaryReport.Proofs.Program.Loaded
import BinaryReport.Proofs.Snapshot.ByteText
import Mathlib.Algebra.Order.Floor.Ring
import Mathlib.Data.Rat.Floor

/-!
# Instruction bytes

An engine has the bytes of instructions as signed numbers. What is written of numbers is one pair of
digits for each, by its integer part modulo 256 (`words_bytesText`), so a byte is written as the same
pair whether it is signed or not (`emod_signedByte`). A change touches no instruction, so the record of an
instruction has the pairs of its entry in the snapshot, in lower case (`Engine.bytes_survive`).
-/

namespace BinaryReport

open Text

/-! ## Written bytes -/

/-- The integer part of a number, toward zero. A number that is not finite counts as zero. -/
def Binary64.integerPart (x : Binary64) : Int := if 0 ≤ x.value then ⌊x.value⌋ else ⌈x.value⌉

theorem Binary64.truncate_eq_integerPart (x : Binary64) : x.truncate = x.integerPart := by
  cases x with
  | finite q =>
    show q.num.tdiv q.den = if 0 ≤ q then ⌊q⌋ else ⌈q⌉
    split_ifs with hq
    · rw [Rat.floor_def', Int.tdiv_eq_ediv_of_nonneg (Rat.num_nonneg.2 hq)]
    -- Below zero the integer part is that of the opposite number, with its sign changed.
    · have hneg : 0 ≤ -q.num := by
        have hnum := mt Rat.num_nonneg.1 hq
        omega
      have hfloor : ⌊-q⌋ = (-q.num).tdiv q.den := by
        rw [Rat.floor_def', Rat.num_neg_eq_neg_num, Rat.den_neg_eq_den, Int.tdiv_eq_ediv_of_nonneg hneg]
      rw [← neg_neg ⌈q⌉, ← Int.floor_neg, hfloor, Int.neg_tdiv, neg_neg]
  | infinite => simp [truncate, integerPart, value]
  | nan => simp [truncate, integerPart, value]

theorem emod_signedByte {n : Nat} (h : n < 256) : (signedByte n % 256).toNat = n := by
  unfold signedByte
  split_ifs
  · omega
  · omega

theorem signedByte_emod {b : Int} (hlow : -128 ≤ b) (hhigh : b < 128) :
    signedByte (b % 256).toNat = b := by
  unfold signedByte
  split_ifs
  · omega
  · omega

theorem emod_lt (b : Int) : (b % 256).toNat < 256 := by
  omega

variable {bs : List Int} {pairs : List (List Char)} {ns : List Nat} {text : String}

theorem bytesText_eq (bs : List Int) : bytesText bs =
    " ".intercalate ((bs.map fun b => hexPair (b % 256).toNat).map String.ofList) := by
  rw [bytesText, List.map_map]
  rfl

/-- What is written is one pair of digits for each byte. -/
theorem words_bytesText (bs : List Int) :
    words (bytesText bs).toList = bs.map fun b => hexPair (b % 256).toNat := by
  have hword : ∀ pair ∈ bs.map fun b => hexPair (b % 256).toNat, IsWord pair := by
    intro pair hpair
    obtain ⟨b, -, rfl⟩ := List.mem_map.1 hpair
    exact (isHexPair_hexPair (emod_lt b)).isWord
  have hchars : (bytesText bs).toList = [' '].intercalate (bs.map fun b => hexPair (b % 256).toNat) := by
    rw [bytesText_eq, String.toList_intercalate, List.map_map]
    simp [Function.comp_def]
  rw [hchars]
  exact words_of_spaced (spaced_intercalate (by decide) hword)

theorem forall₂_hexPair (bs : List Int) : List.Forall₂ IsHexPair
    (bs.map fun b => hexPair (b % 256).toNat) (bs.map fun b => (b % 256).toNat) := by
  rw [List.forall₂_map_left_iff, List.forall₂_map_right_iff, List.forall₂_same]
  exact fun b _ => isHexPair_hexPair (emod_lt b)

theorem readHexBytes?_bytesText (hne : bs ≠ []) :
    readHexBytes? (bytesText bs) = some (bs.map fun b => (b % 256).toNat) := by
  refine readHexBytes?_eq_some_iff.2 ⟨_, words_eq_iff.1 (words_bytesText bs), ?_, forall₂_hexPair bs⟩
  exact mt List.map_eq_nil_iff.1 hne

theorem signedByte_readHexBytes? (hne : bs ≠ []) (hbytes : ∀ b ∈ bs, -128 ≤ b ∧ b < 128) :
    (readHexBytes? (bytesText bs)).map (List.map signedByte) = some bs := by
  have hback : ∀ b ∈ bs, signedByte (b % 256).toNat = b := by
    intro b hb
    obtain ⟨hlow, hhigh⟩ := hbytes b hb
    exact signedByte_emod hlow hhigh
  rw [readHexBytes?_bytesText hne, Option.map_some, List.map_map]
  exact congrArg some ((List.map_congr_left hback).trans (List.map_id' bs))

/-- Numbers are written as their integer parts modulo 256, a pair in lower case for each. -/
theorem exists_pairs (xs : List Binary64) : ∃ pairs,
    bytesText (xs.map (·.truncate)) = " ".intercalate (pairs.map String.ofList) ∧
      words (bytesText (xs.map (·.truncate))).toList = pairs ∧
      (∀ pair ∈ pairs, pair.map Char.toLower = pair) ∧
      List.Forall₂ IsHexPair pairs (xs.map fun x => (x.integerPart % 256).toNat) ∧
      (xs ≠ [] → readHexBytes? (bytesText (xs.map (·.truncate))) =
        some (xs.map fun x => (x.integerPart % 256).toNat)) := by
  have hparts : (xs.map (·.truncate)).map (fun b => (b % 256).toNat) =
      xs.map fun x => (x.integerPart % 256).toNat := by
    rw [List.map_map]
    refine List.map_congr_left fun x _ => ?_
    rw [Function.comp_apply, x.truncate_eq_integerPart]
  have hpairs := forall₂_hexPair (xs.map (·.truncate))
  rw [hparts] at hpairs
  refine ⟨_, bytesText_eq _, words_bytesText _, fun pair hpair => ?_, hpairs, fun hne => ?_⟩
  · obtain ⟨b, -, rfl⟩ := List.mem_map.1 hpair
    exact (isHexPair_hexPair (emod_lt b)).map_toLower
  · rw [readHexBytes?_bytesText (mt List.map_eq_nil_iff.1 hne), hparts]

/-- Pairs in lower case, with spaces between them. -/
def lowerText (pairs : List (List Char)) : String :=
  " ".intercalate (pairs.map fun pair => String.ofList (pair.map Char.toLower))

/-- The bytes of a text are written as its pairs in lower case. -/
theorem bytesText_signedByte (h : List.Forall₂ IsHexPair pairs ns) :
    bytesText (ns.map signedByte) = lowerText pairs := by
  have hsame : pairs.map (fun pair => String.ofList (pair.map Char.toLower)) =
      (ns.map signedByte).map fun b => String.ofList (hexPair (b % 256).toNat) := by
    rw [List.map_map]
    refine Matching.map_eq_map h fun pair n hpair => ?_
    rw [Function.comp_apply, emod_signedByte hpair.lt, hpair.map_toLower]
  rw [lowerText, hsame, bytesText]

theorem readHexBytes?_signedByte (h : DenotesBytes text pairs ns) :
    readHexBytes? (bytesText (ns.map signedByte)) = some ns := by
  obtain ⟨-, hne, hpairs⟩ := h
  have hbytes : ∀ n ∈ ns, (signedByte n % 256).toNat = n := by
    intro n hn
    obtain ⟨pair, -, hpair⟩ := Matching.exists_of_mem_right hpairs hn
    exact emod_signedByte hpair.lt
  have hne' : ns.map signedByte ≠ [] := by
    intro hnil
    rw [List.map_eq_nil_iff.1 hnil] at hpairs
    exact hne (List.forall₂_nil_right_iff.1 hpairs)
  rw [readHexBytes?_bytesText hne', List.map_map]
  exact congrArg some ((List.map_congr_left hbytes).trans (List.map_id' ns))

/-! ## Loaded instructions -/

theorem InstructionEntry.Denotes.length_eq {space : AddressSpace} {entry : InstructionEntry}
    {i : Instruction} (h : entry.Denotes space i)
    (hpairs : DenotesBytes entry.bytes.text pairs entry.bytes.bytes) : i.length = pairs.length := by
  obtain ⟨a, -, rfl⟩ := h
  rw [Instruction.length, List.length_map, hpairs.2.2.length_eq]

/-- The instructions are those that the entries of a snapshot denote, at distinct addresses. -/
def Program.HasInstructionsOf (s : Snapshot) (p : Program) : Prop :=
  List.Forall₂ (InstructionEntry.Denotes s.space) s.instructions p.instructions ∧
    (p.instructions.map (·.address)).Nodup

namespace Program

variable {s : Snapshot} {p p' : Program}

theorem hasInstructionsOf_load (h : load s = .ok p) : p.HasInstructionsOf s := by
  obtain ⟨start, data, comments, hstart, rfl⟩ := exists_bare_of_load h
  obtain ⟨-, -, hinstructions, -⟩ := Load.bare_cases hstart
  exact Load.addEach_addInstruction_iff.1 hinstructions

theorem HasInstructionsOf.change (h : p.HasInstructionsOf s) (hchange : Engine.Change p p') :
    p'.HasInstructionsOf s := by
  cases hchange with
  | none => exact h
  | name index name source =>
    unfold renameIndex
    split_ifs
    · exact h
    · exact h
  | data _ _ hplace =>
    obtain rfl := placeData_eq hplace
    exact h

theorem HasInstructionsOf.exists_instructionAt? (h : p.HasInstructionsOf s) {entry : InstructionEntry}
    (hentry : entry ∈ s.instructions) :
    ∃ i, entry.Denotes s.space i ∧ p.instructionAt? i.address = some i := by
  obtain ⟨hdenoted, hdistinct⟩ := h
  obtain ⟨i, hi, hdenotes⟩ := Matching.exists_of_mem_left hdenoted hentry
  exact ⟨i, hdenotes, (Sorting.find?_key_eq_some_iff hdistinct).2 ⟨hi, rfl⟩⟩

end Program

namespace Engine

variable {s : Snapshot} {e : Engine}

theorem Reached.hasInstructionsOf (h : Reached s e) : e.program.HasInstructionsOf s :=
  h.induct (fun _ => Program.hasInstructionsOf_load) fun _ _ => Program.HasInstructionsOf.change

/-- A record of a disassembly is that of the instruction at its address. -/
theorem Reached.exists_of_mem_disassemble (h : Reached s e) {start : Address} {bound : Binary64}
    {records : List InstructionRecord} (hwalk : e.disassemble start bound = .ok records)
    {record : InstructionRecord} (hrecord : record ∈ records) :
    ∃ i, e.program.instructionAt? i.address = some i ∧
      record = .ofInstruction i (e.program.commentAt? .endOfLine i.address) := by
  obtain ⟨records', hwalk', hlists⟩ := h.faultless.exists_walkFrom_lists h.measured
    (Nat.le_succ e.program.instructions.length) start bound
  obtain rfl := Except.ok.inj (hwalk.symm.trans hwalk')
  obtain ⟨n, hn, rfl⟩ := List.mem_iff_getElem.1 hrecord
  have hlink := hlists.record n hn
  rw [List.getElem?_eq_getElem hn] at hlink
  obtain ⟨a, -, hrecordAt⟩ := Option.bind_eq_some_iff.1 hlink.symm
  obtain ⟨i, hi, heq⟩ := Option.map_eq_some_iff.1 hrecordAt
  obtain ⟨-, rfl⟩ := Program.mem_of_instructionAt? hi
  exact ⟨i, hi, heq.symm⟩

/-- A disassembly that may have a record begins with the instruction at its start. -/
theorem Reached.exists_disassemble_cons (h : Reached s e) {i : Instruction}
    (hi : e.program.instructionAt? i.address = some i) {bound : Binary64}
    (hbound : Binary64.ofNat 0 < bound) :
    ∃ rest, e.disassemble i.address bound =
      .ok (.ofInstruction i (e.program.commentAt? .endOfLine i.address) :: rest) := by
  obtain ⟨records, hwalk, hlists⟩ := h.faultless.exists_walkFrom_lists h.measured
    (Nat.le_succ e.program.instructions.length) i.address bound
  have hone : e.program.IsChain i.address bound 1 :=
    (Program.isChain_zero e.program i.address bound).succ hbound rfl hi
  have hlength : 0 < records.length := hlists.longest.2 hone
  obtain ⟨record, rest, rfl⟩ := List.exists_cons_of_length_pos hlength
  have hfirst := hlists.record 0 hlength
  rw [List.getElem?_cons_zero, Program.record?, Program.link?, Option.bind_some, Program.recordAt?, hi]
    at hfirst
  obtain rfl := Option.some.inj hfirst
  exact ⟨rest, hwalk⟩

/-- A record that shows the address of an instruction shows the pairs of its entry in lower case, which
are read back as the bytes of the entry. -/
theorem Reached.bytes_of_mem_disassemble (h : Reached s e) {entry : InstructionEntry} {i : Instruction}
    (hdenotes : entry.Denotes s.space i) (hi : e.program.instructionAt? i.address = some i)
    (hpairs : DenotesBytes entry.bytes.text pairs entry.bytes.bytes) {start : Address}
    {bound : Binary64} {records : List InstructionRecord}
    (hwalk : e.disassemble start bound = .ok records) {record : InstructionRecord}
    (hrecord : record ∈ records) (haddress : record.address = i.address.canonical) :
    record.bytes = lowerText pairs ∧ readHexBytes? record.bytes = some entry.bytes.bytes := by
  obtain ⟨i', hi', rfl⟩ := h.exists_of_mem_disassemble hwalk hrecord
  -- Different addresses are shown differently, so the record is that of this instruction.
  rw [Address.canonical_inj.1 haddress, hi] at hi'
  obtain rfl := Option.some.inj hi'
  obtain ⟨a, -, rfl⟩ := hdenotes
  exact ⟨bytesText_signedByte hpairs.2.2, readHexBytes?_signedByte hpairs⟩

/-- A text of bytes is accepted exactly if it is pairs of digits and blanks. The instruction that is
loaded from it has a byte for each pair, and every record of the instruction shows the pairs in lower
case. Numbers are written as their integer parts modulo 256, so reading what is written gives back the
bytes of the text, and any signed bytes. -/
theorem bytes_survive (h : Reached s e) :
    (∀ text, (∃ b, ByteText.check.run (.string text) = .accepted b ∧ b.text = text) ↔
        ∃ pairs ns, DenotesBytes text pairs ns) ∧
      (∀ entry ∈ s.instructions, ∃ pairs i, DenotesBytes entry.bytes.text pairs entry.bytes.bytes ∧
        entry.Denotes s.space i ∧ e.instructionAt i.address = .ok (some i) ∧
        i.length = pairs.length ∧ 1 ≤ i.length ∧
        (∀ bound, Binary64.ofNat 0 < bound → ∃ record rest,
          e.disassemble i.address bound = .ok (record :: rest) ∧
          record.address = i.address.canonical) ∧
        ∀ start bound records, e.disassemble start bound = .ok records → ∀ record ∈ records,
          record.address = i.address.canonical →
            record.bytes = lowerText pairs ∧ readHexBytes? record.bytes = some entry.bytes.bytes) ∧
      (∀ xs : List Binary64, ∃ pairs,
        bytesText (xs.map (·.truncate)) = " ".intercalate (pairs.map String.ofList) ∧
        words (bytesText (xs.map (·.truncate))).toList = pairs ∧
        (∀ pair ∈ pairs, pair.map Char.toLower = pair) ∧
        List.Forall₂ IsHexPair pairs (xs.map fun x => (x.integerPart % 256).toNat) ∧
        (xs ≠ [] → readHexBytes? (bytesText (xs.map (·.truncate))) =
          some (xs.map fun x => (x.integerPart % 256).toNat))) ∧
      ∀ bs : List Int, bs ≠ [] → (∀ b ∈ bs, -128 ≤ b ∧ b < 128) →
        (readHexBytes? (bytesText bs)).map (List.map signedByte) = some bs := by
  refine ⟨fun text => ByteText.accepts_iff, fun entry hentry => ?_, exists_pairs,
    fun bs hne hbytes => signedByte_readHexBytes? hne hbytes⟩
  obtain ⟨pairs, hpairs⟩ := entry.bytes.exists_denotesBytes
  obtain ⟨i, hdenotes, hi⟩ := h.hasInstructionsOf.exists_instructionAt? hentry
  have hlength := hdenotes.length_eq hpairs
  refine ⟨pairs, i, hpairs, hdenotes, ?_, hlength, ?_, fun bound hbound => ?_, ?_⟩
  · rw [h.faultless.instructionAt_eq, hi]
  · rw [hlength]
    exact List.length_pos_of_ne_nil hpairs.2.1
  · obtain ⟨rest, hwalk⟩ := h.exists_disassemble_cons hi hbound
    exact ⟨_, rest, hwalk, rfl⟩
  · intro start bound records hwalk record hrecord haddress
    exact h.bytes_of_mem_disassemble hdenotes hi hpairs hwalk hrecord haddress

/-- A snapshot whose byte text has blanks at its ends and both cases. -/
def spacedSnapshot : Snapshot :=
  ⟨"p", "x", "0", .four, [], [], [⟨"10", "LEA", "", ⟨"\t8d  C0 fF\n", by decide +kernel⟩⟩], [], [], [],
    []⟩

/-- The program of the snapshot. -/
def spacedProgram : Program :=
  ⟨"p", "x", ⟨4⟩, ⟨0⟩, none, [], [], [], [⟨⟨16⟩, "LEA", "", [-115, -64, -1]⟩], [], []⟩

/-- The record shows the pairs in lower case, and they are the bytes of the entry. -/
theorem bytes_survive_spaced :
    Reached spacedSnapshot (ofProgram spacedProgram) ∧
      ∃ record rest, (ofProgram spacedProgram).disassemble ⟨16⟩ (.ofNat 1) = .ok (record :: rest) ∧
        record.bytes = "8d c0 ff" ∧ readHexBytes? record.bytes = some [141, 192, 255] := by
  have hreached : Reached spacedSnapshot (ofProgram spacedProgram) :=
    ⟨ofProgram spacedProgram, [], false, ofSnapshot_of_load (by decide +kernel), rfl⟩
  obtain ⟨-, hentries, -, -⟩ := bytes_survive hreached
  obtain ⟨pairs, i, hpairs, ⟨a, ha, rfl⟩, -, -, -, hstart, hrecords⟩ := hentries _ List.mem_cons_self
  have haddress : spacedSnapshot.space.parse "10" = .ok ⟨16⟩ := by decide +kernel
  obtain rfl := Except.ok.inj (ha.symm.trans haddress)
  obtain ⟨record, rest, hwalk, hrecord⟩ := hstart (.ofNat 1) (by decide +kernel)
  obtain ⟨hshown, hread⟩ := hrecords _ _ _ hwalk record List.mem_cons_self hrecord
  rw [← words_of_spaced hpairs.1] at hshown
  exact ⟨hreached, record, rest, hwalk, hshown.trans (by decide +kernel),
    hread.trans (by decide +kernel)⟩

end Engine

end BinaryReport
