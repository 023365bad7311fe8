import BinaryReport.Proofs.Engine.Placement
import BinaryReport.Proofs.Program.Chain

/-!
# What a disassembly lists

A step of the walk of an engine without faults looks at one link of the chain from the start
(`Faultless.walkStep_cases`), so a walk lists the chain link by link, until its steps are used up or the
chain can be no longer (`Faultless.exists_walkFrom_isChain`). A chain is not longer than the program has
instructions: so many steps are enough, and more change nothing (`Faultless.walkFrom_lists`).
-/

namespace BinaryReport.Engine

open Program

variable {s : Snapshot} {e : Engine} {start cursor : Address} {bound : Binary64}

/-- What a step finds: no instruction, one at the end of the space, or one with an address behind
it. -/
theorem Faultless.walkStep_cases (h : e.Faultless) (cursor : Address) :
    (e.program.instructionAt? cursor = none ∧ e.walkStep cursor = .ok .stop) ∨
      (∃ i record, e.program.instructionAt? cursor = some i ∧
        e.program.recordAt? cursor = some record ∧ e.program.behind? cursor = none ∧
        e.walkStep cursor = .ok (.last record)) ∨
      ∃ i record behind, e.program.instructionAt? cursor = some i ∧
        e.program.recordAt? cursor = some record ∧ e.program.behind? cursor = some behind ∧
        e.walkStep cursor = .ok (.next record behind) := by
  unfold walkStep recordAt? behind?
  rw [h.instructionAt_eq, h.commentAt_eq]
  cases hfound : e.program.instructionAt? cursor with
  | none => exact Or.inl ⟨rfl, rfl⟩
  | some i =>
    right
    have haddress := (mem_of_instructionAt? hfound).2
    dsimp only
    rw [h.advance_eq, haddress]
    unfold AddressSpace.advance Displacement.toInt?
    dsimp only [Option.bind_some]
    cases e.program.space.shift? cursor i.length with
    | none => exact Or.inl ⟨i, _, rfl, rfl, rfl, rfl⟩
    | some behind => exact Or.inr ⟨i, _, behind, rfl, rfl, rfl, rfl⟩

/-- A walk that stands at a link of the chain from `start` lists the links from there on, until its
steps are used up or the chain can be no longer. -/
theorem Faultless.exists_walkFrom_isChain (h : e.Faultless) (fuel : Nat) {recorded : Nat}
    (hlink : e.program.link? start recorded = some cursor)
    (hchain : e.program.IsChain start bound recorded) :
    ∃ records, e.walkFrom bound fuel recorded cursor = .ok records ∧
      e.program.IsChain start bound (recorded + records.length) ∧
      (∀ n < records.length, records[n]? = e.program.record? start (recorded + n)) ∧
      (records.length = fuel ∨ ¬ e.program.IsChain start bound (recorded + records.length + 1)) := by
  induction fuel generalizing recorded cursor with
  | zero => exact ⟨[], rfl, hchain, nofun, Or.inl rfl⟩
  | succ fuel ih =>
    rw [walkFrom]
    by_cases hlt : Binary64.ofNat recorded < bound
    · -- The cursor is the link of this index, so the step says whether the chain goes on.
      have hrecord : e.program.record? start recorded = e.program.recordAt? cursor := by
        rw [record?, hlink, Option.bind_some]
      have hnext : e.program.link? start (recorded + 1) = e.program.behind? cursor := by
        rw [link?, hlink, Option.bind_some]
      rw [if_pos hlt]
      rcases h.walkStep_cases cursor with ⟨hnone, hstep⟩ | ⟨i, record, hi, hat, hbehind, hstep⟩ |
        ⟨i, record, behind, hi, hat, hbehind, hstep⟩
      · rw [hstep]
        refine ⟨[], rfl, hchain, nofun, Or.inr fun hmore => ?_⟩
        obtain ⟨a, i, ha, hi⟩ := hmore.linked recorded (Nat.lt_succ_self recorded)
        obtain rfl := Option.some.inj (hlink.symm.trans ha)
        rw [hnone] at hi
        cases hi
      · rw [hstep]
        refine ⟨[record], rfl, hchain.succ hlt hlink hi, ?_, Or.inr fun hmore => ?_⟩
        · intro n hn
          obtain rfl : n = 0 := Nat.lt_one_iff.1 hn
          exact (hrecord.trans hat).symm
        · obtain ⟨a, i, ha, -⟩ := hmore.linked (recorded + 1) (Nat.lt_succ_self _)
          rw [hnext, hbehind] at ha
          cases ha
      · rw [hstep]
        obtain ⟨records, hwalk, hall, hrecords, hend⟩ :=
          ih (hnext.trans hbehind) (hchain.succ hlt hlink hi)
        dsimp only
        rw [hwalk]
        have hlength : recorded + (record :: records).length = recorded + 1 + records.length := by
          rw [List.length_cons]
          omega
        refine ⟨record :: records, rfl, hlength ▸ hall, ?_, ?_⟩
        · intro n hn
          cases n with
          | zero => exact (hrecord.trans hat).symm
          | succ n =>
            rw [List.getElem?_cons_succ, hrecords n (Nat.lt_of_succ_lt_succ hn)]
            congr 1
            omega
        · rw [hlength]
          exact hend.imp_left (congrArg (· + 1))
    · rw [if_neg hlt]
      refine ⟨[], rfl, hchain, nofun, Or.inr fun hmore => hlt ?_⟩
      exact hmore.admitted.resolve_left (Nat.succ_ne_zero _)

/-- With a step for each instruction a walk lists the longest chain. -/
theorem Faultless.exists_walkFrom_lists (h : e.Faultless) (hmeasured : e.program.Measured)
    {fuel : Nat} (hfuel : e.program.instructions.length ≤ fuel) (start : Address)
    (bound : Binary64) :
    ∃ records, e.walkFrom bound fuel 0 start = .ok records ∧
      e.program.Lists start bound records := by
  obtain ⟨records, hwalk, hchain, hrecords, hend⟩ :=
    h.exists_walkFrom_isChain fuel rfl (isChain_zero e.program start bound)
  rw [Nat.zero_add] at hchain hend
  refine ⟨records, hwalk, hchain.isGreatest ?_, fun n hn => ?_⟩
  · rcases hend with hlength | hnot
    · -- A chain that used all steps up cannot be longer, since it has all instructions.
      intro hmore
      have hle := hmore.linked.length_le hmeasured
      omega
    · exact hnot
  · rw [hrecords n hn, Nat.zero_add]

/-- The disassembly from any address within any bound lists the longest chain. A walk ends after at most
as many steps as there are instructions, and meets no address twice. A greater bound adds records at
the end, and behind the last instruction the disassembly goes on with that from there. -/
theorem disassemble_lists_longest (h : Reached s e) :
    ∃ walk : Address → Binary64 → List InstructionRecord, ∀ start bound,
      e.disassemble start bound = .ok (walk start bound) ∧
      e.program.Lists start bound (walk start bound) ∧
      (walk start bound).length ≤ e.program.instructions.length ∧
      (∀ fuel, e.program.instructions.length ≤ fuel →
        e.walkFrom bound fuel 0 start = .ok (walk start bound)) ∧
      (∀ m n a b, m < n → e.program.link? start m = some a → e.program.link? start n = some b →
        a.offset < b.offset) ∧
      (∀ n a b, e.program.link? start n = some a → e.program.link? start (n + 1) = some b →
        ∃ i, e.program.instructionAt? a = some i ∧ b.offset = a.offset + i.length ∧ 1 ≤ i.length) ∧
      (∀ bound', bound ≤ bound' → walk start bound <+: walk start bound') ∧
      ∀ b, e.program.link? start (walk start bound).length = some b →
        (∀ bound' rest, Binary64.Exceeds bound' (walk start bound).length rest
          e.program.instructions.length → walk start bound' = walk start bound ++ walk b rest) ∧
        ∀ bound', bound'.Admits e.program.instructions.length →
          walk start bound' = walk start bound ++ walk b bound' := by
  have hfaultless := h.faultless
  have hmeasured := h.measured
  have hall (start : Address) (bound : Binary64) := hfaultless.exists_walkFrom_lists hmeasured
    (Nat.le_succ e.program.instructions.length) start bound
  choose walk hwalk hlists using hall
  refine ⟨walk, fun start bound => ⟨hwalk start bound, hlists start bound, ?_, ?_, ?_, ?_, ?_, ?_⟩⟩
  · exact (hlists start bound).isChain.linked.length_le hmeasured
  · intro fuel hfuel
    obtain ⟨records, hrecords, hlists'⟩ :=
      hfaultless.exists_walkFrom_lists hmeasured hfuel start bound
    rw [hrecords, hlists'.unique (hlists start bound)]
  · exact fun m n a b hlt hm hn => hmeasured.link?_lt hlt hm hn
  · exact fun n a b hlink hnext => hmeasured.contiguous hlink hnext
  · exact fun bound' hle => (hlists start bound).grows (hlists start bound') hle
  · intro b hlink
    have happend (bound' rest : Binary64) (hexceeds : Binary64.Exceeds bound'
        (walk start bound).length rest e.program.instructions.length) :
        walk start bound' = walk start bound ++ walk b rest :=
      (hlists start bound').unique
        ((hlists start bound).append hmeasured hlink hexceeds (hlists b rest))
    exact ⟨happend, fun bound' hadmits =>
      happend bound' bound' (Binary64.exceeds_of_admits hadmits hadmits _)⟩

/-- A snapshot with an instruction inside another one, and a gap. -/
def overlappingSnapshot : Snapshot :=
  ⟨"p", "x", "0", .four, [], [], [⟨"10", "XOR", "EAX, EAX", ⟨"31 c0", by decide +kernel⟩⟩,
    ⟨"11", "SHL", "", ⟨"c0", by decide +kernel⟩⟩, ⟨"12", "LEAVE", "", ⟨"c9", by decide +kernel⟩⟩,
    ⟨"20", "POP", "EBP", ⟨"5d", by decide +kernel⟩⟩], [], [], [], [⟨"12", .endOfLine, "done"⟩]⟩

/-- The program of the snapshot. -/
def overlappingProgram : Program :=
  ⟨"p", "x", ⟨4⟩, ⟨0⟩, none, [], [], [], [⟨⟨16⟩, "XOR", "EAX, EAX", [49, -64]⟩,
    ⟨⟨17⟩, "SHL", "", [-64]⟩, ⟨⟨18⟩, "LEAVE", "", [-55]⟩, ⟨⟨32⟩, "POP", "EBP", [93]⟩], [],
    [⟨⟨18⟩, .endOfLine, "done"⟩]⟩

/-- The walk goes on behind the first instruction, past the one inside it. -/
theorem disassemble_lists_longest_overlapping :
    Reached overlappingSnapshot (ofProgram overlappingProgram) ∧
      ∃ first rest, (ofProgram overlappingProgram).disassemble ⟨16⟩ (.ofNat 1) = .ok first ∧
        first.length = 1 ∧ (ofProgram overlappingProgram).disassemble ⟨18⟩ (.ofNat 5) = .ok rest ∧
        (ofProgram overlappingProgram).disassemble ⟨16⟩ (.ofNat 6) = .ok (first ++ rest) := by
  have hreached : Reached overlappingSnapshot (ofProgram overlappingProgram) :=
    ⟨ofProgram overlappingProgram, [], false, ofSnapshot_of_load (by decide +kernel), rfl⟩
  obtain ⟨walk, hwalk⟩ := disassemble_lists_longest hreached
  obtain ⟨hfirst, -, -, -, -, -, -, happend⟩ := hwalk ⟨16⟩ (.ofNat 1)
  have hlength : (walk ⟨16⟩ (.ofNat 1)).length = 1 := by
    have hcount : (((ofProgram overlappingProgram).disassemble ⟨16⟩ (.ofNat 1)).toOption.map
        List.length) = some 1 := by decide +kernel
    rw [hfirst] at hcount
    exact Option.some.inj hcount
  rw [hlength] at happend
  have hexceeds := Binary64.exceeds_ofNat (k := 1) (m := 5) (by decide) 4
  have hall := (happend ⟨18⟩ (by decide +kernel)).1 (.ofNat 6) (.ofNat 5) hexceeds
  exact ⟨hreached, walk ⟨16⟩ (.ofNat 1), walk ⟨18⟩ (.ofNat 5), hfirst, hlength, (hwalk _ _).1,
    hall ▸ (hwalk _ _).1⟩

end BinaryReport.Engine
