import BinaryReport.Engine.Catalog
import BinaryReport.Proofs.Binary64.Order
import BinaryReport.Proofs.Program.Extent
import Mathlib.Order.Bounds.Basic

/-!
# Chains of instructions

From an address a chain of instructions starts: each link is the address behind the instruction of the
link before it (`Program.link?`). A chain goes as far as there is an instruction at each of its links,
and a bound on the number of its instructions cuts it (`Program.IsChain`). Instructions have a byte at
least, so the links ascend (`Measured.link?_lt`) and a chain has at most as many of them as the program
has instructions (`Linked.length_le`).

`Program.Lists` says that records are those of the longest chain within a bound. There is one such list
only; it is a prefix of the list for a greater bound, and behind its last link it goes on with the list
from there (`Lists.unique`, `Lists.grows`, `Lists.append`).
-/

namespace BinaryReport

/-! ## Bounds on a number of instructions -/

namespace Binary64

/-- A number of instructions is within a bound: there is none, or the last one comes while those before
it are fewer than the bound. -/
def Admits (bound : Binary64) (k : Nat) : Prop := k = 0 ∨ ofNat (k - 1) < bound

/-- Among numbers up to `limit`, a bound admits `k` more than another one. -/
def Exceeds (bound' : Binary64) (k : Nat) (bound : Binary64) (limit : Nat) : Prop :=
  ∀ j, k + j ≤ limit → (bound'.Admits (k + j) ↔ bound.Admits j)

variable {bound bound' : Binary64} {k m limit : Nat}

theorem Admits.of_le (h : bound.Admits k) (hle : m ≤ k) : bound.Admits m := by
  rcases Nat.eq_zero_or_pos m with hm | hm
  · exact Or.inl hm
  · have hlast := h.resolve_left (by omega)
    exact Or.inr (Binary64.lt_of_le_of_lt (ofNat_mono (by omega)) hlast)

theorem Admits.of_bound_le (h : bound.Admits k) (hle : bound ≤ bound') : bound'.Admits k :=
  h.imp_right fun hlast => Binary64.lt_of_lt_of_le hlast hle

theorem ofNat_lt_ofNat_iff (h : m ≤ exactLimit) : ofNat k < ofNat m ↔ k < m := by
  constructor
  · intro hlt
    by_contra hge
    exact (not_lt_iff_le (ofNat_ne_nan k) (ofNat_ne_nan m)).2 (ofNat_mono (not_lt.1 hge)) hlt
  · intro hlt
    rw [ofNat_eq h, ofNat_eq (by omega)]
    exact decide_eq_true (Nat.cast_lt.2 hlt)

/-- Whole bounds admit as many instructions as they say. -/
theorem admits_ofNat_iff (h : m ≤ exactLimit) : (ofNat m).Admits k ↔ k ≤ m := by
  unfold Admits
  rw [ofNat_lt_ofNat_iff h]
  omega

theorem exceeds_ofNat (h : k + m ≤ exactLimit) (limit : Nat) :
    (ofNat (k + m)).Exceeds k (ofNat m) limit := by
  intro j _
  rw [admits_ofNat_iff h, admits_ofNat_iff (by omega)]
  omega

/-- Bounds that cut nothing exceed each other by any number. -/
theorem exceeds_of_admits (h' : bound'.Admits limit) (h : bound.Admits limit) (k : Nat) :
    bound'.Exceeds k bound limit :=
  fun _ hj => iff_of_true (h'.of_le hj) (h.of_le (by omega))

end Binary64

namespace Program

/-! ## Links -/

/-- The address behind the instruction at an address, if there is one and the space goes on behind
it. -/
def behind? (p : Program) (a : Address) : Option Address :=
  (p.instructionAt? a).bind fun i => p.space.shift? a i.length

/-- The `n`-th link of the chain from an address. -/
def link? (p : Program) (start : Address) : Nat → Option Address
  | 0 => some start
  | n + 1 => (p.link? start n).bind p.behind?

/-- The record of the instruction at an address. -/
def recordAt? (p : Program) (a : Address) : Option InstructionRecord :=
  (p.instructionAt? a).map fun i => .ofInstruction i (p.commentAt? .endOfLine a)

/-- The record of the instruction at the `n`-th link. -/
def record? (p : Program) (start : Address) (n : Nat) : Option InstructionRecord :=
  (p.link? start n).bind p.recordAt?

/-- The first `k` links of the chain from an address are there and hold instructions. -/
def Linked (p : Program) (start : Address) (k : Nat) : Prop :=
  ∀ n < k, ∃ a i, p.link? start n = some a ∧ p.instructionAt? a = some i

/-- A part of the chain from an address that is within a bound. -/
structure IsChain (p : Program) (start : Address) (bound : Binary64) (k : Nat) : Prop where
  admitted : bound.Admits k
  linked : p.Linked start k

/-- The records are those of the longest chain within a bound, in order. -/
structure Lists (p : Program) (start : Address) (bound : Binary64)
    (records : List InstructionRecord) : Prop where
  /-- There are as many records as the longest chain has links. -/
  longest : IsGreatest {k | p.IsChain start bound k} records.length
  /-- Each record is that of the instruction at its link. -/
  record : ∀ n < records.length, records[n]? = p.record? start n

variable {p : Program} {start a b : Address} {bound bound' : Binary64} {k m n : Nat}
  {records records' : List InstructionRecord}

theorem link?_add (p : Program) (start : Address) (m n : Nat) :
    p.link? start (m + n) = (p.link? start m).bind fun a => p.link? a n := by
  induction n with
  | zero =>
    cases p.link? start m <;> rfl
  | succ n ih =>
    rw [← Nat.add_assoc, link?, ih, Option.bind_assoc]
    rfl

theorem link?_of_link? (h : p.link? start m = some a) (n : Nat) :
    p.link? start (m + n) = p.link? a n := by
  rw [link?_add, h, Option.bind_some]

theorem record?_of_link? (h : p.link? start m = some a) (n : Nat) :
    p.record? start (m + n) = p.record? a n := by
  rw [record?, link?_of_link? h]
  rfl

theorem behind?_eq_some_iff : p.behind? a = some b ↔
    ∃ i, p.instructionAt? a = some i ∧ p.space.shift? a i.length = some b :=
  Option.bind_eq_some_iff

theorem mem_of_instructionAt? {i : Instruction} (h : p.instructionAt? a = some i) :
    i ∈ p.instructions ∧ i.address = a :=
  ⟨List.mem_of_find?_eq_some h, by simpa using List.find?_some h⟩

/-- The next link lies behind the instruction of the link before it. -/
theorem Measured.contiguous (h : p.Measured) (hlink : p.link? start n = some a)
    (hnext : p.link? start (n + 1) = some b) :
    ∃ i, p.instructionAt? a = some i ∧ b.offset = a.offset + i.length ∧ 1 ≤ i.length := by
  rw [link?, hlink, Option.bind_some] at hnext
  obtain ⟨i, hi, hshift⟩ := behind?_eq_some_iff.1 hnext
  obtain ⟨rfl, -⟩ := AddressSpace.shift?_eq_some_iff.1 hshift
  exact ⟨i, hi, rfl, h.instruction i (mem_of_instructionAt? hi).1⟩

theorem Measured.link?_lt (h : p.Measured) (hlt : m < n) (hm : p.link? start m = some a)
    (hn : p.link? start n = some b) : a.offset < b.offset := by
  obtain ⟨d, rfl⟩ := Nat.exists_eq_add_of_lt hlt
  induction d generalizing b with
  | zero =>
    obtain ⟨i, -, hoffset, hpos⟩ := h.contiguous hm hn
    omega
  | succ d ih =>
    obtain ⟨c, hc, -⟩ := Option.bind_eq_some_iff.1 hn
    obtain ⟨i, -, hoffset, hpos⟩ := h.contiguous hc hn
    have hbefore := ih (by omega) hc
    omega

theorem Measured.link?_injective (h : p.Measured) (hm : p.link? start m = some a)
    (hn : p.link? start n = some a) : m = n := by
  rcases Nat.lt_trichotomy m n with hlt | heq | hlt
  · exact absurd (h.link?_lt hlt hm hn) (Nat.lt_irrefl _)
  · exact heq
  · exact absurd (h.link?_lt hlt hn hm) (Nat.lt_irrefl _)

/-! ## Chains -/

/-- A chain has at most as many links as there are instructions. -/
theorem Linked.length_le (h : p.Linked start k) (hmeasured : p.Measured) :
    k ≤ p.instructions.length := by
  -- The links are distinct, and each is the address of an instruction.
  have hnodup : ((List.range k).map (p.link? start)).Nodup := by
    refine List.Nodup.map_on (fun m hm n hn heq => ?_) List.nodup_range
    obtain ⟨a, -, ha, -⟩ := h m (List.mem_range.1 hm)
    exact hmeasured.link?_injective ha (heq ▸ ha)
  have hsubset : (List.range k).map (p.link? start) ⊆
      p.instructions.map fun i => some i.address := by
    intro link hlink
    obtain ⟨n, hn, rfl⟩ := List.mem_map.1 hlink
    obtain ⟨a, i, ha, hi⟩ := h n (List.mem_range.1 hn)
    obtain ⟨hmem, haddress⟩ := mem_of_instructionAt? hi
    exact List.mem_map.2 ⟨i, hmem, by rw [haddress, ha]⟩
  have hle := (hnodup.subperm hsubset).length_le
  rwa [List.length_map, List.length_map, List.length_range] at hle

/-- Beyond a link a chain is one from there. -/
theorem Linked.add_iff (h : p.Linked start k) (hlink : p.link? start k = some b) :
    p.Linked start (k + m) ↔ p.Linked b m := by
  constructor
  · intro hall n hn
    rw [← link?_of_link? hlink]
    exact hall (k + n) (Nat.add_lt_add_left hn k)
  · intro hrest n hn
    rcases Nat.lt_or_ge n k with hlt | hge
    · exact h n hlt
    · obtain ⟨d, rfl⟩ := Nat.exists_eq_add_of_le hge
      rw [link?_of_link? hlink]
      exact hrest d (by omega)

theorem IsChain.of_le (h : p.IsChain start bound k) (hle : m ≤ k) : p.IsChain start bound m :=
  ⟨h.admitted.of_le hle, fun n hn => h.linked n (hn.trans_le hle)⟩

theorem IsChain.of_bound_le (h : p.IsChain start bound k) (hle : bound ≤ bound') :
    p.IsChain start bound' k :=
  ⟨h.admitted.of_bound_le hle, h.linked⟩

theorem isChain_zero (p : Program) (start : Address) (bound : Binary64) :
    p.IsChain start bound 0 :=
  ⟨Or.inl rfl, nofun⟩

theorem IsChain.succ (h : p.IsChain start bound k) (hlt : Binary64.ofNat k < bound)
    (hlink : p.link? start k = some a) {i : Instruction} (hi : p.instructionAt? a = some i) :
    p.IsChain start bound (k + 1) := by
  refine ⟨Or.inr hlt, fun n hn => ?_⟩
  rcases Nat.lt_succ_iff_lt_or_eq.1 hn with hlt | rfl
  · exact h.linked n hlt
  · exact ⟨a, i, hlink, hi⟩

/-- A chain that cannot be longer by one link is the longest. -/
theorem IsChain.isGreatest (h : p.IsChain start bound k) (hnot : ¬ p.IsChain start bound (k + 1)) :
    IsGreatest {k | p.IsChain start bound k} k := by
  refine ⟨h, fun l hl => ?_⟩
  by_contra hlt
  exact hnot (IsChain.of_le hl (not_le.1 hlt))

/-! ## Lists -/

theorem Lists.isChain (h : p.Lists start bound records) : p.IsChain start bound records.length :=
  h.longest.1

theorem Lists.getElem?_eq (h : p.Lists start bound records) (h' : p.Lists start bound' records')
    (hn : n < records.length) (hn' : n < records'.length) : records[n]? = records'[n]? :=
  (h.record n hn).trans (h'.record n hn').symm

/-- A greater bound only adds records at the end. -/
theorem Lists.grows (h : p.Lists start bound records) (h' : p.Lists start bound' records')
    (hle : bound ≤ bound') : records <+: records' := by
  have hlength : records.length ≤ records'.length := h'.longest.2 (h.isChain.of_bound_le hle)
  refine List.prefix_iff_getElem?.2 fun n hn => ?_
  rw [← h.getElem?_eq h' hn (hn.trans_le hlength)]
  exact List.getElem?_eq_getElem hn

theorem Lists.unique (h : p.Lists start bound records) (h' : p.Lists start bound records') :
    records = records' := by
  have hlength : records.length = records'.length := h.longest.unique h'.longest
  refine List.ext_getElem? fun n => ?_
  rcases Nat.lt_or_ge n records.length with hlt | hge
  · exact h.getElem?_eq h' hlt (hlength ▸ hlt)
  · rw [List.getElem?_eq_none hge, List.getElem?_eq_none (hlength ▸ hge)]

/-- A list is continued by the list from the address behind its last instruction. -/
theorem Lists.append {rest : Binary64} (hmeasured : p.Measured) (h : p.Lists start bound records)
    (hlink : p.link? start records.length = some b)
    (hexceeds : bound'.Exceeds records.length rest p.instructions.length)
    (h' : p.Lists b rest records') : p.Lists start bound' (records ++ records') := by
  have hlinked := h.isChain.linked
  refine ⟨⟨?_, fun l hl => ?_⟩, fun n hn => ?_⟩
  · have hall : p.Linked start (records.length + records'.length) :=
      (hlinked.add_iff hlink).2 h'.isChain.linked
    rw [List.length_append]
    exact ⟨(hexceeds _ (hall.length_le hmeasured)).2 h'.isChain.admitted, hall⟩
  · -- A longer chain would be longer behind the last link of the first list, too.
    rw [List.length_append]
    rcases Nat.le_total l records.length with hle | hge
    · omega
    · obtain ⟨d, rfl⟩ := Nat.exists_eq_add_of_le hge
      obtain ⟨hadmitted, hall⟩ := hl
      have hadmits := (hexceeds d (hall.length_le hmeasured)).1 hadmitted
      exact Nat.add_le_add_left (h'.longest.2 ⟨hadmits, (hlinked.add_iff hlink).1 hall⟩) _
  · rcases Nat.lt_or_ge n records.length with hlt | hge
    · rw [List.getElem?_append_left hlt]
      exact h.record n hlt
    · obtain ⟨d, rfl⟩ := Nat.exists_eq_add_of_le hge
      rw [List.length_append] at hn
      rw [List.getElem?_append_right hge, Nat.add_sub_cancel_left, record?_of_link? hlink]
      exact h'.record d (by omega)

end Program

end BinaryReport
