import BinaryReport.Proofs.Program.Loaded

/-!
# Reordered snapshots

The memory, the instructions, the functions, the data and the comments of a snapshot are listed in no
particular order. A snapshot with these lists permuted (`Snapshot.Reordered`) can be loaded if the
original can, and the programs are alike (`Program.Alike`): they answer every question about an address
in the same way (`LoadsTo.reordered`). For data and comments this takes that they do not replace one
another (`Snapshot.Unambiguous`).
-/

namespace BinaryReport

open Program Program.Load

/-! ## Snapshots -/

/-- A snapshot is another one with its unordered parts permuted. -/
structure Snapshot.Reordered (s s' : Snapshot) : Prop where
  name : s'.name = s.name
  language : s'.language = s.language
  imageBase : s'.imageBase = s.imageBase
  pointerSize : s'.pointerSize = s.pointerSize
  entryPoints : s'.entryPoints = s.entryPoints
  memory : s'.memory.Perm s.memory
  instructions : s'.instructions.Perm s.instructions
  functions : s'.functions.Perm s.functions
  symbols : s'.symbols = s.symbols
  data : s'.data.Perm s.data
  comments : s'.comments.Perm s.comments

/-- No two units of data have the same address, and no two comments of one kind do. -/
structure Snapshot.Unambiguous (s : Snapshot) : Prop where
  data : s.data.Pairwise fun e e' => ∀ a, s.space.parse e.address = .ok a →
    s.space.parse e'.address ≠ .ok a
  comments : s.comments.Pairwise fun e e' => e.kind = e'.kind →
    ∀ a, s.space.parse e.address = .ok a → s.space.parse e'.address ≠ .ok a

variable {s s' : Snapshot} {p p' : Program}

theorem Snapshot.Reordered.symm (h : s.Reordered s') : s'.Reordered s where
  name := h.name.symm
  language := h.language.symm
  imageBase := h.imageBase.symm
  pointerSize := h.pointerSize.symm
  entryPoints := h.entryPoints.symm
  memory := h.memory.symm
  instructions := h.instructions.symm
  functions := h.functions.symm
  symbols := h.symbols.symm
  data := h.data.symm
  comments := h.comments.symm

theorem Snapshot.Reordered.space (h : s.Reordered s') : s'.space = s.space := by
  unfold Snapshot.space
  rw [h.pointerSize]

theorem Snapshot.Reordered.hasExactTypes (h : s.Reordered s') (hexact : s.HasExactTypes) :
    s'.HasExactTypes := by
  intro entry hentry t ht
  rw [h.pointerSize] at ht
  exact hexact entry (h.data.mem_iff.1 hentry) t ht

theorem Snapshot.Reordered.unambiguous (h : s.Reordered s') (hunambiguous : s.Unambiguous) :
    s'.Unambiguous := by
  constructor
  · rw [h.space]
    refine (h.data.pairwise_iff ?_).2 hunambiguous.data
    intro e e' hne a ha' ha
    exact hne a ha ha'
  · rw [h.space]
    refine (h.comments.pairwise_iff ?_).2 hunambiguous.comments
    intro e e' hne hkind a ha' ha
    exact hne hkind.symm a ha ha'

theorem Snapshot.unambiguous_of_parse_ne
    (hdata : s.data.Pairwise fun e e' => s.space.parse e.address ≠ s.space.parse e'.address)
    (hcomments : s.comments.Pairwise fun e e' => e.kind = e'.kind →
      s.space.parse e.address ≠ s.space.parse e'.address) : s.Unambiguous where
  data := hdata.imp fun hne _ ha ha' => hne (ha.trans ha'.symm)
  comments := hcomments.imp fun hne hkind _ ha ha' => hne hkind (ha.trans ha'.symm)

/-- The snapshot with its unordered parts listed backwards. -/
def Snapshot.reversed (s : Snapshot) : Snapshot :=
  { s with
    memory := s.memory.reverse
    instructions := s.instructions.reverse
    functions := s.functions.reverse
    data := s.data.reverse
    comments := s.comments.reverse }

theorem Snapshot.reordered_reversed (s : Snapshot) : s.Reordered s.reversed where
  name := rfl
  language := rfl
  imageBase := rfl
  pointerSize := rfl
  entryPoints := rfl
  memory := List.reverse_perm _
  instructions := List.reverse_perm _
  functions := List.reverse_perm _
  symbols := rfl
  data := List.reverse_perm _
  comments := List.reverse_perm _

/-! ## Looking up in permuted lists -/

/-- Where at most one item is looked for, the order does not matter. -/
theorem find?_eq_of_perm {α : Type} {P : α → Bool} {as bs : List α} (hperm : as.Perm bs)
    (hunique : ∀ a ∈ bs, ∀ b ∈ bs, P a = true → P b = true → a = b) : as.find? P = bs.find? P := by
  cases hfind : bs.find? P with
  | none =>
    rw [List.find?_eq_none] at hfind ⊢
    exact fun a ha => hfind a (hperm.mem_iff.1 ha)
  | some b =>
    have hb : P b = true := List.find?_some hfind
    have hmem : b ∈ bs := List.mem_of_find?_eq_some hfind
    cases hfind' : as.find? P with
    | none =>
      rw [List.find?_eq_none] at hfind'
      exact absurd hb (hfind' b (hperm.mem_iff.2 hmem))
    | some a =>
      have ha : P a = true := List.find?_some hfind'
      have hmem' : a ∈ bs := hperm.mem_iff.1 (List.mem_of_find?_eq_some hfind')
      rw [hunique a hmem' b hmem ha hb]

theorem find?_key_eq_of_perm {α : Type} {key : α → Address} {as bs : List α} (hperm : as.Perm bs)
    (hnodup : (bs.map key).Nodup) (a : Address) :
    (as.find? fun x => key x = a) = bs.find? fun x => key x = a := by
  refine find?_eq_of_perm hperm fun x hx y hy hxa hya => ?_
  have hsame : key x = key y := (of_decide_eq_true hxa).trans (of_decide_eq_true hya).symm
  exact List.inj_on_of_nodup_map hnodup hx hy hsame

/-- Addresses with the same offset are equal, so the least one does not depend on the order. -/
theorem least?_eq_of_perm {as bs : List Address} (h : as.Perm bs) : least? as = least? bs := by
  induction h with
  | nil => rfl
  | cons a _ ih => rw [least?, least?, ih]
  | swap a b as =>
    rw [least?, least?, least?, least?]
    cases least? as with
    | none =>
      dsimp only
      refine congrArg some (Address.offset_injective ?_)
      split_ifs <;> omega
    | some c =>
      dsimp only
      refine congrArg some (Address.offset_injective ?_)
      split_ifs <;> omega
  | trans _ _ ih ih' => exact ih.trans ih'

/-! ## Data in any order -/

theorem putData_of_notMem {u : DataUnit} {data : List DataUnit}
    (hnew : u.address ∉ data.map (·.address)) : putData u data = data ++ [u] := by
  induction data with
  | nil => rfl
  | cons v data ih =>
    rw [List.map_cons, List.mem_cons, not_or] at hnew
    rw [putData, if_neg (fun heq => hnew.1 heq.symm), ih hnew.2]
    rfl

/-- Units at different addresses do not replace one another. -/
theorem settle_eq_self {units : List DataUnit} (hnodup : (units.map (·.address)).Nodup) :
    settle [] units = units := by
  induction units using List.reverseRecOn with
  | nil => rfl
  | append_singleton units u ih =>
    rw [List.map_append, List.map_singleton, List.nodup_middle, List.append_nil,
      List.nodup_cons] at hnodup
    rw [settle_append_singleton, ih hnodup.2, putData_of_notMem hnodup.1]

theorem DataUnit.Fits.congr {space : AddressSpace} {is is' : List Instruction}
    {data data' : List DataUnit} {u : DataUnit} (h : u.Fits space is data)
    (his : ∀ i ∈ is', i ∈ is) (hdata : ∀ v ∈ data', v ∈ data) : u.Fits space is' data' where
  inside := h.inside
  clear i hi := h.clear i (his i hi)
  apart v hv := h.apart v (hdata v hv)

/-- Units at different addresses fit in turn exactly if each fits beside all the others. -/
theorem fitInTurn_iff_forall {space : AddressSpace} {is : List Instruction}
    {units : List DataUnit} (hnodup : (units.map (·.address)).Nodup) :
    FitInTurn space is [] units ↔ ∀ u ∈ units, u.Fits space is units := by
  have hsettle {earlier later : List DataUnit} {u : DataUnit}
      (h : units = earlier ++ u :: later) : settle [] earlier = earlier := by
    refine settle_eq_self ?_
    rw [h, List.map_append] at hnodup
    exact hnodup.of_append_left
  rw [fitInTurn_iff]
  constructor
  · intro h u hu
    obtain ⟨earlier, later, hunits⟩ := List.append_of_mem hu
    have hfits := h earlier u later hunits
    rw [hsettle hunits] at hfits
    refine ⟨hfits.inside, hfits.clear, fun v hv hne => ?_⟩
    rw [hunits, List.mem_append, List.mem_cons] at hv
    rcases hv with hv | rfl | hv
    · exact hfits.apart v hv hne
    · exact absurd rfl hne
    · -- The other unit comes later, and it was placed beside this one.
      obtain ⟨between, rest, rfl⟩ := List.append_of_mem hv
      rw [← List.cons_append, ← List.append_assoc] at hunits
      have hother := h _ v rest hunits
      rw [hsettle hunits] at hother
      exact (hother.apart u (List.mem_append_right _ List.mem_cons_self) hne.symm).symm
  · intro h earlier u later hunits
    rw [hsettle hunits]
    have hu : u ∈ units := by
      rw [hunits]
      exact List.mem_append_right earlier List.mem_cons_self
    refine (h u hu).congr (fun i hi => hi) fun v hv => ?_
    rw [hunits]
    exact List.mem_append_left _ hv

/-! ## Programs -/

/-- Two programs answer every question in the same way. -/
structure Program.Alike (p p' : Program) : Prop where
  name : p'.name = p.name
  language : p'.language = p.language
  space : p'.space = p.space
  imageBase : p'.imageBase = p.imageBase
  minAddress? : p'.minAddress? = p.minAddress?
  entryPoints : p'.entryPoints = p.entryPoints
  functions : p'.functions = p.functions
  labels : p'.labels = p.labels
  count : p'.instructions.length = p.instructions.length
  instructionAt? : ∀ a, p'.instructionAt? a = p.instructionAt? a
  dataAt? : ∀ a, p'.dataAt? a = p.dataAt? a
  commentAt? : ∀ kind a, p'.commentAt? kind a = p.commentAt? kind a

theorem commentAt?_eq_of_perm (h : p'.comments.Perm p.comments)
    (hnodup : (p.comments.map fun c => (c.kind, c.address)).Nodup) (kind : CommentKind)
    (a : Address) : p'.commentAt? kind a = p.commentAt? kind a := by
  have hreverse : p'.comments.reverse.Perm p.comments.reverse :=
    (List.reverse_perm _).trans (h.trans (List.reverse_perm _).symm)
  unfold commentAt?
  refine congrArg _ (find?_eq_of_perm hreverse fun c hc d hd hca hda => ?_)
  obtain ⟨hckind, hcaddress⟩ := Bool.and_eq_true_iff.1 hca
  obtain ⟨hdkind, hdaddress⟩ := Bool.and_eq_true_iff.1 hda
  refine List.inj_on_of_nodup_map hnodup (List.mem_reverse.1 hc) (List.mem_reverse.1 hd) ?_
  rw [of_decide_eq_true hckind, of_decide_eq_true hcaddress, of_decide_eq_true hdkind,
    of_decide_eq_true hdaddress]

/-- A reordered snapshot is loaded to a program like that of the original. -/
theorem Snapshot.LoadsTo.reordered (h : s.LoadsTo p) (hreordered : s.Reordered s')
    (hunambiguous : s.Unambiguous) : ∃ p', s'.LoadsTo p' ∧ p.Alike p' := by
  obtain ⟨starts, hstarts, hleast⟩ := h.memory
  obtain ⟨listed, hlisted, hfunctions⟩ := h.functions
  obtain ⟨units, hunits, hturn, hdata⟩ := h.data
  obtain ⟨starts', hstartsPerm, hstarts'⟩ := Matching.exists_perm_right hstarts hreordered.memory
  obtain ⟨listed', hlistedPerm, hlisted'⟩ :=
    Matching.exists_perm_right hlisted hreordered.functions
  obtain ⟨units', hunitsPerm, hunits'⟩ := Matching.exists_perm_right hunits hreordered.data
  obtain ⟨instructions', hinstructionsPerm, hinstructions'⟩ :=
    Matching.exists_perm_right h.instructions hreordered.instructions
  obtain ⟨comments', hcommentsPerm, hcomments'⟩ :=
    Matching.exists_perm_right h.comments hreordered.comments
  have hunitsNodup : (units.map (·.address)).Nodup := by
    refine List.pairwise_map.2 (Matching.pairwise_right hunits ?_ hunambiguous.data)
    rintro e e' u u' ⟨hu, -⟩ ⟨hu', -⟩ hne heq
    exact hne u.address hu (heq ▸ hu')
  have hcommentsNodup : (p.comments.map fun c => (c.kind, c.address)).Nodup := by
    refine List.pairwise_map.2 (Matching.pairwise_right h.comments ?_ hunambiguous.comments)
    rintro e e' c c' ⟨hc, hkind, -⟩ ⟨hc', hkind', -⟩ hne heq
    obtain ⟨hsame, haddress⟩ := Prod.mk.inj heq
    exact hne (hkind.symm.trans (hsame.trans hkind')) c.address hc (haddress ▸ hc')
  have hunitsNodup' := (hunitsPerm.map (·.address)).nodup_iff.2 hunitsNodup
  have hturn' : FitInTurn s.space instructions' [] units' := by
    refine (fitInTurn_iff_forall hunitsNodup').2 fun u hu => ?_
    have hfits := (fitInTurn_iff_forall hunitsNodup).1 hturn u (hunitsPerm.mem_iff.1 hu)
    exact hfits.congr (fun i hi => hinstructionsPerm.mem_iff.1 hi)
      fun v hv => hunitsPerm.mem_iff.1 hv
  have hsettled : settle [] units' = units' := settle_eq_self hunitsNodup'
  have hdataPerm : units'.Perm p.data := by
    rw [hdata, settle_eq_self hunitsNodup]
    exact hunitsPerm
  refine ⟨{ p with instructions := instructions', data := units', comments := comments' },
    ?_, ?_⟩
  · have hspace := hreordered.space
    constructor
    case name => exact h.name.trans hreordered.name.symm
    case language => exact h.language.trans hreordered.language.symm
    case space => exact h.space.trans hspace.symm
    case imageBase =>
      rw [hspace, hreordered.imageBase]
      exact h.imageBase
    case memory =>
      rw [hspace]
      exact ⟨starts', hstarts', hleast.trans (least?_eq_of_perm hstartsPerm.symm)⟩
    case entryPoints =>
      rw [hspace, hreordered.entryPoints]
      exact h.entryPoints
    case instructions =>
      rw [hspace]
      exact hinstructions'
    case distinct => exact (hinstructionsPerm.map _).nodup_iff.2 h.distinct
    case functions =>
      rw [hspace]
      exact ⟨listed', hlisted', hfunctions.trans hlistedPerm.symm⟩
    case ascending => exact h.ascending
    case labels =>
      rw [hspace, hreordered.symbols]
      exact h.labels
    case data =>
      rw [hspace]
      exact ⟨units', hunits', hturn', hsettled.symm⟩
    case comments =>
      rw [hspace]
      exact hcomments'
  · constructor
    case count => exact hinstructionsPerm.length_eq
    case instructionAt? => exact find?_key_eq_of_perm hinstructionsPerm h.distinct
    case dataAt? =>
      have hnodup : (p.data.map (·.address)).Nodup := by
        rw [hdata]
        exact nodup_settle units
      exact find?_key_eq_of_perm hdataPerm hnodup
    case commentAt? => exact commentAt?_eq_of_perm hcommentsPerm hcommentsNodup
    all_goals rfl

/-- A reordered snapshot can be loaded if the original can, to a program like the original one. -/
theorem Program.load_reordered (hreordered : s.Reordered s') (hexact : s.HasExactTypes)
    (hunambiguous : s.Unambiguous) (h : load s = .ok p) :
    ∃ p', load s' = .ok p' ∧ p.Alike p' := by
  have hloads := (load_eq_ok_iff_loadsTo hexact).1 h
  obtain ⟨p', hloads', halike⟩ := hloads.reordered hreordered hunambiguous
  exact ⟨p', (load_eq_ok_iff_loadsTo (hreordered.hasExactTypes hexact)).2 hloads', halike⟩

end BinaryReport
