import BinaryReport.Proofs.Engine.Frame
import BinaryReport.Proofs.Program.Symbols

/-!
# Renames of symbols that share an address

Several symbols may be bound at one address, and renaming changes the first of them. Loading skips a
listed symbol whose name and address are in the table already, but renaming does not look at the table:
a name that another symbol at the address bears is given like any other (`Program.Collides`). A rename
keeps the symbols distinct exactly if it does not collide (`Engine.Faultless.hasUniqueSymbols_iff`), and
so does a sequence of renames (`Engine.hasUniqueSymbols_renameAll_iff`).
-/

namespace BinaryReport

namespace Program

variable {p p' : Program} {address name : String}

/-- A rename gives the first symbol at an address the name that another symbol there bears. -/
def Collides (p : Program) (address name : String) : Prop :=
  isSymbolName name = true ∧ ∃ a x, p.parseAddress address = .ok a ∧
    (p.symbolsAt a).head? = some x ∧ x.name ≠ name ∧ (name, a) ∈ p.symbols.map Symbol.identity

theorem head?_symbolsAt {a : Address} {before after : List Symbol} {x : Symbol}
    (heq : p.symbols = before ++ x :: after) (hx : isBoundAt a x = true)
    (hbefore : ∀ y ∈ before, isBoundAt a y = false) : (p.symbolsAt a).head? = some x := by
  have hnone : before.filter (isBoundAt a) = [] := by
    rw [List.filter_eq_nil_iff]
    intro y hy
    simp [hbefore y hy]
  rw [symbolsAt, heq, List.filter_append, hnone, List.nil_append, List.filter_cons_of_pos hx]
  rfl

/-- Distinct symbols stay distinct if and only if the new identity is not that of another one. -/
theorem nodup_identity_iff {before after : List Symbol} {x x' : Symbol}
    (h : ((before ++ x :: after).map Symbol.identity).Nodup) :
    ((before ++ x' :: after).map Symbol.identity).Nodup ↔
      x'.identity ∉ (before ++ after).map Symbol.identity := by
  rw [List.map_append, List.map_cons, List.nodup_middle, List.nodup_cons] at h
  rw [List.map_append, List.map_cons, List.nodup_middle, List.nodup_cons, List.map_append]
  exact and_iff_left h.2

theorem RenamedAt.hasUniqueSymbols_iff (h : p.RenamedAt address name p')
    (hname : isSymbolName name = true) (hunique : p.HasUniqueSymbols) :
    p'.HasUniqueSymbols ↔ ¬p.Collides address name := by
  obtain ⟨a, before, x, after, haddress, heq, hinside, hat, hbefore, heq', -⟩ := h
  have hhead : (p.symbolsAt a).head? = some x := by
    refine head?_symbolsAt heq (isBoundAt_iff.2 ⟨hinside, hat⟩) fun y hy => ?_
    exact isBoundAt_eq_false_iff.2 (hbefore y hy)
  unfold HasUniqueSymbols at hunique ⊢
  rw [heq] at hunique
  -- The other symbols do not have the identity that the renamed one had.
  have hothers : x.identity ∉ (before ++ after).map Symbol.identity :=
    (nodup_identity_iff hunique).1 hunique
  have hmem (i : String × Address) : i ∈ p.symbols.map Symbol.identity ↔
      i = x.identity ∨ i ∈ (before ++ after).map Symbol.identity := by
    rw [heq]
    simp only [List.map_append, List.map_cons, List.mem_append, List.mem_cons]
    tauto
  have hidentity : x.identity = (x.name, a) := by rw [Symbol.identity, hat]
  rw [heq', nodup_identity_iff hunique, not_iff_not]
  show (name, x.address) ∈ _ ↔ _
  rw [hat]
  constructor
  · intro htaken
    refine ⟨hname, a, x, haddress, hhead, fun hsame => ?_, (hmem _).2 (Or.inr htaken)⟩
    rw [hidentity, hsame] at hothers
    exact hothers htaken
  · rintro ⟨-, b, y, hb, hy, hne, htaken⟩
    obtain rfl := Except.ok.inj (haddress.symm.trans hb)
    obtain rfl := Option.some.inj (hhead.symm.trans hy)
    rcases (hmem _).1 htaken with hsame | hother
    · rw [hidentity] at hsame
      exact absurd (Prod.mk.inj hsame).1.symm hne
    · exact hother

end Program

namespace Engine

/-- The engine after a list of renames, each given by an address and a name. -/
def renameAll (e : Engine) (renames : List (String × String)) : Engine :=
  e.editAll (renames.map fun x => .rename x.1 x.2)

theorem renameAll_concat (e : Engine) (renames : List (String × String)) (x : String × String) :
    e.renameAll (renames ++ [x]) = ((e.renameAll renames).renameSymbol x.1 x.2).1 := by
  simp [renameAll, editAll, edit]

variable {e : Engine}

/-- What a rename does to distinct symbols. -/
theorem Faultless.hasUniqueSymbols_iff (h : e.Faultless) (hunique : e.program.HasUniqueSymbols)
    (address name : String) :
    (e.renameSymbol address name).1.program.HasUniqueSymbols ↔
      ¬e.program.Collides address name := by
  obtain ⟨r, -, hpossible, hfailed, hmade⟩ := h.isAtomic_renameSymbol address name
  cases hsuccess : r.success with
  | true =>
    obtain ⟨p, hp, hrenamed⟩ := hmade hsuccess
    obtain ⟨a, -, -, hname⟩ := hpossible.1 hsuccess
    rw [hp]
    exact hrenamed.hasUniqueSymbols_iff hname hunique
  | false =>
    rw [hfailed hsuccess]
    refine iff_of_true hunique ?_
    rintro ⟨hname, a, x, haddress, hhead, -, -⟩
    have hbound : e.program.symbolsAt a ≠ [] := by
      intro hnil
      rw [hnil] at hhead
      cases hhead
    have hdone := hpossible.2 ⟨a, haddress, hbound, hname⟩
    rw [hsuccess] at hdone
    cases hdone

/-- After loading, the symbols stay distinct along a sequence of renames if and only if none of the
renames collides when it is made. -/
theorem hasUniqueSymbols_renameAll_iff {s : Snapshot} (h : ofSnapshot s = .ok e)
    (renames : List (String × String)) :
    (∀ before, before <+: renames → (e.renameAll before).program.HasUniqueSymbols) ↔
      ∀ before x, before ++ [x] <+: renames → ¬(e.renameAll before).program.Collides x.1 x.2 := by
  have hfaultless (before : List (String × String)) : (e.renameAll before).Faultless :=
    (faultless_ofSnapshot h).editAll _
  constructor
  · intro hunique before x hprefix
    have hbefore := hunique before ((List.prefix_append before [x]).trans hprefix)
    have hafter := hunique (before ++ [x]) hprefix
    rw [renameAll_concat] at hafter
    exact ((hfaultless before).hasUniqueSymbols_iff hbefore x.1 x.2).1 hafter
  · intro hfree before hprefix
    induction before using List.reverseRecOn with
    | nil =>
      obtain ⟨p, hload, rfl⟩ := ofSnapshot_cases h
      exact Program.hasUniqueSymbols_load hload
    | append_singleton before x ih =>
      have hbefore := ih ((List.prefix_append before [x]).trans hprefix)
      rw [renameAll_concat]
      exact ((hfaultless before).hasUniqueSymbols_iff hbefore x.1 x.2).2 (hfree before x hprefix)

/-- A snapshot with two labels at one address. -/
def twinSnapshot : Snapshot :=
  ⟨"a", "x", "0", .four, [], [], [], [], [⟨"first", "10", .label, .analysis, false⟩,
    ⟨"second", "10", .label, .analysis, false⟩], [], []⟩

/-- The engine of the snapshot. -/
def twinEngine : Engine :=
  ofProgram ⟨"a", "x", ⟨4⟩, ⟨0⟩, none, [], [], [⟨"first", ⟨16⟩, .label, .analysis, false⟩,
    ⟨"second", ⟨16⟩, .label, .analysis, false⟩], [], [], []⟩

theorem ofSnapshot_twinSnapshot : ofSnapshot twinSnapshot = .ok twinEngine :=
  ofSnapshot_of_load (by decide +kernel)

theorem hasUniqueSymbols_renameAll_twins :
    ofSnapshot twinSnapshot = .ok twinEngine ∧
      (twinEngine.renameAll [("0x10", "third")]).program.HasUniqueSymbols := by
  refine ⟨ofSnapshot_twinSnapshot, ?_⟩
  refine (hasUniqueSymbols_renameAll_iff ofSnapshot_twinSnapshot [("0x10", "third")]).2 ?_ _
    List.prefix_rfl
  intro before x hprefix
  obtain ⟨rfl, rfl⟩ : before = [] ∧ x = ("0x10", "third") := by
    have hlength := hprefix.length_le
    cases before with
    | nil => simpa using hprefix
    | cons y before => simp at hlength
  rintro ⟨-, a, y, -, -, -, hmem⟩
  revert hmem
  simp [renameAll, editAll, twinEngine, ofProgram, Program.symbols, Symbol.identity]

/-- The first of two labels can be given the name of the second. -/
theorem renameAll_twins_collide :
    ofSnapshot twinSnapshot = .ok twinEngine ∧ twinEngine.program.HasUniqueSymbols ∧
      (twinEngine.renameSymbol "0x10" "second").2.toOption = some ⟨true, "Renamed to second"⟩ ∧
      (twinEngine.renameAll [("0x10", "second")]).program.symbols.map Symbol.identity =
        [("second", ⟨16⟩), ("second", ⟨16⟩)] ∧
      ¬(twinEngine.renameAll [("0x10", "second")]).program.HasUniqueSymbols := by
  refine ⟨ofSnapshot_twinSnapshot, ?_, ?_, ?_, ?_⟩
  all_goals decide +kernel

end Engine

end BinaryReport
