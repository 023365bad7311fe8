import BinaryReport.Proofs.Engine.Frame
import BinaryReport.Proofs.Program.Loaded
import BinaryReport.Proofs.Tool.Agreement

/-!
# What a rename changes in a report

The symbols of functions stand first in the table, and none of them is external. So if a function is
entered at an address, the first symbol that is bound there is its own, and else it is no function's
(`Program.RenamedAt.functions_cases`). A function takes its name from its symbol and nothing else does:
bodies and stored code stay, so the function around the entry stays the same one, and the decompiler
answers as before (`Engine.decompile_renamedAt`).

Hence the reports before and after a rename differ in the first record of a symbol at the address, and in
the records of a function that is entered there (`Report.build_renameSymbol`).
-/

namespace BinaryReport

open Outcome

namespace Program

variable {p p' : Program} {s : Snapshot} {address name : String} {a : Address}

/-! ## The function that is renamed -/

/-- The first symbol at an address is that of the function that is entered there, or none is. -/
theorem first_symbol_cases {functions : List Function} {labels before after : List Symbol} {x : Symbol}
    (heq : functions.map (·.symbol) ++ labels = before ++ x :: after)
    (hinside : ∀ f ∈ functions, f.symbol.isExternal = false)
    (hnodup : (functions.map (·.entry)).Nodup) (hat : x.address = a)
    (hbefore : ∀ y ∈ before, y.isExternal = true ∨ y.address ≠ a) :
    (∃ front f back, functions = front ++ f :: back ∧ front.length = before.length ∧ f.entry = a ∧
        ∀ g ∈ front ++ back, g.entry ≠ a) ∨
      (functions.length ≤ before.length ∧ ∀ f ∈ functions, f.entry ≠ a) := by
  have hskipped : ∀ f ∈ functions, f.symbol ∈ before → f.entry ≠ a := by
    intro f hf hmem
    rcases hbefore f.symbol hmem with hexternal | hne
    · rw [hinside f hf] at hexternal
      cases hexternal
    · exact hne
  have hlabel (rest : List Symbol) (hrest : before = functions.map (·.symbol) ++ rest) :
      functions.length ≤ before.length ∧ ∀ f ∈ functions, f.entry ≠ a := by
    subst hrest
    refine ⟨?_, fun f hf => hskipped f hf (List.mem_append_left _ (List.mem_map_of_mem hf))⟩
    rw [List.length_append, List.length_map]
    exact Nat.le_add_right _ _
  rcases List.append_eq_append_iff.1 heq with ⟨rest, hrest, -⟩ | ⟨rest, hrest, htable⟩
  · exact Or.inr (hlabel rest hrest)
  · cases rest with
    | nil =>
      rw [List.append_nil] at hrest
      exact Or.inr (hlabel [] (by rw [hrest, List.append_nil]))
    | cons y rest =>
      obtain ⟨rfl, -⟩ := List.cons.inj htable
      obtain ⟨front, others, rfl, hfront, hothers⟩ := List.map_eq_append_iff.1 hrest
      obtain ⟨f, back, rfl, rfl, -⟩ := List.map_eq_cons_iff.1 hothers
      refine Or.inl ⟨front, f, back, rfl, by rw [← hfront, List.length_map], hat, fun g hg hga => ?_⟩
      rw [List.map_append, List.map_cons, List.nodup_middle, ← List.map_append] at hnodup
      refine (List.nodup_cons.1 hnodup).1 ?_
      rw [show f.entry = g.entry from hat.trans hga.symm]
      exact List.mem_map_of_mem hg

/-- A function is entered at an address if the snapshot lists one there. -/
theorem HasFunctionsOf.exists_entry_iff (h : p.HasFunctionsOf s) :
    (∃ f ∈ p.functions, f.entry = a) ↔ ∃ y ∈ s.functions, s.space.parse y.entry = .ok a := by
  obtain ⟨order, hperm, hloaded⟩ := h.loaded
  constructor
  · rintro ⟨f, hf, rfl⟩
    obtain ⟨y, hy, hfrom⟩ := Matching.exists_of_mem_right hloaded hf
    exact ⟨y, hperm.mem_iff.1 hy, hfrom.entry⟩
  · rintro ⟨y, hy, hya⟩
    obtain ⟨f, hf, hfrom⟩ := Matching.exists_of_mem_left hloaded (hperm.mem_iff.2 hy)
    exact ⟨f, hf, Except.ok.inj (hfrom.entry.symm.trans hya)⟩

/-- A function is declared by the entry of the snapshot that has its address. -/
theorem HasFunctionsOf.loadedFrom (h : p.HasFunctionsOf s) {y : FunctionEntry} (hy : y ∈ s.functions)
    {f : Function} (hf : f ∈ p.functions) (hentry : s.space.parse y.entry = .ok f.entry) :
    LoadedFrom s.space y f := by
  obtain ⟨order, hperm, hloaded⟩ := h.loaded
  obtain ⟨g, hg, hfrom⟩ := Matching.exists_of_mem_left hloaded (hperm.mem_iff.2 hy)
  have heq : g.entry = f.entry := Except.ok.inj (hfrom.entry.symm.trans hentry)
  obtain rfl := List.inj_on_of_nodup_map h.nodup_entries hg hf heq
  exact hfrom

/-- A rename gives a function another name if one is entered at the address, and only that one. -/
theorem RenamedAt.functions_cases (h : p.RenamedAt address name p') (hfunctions : p.HasFunctionsOf s)
    (haddress : p.parseAddress address = .ok a) :
    (∃ front f back, p.functions = front ++ f :: back ∧ f.entry = a ∧
        (∀ g ∈ front ++ back, g.entry ≠ a) ∧
        p'.functions = front ++ renameFunction name .userDefined f :: back) ∨
      ((∀ f ∈ p.functions, f.entry ≠ a) ∧ p'.functions = p.functions) := by
  obtain ⟨b, before, x, after, hb, heq, -, hat, hbefore, heq', hp'⟩ := h
  obtain rfl := Except.ok.inj (haddress.symm.trans hb)
  have hindex : p' = p.renameIndex before.length name .userDefined := by
    rw [renameIndex_eq, heq, modify_append_cons, hp', heq']
    rfl
  rw [hindex, renameIndex]
  have hinside : ∀ f ∈ p.functions, f.symbol.isExternal = false := fun f hf =>
    (hfunctions.symbol f hf).2
  rcases first_symbol_cases heq hinside hfunctions.nodup_entries hat hbefore with
    ⟨front, f, back, hsplit, hlength, hf, hothers⟩ | ⟨hlength, hothers⟩
  · have hlt : before.length < p.functions.length := by
      rw [hsplit, ← hlength, List.length_append, List.length_cons]
      omega
    refine Or.inl ⟨front, f, back, hsplit, hf, hothers, ?_⟩
    rw [if_pos hlt, hsplit, ← hlength]
    exact modify_append_cons front f back _
  · rw [if_neg (Nat.not_lt.2 hlength)]
    exact Or.inr ⟨hothers, rfl⟩

/-- A rename leaves everything but the functions and the labels alone. -/
theorem RenamedAt.exists_eq (h : p.RenamedAt address name p') :
    ∃ functions labels, p' = { p with functions := functions, labels := labels } := by
  obtain ⟨a, before, x, after, -, -, -, -, -, -, hp'⟩ := h
  exact ⟨_, _, hp'⟩

end Program

/-! ## Records -/

/-- The decompiled function with another name and declaration, if it is that of an entry. -/
def DecompiledFunction.renamedAt (entryPoint name signature : String) (d : DecompiledFunction) :
    DecompiledFunction :=
  if d.entryPoint = entryPoint then { d with name := name, signature := signature } else d

/-- The function with another name, if it is entered at an address. -/
def Function.renamedAt (a : Address) (name : String) (f : Function) : Function :=
  if f.entry = a then Program.renameFunction name .userDefined f else f

namespace Function

variable {a : Address} {name signature : String} {f : Function}

theorem body_renamedAt (a : Address) (name : String) (f : Function) :
    (f.renamedAt a name).body = f.body := by
  unfold renamedAt
  split <;> rfl

theorem functionOf?_renamedAt (h : f.entry = a → (f.renamedAt a name).signature = signature)
    (d : Decompilation) : d.functionOf? (f.renamedAt a name) =
      (d.functionOf? f).map (DecompiledFunction.renamedAt a.canonical name signature) := by
  have hfunction (code : String) : DecompiledFunction.ofFunction (f.renamedAt a name) code =
      (DecompiledFunction.ofFunction f code).renamedAt a.canonical name signature := by
    unfold DecompiledFunction.renamedAt
    by_cases hat : f.entry = a
    · have hrecord : (DecompiledFunction.ofFunction f code).entryPoint = a.canonical :=
        congrArg Address.canonical hat
      have hsignature := h hat
      unfold renamedAt at hsignature ⊢
      rw [if_pos hat] at hsignature ⊢
      rw [if_pos hrecord, ← hsignature]
      rfl
    · have hrecord : (DecompiledFunction.ofFunction f code).entryPoint ≠ a.canonical :=
        mt Address.canonical_inj.1 hat
      rw [renamedAt, if_neg hat, if_neg hrecord]
  unfold Decompilation.functionOf?
  split
  · split
    · rfl
    · rw [hfunction]
      rfl
  · rfl

/-- Functions that are entered elsewhere keep their names. -/
theorem map_renamedAt_of_ne {functions : List Function} (h : ∀ f ∈ functions, f.entry ≠ a) :
    functions.map (renamedAt a name) = functions :=
  (List.map_congr_left fun f hf => if_neg (h f hf)).trans (List.map_id functions)

/-- The function that is entered at the address is declared under the new name. -/
theorem signature_renamedAt {space : AddressSpace} {y : FunctionEntry}
    (h : Program.LoadedFrom space y f) (hat : f.entry = a) :
    (f.renamedAt a name).signature = y.declaration name := by
  unfold renamedAt
  rw [if_pos hat]
  unfold signature parameterText FunctionEntry.declaration
  rw [← h.returnType, ← h.parameters]
  rfl

end Function

/-- The functions after a rename. -/
theorem Program.RenamedAt.functions_eq {s : Snapshot} {p p' : Program} {address name : String}
    {a : Address} (h : p.RenamedAt address name p') (hfunctions : p.HasFunctionsOf s)
    (haddress : p.parseAddress address = .ok a) :
    p'.functions = p.functions.map (Function.renamedAt a name) := by
  rcases h.functions_cases hfunctions haddress with
    ⟨front, f, back, heq, hat, hothers, heq'⟩ | ⟨hothers, heq'⟩
  · have hfront : front.map (Function.renamedAt a name) = front :=
      Function.map_renamedAt_of_ne fun g hg => hothers g (List.mem_append_left back hg)
    have hback : back.map (Function.renamedAt a name) = back :=
      Function.map_renamedAt_of_ne fun g hg => hothers g (List.mem_append_right front hg)
    rw [heq, heq', List.map_append, List.map_cons, hfront, hback, Function.renamedAt, if_pos hat]
  · rw [heq', Function.map_renamedAt_of_ne hothers]

namespace Engine

variable {e : Engine} {p' : Program}

theorem disassemble_renamed (functions : List Function) (labels : List Symbol) (start : Address)
    (bound : Binary64) :
    disassemble { e with program := { e.program with functions := functions, labels := labels } }
      start bound = e.disassemble start bound := by
  have hstep (a : Address) :
      walkStep { e with program := { e.program with functions := functions, labels := labels } } a =
        e.walkStep a := rfl
  exact walkFrom_congr hstep _ _ _ _

/-- The decompiler answers for a function as before, and the answer is shown under its new name. -/
theorem decompile_renamedAt (h : e.Faultless) {f : Function} {a : Address} {name signature : String}
    (hsignature : f.entry = a → (f.renamedAt a name).signature = signature) (limit : Binary64) :
    e.decompile (f.renamedAt a name) limit = (e.decompile f limit).map
      (Option.map (DecompiledFunction.renamedAt a.canonical name signature)) := by
  have hserve : Decompiler.serve (f.renamedAt a name) limit = Decompiler.serve f limit := by
    unfold Function.renamedAt
    split <;> rfl
  have hsame : Call.supervise e.decompiler (f.renamedAt a name) limit =
      Call.supervise e.decompiler f limit := by
    rw [h.decompiler_eq]
    unfold Call.supervise Decompiler.stored
    rw [hserve]
  rw [decompile_eq, decompile_eq, hsame]
  cases Call.supervise e.decompiler f limit with
  | error r => rfl
  | ok call =>
    show Except.ok (call.run.functionOf? (f.renamedAt a name)) =
      .ok ((call.run.functionOf? f).map (DecompiledFunction.renamedAt a.canonical name signature))
    unfold Call.functionOf?
    cases call.run.result? with
    | none => rfl
    | some d => exact congrArg Except.ok (Function.functionOf?_renamedAt hsignature d)

end Engine

namespace Report

/-! ## Reports -/

/-- The reports before and after what is at an address was given a name. -/
structure RenamedAt (s : Snapshot) (a : Address) (name : String) (r r' : AnalysisReport) : Prop where
  /-- The first symbol at the address has the name, and the user gave it. -/
  symbols : ∃ before x after, r.symbols = before ++ x :: after ∧ x.address = a.canonical ∧
    (∀ y ∈ before, y.address ≠ a.canonical) ∧
    r'.symbols = before ++ { x with name := name, source := "USER_DEFINED" } :: after
  /-- The function that is entered at the address, if there is one, has the name and is declared
  under it. -/
  entered : ∀ y ∈ s.functions, s.space.parse y.entry = .ok a →
    (∃ before f after, r.functions = before ++ f :: after ∧ f.entryPoint = a.canonical ∧
      (∀ g ∈ before ++ after, g.entryPoint ≠ a.canonical) ∧
      r'.functions = before ++ { f with name := name, signature := y.declaration name } :: after) ∧
    r'.entryFunction? = r.entryFunction?.map
      (DecompiledFunction.renamedAt a.canonical name (y.declaration name))
  /-- If none is entered there, every function is as it was. -/
  elsewhere : (∀ y ∈ s.functions, s.space.parse y.entry ≠ .ok a) →
    r'.functions = r.functions ∧ r'.entryFunction? = r.entryFunction?
  /-- Nothing else is different. -/
  frame : r' = { r with
    symbols := r'.symbols, functions := r'.functions, entryFunction? := r'.entryFunction? }

variable {s : Snapshot} {e : Engine} {p' : Program} {address name : String} {a : Address}
  {limits : Limits} {r r' : AnalysisReport}

theorem symbols_renamed {table table' : List Symbol} {before after : List Symbol} {x : Symbol}
    (heq : table = before ++ x :: after) (hinside : x.isExternal = false) (hat : x.address = a)
    (hbefore : ∀ y ∈ before, y.isExternal = true ∨ y.address ≠ a)
    (heq' : table' = before ++ ⟨name, x.address, x.kind, .userDefined, x.isExternal⟩ :: after) :
    ∃ front shown back,
      (table.filter (!·.isExternal)).map SymbolRecord.ofSymbol = front ++ shown :: back ∧
      shown.address = a.canonical ∧ (∀ y ∈ front, y.address ≠ a.canonical) ∧
      (table'.filter (!·.isExternal)).map SymbolRecord.ofSymbol =
        front ++ { shown with name := name, source := "USER_DEFINED" } :: back := by
  subst heq heq'
  refine ⟨(before.filter (!·.isExternal)).map .ofSymbol, .ofSymbol x,
    (after.filter (!·.isExternal)).map .ofSymbol, ?_, congrArg Address.canonical hat, ?_, ?_⟩
  · rw [List.filter_append, List.filter_cons, hinside, List.map_append]
    rfl
  · intro y hy hya
    obtain ⟨z, hz, rfl⟩ := List.mem_map.1 hy
    obtain ⟨hmem, hshown⟩ := List.mem_filter.1 hz
    rcases hbefore z hmem with hexternal | hne
    · rw [hexternal] at hshown
      cases hshown
    · exact hne (Address.canonical_inj.1 hya)
  · rw [List.filter_append, List.filter_cons, hinside, List.map_append]
    rfl

theorem functions_renamed {functions front back : List Function} {f : Function} {signature : String}
    (heq : functions = front ++ f :: back) (hat : f.entry = a)
    (hothers : ∀ g ∈ front ++ back, g.entry ≠ a)
    (hsignature : (Program.renameFunction name .userDefined f).signature = signature) :
    ∃ before record after,
      functions.map FunctionRecord.ofFunction = before ++ record :: after ∧
      record.entryPoint = a.canonical ∧ (∀ g ∈ before ++ after, g.entryPoint ≠ a.canonical) ∧
      (front ++ Program.renameFunction name .userDefined f :: back).map FunctionRecord.ofFunction =
        before ++ { record with name := name, signature := signature } :: after := by
  subst heq hsignature
  refine ⟨front.map .ofFunction, .ofFunction f, back.map .ofFunction, ?_,
    congrArg Address.canonical hat, ?_, ?_⟩
  · rw [List.map_append, List.map_cons]
  · intro record hrecord hra
    rw [← List.map_append] at hrecord
    obtain ⟨g, hg, rfl⟩ := List.mem_map.1 hrecord
    exact hothers g hg (Address.canonical_inj.1 hra)
  · rw [List.map_append, List.map_cons]
    rfl

/-- The function around the entry is shown as before, under its new name. -/
theorem entryFunction?_renamed (h : e.Faultless) (hrenamed : e.program.RenamedAt address name p')
    (hfunctions : p'.functions = e.program.functions.map (Function.renamedAt a name))
    {signature : String}
    (hsignature : ∀ f ∈ e.program.functions, f.entry = a → (f.renamedAt a name).signature = signature)
    (hr : Filled { e with isOpen := true } true limits r)
    (hr' : Filled { e with program := p', isOpen := true } true limits r') :
    r'.entryFunction? = r.entryFunction?.map
      (DecompiledFunction.renamedAt a.canonical name signature) := by
  have hopen : Engine.Faultless { e with isOpen := true } := h
  have h' : Engine.Faultless { e with program := p' } := h
  obtain ⟨-, hdecompile, -⟩ := hr.entry_eq h
  obtain ⟨-, hdecompile', -⟩ := hr'.entry_eq h'
  have hentry : p'.entryFrom p'.entryPoints = e.program.entryFrom e.program.entryPoints := by
    obtain ⟨functions, labels, rfl⟩ := hrenamed.exists_eq
    rfl
  -- The function around an address is the same one, since no body changes.
  have hcontaining (b : Address) : p'.functionContaining? b =
      (e.program.functionContaining? b).map (Function.renamedAt a name) := by
    have hbody : ((fun f : Function => f.body.contains b) ∘ Function.renamedAt a name) =
        fun f : Function => f.body.contains b := by
      funext f
      rw [Function.comp_apply, Function.body_renamedAt]
    rw [Program.functionContaining?, hfunctions, List.find?_map, hbody]
    rfl
  dsimp only at hdecompile'
  rw [hentry, hcontaining] at hdecompile'
  cases hfound : e.program.functionContaining? (e.program.entryFrom e.program.entryPoints) with
  | none =>
    rw [hfound] at hdecompile hdecompile'
    rw [← Except.ok.inj hdecompile]
    exact (Except.ok.inj hdecompile').symm
  | some f =>
    rw [hfound] at hdecompile hdecompile'
    have hf := hsignature f (List.mem_of_find?_eq_some hfound)
    have hshown := Engine.decompile_renamedAt hopen hf limits.timeoutSeconds
    have hbefore : Engine.decompile { e with isOpen := true } f limits.timeoutSeconds =
        .ok r.entryFunction? := hdecompile
    rw [hbefore] at hshown
    exact Except.ok.inj (hdecompile'.symm.trans hshown)

/-- A function that is entered elsewhere is shown under its old name. -/
theorem map_renamedAt_of_filled (h : e.Faultless) (hr : Filled e true limits r) {signature : String}
    (hothers : ∀ f ∈ e.program.functions, f.entry ≠ a) :
    r.entryFunction?.map (DecompiledFunction.renamedAt a.canonical name signature) =
      r.entryFunction? := by
  cases hd : r.entryFunction? with
  | none => rfl
  | some d =>
    obtain ⟨f, code, hf, rfl⟩ := mem_functions_of_filled h hr hd
    have hne : (DecompiledFunction.ofFunction f code).entryPoint ≠ a.canonical :=
      mt Address.canonical_inj.1 (hothers f hf)
    exact congrArg some (if_neg hne)

theorem frame_renamed (h : e.Faultless) (hrenamed : e.program.RenamedAt address name p')
    (hr : Filled { e with isOpen := true } true limits r)
    (hr' : Filled { e with program := p', isOpen := true } true limits r') :
    r' = { r with
      symbols := r'.symbols, functions := r'.functions, entryFunction? := r'.entryFunction? } := by
  have h' : Engine.Faultless { e with program := p' } := h
  obtain ⟨hentry, -, hdisassembly⟩ := hr.entry_eq h
  obtain ⟨hentry', -, hdisassembly'⟩ := hr'.entry_eq h'
  have hname := hr.name
  have hname' := hr'.name
  have himageBase := hr.imageBase
  have himageBase' := hr'.imageBase
  have hlanguage := hr.language
  have hlanguage' := hr'.language
  obtain ⟨functions, labels, rfl⟩ := hrenamed.exists_eq
  dsimp only at hdisassembly'
  rw [Engine.disassemble_renamed] at hdisassembly'
  have hlines : r'.disassembly = r.disassembly :=
    Except.ok.inj (hdisassembly'.symm.trans hdisassembly)
  have hsame : r'.programName = r.programName := Except.ok.inj (hname'.symm.trans hname)
  obtain ⟨programName, entryPoint, _, _, _, disassembly, imageBase, language⟩ := r'
  obtain rfl := hlines
  obtain rfl := hsame
  obtain rfl := hentry'.trans hentry.symm
  obtain rfl := himageBase'.trans himageBase.symm
  obtain rfl := hlanguage'.trans hlanguage.symm
  rfl

/-- The reports before and after a rename differ in the symbol and in the function of the address. -/
theorem renamedAt_of_filled (h : e.Faultless) (hfunctions : e.program.HasFunctionsOf s)
    (hrenamed : e.program.RenamedAt address name p') (haddress : e.program.parseAddress address = .ok a)
    (hr : Filled { e with isOpen := true } true limits r)
    (hr' : Filled { e with program := p', isOpen := true } true limits r') :
    RenamedAt s a name r r' := by
  have hopen : Engine.Faultless { e with isOpen := true } := h
  have hopen' : Engine.Faultless { e with program := p', isOpen := true } := h
  have hmapped := hrenamed.functions_eq hfunctions haddress
  have hrecords := hr.functions_eq hopen
  have hrecords' := hr'.functions_eq hopen'
  constructor
  case symbols =>
    obtain ⟨b, before, x, after, hb, heq, hinside, hat, hbefore, heq', -⟩ := hrenamed
    obtain rfl := Except.ok.inj (haddress.symm.trans hb)
    rw [hr.symbols_eq hopen, hr'.symbols_eq hopen']
    exact symbols_renamed heq hinside hat hbefore heq'
  case entered =>
    intro y hy hya
    have hsignature : ∀ f ∈ e.program.functions, f.entry = a →
        (f.renamedAt a name).signature = y.declaration name := by
      intro f hf hfa
      have hentry : s.space.parse y.entry = .ok f.entry := by rw [hfa, hya]
      exact Function.signature_renamedAt (hfunctions.loadedFrom hy hf hentry) hfa
    refine ⟨?_, entryFunction?_renamed h hrenamed hmapped hsignature hr hr'⟩
    rcases hrenamed.functions_cases hfunctions haddress with
      ⟨front, f, back, heq, hat, hothers, heq'⟩ | ⟨hnone, -⟩
    · have hf := hsignature f (heq ▸ List.mem_append_cons_self) hat
      rw [Function.renamedAt, if_pos hat] at hf
      dsimp only at hrecords'
      rw [hrecords, hrecords', heq']
      exact functions_renamed heq hat hothers hf
    · obtain ⟨f, hf, hfa⟩ := hfunctions.exists_entry_iff.2 ⟨y, hy, hya⟩
      exact absurd hfa (hnone f hf)
  case elsewhere =>
    intro hnone
    have hothers : ∀ f ∈ e.program.functions, f.entry ≠ a := by
      intro f hf hfa
      obtain ⟨y, hy, hya⟩ := hfunctions.exists_entry_iff.1 ⟨f, hf, hfa⟩
      exact hnone y hy hya
    have hsame : e.program.functions.map (Function.renamedAt a name) = e.program.functions :=
      Function.map_renamedAt_of_ne hothers
    have hvacuous : ∀ f ∈ e.program.functions, f.entry = a →
        (f.renamedAt a name).signature = "" := fun f hf hfa => absurd hfa (hothers f hf)
    dsimp only at hrecords'
    rw [hrecords, hrecords', hmapped, hsame,
      entryFunction?_renamed h hrenamed hmapped hvacuous hr hr']
    exact ⟨rfl, map_renamedAt_of_filled hopen hr hothers⟩
  case frame => exact frame_renamed h hrenamed hr hr'

/-- A rename that is made changes the report in the first record of a symbol at the address, and in the
records of the function that is entered there, and nowhere else. -/
theorem build_renameSymbol (h : Engine.Reached s e) (haddress : e.program.parseAddress address = .ok a)
    {e' : Engine} {message : String} (hrename : e.renameSymbol address name = (e', .ok ⟨true, message⟩))
    (limits : Limits) :
    ∃ r r', (build e limits).2.outcome = .ok (.whole r) ∧
      (build e' limits).2.outcome = .ok (.whole r') ∧ RenamedAt s a name r r' := by
  obtain ⟨answer, hanswer, -, -, hmade⟩ := h.faultless.isAtomic_renameSymbol address name
  rw [hrename] at hanswer hmade
  obtain rfl := Except.ok.inj hanswer
  obtain ⟨p', he', hrenamed⟩ := hmade rfl
  obtain rfl : e' = { e with program := p' } := he'
  have h' : Engine.Faultless { e with program := p' } := h.faultless
  obtain ⟨r, hr, hfilled⟩ := exists_filled h.faultless limits
  obtain ⟨r', hr', hfilled'⟩ := exists_filled h' limits
  exact ⟨r, r', hr, hr',
    renamedAt_of_filled h.faultless h.hasFunctionsOf hrenamed haddress hfilled hfilled'⟩

theorem build_renameSymbol_labelled :
    Engine.Reached labelledSnapshot (.ofProgram labelledProgram) ∧
      labelledProgram.parseAddress "ram:0X08" = .ok ⟨8⟩ ∧
      ∃ e' r r', (Engine.ofProgram labelledProgram).renameSymbol "ram:0X08" "entry" =
          (e', .ok ⟨true, "Renamed to entry"⟩) ∧
        (build (.ofProgram labelledProgram) .standard).2.outcome = .ok (.whole r) ∧
        (build e' .standard).2.outcome = .ok (.whole r') ∧
        r'.entryFunction? = r.entryFunction?.map
          (DecompiledFunction.renamedAt "0x8" "entry" "int entry(int argc)") := by
  have hreached : Engine.Reached labelledSnapshot (.ofProgram labelledProgram) :=
    ⟨.ofProgram labelledProgram, [], false, Engine.ofSnapshot_of_load load_labelledSnapshot, rfl⟩
  have haddress : labelledProgram.parseAddress "ram:0X08" = .ok ⟨8⟩ := by decide +kernel
  have hanswer : ((Engine.ofProgram labelledProgram).renameSymbol "ram:0X08" "entry").2 =
      .ok ⟨true, "Renamed to entry"⟩ := by rfl
  have hrename : (Engine.ofProgram labelledProgram).renameSymbol "ram:0X08" "entry" = (_, _) :=
    Prod.ext rfl hanswer
  obtain ⟨r, r', hr, hr', hrenamed⟩ := build_renameSymbol hreached haddress hrename .standard
  have hentered := hrenamed.entered _ List.mem_cons_self (by decide +kernel)
  exact ⟨hreached, haddress, _, r, r', hrename, hr, hr', hentered.2⟩

end Report

end BinaryReport
