import BinaryReport.Proofs.Json.Strings

/-!
# Reading pretty text

The pretty text of a value that is `Legible` is read back as the value (`readChars?_prettyChars`). Legible
values hold no numbers, and their objects list the members in the order in which they are read, as
objects with keys that are known do (`Legible.ofKeys`).

The induction is on legibility. `ReadsBack` is what it carries: the value is read off the beginning
of a longer text, at any level of indentation, with more steps than the value has characters.
-/

namespace BinaryReport.Json

/-- A value without numbers whose objects are as they are read: no key comes twice, and keys that
are array indices come first. -/
inductive Legible : Json → Prop where
  /-- The null value. -/
  | null : Legible .null
  /-- A truth value. -/
  | bool (b : Bool) : Legible (.bool b)
  /-- A string. -/
  | string (s : String) : Legible (.string s)
  /-- An array of legible items. -/
  | array {items : List Json} (h : ∀ v ∈ items, Legible v) : Legible (.array items)
  /-- An object of legible members. -/
  | object {members : List (String × Json)} (hkeys : ofMembers members = .object members)
    (h : ∀ m ∈ members, Legible m.2) : Legible (.object members)

/-! ## Separators -/

theorem skipSeparators_append {lead : List Char} (h : ∀ c ∈ lead, isSeparator c = true)
    (cs : List Char) : skipSeparators (lead ++ cs) = skipSeparators cs :=
  List.dropWhile_append_of_pos h

theorem skipSeparators_cons {c : Char} (h : isSeparator c = false) (cs : List Char) :
    skipSeparators (c :: cs) = c :: cs := by
  simp [skipSeparators, h]

theorem isSeparator_of_mem_lineBreak {level : Nat} {c : Char} (h : c ∈ lineBreak level) :
    isSeparator c = true := by
  rcases List.mem_cons.1 h with rfl | h
  · rfl
  · rw [List.eq_of_mem_replicate h]
    rfl

theorem skipSeparators_lineBreak (level : Nat) (cs : List Char) :
    skipSeparators (lineBreak level ++ cs) = skipSeparators cs :=
  skipSeparators_append (fun _ hc => isSeparator_of_mem_lineBreak hc) cs

theorem readValue_append {lead : List Char} (h : ∀ c ∈ lead, isSeparator c = true) (fuel : Nat)
    (cs : List Char) : readValue fuel (lead ++ cs) = readValue fuel cs := by
  cases fuel with
  | zero => rfl
  | succ fuel => rw [readValue, readValue, skipSeparators_append h]

/-! ## Values that are read back -/

/-- The pretty text of the value is read back, whatever follows it. -/
def ReadsBack (v : Json) : Prop :=
  ∀ (level fuel : Nat) (rest : List Char), (prettyChars level v).length < fuel →
    readValue fuel (prettyChars level v ++ rest) = some (v, rest)

/-- The characters that a pretty text begins with. -/
def openers : List Char := ['n', 'f', 't', '"', '[', '\x7b']

/-- The characters that a pretty text ends with. -/
def closers : List Char := ['l', 'e', '"', ']', '\x7d']

theorem Legible.exists_cons {v : Json} (h : Legible v) (level : Nat) :
    ∃ c ∈ openers, ∃ cs, prettyChars level v = c :: cs := by
  cases h with
  | null => exact ⟨'n', by decide, _, rfl⟩
  | bool b =>
    cases b with
    | false => exact ⟨'f', by decide, _, rfl⟩
    | true => exact ⟨'t', by decide, _, rfl⟩
  | string s => exact ⟨'"', by decide, _, rfl⟩
  | @array items _ =>
    cases items with
    | nil => exact ⟨'[', by decide, _, rfl⟩
    | cons item items => exact ⟨'[', by decide, _, rfl⟩
  | @object members _ _ =>
    cases members with
    | nil => exact ⟨'\x7b', by decide, _, rfl⟩
    | cons m members => exact ⟨'\x7b', by decide, _, rfl⟩

theorem exists_prettyItems_concat (level : Nat) (items : List Json) :
    ∃ cs, prettyItems level items = cs ++ [']'] := by
  induction items with
  | nil => exact ⟨lineBreak level, rfl⟩
  | cons item items ih =>
    obtain ⟨cs, hcs⟩ := ih
    exact ⟨_, by rw [prettyItems, hcs, ← List.append_assoc]⟩

theorem exists_prettyMembers_concat (level : Nat) (members : List (String × Json)) :
    ∃ cs, prettyMembers level members = cs ++ ['\x7d'] := by
  induction members with
  | nil => exact ⟨lineBreak level, rfl⟩
  | cons m members ih =>
    obtain ⟨cs, hcs⟩ := ih
    exact ⟨_, by rw [prettyMembers, hcs, ← List.append_assoc]⟩

theorem Legible.exists_concat {v : Json} (h : Legible v) (level : Nat) :
    ∃ c ∈ closers, ∃ cs, prettyChars level v = cs ++ [c] := by
  cases h with
  | null => exact ⟨'l', by decide, ['n', 'u', 'l'], rfl⟩
  | bool b =>
    cases b with
    | false => exact ⟨'e', by decide, ['f', 'a', 'l', 's'], rfl⟩
    | true => exact ⟨'e', by decide, ['t', 'r', 'u'], rfl⟩
  | string s => exact ⟨'"', by decide, _, rfl⟩
  | @array items _ =>
    cases items with
    | nil => exact ⟨']', by decide, ['['], rfl⟩
    | cons item items =>
      obtain ⟨cs, hcs⟩ := exists_prettyItems_concat level items
      exact ⟨']', by decide, _, by rw [prettyChars, hcs, ← List.append_assoc]⟩
  | @object members _ _ =>
    cases members with
    | nil => exact ⟨'\x7d', by decide, ['\x7b'], rfl⟩
    | cons m members =>
      obtain ⟨cs, hcs⟩ := exists_prettyMembers_concat level members
      exact ⟨'\x7d', by decide, _, by rw [prettyChars, hcs, ← List.append_assoc]⟩

theorem readsBack_null : ReadsBack .null := by
  intro level fuel rest hfuel
  cases fuel with
  | zero => omega
  | succ fuel => rfl

theorem readsBack_bool (b : Bool) : ReadsBack (.bool b) := by
  intro level fuel rest hfuel
  cases fuel with
  | zero => omega
  | succ fuel => cases b <;> rfl

theorem readString_quoted (s : String) (rest : List Char) :
    ∃ cs, quoted s ++ rest = '"' :: cs ∧ readString none [] cs = some (s, rest) := by
  refine ⟨s.toList.flatMap escaped ++ '"' :: rest, by simp [quoted], ?_⟩
  rw [readString_flatMap_escaped, List.reverse_nil, List.nil_append, String.ofList_toList]

theorem readsBack_string (s : String) : ReadsBack (.string s) := by
  intro level fuel rest hfuel
  cases fuel with
  | zero => omega
  | succ fuel =>
    obtain ⟨cs, hcs, hread⟩ := readString_quoted s rest
    have hpretty : prettyChars level (.string s) = quoted s := rfl
    rw [hpretty, hcs, readValue, skipSeparators_cons rfl]
    show (readString none [] cs).map _ = _
    rw [hread]
    rfl

/-! ## Arrays -/

/-- The items of an array are read back, with separators before them. -/
theorem readItems_pretty {level : Nat} {lead : List Char}
    (hlead : ∀ c ∈ lead, isSeparator c = true) (rest : List Char) {item : Json}
    {items : List Json} (h : ∀ v ∈ item :: items, ReadsBack v) {fuel : Nat}
    (hfuel : (prettyChars (level + 1) item).length + (prettyItems level items).length < fuel) :
    readItems fuel (lead ++ (prettyChars (level + 1) item ++ (prettyItems level items ++ rest))) =
      some (item :: items, rest) := by
  induction items generalizing item lead fuel with
  | nil =>
    cases fuel with
    | zero => omega
    | succ fuel =>
      have hitem := h item List.mem_cons_self (level + 1) fuel (prettyItems level [] ++ rest) (by
        simp only [prettyItems, List.length_append, List.length_cons] at hfuel
        omega)
      have hclose : skipSeparators (prettyItems level [] ++ rest) = ']' :: rest := by
        rw [prettyItems, List.append_assoc, skipSeparators_lineBreak]
        exact skipSeparators_cons rfl rest
      rw [readItems, readValue_append hlead, hitem]
      simp only [Option.bind_eq_bind, Option.bind_some, hclose]
  | cons next items ih =>
    cases fuel with
    | zero => omega
    | succ fuel =>
      simp only [prettyItems, List.length_append, List.length_cons] at hfuel
      have hitem := h item List.mem_cons_self (level + 1) fuel
        (prettyItems level (next :: items) ++ rest) (by omega)
      have hcomma : skipSeparators (prettyItems level (next :: items) ++ rest) =
          ',' :: (lineBreak (level + 1) ++
            (prettyChars (level + 1) next ++ (prettyItems level items ++ rest))) := by
        rw [prettyItems, List.cons_append, List.cons_append, List.cons_append,
          skipSeparators_cons rfl]
        simp only [List.append_assoc]
      have hlt : (prettyChars (level + 1) next).length + (prettyItems level items).length < fuel :=
        by omega
      have hrest := ih (fun c (hc : c ∈ lineBreak (level + 1)) => isSeparator_of_mem_lineBreak hc)
        (fun v hv => h v (List.mem_cons_of_mem item hv)) hlt
      rw [readItems, readValue_append hlead, hitem]
      simp only [Option.bind_eq_bind, Option.bind_some, hcomma, hrest]

theorem readValue_openBracket {cs ds : List Char} {c : Char} (fuel : Nat)
    (h : skipSeparators cs = c :: ds) (hc : c ≠ ']') :
    readValue (fuel + 1) ('[' :: cs) =
      (readItems fuel (c :: ds)).map fun (items, rest) => (.array items, rest) := by
  rw [readValue, skipSeparators_cons rfl]
  simp only [h]
  split
  · next heq => exact absurd (List.cons.inj heq).1 hc
  · rfl

theorem readsBack_array {items : List Json} (hlegible : ∀ v ∈ items, Legible v)
    (h : ∀ v ∈ items, ReadsBack v) : ReadsBack (.array items) := by
  intro level fuel rest hfuel
  cases fuel with
  | zero => omega
  | succ fuel =>
    cases items with
    | nil => rfl
    | cons item items =>
      have hpretty : prettyChars level (.array (item :: items)) = '[' :: (lineBreak (level + 1) ++
          (prettyChars (level + 1) item ++ prettyItems level items)) := by
        rw [prettyChars, List.cons_append, List.cons_append, List.append_assoc]
      obtain ⟨c, hopener, cs, hc⟩ := (hlegible item List.mem_cons_self).exists_cons (level + 1)
      have hsep : isSeparator c = false :=
        Text.eq_false_of_any (by decide : openers.any isSeparator = false) c hopener
      have hclose : c ≠ ']' := by
        rintro rfl
        exact absurd hopener (by decide)
      rw [hpretty] at hfuel ⊢
      simp only [List.length_cons, List.length_append] at hfuel
      have hlt : (prettyChars (level + 1) item).length + (prettyItems level items).length < fuel :=
        by omega
      have hnil : ∀ c ∈ ([] : List Char), isSeparator c = true := fun c hc => by cases hc
      have hitems := readItems_pretty hnil rest h hlt
      rw [List.nil_append, hc, List.cons_append] at hitems
      have hskip : skipSeparators (lineBreak (level + 1) ++
          (prettyChars (level + 1) item ++ prettyItems level items) ++ rest) =
            c :: (cs ++ (prettyItems level items ++ rest)) := by
        rw [List.append_assoc, skipSeparators_lineBreak, List.append_assoc, hc, List.cons_append, skipSeparators_cons hsep]
      rw [List.cons_append, readValue_openBracket fuel hskip hclose, hitems]
      rfl

/-! ## Objects -/

theorem readKey?_quoted (key : String) (rest : List Char) :
    readMembers.readKey? (quoted key ++ ':' :: rest) = some (key, rest) := by
  obtain ⟨cs, hcs, hread⟩ := readString_quoted key (':' :: rest)
  rw [hcs, readMembers.readKey?]
  simp only [hread]
  rw [skipSeparators_cons rfl]
  rfl

theorem skipSeparators_quoted (s : String) (rest : List Char) :
    skipSeparators (quoted s ++ rest) = quoted s ++ rest := by
  obtain ⟨cs, hcs, -⟩ := readString_quoted s rest
  rw [hcs, skipSeparators_cons rfl]

theorem isSeparator_of_mem_space {c : Char} (h : c ∈ [' ']) : isSeparator c = true := by
  rw [List.mem_singleton.1 h]
  rfl

/-- The members of an object are read back, with separators before them. -/
theorem readMembers_pretty {level : Nat} {lead : List Char}
    (hlead : ∀ c ∈ lead, isSeparator c = true) (rest : List Char) {m : String × Json}
    {members : List (String × Json)} (h : ∀ n ∈ m :: members, ReadsBack n.2) {fuel : Nat}
    (hfuel : (prettyChars (level + 1) m.2).length + (prettyMembers level members).length < fuel) :
    readMembers fuel (lead ++ (quoted m.1 ++ (':' :: ([' '] ++ (prettyChars (level + 1) m.2 ++
      (prettyMembers level members ++ rest)))))) = some (m :: members, rest) := by
  induction members generalizing m lead fuel with
  | nil =>
    cases fuel with
    | zero => omega
    | succ fuel =>
      have hvalue := h m List.mem_cons_self (level + 1) fuel (prettyMembers level [] ++ rest) (by
        simp only [prettyMembers, List.length_append, List.length_cons] at hfuel
        omega)
      have hclose : skipSeparators (prettyMembers level [] ++ rest) = '\x7d' :: rest := by
        rw [prettyMembers, List.append_assoc, skipSeparators_lineBreak]
        exact skipSeparators_cons rfl rest
      rw [readMembers, skipSeparators_append hlead, skipSeparators_quoted, readKey?_quoted]
      simp only [Option.bind_eq_bind, Option.bind_some]
      rw [readValue_append fun c hc => isSeparator_of_mem_space hc, hvalue]
      simp only [Option.bind_some, hclose]
  | cons next members ih =>
    cases fuel with
    | zero => omega
    | succ fuel =>
      simp only [prettyMembers, List.length_append, List.length_cons] at hfuel
      have hvalue := h m List.mem_cons_self (level + 1) fuel
        (prettyMembers level (next :: members) ++ rest) (by omega)
      have hcomma : skipSeparators (prettyMembers level (next :: members) ++ rest) =
          ',' :: (lineBreak (level + 1) ++ (quoted next.1 ++ (':' :: ([' '] ++
            (prettyChars (level + 1) next.2 ++ (prettyMembers level members ++ rest)))))) := by
        simp only [prettyMembers, List.cons_append, List.append_assoc, List.nil_append]
        exact skipSeparators_cons rfl _
      have hlt : (prettyChars (level + 1) next.2).length + (prettyMembers level members).length <
          fuel := by omega
      have hrest := ih (fun c (hc : c ∈ lineBreak (level + 1)) => isSeparator_of_mem_lineBreak hc)
        (fun n hn => h n (List.mem_cons_of_mem m hn)) hlt
      rw [readMembers, skipSeparators_append hlead, skipSeparators_quoted, readKey?_quoted]
      simp only [Option.bind_eq_bind, Option.bind_some]
      rw [readValue_append fun c hc => isSeparator_of_mem_space hc, hvalue]
      simp only [Option.bind_some, hcomma, hrest]

theorem readValue_openBrace {cs ds : List Char} (fuel : Nat) (h : skipSeparators cs = '"' :: ds) :
    readValue (fuel + 1) ('\x7b' :: cs) =
      (readMembers fuel ('"' :: ds)).map fun (members, rest) => (ofMembers members, rest) := by
  rw [readValue, skipSeparators_cons rfl]
  simp only [h]
  rfl

theorem readsBack_object {members : List (String × Json)}
    (hkeys : ofMembers members = .object members) (h : ∀ m ∈ members, ReadsBack m.2) :
    ReadsBack (.object members) := by
  intro level fuel rest hfuel
  cases fuel with
  | zero => omega
  | succ fuel =>
    cases members with
    | nil => rfl
    | cons m members =>
      have hpretty : prettyChars level (.object (m :: members)) = '\x7b' :: (lineBreak (level + 1) ++
          (quoted m.1 ++ (':' :: ([' '] ++ (prettyChars (level + 1) m.2 ++
            prettyMembers level members))))) := by
        simp only [prettyChars, List.cons_append, List.append_assoc, List.nil_append]
      rw [hpretty] at hfuel ⊢
      simp only [List.length_cons, List.length_append] at hfuel
      have hlt : (prettyChars (level + 1) m.2).length + (prettyMembers level members).length <
          fuel := by omega
      have hnil : ∀ c ∈ ([] : List Char), isSeparator c = true := fun c hc => by cases hc
      have hmembers := readMembers_pretty hnil rest h hlt
      obtain ⟨cs, hcs, -⟩ := readString_quoted m.1 (':' :: ([' '] ++
        (prettyChars (level + 1) m.2 ++ (prettyMembers level members ++ rest))))
      rw [List.nil_append, hcs] at hmembers
      have hskip : skipSeparators (lineBreak (level + 1) ++ (quoted m.1 ++ (':' :: ([' '] ++
          (prettyChars (level + 1) m.2 ++ prettyMembers level members)))) ++ rest) = '"' :: cs := by
        rw [List.append_assoc, skipSeparators_lineBreak,
          ← skipSeparators_cons rfl cs, ← hcs]
        simp only [List.append_assoc, List.cons_append, List.nil_append]
      rw [List.cons_append, readValue_openBrace fuel hskip, hmembers]
      show some (ofMembers (m :: members), rest) = _
      rw [hkeys]

/-! ## Legible values -/

theorem Legible.readsBack {v : Json} (h : Legible v) : ReadsBack v := by
  induction h with
  | null => exact readsBack_null
  | bool b => exact readsBack_bool b
  | string s => exact readsBack_string s
  | array hlegible ih => exact readsBack_array hlegible ih
  | object hkeys _ ih => exact readsBack_object hkeys ih

/-- A legible value is read back from its pretty text. -/
theorem readChars?_prettyChars {v : Json} (h : Legible v) : readChars? (prettyChars 0 v) = some v := by
  have hread := h.readsBack 0 ((prettyChars 0 v).length + 1) [] (Nat.lt_succ_self _)
  rw [List.append_nil] at hread
  rw [readChars?, hread]
  rfl

/-! ## Objects with fixed keys -/

theorem assign_of_notMem {key : String} {value : Json} {members : List (String × Json)}
    (h : key ∉ members.map Prod.fst) : assign key value members = members ++ [(key, value)] := by
  induction members with
  | nil => rfl
  | cons m members ih =>
    rw [List.map_cons, List.mem_cons, not_or] at h
    have hne : (m.1 == key) = false := beq_false_of_ne (Ne.symm h.1)
    rw [assign, hne, ih h.2]
    rfl

/-- Keys that come once each and spell no array index. -/
def PlainKeys (keys : List String) : Prop :=
  keys.Nodup ∧ ∀ key ∈ keys, (arrayIndex? key).isNone = true

instance (keys : List String) : Decidable (PlainKeys keys) :=
  inferInstanceAs (Decidable (keys.Nodup ∧ ∀ key ∈ keys, (arrayIndex? key).isNone = true))

theorem foldl_assign (done : List (String × Json)) {members : List (String × Json)}
    (h : ((done ++ members).map Prod.fst).Nodup) :
    members.foldl (fun done m => assign m.1 m.2 done) done = done ++ members := by
  induction members generalizing done with
  | nil => rw [List.foldl_nil, List.append_nil]
  | cons m members ih =>
    have hm : m.1 ∉ done.map Prod.fst := by
      intro hin
      rw [List.map_append, List.nodup_append] at h
      exact h.2.2 _ hin _ List.mem_cons_self rfl
    rw [List.foldl_cons, assign_of_notMem hm, ih, List.append_assoc, List.singleton_append]
    rw [List.append_assoc, List.singleton_append]
    exact h

theorem indicesFirst_eq_self {members : List (String × Json)}
    (h : ∀ key ∈ members.map Prod.fst, (arrayIndex? key).isNone = true) :
    indicesFirst members = members := by
  have hplain : ∀ m ∈ members, (arrayIndex? m.1).isNone = true := fun m hm =>
    h m.1 (List.mem_map_of_mem hm)
  have hnone : members.filterMap (fun m => (arrayIndex? m.1).map fun i => (i, m)) = [] := by
    rw [List.filterMap_eq_nil_iff]
    intro m hm
    rw [Option.isNone_iff_eq_none.1 (hplain m hm)]
    rfl
  rw [indicesFirst, hnone, List.filter_eq_self.2 hplain, List.mergeSort_nil]
  rfl

/-- An object with plain keys and legible values is legible. -/
theorem Legible.ofKeys {keys : List String} (hkeys : PlainKeys keys)
    {members : List (String × Json)} (hmembers : members.map Prod.fst = keys)
    (h : ∀ m ∈ members, Legible m.2) : Legible (.object members) := by
  subst hmembers
  refine .object ?_ h
  have hfold := foldl_assign [] hkeys.1
  rw [ofMembers, hfold, List.nil_append, indicesFirst_eq_self hkeys.2]

end BinaryReport.Json
