import BinaryReport.Proofs.Json.Scan
import BinaryReport.Proofs.Report.Records
import BinaryReport.Proofs.Text.Words
import BinaryReport.Report.Envelope

/-!
# Reading envelopes

An envelope is read back, whatever output surrounds it, exactly if the end marker is in no text of
the report (`readReport_format`). If it is in one, the reader cuts the document off inside a string,
and what is left is not valid JSON: a report is never taken for another one.

`document_format_of_mentions` and `document_format` are about any legible document; the markers are
words of capital letters and underscores, so escaping and layout neither make nor hide them.
-/

namespace BinaryReport

open Json

theorem isBare_of_isBlank {c : Char} (h : Text.isBlank c = true) : isBare c = true := by
  have hquote : c ≠ '"' := by
    rintro rfl
    exact absurd h (by decide)
  have hline : c ≠ '_' := by
    rintro rfl
    exact absurd h (by decide)
  simp [isBare, hquote, hline]

namespace Envelope

/-! ## The markers -/

theorem isCapitalWord_startMarker : IsCapitalWord startMarker.toList :=
  ⟨by decide, List.all_eq_true.1 (by decide)⟩

theorem isCapitalWord_endMarker : IsCapitalWord endMarker.toList :=
  ⟨by decide, List.all_eq_true.1 (by decide)⟩

theorem outgrowsKeys_endMarker : OutgrowsKeys endMarker := by
  unfold OutgrowsKeys
  decide

theorem endMarker_eq_cons : ∃ cs, endMarker.toList = '_' :: cs := ⟨_, rfl⟩

/-! ## Documents -/

variable {v : Json} {before : String}

/-- The pretty text of a value on lines of its own. -/
def block (v : Json) : List Char := '\n' :: (prettyChars 0 v ++ ['\n'])

/-- The start marker is found behind output that ends with a line. -/
theorem splitFirst?_startMarker (hbefore : before = "" ∨ ∃ lines, before = lines ++ "\n")
    (hstart : ¬ startMarker.toList <:+: before.toList) (after : String) :
    Text.splitFirst? startMarker.toList (before ++ format v ++ after).toList =
      some (before.toList, block v ++ (endMarker.toList ++ '\n' :: after.toList)) := by
  have hlast : ∀ c ∈ before.toList.getLast?, c ∉ startMarker.toList := by
    rcases hbefore with rfl | ⟨lines, rfl⟩
    · intro c hc
      cases hc
    · intro c hc
      have hline : c = '\n' := by simpa using hc.symm
      rw [hline]
      decide
  have hfound := Text.splitFirst?_of_boundary hstart hlast
    (block v ++ (endMarker.toList ++ '\n' :: after.toList))
  rw [← hfound]
  congr 1
  simp [format, block, pretty]

theorem isInfix_block_iff (h : Legible v) :
    endMarker.toList <:+: block v ↔ Mentions endMarker.toList v := by
  have hword := isCapitalWord_endMarker
  have hlast : ¬ endMarker.toList <:+: ['\n'] := hword.not_isInfix (by decide)
  rw [block, hword.isInfix_cons_iff rfl, hword.isInfix_append_iff_or rfl, or_iff_left hlast,
    h.isInfix_prettyChars_iff hword]

theorem isBlank_of_mem_openers : ∀ c ∈ openers, Text.isBlank c = false :=
  Text.eq_false_of_any (by decide)

theorem isBlank_of_mem_lineFeed : ∀ c ∈ ['\n'], Text.isBlank c = true :=
  List.forall_mem_singleton.2 rfl

theorem trimChars_block (h : Legible v) : Text.trimChars (block v) = prettyChars 0 v := by
  have hclosers : ∀ c ∈ closers, Text.isBlank c = false := Text.eq_false_of_any (by decide)
  obtain ⟨c, hc, cs, hcs⟩ := h.exists_cons 0
  obtain ⟨d, hd, ds, hds⟩ := h.exists_concat 0
  have hfront : Text.dropBlanks (block v) = prettyChars 0 v ++ ['\n'] := by
    rw [block, ← List.singleton_append, Text.dropBlanks_append isBlank_of_mem_lineFeed, hcs,
      List.cons_append, Text.dropBlanks_cons (isBlank_of_mem_openers c hc)]
  rw [Text.trimChars, hfront, Text.dropBlanksEnd_append isBlank_of_mem_lineFeed, hds,
    Text.dropBlanksEnd_concat (hclosers d hd)]

/-- A document without the end marker is read back. -/
theorem document_format (h : Legible v) (hmentions : ¬ Mentions endMarker.toList v)
    (hbefore : before = "" ∨ ∃ lines, before = lines ++ "\n")
    (hstart : ¬ startMarker.toList <:+: before.toList) (after : String) :
    document (before ++ format v ++ after) = .ok v := by
  have hblock : ¬ endMarker.toList <:+: block v := fun hin =>
    hmentions ((isInfix_block_iff h).1 hin)
  have hlast : ∀ c ∈ (block v).getLast?, c ∉ endMarker.toList := by
    intro c hc
    rw [block, ← List.cons_append, List.getLast?_concat] at hc
    cases hc
    decide
  have hextract : extract? (before ++ format v ++ after) =
      some (String.ofList (prettyChars 0 v)) := by
    rw [extract?, splitFirst?_startMarker hbefore hstart]
    simp only [Option.bind_eq_bind, Option.bind_some]
    rw [Text.splitFirst?_of_boundary hblock hlast, Option.bind_some, trimChars_block h]
  have hread : Json.read? (String.ofList (prettyChars 0 v)) = some v := by
    rw [Json.read?, String.toList_ofList]
    exact readChars?_prettyChars h
  rw [document, hextract]
  simp only [hread]

/-- The front of a document up to an underscore, behind a line break, is not valid JSON. -/
theorem readChars?_trimChars_front (h : Legible v) {front rest : List Char}
    (hsplit : '\n' :: prettyChars 0 v = front ++ '_' :: rest) :
    readChars? (Text.trimChars front) = none := by
  obtain ⟨c, hc, cs, hcs⟩ := h.exists_cons 0
  cases front with
  | nil => exact absurd (List.cons.inj hsplit).1 (by decide)
  | cons lead front =>
    rw [List.cons_append] at hsplit
    obtain ⟨rfl, hfront⟩ := List.cons.inj hsplit
    -- Behind the line break stands the first character of the document, which is not blank.
    have hdrop : Text.dropBlanks ('\n' :: front) = front := by
      rw [← List.singleton_append, Text.dropBlanks_append isBlank_of_mem_lineFeed]
      rw [hcs] at hfront
      cases front with
      | nil =>
        obtain rfl := (List.cons.inj hfront).1
        exact absurd hc (by decide)
      | cons d front =>
        obtain ⟨rfl, -⟩ := List.cons.inj hfront
        exact Text.dropBlanks_cons (isBlank_of_mem_openers _ hc) _
    obtain ⟨cut, hcut, hblank⟩ := Text.exists_dropBlanksEnd front
    have hwhole : readChars? (Text.dropBlanksEnd front ++ cut ++ '_' :: rest) = some v := by
      rw [← hcut, ← hfront]
      exact readChars?_prettyChars h
    rw [Text.trimChars, hdrop]
    exact readChars?_cut hwhole fun c hc => isBare_of_isBlank (hblank c hc)

/-- If the document has the end marker behind `x`, a marker that is found no later begins inside the
document. -/
theorem exists_cut {front rest x y after : List Char}
    (hpretty : x ++ endMarker.toList ++ y = prettyChars 0 v)
    (hle : front.length ≤ ('\n' :: x).length)
    (hfound : block v ++ (endMarker.toList ++ after) = front ++ (endMarker.toList ++ rest)) :
    ∃ rest', '\n' :: prettyChars 0 v = front ++ '_' :: rest' := by
  obtain ⟨marker, hmarker⟩ := endMarker_eq_cons
  rw [block, hmarker, List.cons_append, List.append_assoc, ← List.cons_append] at hfound
  rcases List.append_eq_append_iff.1 hfound with ⟨d, hd, -⟩ | ⟨d, hd, hrest⟩
  · have hlen := congrArg List.length hd
    rw [← hpretty] at hlen
    simp only [List.length_append, List.length_cons, hmarker] at hlen hle
    omega
  · cases d with
    | nil =>
      have hlen := congrArg List.length hd
      rw [← hpretty] at hlen
      simp only [List.length_append, List.length_cons, List.length_nil, hmarker] at hlen hle
      omega
    | cons e d =>
      obtain ⟨rfl, -⟩ := List.cons.inj hrest
      exact ⟨d, hd⟩

/-- A document with the end marker is cut off at a marker and is not read. -/
theorem document_format_of_mentions (h : Legible v) (hmentions : Mentions endMarker.toList v)
    (hbefore : before = "" ∨ ∃ lines, before = lines ++ "\n")
    (hstart : ¬ startMarker.toList <:+: before.toList) (after : String) :
    document (before ++ format v ++ after) = .error .invalidJson := by
  obtain ⟨x, y, hpretty⟩ := (h.isInfix_prettyChars_iff isCapitalWord_endMarker 0).2 hmentions
  have htext : block v ++ (endMarker.toList ++ '\n' :: after.toList) = ('\n' :: x) ++
      (endMarker.toList ++ (y ++ '\n' :: (endMarker.toList ++ '\n' :: after.toList))) := by
    rw [block, ← hpretty]
    simp only [List.cons_append, List.append_assoc, List.nil_append]
  obtain ⟨front, rest, hfound⟩ := Text.exists_splitFirst? endMarker.toList ('\n' :: x)
    (y ++ '\n' :: (endMarker.toList ++ '\n' :: after.toList))
  have hle := Text.length_le_of_splitFirst? hfound rfl
  have hsplit := htext.trans (Text.splitFirst?_eq_append hfound)
  obtain ⟨rest', hcut⟩ := exists_cut hpretty hle hsplit
  have hextract : extract? (before ++ format v ++ after) =
      some (String.ofList (Text.trimChars front)) := by
    rw [extract?, splitFirst?_startMarker hbefore hstart]
    simp only [Option.bind_eq_bind, Option.bind_some]
    rw [htext, hfound, Option.bind_some]
  have hread : Json.read? (String.ofList (Text.trimChars front)) = none := by
    rw [Json.read?, String.toList_ofList]
    exact readChars?_trimChars_front h hcut
  rw [document, hextract]
  simp only [hread]

/-- What is read from an envelope in terms of the texts that its document holds. -/
theorem document_format_eq (h : Legible v) {texts : List String}
    (htexts : Mentions endMarker.toList v ↔ Mentioned endMarker texts)
    (hbefore : before = "" ∨ ∃ lines, before = lines ++ "\n")
    (hstart : ¬ startMarker.toList <:+: before.toList) (after : String) :
    document (before ++ format v ++ after) =
      if Mentioned endMarker texts then .error .invalidJson else .ok v := by
  by_cases hmentioned : Mentioned endMarker texts
  · rw [if_pos hmentioned]
    exact document_format_of_mentions h (htexts.2 hmentioned) hbefore hstart after
  · rw [if_neg hmentioned]
    exact document_format h (fun hm => hmentioned (htexts.1 hm)) hbefore hstart after

/-! ## Reports -/

theorem reportOf_toJson (r : Report) : reportOf r.toJson = .report r := by
  cases r with
  | whole r =>
    obtain ⟨first, others, hrefused⟩ := ErrorReport.check_toJson_whole r
    show reportOf r.toJson = _
    rw [reportOf, hrefused]
    simp only [AnalysisReport.check_toJson]
  | failed r => rfl

/-- A report is read back from its envelope exactly if none of its texts has the end marker, and no
report is read otherwise. The output before it ends with a line and has no start marker; what
follows it does not matter. -/
theorem readReport_format (r : Report)
    (hbefore : before = "" ∨ ∃ lines, before = lines ++ "\n")
    (hstart : ¬ startMarker.toList <:+: before.toList) (after : String) :
    readReport (before ++ format r.toJson ++ after) =
      if Mentioned endMarker r.texts then .invalid Problem.invalidJson.message else .report r := by
  have hdocument := document_format_eq r.legible (r.mentions_iff outgrowsKeys_endMarker) hbefore
    hstart after
  rw [readReport, hdocument]
  by_cases hmentioned : Mentioned endMarker r.texts
  · rw [if_pos hmentioned, if_pos hmentioned]
  · rw [if_neg hmentioned, if_neg hmentioned]
    exact reportOf_toJson r

theorem readReport_format_amid_output :
    ("log\n" = "" ∨ ∃ lines, "log\n" = lines ++ "\n") ∧
      ¬ startMarker.toList <:+: "log\n".toList ∧
      readReport ("log\n" ++ format (Report.failed ⟨"JSON_END__", "\n", "a"⟩).toJson ++ endMarker) =
        .report (.failed ⟨"JSON_END__", "\n", "a"⟩) := by
  have hbefore : "log\n" = "" ∨ ∃ lines, "log\n" = lines ++ "\n" := Or.inr ⟨"log", rfl⟩
  have hstart : ¬ startMarker.toList <:+: "log\n".toList := fun h =>
    absurd h.length_le (by decide)
  have hmentioned : ¬ Mentioned endMarker (Report.failed ⟨"JSON_END__", "\n", "a"⟩).texts := by
    rintro ⟨s, hs, hin⟩
    have hshort : ∀ s ∈ ["JSON_END__", "\n", "a"], ¬ endMarker.toList.length ≤ s.toList.length := by
      decide
    exact hshort s hs hin.length_le
  refine ⟨hbefore, hstart, ?_⟩
  rw [readReport_format _ hbefore hstart, if_neg hmentioned]

end Envelope

end BinaryReport
