import WriteGuard.Proofs.LinePreviews

/-!
Marks under the line of a report. Lines and columns of a report count bytes, the marks stand under characters, and the
line is shown without the carriage returns at its end. The marks are as many as the characters of the report on that line,
and they are indented by the characters before them, however many bytes these have and wherever the report ends.
-/

namespace WriteGuard

/-- A report at another severity, as the level of its rule may set it. -/
def Diagnostic.atSeverity (d : Diagnostic) (severity : Severity) : Diagnostic := { d with severity }

theorem Report.width_of_slice? {line piece : List Char} {s : Span} (h : Text.slice? line s = some piece) :
    Report.width line s = piece.length := by
  rw [Report.width, h]

namespace Diagnostic.Shows

variable {d : Diagnostic} {text head core tail : List Char} {returns : Nat} {f : Finding}

/-- A report that ends on its first line ends at its last column, and any other behind what the line says. -/
theorem stop_cases (h : (ofFinding text f).Shows text head core returns tail) (hne : f.span.start < f.span.stop) :
    ((ofFinding text f).endLine = (ofFinding text f).line ∧
      Text.byteLength head + (ofFinding text f).endColumn = f.span.stop) ∨
    ((ofFinding text f).endLine ≠ (ofFinding text f).line ∧ Text.byteLength (head ++ core) < f.span.stop) := by
  have hplace := Lines.places_lineCol text f.span.stop
  by_cases hline : (ofFinding text f).endLine = (ofFinding text f).line
  · left
    obtain ⟨start, hstart, hcolumn⟩ := hplace.column
    have hnumber : ((Lines.ofText text).lineCol f.span.stop).1 - 1 = head.count '\n' := by
      show (ofFinding text f).endLine - 1 = _
      rw [hline, h.number, Nat.add_sub_cancel]
    rw [hnumber, Lines.getElem?_starts h.line] at hstart
    rw [Option.some.inj hstart]
    exact ⟨hline, hcolumn⟩
  · right
    have hlater : head.count '\n' + 1 < ((Lines.ofText text).upTo f.span.stop).length := by
      rcases Prod.lex_def.mp ((Lines.places_lineCol text f.span.start).lex hplace hne) with hlt | ⟨heq, -⟩
      · rw [← h.number]
        exact hlt
      · exact absurd heq.symm hline
    have hnext := Lines.getElem?_starts_succ h.line
    split at hnext
    · have hlast : ((Lines.ofText text).upTo f.span.stop).length ≤ (Lines.ofText text).starts.length := hplace.last
      rw [List.getElem?_eq_none_iff] at hnext
      omega
    · have hbehind := (Lines.lt_length_upTo_iff hnext).mp hlater
      rw [← List.append_assoc, Text.byteLength_append (head ++ core)] at hbehind
      exact ⟨hline, by omega⟩

/-- The bytes of the line that are marked, counted from its start: from the first byte of the report to its last, or to the
end of what the line says. -/
theorem markedBytes_eq (h : (ofFinding text f).Shows text head core returns tail) (hne : f.span.start < f.span.stop)
    (hstart : f.span.start < Text.byteLength (head ++ core)) : Report.markedBytes (ofFinding text f) core =
      ⟨f.span.start - Text.byteLength head,
        min f.span.stop (Text.byteLength (head ++ core)) - Text.byteLength head⟩ := by
  have hcolumn : Text.byteLength head + (ofFinding text f).column = f.span.start := h.column
  rw [Text.byteLength_append] at hstart ⊢
  rw [Report.markedBytes, Span.mk.injEq]
  rcases h.stop_cases hne with ⟨hline, hend⟩ | ⟨hline, hend⟩
  · rw [if_pos hline]
    constructor <;> omega
  · rw [if_neg hline]
    rw [Text.byteLength_append] at hend
    constructor <;> omega

/-- What is shown of a report divides the line in three: the text before it, its own text, and the text behind it. -/
theorem exists_marked (h : (ofFinding text f).Shows text head core returns tail)
    (hfirst : Text.IsBoundary text f.span.start) (hlast : Text.IsBoundary text f.span.stop)
    (hne : f.span.start < f.span.stop) (hstart : f.span.start < Text.byteLength (head ++ core)) :
    ∃ lead marked trail, core = lead ++ marked ++ trail ∧ Text.byteLength (head ++ lead) = f.span.start ∧
      Text.byteLength (head ++ lead ++ marked) = min f.span.stop (Text.byteLength (head ++ core)) := by
  have htext : text = head ++ core ++ (List.replicate returns '\r' ++ tail) := by
    rw [h.line.text_eq]
    simp only [List.append_assoc]
  have hcut : Text.IsBoundary text (min f.span.stop (Text.byteLength (head ++ core))) := by
    rcases Nat.le_total f.span.stop (Text.byteLength (head ++ core)) with hle | hle
    · rwa [Nat.min_eq_left hle]
    · rw [Nat.min_eq_right hle]
      exact ⟨head ++ core, _, htext, rfl⟩
  have hhead : Text.byteLength head ≤ f.span.start := h.column ▸ Nat.le_add_right _ _
  rw [htext] at hfirst hcut
  exact hfirst.exists_parts hcut (by omega) hhead (Nat.min_le_right _ _)

/-- The marks are indented by the characters before the report, and there is one for each of its characters. -/
theorem marks?_eq {lead marked trail : List Char}
    (h : (ofFinding text f).Shows text head (lead ++ marked ++ trail) returns tail)
    (hne : f.span.start < f.span.stop)
    (hstart : f.span.start < Text.byteLength (head ++ (lead ++ marked ++ trail)))
    (hlead : Text.byteLength (head ++ lead) = f.span.start)
    (hmarked : Text.byteLength (head ++ lead ++ marked) =
      min f.span.stop (Text.byteLength (head ++ (lead ++ marked ++ trail)))) :
    Report.marks? (ofFinding text f) (lead ++ marked ++ trail) = some (lead.length, marked.length) := by
  have hbytes : Report.markedBytes (ofFinding text f) (lead ++ marked ++ trail) =
      ⟨Text.byteLength lead, Text.byteLength (lead ++ marked)⟩ := by
    rw [h.markedBytes_eq hne hstart, ← hmarked, ← hlead, List.append_assoc, Text.byteLength_append head lead,
      Text.byteLength_append head (lead ++ marked), Nat.add_sub_cancel_left, Nat.add_sub_cancel_left]
  have hsome : Text.byteLength lead < Text.byteLength (lead ++ marked) := by
    rw [List.append_assoc, Text.byteLength_append head (lead ++ marked)] at hmarked
    rw [Text.byteLength_append] at hlead
    omega
  have hbefore : Text.slice? (lead ++ marked ++ trail) ⟨0, Text.byteLength lead⟩ = some lead :=
    Text.slice?_eq_some_iff.mpr ⟨[], marked ++ trail, List.append_assoc .., rfl, rfl⟩
  have hpiece : Text.slice? (lead ++ marked ++ trail) ⟨Text.byteLength lead, Text.byteLength (lead ++ marked)⟩ =
      some marked := Text.slice?_eq_some_iff.mpr ⟨lead, trail, rfl, rfl, rfl⟩
  simp only [Report.marks?, hbytes, if_pos hsome, Report.width_of_slice? hbefore, Report.width_of_slice? hpiece]

end Diagnostic.Shows

namespace Report

/-- The lines of a report above its source. -/
def heading (d : Diagnostic) : String :=
  "\n  " ++ severitySign false d.severity ++ " " ++ (toString d.line ++ ":" ++ toString (d.column + 1)) ++ " "
    ++ severityWord false d.severity ++ " [" ++ d.ruleId ++ "]\n" ++ "    " ++ "→" ++ " " ++ d.ruleName ++ "\n"
    ++ "    " ++ d.text ++ "\n"

theorem prettyOne_eq (showFixes : Bool) (d : Diagnostic) :
    prettyOne false showFixes d = heading d ++ source false d ++ (if showFixes then suggestions false d else "") := rfl

/-- A line in three parts with its number, and marks under the part in the middle. The margins of both lines are equally
wide. -/
def underlined (number : Nat) (lead marked trail : List Char) : String :=
  "\n    " ++ toString number ++ " │ " ++ String.ofList (lead ++ marked ++ trail) ++ "\n"
    ++ "    " ++ repeated (toString number).length ' ' ++ " │ "
    ++ repeated lead.length ' ' ++ repeated marked.length '^' ++ "\n"

theorem source_eq_underlined {d : Diagnostic} {lead marked trail : List Char}
    (hsnippet : d.snippet = some (String.ofList (lead ++ marked ++ trail)))
    (hmarks : marks? d (lead ++ marked ++ trail) = some (lead.length, marked.length)) :
    source false d = underlined d.line lead marked trail := by
  rw [source, hsnippet]
  simp only [String.toList_ofList, hmarks]
  rfl

/-- Reports without colours mark exactly their characters. Let a report cover some characters of a text, and begin before
the carriage returns at the end of its first line. On that line there are `lead`, the characters before the report, then
`marked`, the characters of the report up to its end or to the end of what the line says, at least one, and then `trail`.
Below the line stands one mark for each of the `marked` characters, behind a blank for each of the `lead` characters and
behind a margin as wide as the number of the line. -/
theorem pretty_underlines (text : List Char) (f : Finding) (said : Span)
    (hsaid : (Lines.ofText text).saidSpan? text (Diagnostic.ofFinding text f).line = some said)
    (hfirst : Text.IsBoundary text f.span.start) (hlast : Text.IsBoundary text f.span.stop)
    (hne : f.span.start < f.span.stop) (hbefore : f.span.start < said.stop) :
    ∃ lead marked trail, Text.slice? text ⟨said.start, f.span.start⟩ = some lead ∧
      Text.slice? text ⟨f.span.start, min f.span.stop said.stop⟩ = some marked ∧ marked ≠ [] ∧
      (Lines.ofText text).lineText text (Diagnostic.ofFinding text f).line = lead ++ marked ++ trail ∧
      ∀ (severity : Severity) (showFixes : Bool) (path : String) (above below : List Diagnostic),
        pretty false showFixes path (above ++ (Diagnostic.ofFinding text f).atSeverity severity :: below) =
          "\n" ++ path ++ "\n" ++ String.join (above.map (prettyOne false showFixes))
            ++ heading ((Diagnostic.ofFinding text f).atSeverity severity)
            ++ underlined (Diagnostic.ofFinding text f).line lead marked trail
            ++ (if showFixes then suggestions false ((Diagnostic.ofFinding text f).atSeverity severity) else "")
            ++ String.join (below.map (prettyOne false showFixes)) ++ "\n" := by
  obtain ⟨head, core, returns, tail, h⟩ := Diagnostic.exists_shows text f
  obtain rfl : _ = said := Option.some.inj (h.saidSpan?_eq.symm.trans hsaid)
  obtain ⟨lead, marked, trail, rfl, hlead, hmarked⟩ := h.exists_marked hfirst hlast hne hbefore
  have hmarks := h.marks?_eq hne hbefore hlead hmarked
  have htext : text = head ++ lead ++ marked ++ (trail ++ (List.replicate returns '\r' ++ tail)) := by
    rw [h.line.text_eq]
    simp only [List.append_assoc]
  refine ⟨lead, marked, trail, ?_, ?_, ?_, ?_, ?_⟩
  · exact Text.slice?_eq_some_iff.mpr ⟨head, _, by rw [htext, List.append_assoc (head ++ lead)], rfl, hlead⟩
  · exact Text.slice?_eq_some_iff.mpr ⟨head ++ lead, _, htext, hlead, hmarked⟩
  · rintro rfl
    rw [List.append_nil, hlead] at hmarked
    exact absurd hmarked (Nat.ne_of_lt (Nat.lt_min.mpr ⟨hne, hbefore⟩))
  · rw [h.number, Lines.lineText_of_hasLine h.line, Lines.withoutReturns_append h.last]
  · intro severity showFixes path above below
    have hsource : source false ((Diagnostic.ofFinding text f).atSeverity severity) =
        underlined (Diagnostic.ofFinding text f).line lead marked trail := source_eq_underlined h.snippet hmarks
    have hnonempty : (above ++ (Diagnostic.ofFinding text f).atSeverity severity :: below).isEmpty = false := by simp
    rw [pretty, hnonempty, if_neg Bool.false_ne_true, List.map_append, List.map_cons, String.join_append,
      String.join_cons, prettyOne_eq, hsource]
    simp only [Style.paint, if_neg Bool.false_ne_true, String.append_assoc]

/-- A set on two lines, behind characters of four and of two bytes. -/
def wideSet : List Char := "😀é doc().set(\x7b\r\n\x7d)".toList

/-- The report on this set, without suggestions. -/
def wideFinding : Finding := ⟨.setRequireMerge, .missingMerge, ⟨7, 22⟩, []⟩

/-- The marks begin under the fourth character of the line and end under its last, in front of the carriage return. -/
theorem pretty_underlines_wideSet :
    pretty false true "w.js" [(Diagnostic.ofFinding wideSet wideFinding).atSeverity .error] =
      "\nw.js\n\n  ✖ 1:8 error [firestore-set-require-merge]\n    → Set Requires Merge\n    Missing merge option parameter.\n"
        ++ "\n    1 │ 😀é doc().set(\x7b\n      │    ^^^^^^^^^^^\n\n" := by
  have hcut : ∀ front rest n, wideSet = front ++ rest → Text.byteLength front = n → Text.IsBoundary wideSet n :=
    fun front rest n htext hlength => ⟨front, rest, htext, hlength⟩
  obtain ⟨lead, marked, trail, hlead, hmarked, -, hline, hpretty⟩ := pretty_underlines wideSet wideFinding ⟨0, 18⟩
    (by decide +kernel) (hcut "😀é ".toList "doc().set(\x7b\r\n\x7d)".toList 7 (by decide +kernel) (by decide +kernel))
    (hcut wideSet [] 22 (by decide +kernel) (by decide +kernel)) (by decide) (by decide)
  have hlead' : Text.slice? wideSet ⟨0, 7⟩ = some "😀é ".toList := by decide +kernel
  have hmarked' : Text.slice? wideSet ⟨7, 18⟩ = some "doc().set(\x7b".toList := by decide +kernel
  have hline' : (Lines.ofText wideSet).lineText wideSet (Diagnostic.ofFinding wideSet wideFinding).line =
      "😀é ".toList ++ "doc().set(\x7b".toList ++ [] := by decide +kernel
  obtain rfl := Option.some.inj (hlead.symm.trans hlead')
  obtain rfl := Option.some.inj (hmarked.symm.trans hmarked')
  obtain rfl := List.append_cancel_left (hline.symm.trans hline')
  exact (hpretty .error true "w.js" [] []).trans (by decide +kernel)

end Report

end WriteGuard
