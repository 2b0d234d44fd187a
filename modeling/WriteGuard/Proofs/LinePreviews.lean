import WriteGuard.Proofs.LinePieces
import WriteGuard.Report.Format

/-!
Previews of changes. A report shows the line it begins on, and for each change it offers the line as the change would
leave it. The preview is made from the line alone, counted from its start; the change itself is made in the whole text.
Both agree: there is a preview exactly for the changes within what the line says, and it is what the line of that number
says after the change.
-/

namespace WriteGuard

namespace Text

/-- A cut of a text that lies within one of its parts is a cut of this part. -/
theorem IsBoundary.of_part {before part after : List Char} {n : Nat} (h : IsBoundary (before ++ part ++ after) n)
    (hstart : byteLength before ≤ n) (hstop : n ≤ byteLength (before ++ part)) :
    IsBoundary part (n - byteLength before) := by
  obtain ⟨front, rest, heq, rfl⟩ := h
  rw [List.append_assoc, eq_comm, List.append_eq_append_iff] at heq
  rw [byteLength_append] at hstop
  rcases heq with ⟨mid, rfl, -⟩ | ⟨mid, rfl, heq⟩
  · -- the cut is the start of the part
    rw [byteLength_append] at hstart
    exact ⟨[], part, rfl, by rw [byteLength, byteLength_append]; omega⟩
  · rw [byteLength_append] at hstop ⊢
    rcases List.append_eq_append_iff.mp heq with ⟨more, rfl, -⟩ | ⟨more, rfl, -⟩
    · -- the cut is the end of the part
      rw [byteLength_append] at hstop ⊢
      exact ⟨part, [], (List.append_nil part).symm, by omega⟩
    · exact ⟨mid, more, rfl, by omega⟩

/-- Two cuts within a part of a text divide this part in three. -/
theorem IsBoundary.exists_parts {before part after : List Char} {a b : Nat}
    (ha : IsBoundary (before ++ part ++ after) a) (hb : IsBoundary (before ++ part ++ after) b) (hab : a ≤ b)
    (hstart : byteLength before ≤ a) (hstop : b ≤ byteLength (before ++ part)) :
    ∃ front middle back, part = front ++ middle ++ back ∧ byteLength (before ++ front) = a ∧
      byteLength (before ++ front ++ middle) = b := by
  obtain ⟨front, middle, back, hpart, hfront, hmiddle⟩ := (ha.of_part hstart (Nat.le_trans hab hstop)).exists_between
    (hb.of_part (Nat.le_trans hstart hab) hstop) (Nat.sub_le_sub_right hab _)
  refine ⟨front, middle, back, hpart, ?_, ?_⟩
  · rw [byteLength_append]
    omega
  · rw [List.append_assoc, byteLength_append]
    omega

end Text

namespace Lines

open Text (HasLine)

/-- The bytes of what line `number`, counted from one, says. -/
def saidSpan? (lines : Lines) (text : List Char) (number : Nat) : Option Span :=
  (lines.lineSpan? text number).map fun s => ⟨s.start, s.start + Text.byteLength (lines.lineText text number)⟩

variable {text head line tail : List Char}

/-- The line of an offset, also behind the end of the text. -/
theorem exists_hasLine_of_offset (text : List Char) (offset : Nat) : ∃ head line tail, HasLine text head line tail ∧
    (ofText text).lineCol offset = (head.count '\n' + 1, offset - Text.byteLength head) ∧
    Text.byteLength head ≤ offset := by
  have hplaces := places_lineCol text offset
  have hfirst := hplaces.first
  have hlast := hplaces.last
  obtain ⟨start, hstart, hcolumn⟩ := hplaces.column
  have hbound : ((ofText text).lineCol offset).1 - 1 ≤ text.count '\n' := by
    rw [show (ofText text).starts.length = _ from length_starts_head text] at hlast
    omega
  obtain ⟨head, line, tail, h, hcount⟩ := Text.exists_hasLine text hbound
  rw [← hcount, getElem?_starts h] at hstart
  rw [← Option.some.inj hstart] at hcolumn
  exact ⟨head, line, tail, h, Prod.ext (show _ = head.count '\n' + 1 by omega) (show _ = offset - _ by omega), by omega⟩

theorem saidSpan?_of_hasLine (h : HasLine text head line tail) : (ofText text).saidSpan? text (head.count '\n' + 1) =
    some ⟨Text.byteLength head, Text.byteLength (head ++ withoutReturns line)⟩ := by
  rw [saidSpan?, lineSpan?_of_hasLine h, Option.map_some, lineText_of_hasLine h,
    Text.byteLength_append head (withoutReturns line)]

end Lines

/-! ### The line after a change -/

/-- A change of a part of what a line says leaves the text before and after the line as it was. -/
theorem TextEdit.hasLine_apply {e : TextEdit} {text head before middle after returns tail : List Char}
    (h : Text.HasLine text head (before ++ middle ++ after ++ returns) tail)
    (hstart : Text.byteLength (head ++ before) = e.range.start)
    (hstop : Text.byteLength (head ++ before ++ middle) = e.range.stop) (hnew : '\n' ∉ e.newText.toList) :
    Text.HasLine (e.apply text) head (before ++ e.newText.toList ++ after ++ returns) tail := by
  have htext : text = head ++ before ++ middle ++ (after ++ returns ++ tail) := by
    rw [h.text_eq]
    simp only [List.append_assoc]
  refine ⟨?_, h.whole, ?_, h.ended⟩
  · rw [htext, e.apply_eq _ hstart hstop]
    simp only [List.append_assoc]
  · have hline := h.unbroken
    simp only [List.mem_append, not_or] at hline ⊢
    exact ⟨⟨⟨hline.1.1.1, hnew⟩, hline.1.2⟩, hline.2⟩

/-- What a line says does not end in a carriage return, and after a change that brings no carriage return it still does
not. -/
theorem getLast?_changed {before middle new after : List Char} (h : (before ++ middle ++ after).getLast? ≠ some '\r')
    (hne : new ≠ []) (hnew : '\r' ∉ new) : (before ++ new ++ after).getLast? ≠ some '\r' := by
  intro hlast
  cases after using List.reverseRecOn with
  | nil =>
    rw [List.append_nil, List.getLast?_append_of_ne_nil _ hne] at hlast
    exact hnew (List.mem_of_getLast? hlast)
  | append_singleton after c =>
    rw [← List.append_assoc, List.getLast?_concat] at h hlast
    exact h hlast

/-! ### The line of a report -/

/-- A report shows a line of a text: what the line says behind the text `head`, without carriage returns at its end. -/
structure Diagnostic.Shows (d : Diagnostic) (text head core : List Char) (returns : Nat) (tail : List Char) : Prop where
  line : Text.HasLine text head (core ++ List.replicate returns '\r') tail
  last : core.getLast? ≠ some '\r'
  number : d.line = head.count '\n' + 1
  column : Text.byteLength head + d.column = d.span.start
  snippet : d.snippet = some (String.ofList core)

/-- A report shows the line of its first byte. -/
theorem Diagnostic.exists_shows (text : List Char) (f : Finding) :
    ∃ head core returns tail, (ofFinding text f).Shows text head core returns tail := by
  obtain ⟨head, line, tail, h, hplace, hle⟩ := Lines.exists_hasLine_of_offset text f.span.start
  obtain ⟨⟨returns, hline⟩, hlast⟩ := Lines.withoutReturns_spec line
  refine ⟨head, Lines.withoutReturns line, returns, tail, hline ▸ h, hlast, ?_, ?_, ?_⟩
  · simp only [ofFinding, hplace]
  · simp only [ofFinding, hplace]
    omega
  · simp only [ofFinding, hplace, Lines.lineText_of_hasLine h]

namespace Diagnostic.Shows

variable {d : Diagnostic} {text head core tail : List Char} {returns : Nat} {s : Suggestion}

theorem saidSpan?_eq (h : d.Shows text head core returns tail) : (Lines.ofText text).saidSpan? text d.line =
    some ⟨Text.byteLength head, Text.byteLength (head ++ core)⟩ := by
  rw [h.number, Lines.saidSpan?_of_hasLine h.line, Lines.withoutReturns_append h.last]

/-- A preview is made where both ends of a change are cuts of the line that is shown. -/
theorem preview?_eq_some_iff (h : d.Shows text head core returns tail) {p : String} :
    Report.preview? d s = some p ↔
      Text.byteLength head ≤ s.edit.range.start ∧ Text.byteLength head ≤ s.edit.range.stop ∧
      ∃ before after, Text.takeBytes? (s.edit.range.start - Text.byteLength head) core = some before ∧
        Text.dropBytes? (s.edit.range.stop - Text.byteLength head) core = some after ∧
        p = String.ofList (before ++ s.edit.newText.toList ++ after) := by
  have hplace := h.column
  have hcolumn : ¬ d.span.start < d.column := by omega
  have hline : d.span.start - d.column = Text.byteLength head := by omega
  simp only [Report.preview?, h.snippet, bind, pure, Option.bind_some, hcolumn, hline, if_false, String.toList_ofList]
  constructor
  · intro hp
    split at hp
    · cases hp
    · next hends =>
      rw [Bool.or_eq_true, decide_eq_true_eq, decide_eq_true_eq, not_or, Nat.not_lt, Nat.not_lt] at hends
      obtain ⟨before, hbefore, hp⟩ := Option.bind_eq_some_iff.mp hp
      obtain ⟨after, hafter, hp⟩ := Option.bind_eq_some_iff.mp hp
      exact ⟨hends.1, hends.2, before, after, hbefore, hafter, (Option.some.inj hp).symm⟩
  · rintro ⟨hfront, hback, before, after, hbefore, hafter, rfl⟩
    have hends : ¬ (decide (s.edit.range.start < Text.byteLength head) ||
        decide (s.edit.range.stop < Text.byteLength head)) = true := by
      simpa using ⟨hfront, hback⟩
    rw [if_neg hends, hbefore, Option.bind_some, hafter, Option.bind_some]

/-- A change that has a preview lies within what the line says. -/
theorem within_of_preview? (h : d.Shows text head core returns tail) {p : String} (hp : Report.preview? d s = some p) :
    Text.byteLength head ≤ s.edit.range.start ∧ s.edit.range.stop ≤ Text.byteLength (head ++ core) := by
  obtain ⟨hfront, hback, -, after, -, hafter, -⟩ := h.preview?_eq_some_iff.mp hp
  obtain ⟨front, rfl, hlength⟩ := Text.dropBytes?_eq_some_iff.mp hafter
  rw [Text.byteLength_append, Text.byteLength_append]
  omega

/-- A change within what the line says has a preview: it cuts the line in three, as it cuts the text. -/
theorem exists_preview? (h : d.Shows text head core returns tail) (hstart : Text.IsBoundary text s.edit.range.start)
    (hstop : Text.IsBoundary text s.edit.range.stop) (horder : s.edit.range.start ≤ s.edit.range.stop)
    (hne : s.edit.newText ≠ "") (hreturn : '\r' ∉ s.edit.newText.toList) (hfeed : '\n' ∉ s.edit.newText.toList)
    (hfront : Text.byteLength head ≤ s.edit.range.start)
    (hback : s.edit.range.stop ≤ Text.byteLength (head ++ core)) : ∃ p, Report.preview? d s = some p ∧
      p.toList = (Lines.ofText (s.edit.apply text)).lineText (s.edit.apply text) d.line := by
  have htext : text = head ++ core ++ (List.replicate returns '\r' ++ tail) := by
    rw [h.line.text_eq]
    simp only [List.append_assoc]
  rw [htext] at hstart hstop
  obtain ⟨before, middle, after, rfl, hbefore, hmiddle⟩ := hstart.exists_parts hstop horder hfront hback
  have hline := TextEdit.hasLine_apply h.line hbefore hmiddle hfeed
  have hlast := getLast?_changed h.last (fun hnil => hne (String.toList_eq_nil_iff.mp hnil)) hreturn
  refine ⟨String.ofList (before ++ s.edit.newText.toList ++ after),
    h.preview?_eq_some_iff.mpr ⟨hfront, by omega, before, after, ?_, ?_, rfl⟩, ?_⟩
  · rw [Text.byteLength_append] at hbefore
    rw [List.append_assoc, ← Nat.eq_sub_of_add_eq' hbefore, Text.takeBytes?_byteLength]
  · rw [List.append_assoc, Text.byteLength_append] at hmiddle
    rw [← Nat.eq_sub_of_add_eq' hmiddle, Text.dropBytes?_byteLength]
  · rw [h.number, Lines.lineText_of_hasLine hline, Lines.withoutReturns_append hlast, String.toList_ofList]

end Diagnostic.Shows

/-- The preview of a change agrees with the change. A report has a preview of a change exactly if both ends of the change
lie within what the first line of the report says; the preview is then what the line of the same number says in the text
that the change makes. -/
theorem Report.preview?_agrees (text : List Char) (f : Finding) (s : Suggestion)
    (hstart : Text.IsBoundary text s.edit.range.start) (hstop : Text.IsBoundary text s.edit.range.stop)
    (horder : s.edit.range.start ≤ s.edit.range.stop) (hne : s.edit.newText ≠ "")
    (hreturn : '\r' ∉ s.edit.newText.toList) (hfeed : '\n' ∉ s.edit.newText.toList) :
    ((preview? (Diagnostic.ofFinding text f) s).isSome = true ↔
      ∃ span, (Lines.ofText text).saidSpan? text (Diagnostic.ofFinding text f).line = some span ∧
        span.contains s.edit.range = true) ∧
    ∀ p, preview? (Diagnostic.ofFinding text f) s = some p →
      p.toList =
        (Lines.ofText (s.edit.apply text)).lineText (s.edit.apply text) (Diagnostic.ofFinding text f).line := by
  obtain ⟨head, core, returns, tail, h⟩ := Diagnostic.exists_shows text f
  have hpreview := h.exists_preview? hstart hstop horder hne hreturn hfeed
  constructor
  · rw [h.saidSpan?_eq, Option.isSome_iff_exists]
    constructor
    · rintro ⟨p, hp⟩
      exact ⟨_, rfl, by simpa [Span.contains] using h.within_of_preview? hp⟩
    · rintro ⟨span, hspan, hcontains⟩
      obtain rfl := Option.some.inj hspan
      rw [Span.contains, Bool.and_eq_true, decide_eq_true_eq, decide_eq_true_eq] at hcontains
      obtain ⟨p, hp, -⟩ := hpreview hcontains.1 hcontains.2
      exact ⟨p, hp⟩
  · intro p hp
    obtain ⟨hfront, hback⟩ := h.within_of_preview? hp
    obtain ⟨q, hq, hline⟩ := hpreview hfront hback
    rw [Option.some.inj (hp.symm.trans hq), hline]

/-- A set on two lines, the first of which ends in a carriage return too. -/
def twoLineSet : List Char := "é;doc().set(\x7b\r\n\x7d)".toList

/-- The report on this set. -/
def twoLineFinding : Finding := ⟨.setRequireMerge, .missingMerge, ⟨3, 18⟩, []⟩

/-- An update in the place of the set, on the first line. -/
def updateOnFirstLine : Suggestion := ⟨.changeToUpdate, .replace ⟨.identifier, "set", ⟨9, 12⟩⟩ "update"⟩

/-- A merge option at the end of the set, on the second line. -/
def optionOnSecondLine : Suggestion :=
  ⟨.addMergeOption, .insertBefore ⟨.punctuator, ")", ⟨17, 18⟩⟩ ", \x7b merge: true \x7d"⟩

/-- The change on the first line has a preview, which is the first line after the change; that on the second has none. -/
theorem Report.preview?_agrees_twoLineSet :
    preview? (Diagnostic.ofFinding twoLineSet twoLineFinding) updateOnFirstLine = some "é;doc().update(\x7b" ∧
    "é;doc().update(\x7b".toList = (Lines.ofText (updateOnFirstLine.edit.apply twoLineSet)).lineText
      (updateOnFirstLine.edit.apply twoLineSet) 1 ∧
    ¬ (preview? (Diagnostic.ofFinding twoLineSet twoLineFinding) optionOnSecondLine).isSome = true := by
  have hcut : ∀ n front rest, twoLineSet = front ++ rest → Text.byteLength front = n → Text.IsBoundary twoLineSet n :=
    fun n front rest htext hlength => ⟨front, rest, htext, hlength⟩
  have hfirst := (preview?_agrees twoLineSet twoLineFinding updateOnFirstLine
    (hcut 9 "é;doc().".toList "set(\x7b\r\n\x7d)".toList (by decide +kernel) (by decide +kernel))
    (hcut 12 "é;doc().set".toList "(\x7b\r\n\x7d)".toList (by decide +kernel) (by decide +kernel))
    (by decide) (by decide) (by decide) (by decide)).2
  have hsecond := (preview?_agrees twoLineSet twoLineFinding optionOnSecondLine
    (hcut 17 "é;doc().set(\x7b\r\n\x7d".toList ")".toList (by decide +kernel) (by decide +kernel))
    (hcut 17 "é;doc().set(\x7b\r\n\x7d".toList ")".toList (by decide +kernel) (by decide +kernel))
    (by decide) (by decide) (by decide) (by decide)).1
  have hpreview : preview? (Diagnostic.ofFinding twoLineSet twoLineFinding) updateOnFirstLine =
      some "é;doc().update(\x7b" := by decide +kernel
  refine ⟨hpreview, hfirst _ hpreview, fun h => ?_⟩
  obtain ⟨span, hspan, hcontains⟩ := hsecond.mp h
  have hline : (Lines.ofText twoLineSet).saidSpan? twoLineSet (Diagnostic.ofFinding twoLineSet twoLineFinding).line =
      some ⟨0, 14⟩ := by decide +kernel
  rw [← Option.some.inj (hline.symm.trans hspan)] at hcontains
  exact absurd hcontains (by decide)

end WriteGuard
