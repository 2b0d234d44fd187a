import WriteGuard.Command.Run

/-!
What a limit on reports does to a run. Two listings are cut: the one for tools, which takes reports from the front of
all reports, and the one file by file, which counts down a word of 64 bits and stops at zero. Both show the first
reports of all files in order, as many as the limit allows, and the counter never wraps. Where there is no limit it
counts down from the greatest word, which more reports than there can be would use up. The limit leaves the counts and
the code of a run alone: these speak about all reports, shown or not.
-/

namespace WriteGuard

/-! ### Counts -/

namespace Summary

/-- The counts of the four severities add up to the count of all reports. -/
theorem sum_ofSeverities (severities : List Severity) :
    (ofSeverities severities).errors + (ofSeverities severities).warnings + (ofSeverities severities).info +
      (ofSeverities severities).hints = (ofSeverities severities).total := by
  simp only [ofSeverities, count]
  induction severities with
  | nil => rfl
  | cons severity rest ih => cases severity <;> simp <;> omega

theorem count_pos_iff {severity : Severity} {severities : List Severity} :
    0 < count severity severities ↔ severity ∈ severities := by
  simp [count, List.length_pos_iff_exists_mem]

end Summary

namespace Command

/-- A severity is counted exactly if some report of some file has it. -/
theorem mem_severities_iff (severity : Severity) (reports : List FileReport) :
    severity ∈ (reports.map fun r => r.diagnostics.map (·.severity)).flatten ↔
      ∃ r ∈ reports, ∃ d ∈ r.diagnostics, d.severity = severity := by
  simp only [List.mem_flatten, List.mem_map]
  constructor
  · rintro ⟨_, ⟨r, hr, rfl⟩, hmem⟩
    exact ⟨r, hr, List.mem_map.mp hmem⟩
  · rintro ⟨r, hr, hd⟩
    exact ⟨_, ⟨r, hr, rfl⟩, List.mem_map.mpr hd⟩

/-- A run ends with one exactly if a report is an error, or a warning where warnings count as errors. -/
theorem exitCode_eq_one_iff (reports : List FileReport) (errorOnWarnings : Bool) :
    exitCode (summaryOf reports) errorOnWarnings = 1 ↔
      ∃ r ∈ reports, ∃ d ∈ r.diagnostics,
        d.severity = .error ∨ errorOnWarnings = true ∧ d.severity = .warning := by
  have herrors : 0 < (summaryOf reports).errors ↔ _ := Summary.count_pos_iff.trans (mem_severities_iff .error reports)
  have hwarnings : 0 < (summaryOf reports).warnings ↔ _ :=
    Summary.count_pos_iff.trans (mem_severities_iff .warning reports)
  simp only [exitCode, Bool.or_eq_true, Bool.and_eq_true, decide_eq_true_eq, herrors, hwarnings]
  constructor
  · intro h
    split at h
    · next hsome =>
      rcases hsome with ⟨r, hr, d, hd, heq⟩ | ⟨hw, r, hr, d, hd, heq⟩
      · exact ⟨r, hr, d, hd, Or.inl heq⟩
      · exact ⟨r, hr, d, hd, Or.inr ⟨hw, heq⟩⟩
    · cases h
  · rintro ⟨r, hr, d, hd, heq | ⟨hw, heq⟩⟩
    · rw [if_pos (Or.inl ⟨r, hr, d, hd, heq⟩)]
    · rw [if_pos (Or.inr ⟨hw, r, hr, d, hd, heq⟩)]

/-! ### The listings -/

@[simp]
theorem withPaths_nil : withPaths [] = [] := rfl

@[simp]
theorem withPaths_cons (r : FileReport) (reports : List FileReport) :
    withPaths (r :: reports) = r.diagnostics.map (r.path, ·) ++ withPaths reports := rfl

theorem length_withPaths (reports : List FileReport) : (withPaths reports).length = (summaryOf reports).total := by
  show _ = (List.flatten _).length
  induction reports with
  | nil => rfl
  | cons r reports ih => simp [ih]

@[simp]
theorem upTo_none {α : Type} (items : List α) : upTo none items = items := rfl

@[simp]
theorem upTo_some {α : Type} (n : UInt64) (items : List α) : upTo (some n) items = items.take n.toNat := rfl

/-- A part that is not larger than a counter can be taken off it without wrapping. -/
theorem toNat_sub_toUInt64 {n : UInt64} {k : Nat} (h : k ≤ n.toNat) : (n - k.toUInt64).toNat = n.toNat - k := by
  have hk : k.toUInt64.toNat = k := Nat.mod_eq_of_lt (Nat.lt_of_le_of_lt h n.toNat_lt)
  rw [UInt64.toNat_sub_of_le _ _ (UInt64.le_iff_toNat_le.mpr (by rw [hk]; exact h)), hk]

@[simp]
theorem firstReports_zero (reports : List FileReport) : firstReports (some 0) reports = [] := by
  cases reports <;> simp [firstReports]

theorem firstReports_cons {limit : Option UInt64} (h : limit ≠ some 0) (r : FileReport) (reports : List FileReport) :
    firstReports limit (r :: reports) =
      ⟨r.path, upTo limit r.diagnostics⟩ :: firstReports (spend limit (upTo limit r.diagnostics).length) reports := by
  rw [firstReports, if_neg h]

/-- The reports that are shown file by file are the first ones of all files. -/
theorem withPaths_firstReports (limit : Option UInt64) (reports : List FileReport) :
    withPaths (firstReports limit reports) = upTo limit (withPaths reports) := by
  induction reports generalizing limit with
  | nil => cases limit <;> simp [firstReports]
  | cons r reports ih =>
    by_cases hzero : limit = some 0
    · simp [hzero]
    rw [firstReports_cons hzero, withPaths_cons, ih, withPaths_cons]
    cases limit with
    | none => rfl
    | some n =>
      have hle : (r.diagnostics.take n.toNat).length ≤ n.toNat := List.length_take_le ..
      have hleft : n.toNat - (r.diagnostics.take n.toNat).length = n.toNat - r.diagnostics.length := by
        rw [List.length_take]
        omega
      simp only [spend, Option.map_some, upTo_some, toNat_sub_toUInt64 hle, hleft, List.take_append, List.length_map,
        List.map_take]

/-! ### The counter -/

/-- The counter of the listing file by file after some files: each takes off it what is shown of the file. -/
def counterAfter (limit : Option UInt64) (before : List FileReport) : Option UInt64 :=
  before.foldl (fun limit r => spend limit (upTo limit r.diagnostics).length) limit

theorem counterAfter_cons (limit : Option UInt64) (r : FileReport) (before : List FileReport) :
    counterAfter limit (r :: before) = counterAfter (spend limit (upTo limit r.diagnostics).length) before := rfl

@[simp]
theorem counterAfter_zero (before : List FileReport) : counterAfter (some 0) before = some 0 := by
  induction before with
  | nil => rfl
  | cons r before ih =>
    rw [counterAfter_cons, upTo_some, UInt64.toNat_zero, List.take_zero]
    exact ih

/-- The listing goes on behind some files with the counter that they leave. -/
theorem firstReports_append (limit : Option UInt64) (before after : List FileReport) :
    firstReports limit (before ++ after) =
      firstReports limit before ++ firstReports (counterAfter limit before) after := by
  induction before generalizing limit with
  | nil => rfl
  | cons r before ih =>
    by_cases hzero : limit = some 0
    · simp [hzero]
    · rw [List.cons_append, firstReports_cons hzero, firstReports_cons hzero, ih, counterAfter_cons, List.cons_append]

/-- What the counter holds and what is shown add up to the limit at every moment, so the counter never wraps. -/
theorem counterAfter_add_shown (limit : UInt64) (before : List FileReport) :
    ∃ n, counterAfter (some limit) before = some n ∧
      n.toNat + (withPaths (firstReports (some limit) before)).length = limit.toNat := by
  induction before generalizing limit with
  | nil => exact ⟨limit, rfl, rfl⟩
  | cons r before ih =>
    by_cases hzero : limit = 0
    · exact ⟨0, by simp [hzero], by simp [hzero]⟩
    · have hle : (r.diagnostics.take limit.toNat).length ≤ limit.toNat := List.length_take_le ..
      obtain ⟨n, hn, hsum⟩ := ih (limit - (r.diagnostics.take limit.toNat).length.toUInt64)
      refine ⟨n, hn, ?_⟩
      rw [toNat_sub_toUInt64 hle] at hsum
      rw [firstReports_cons (by simpa using hzero)]
      simp only [withPaths_cons, List.length_append, List.length_map, upTo_some, spend, Option.map_some]
      omega

/-- The word that the listing file by file counts down from: the limit, or the greatest word if there is none. -/
def counterStart (a : Arguments) : UInt64 :=
  if a.maxDiagnostics = 0 then .ofNat (UInt64.size - 1) else a.maxDiagnostics

/-- A counter that is not used up cuts nothing and leaves out no file. -/
theorem firstReports_of_lt {n : UInt64} {reports : List FileReport} (h : (withPaths reports).length < n.toNat) :
    firstReports (some n) reports = firstReports none reports := by
  induction reports generalizing n with
  | nil => rfl
  | cons r reports ih =>
    rw [withPaths_cons, List.length_append, List.length_map] at h
    have hsome : (some n : Option UInt64) ≠ some 0 := by
      rintro ⟨⟩
      simp at h
    have hall : r.diagnostics.take n.toNat = r.diagnostics := List.take_of_length_le (by omega)
    have hrest : (withPaths reports).length < (n - r.diagnostics.length.toUInt64).toNat := by
      rw [toNat_sub_toUInt64 (by omega)]
      omega
    rw [firstReports_cons hsome, firstReports_cons (by simp), upTo_some, hall]
    exact congrArg _ (ih hrest)

/-- The listing counts down from its start also where there is no limit, as long as there are fewer reports than the
greatest word. -/
theorem firstReports_limitOf {a : Arguments} {reports : List FileReport}
    (h : a.maxDiagnostics = 0 → (withPaths reports).length < (counterStart a).toNat) :
    firstReports (limitOf a) reports = firstReports (some (counterStart a)) reports := by
  by_cases hzero : a.maxDiagnostics = 0
  · rw [limitOf, if_pos hzero, firstReports_of_lt (h hzero)]
  · rw [limitOf, counterStart, if_neg hzero, if_neg hzero]

/-! ### The texts -/

/-- Texts of files that are made of texts of reports are one text of all reports. -/
theorem join_map_withPaths {text : FileReport → String} (one : String → Diagnostic → String)
    (h : ∀ r, text r = String.join (r.diagnostics.map (one (String.ofList r.path)))) (reports : List FileReport) :
    String.join (reports.map text) = String.join ((withPaths reports).map fun p => one (String.ofList p.1) p.2) := by
  induction reports with
  | nil => rfl
  | cons r reports ih =>
    rw [List.map_cons, String.join_cons, ih, h, withPaths_cons, List.map_append, String.join_append, List.map_map]
    rfl

/-- What stands over the reports of a file for readers. A file without any has a line of its own, unless that is
unwanted. -/
def opening (colours quiet : Bool) (r : FileReport) : String :=
  if r.diagnostics.isEmpty then
    if quiet then "" else Style.paint { colour := some .green } colours "✓" ++ " " ++ String.ofList r.path ++ "\n"
  else "\n" ++ Style.paint { bold := true, underline := true } colours (String.ofList r.path) ++ "\n"

theorem fileText_compact {a : Arguments} (h : a.format = .compact) (colours : Bool) (r : FileReport) :
    fileText colours a r = String.join (r.diagnostics.map (Report.compactOne (String.ofList r.path))) := by
  cases hds : r.diagnostics <;> simp [fileText, h, hds, Report.render, Report.compact]

theorem fileText_github {a : Arguments} (h : a.format = .github) (colours : Bool) (r : FileReport) :
    fileText colours a r = String.join (r.diagnostics.map (Report.githubOne (String.ofList r.path))) := by
  cases hds : r.diagnostics <;> simp [fileText, h, hds, Report.render, Report.github]

theorem fileText_pretty {a : Arguments} (h : a.format = .pretty) (colours : Bool) (r : FileReport) :
    fileText colours a r = opening colours a.quiet r
      ++ String.join (r.diagnostics.map (Report.prettyOne colours a.showFixes))
      ++ if r.diagnostics.isEmpty then "" else "\n" := by
  cases hds : r.diagnostics with
  | nil => cases hquiet : a.quiet <;> simp [fileText, opening, h, hds, hquiet]
  | cons d ds => simp [fileText, opening, h, hds, Report.render, Report.pretty]

/-- What a run writes, by its form: for tools one list of the reports that are shown; the line forms one report after
the other; for readers file by file, under the path of each. -/
theorem reportText_eq (colours : Bool) (a : Arguments) (reports : List FileReport) :
    reportText colours a reports =
      let shown := upTo (limitOf a) (withPaths reports)
      let counts := if a.stats then statistics colours reports else ""
      match a.format with
      | .json => (Json.array (shown.map fun p => Report.jsonOne a.showFixes (String.ofList p.1) p.2)).pretty 0 ++ "\n"
      | .compact => String.join (shown.map fun p => Report.compactOne (String.ofList p.1) p.2) ++ counts
      | .github => String.join (shown.map fun p => Report.githubOne (String.ofList p.1) p.2) ++ counts
      | .pretty =>
        String.join ((firstReports (limitOf a) reports).map fun r => opening colours a.quiet r
          ++ String.join (r.diagnostics.map (Report.prettyOne colours a.showFixes))
          ++ if r.diagnostics.isEmpty then "" else "\n")
        ++ closing colours (summaryOf reports) ++ counts := by
  cases h : a.format with
  | json => simp [reportText, h, jsonText]
  | compact =>
    simp [reportText, h, join_map_withPaths Report.compactOne (fileText_compact h colours), withPaths_firstReports]
  | github =>
    simp [reportText, h, join_map_withPaths Report.githubOne (fileText_github h colours), withPaths_firstReports]
  | pretty => simp [reportText, h, funext (fileText_pretty h colours)]

/-! ### The run -/

/-- The form, the limit and the other options on what is written have no part in the code of a run. -/
theorem exit_lintRun (colours : Bool) (disk : Disk) (a : Arguments) (limit : UInt64) (format : Format)
    (quiet stats showFixes : Bool) :
    (lintRun colours disk { a with maxDiagnostics := limit, format, quiet, stats, showFixes }).exit =
      (lintRun colours disk a).exit := by
  have hproject : projectOf disk { a with maxDiagnostics := limit, format, quiet, stats, showFixes } =
      projectOf disk a := rfl
  rw [lintRun, lintRun, hproject]
  cases projectOf disk a with
  | error e => rfl
  | ok project => cases collect disk (a.paths.map String.toList) <;> simp [lintOptions, conclude]

/-- A limit cuts the number of reports out of their list. -/
theorem upTo_limitOf {α : Type} (a : Arguments) (items : List α) :
    upTo (limitOf a) items =
      items.take (if a.maxDiagnostics = 0 then items.length else min a.maxDiagnostics.toNat items.length) := by
  by_cases hzero : a.maxDiagnostics = 0
  · simp [limitOf, hzero]
  · simp [limitOf, hzero]

/-- The two listings of a run show the same reports, the first ones of all files in order, and the counter behind one of
them never wraps, with a limit or without one. The code of the run and its counts are those of all reports: neither the
limit nor another option on what is written has a part in them. -/
theorem limit_cuts_listings_only (colours : Bool) (a : Arguments) (reports : List FileReport) (errors : List String) :
    let total := (summaryOf reports).total
    let shown := (withPaths reports).take (if a.maxDiagnostics = 0 then total else min a.maxDiagnostics.toNat total)
    let counts := if a.stats then statistics colours reports else ""
    upTo (limitOf a) (withPaths reports) = shown ∧
    withPaths (firstReports (limitOf a) reports) = shown ∧
    ((a.maxDiagnostics = 0 → total < (counterStart a).toNat) →
      firstReports (limitOf a) reports = firstReports (some (counterStart a)) reports ∧
      ∀ before after, reports = before ++ after → ∃ n,
        counterAfter (some (counterStart a)) before = some n ∧
        firstReports (limitOf a) reports = firstReports (limitOf a) before ++ firstReports (some n) after ∧
        n.toNat + (withPaths (firstReports (limitOf a) before)).length = (counterStart a).toNat) ∧
    ((conclude colours a reports errors).stdout = match a.format with
      | .json => (Json.array (shown.map fun p => Report.jsonOne a.showFixes (String.ofList p.1) p.2)).pretty 0 ++ "\n"
      | .compact => String.join (shown.map fun p => Report.compactOne (String.ofList p.1) p.2) ++ counts
      | .github => String.join (shown.map fun p => Report.githubOne (String.ofList p.1) p.2) ++ counts
      | .pretty =>
        String.join ((firstReports (limitOf a) reports).map fun r => opening colours a.quiet r
          ++ String.join (r.diagnostics.map (Report.prettyOne colours a.showFixes))
          ++ if r.diagnostics.isEmpty then "" else "\n")
        ++ closing colours (summaryOf reports) ++ counts) ∧
    ((conclude colours a reports errors).exit = 1 ↔ ∃ r ∈ reports, ∃ d ∈ r.diagnostics,
      d.severity = .error ∨ a.errorOnWarnings = true ∧ d.severity = .warning) ∧
    (∀ disk limit format quiet stats showFixes,
      (lintRun colours disk { a with maxDiagnostics := limit, format, quiet, stats, showFixes }).exit =
        (lintRun colours disk a).exit) ∧
    (summaryOf reports).errors + (summaryOf reports).warnings + (summaryOf reports).info + (summaryOf reports).hints =
      total := by
  intro total shown counts
  have hshown : upTo (limitOf a) (withPaths reports) = shown := by
    rw [upTo_limitOf, length_withPaths]
  refine ⟨hshown, (withPaths_firstReports _ _).trans hshown, ?_, ?_, exitCode_eq_one_iff _ _,
    fun disk => exit_lintRun colours disk a,
    Summary.sum_ofSeverities _⟩
  · intro hfew
    simp only [total, ← length_withPaths] at hfew
    refine ⟨firstReports_limitOf hfew, ?_⟩
    rintro before after rfl
    have hbefore : a.maxDiagnostics = 0 → (withPaths before).length < (counterStart a).toNat := by
      intro hzero
      refine Nat.lt_of_le_of_lt ?_ (hfew hzero)
      rw [withPaths, withPaths, List.flatMap_append, List.length_append]
      exact Nat.le_add_right _ _
    obtain ⟨n, hn, hsum⟩ := counterAfter_add_shown (counterStart a) before
    rw [firstReports_limitOf hfew, firstReports_limitOf hbefore, firstReports_append, hn]
    exact ⟨n, rfl, rfl, hsum⟩
  · rw [← hshown]
    exact reportText_eq colours a reports

/-- A report of a severity about the first character of a file. -/
def sampleReport (severity : Severity) : Diagnostic := { (default : Diagnostic) with severity }

/-- Two files with two reports each, and one without any between them. The only error is the last report. -/
def sampleReports : List FileReport := [
  ⟨"a.js".toList, [sampleReport .warning, sampleReport .hint]⟩, ⟨"b.js".toList, []⟩,
  ⟨"c.js".toList, [sampleReport .info, sampleReport .error]⟩]

/-- With a limit of three the error is not shown, and the run ends with one all the same. Without a limit the counter
starts at the greatest word, and all files are shown. -/
theorem limit_cuts_listings_only_hiddenError :
    withPaths (firstReports (some 3) sampleReports) = [("a.js".toList, sampleReport .warning),
      ("a.js".toList, sampleReport .hint), ("c.js".toList, sampleReport .info)] ∧
    (∃ n, counterAfter (some 3) (sampleReports.take 2) = some n ∧ n.toNat + 2 = 3) ∧
    (conclude false { maxDiagnostics := 3 } sampleReports []).exit = 1 ∧
    firstReports (some 18446744073709551615) sampleReports = sampleReports := by
  obtain ⟨-, hshown, hcounter, -, hexit, -, -⟩ :=
    limit_cuts_listings_only false { maxDiagnostics := 3 } sampleReports []
  obtain ⟨n, hn, -, hsum⟩ := (hcounter (by decide)).2 (sampleReports.take 2) (sampleReports.drop 2) (by decide)
  obtain ⟨-, -, hunlimited, -⟩ := limit_cuts_listings_only false { maxDiagnostics := 0 } sampleReports []
  exact ⟨hshown.trans (by decide), ⟨n, hn, hsum⟩, hexit.mpr (by decide), (hunlimited (by decide)).1.symm⟩

end Command

end WriteGuard
