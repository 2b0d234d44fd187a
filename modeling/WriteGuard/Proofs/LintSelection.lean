import WriteGuard.Lint.Linter
import WriteGuard.Proofs.CallNodes

/-!
Which findings a run of the linter reports. Directives, levels, the least severity, disabled rules and categories each
take findings away and change nothing else but the severity; so the reports are a selection of the findings in their
order, and a stricter setting reports a part of what was reported before.
-/

namespace WriteGuard

namespace LintOptions

/-- The severity of the findings of a rule: the one that its level sets, else its own. -/
def severityOf (o : LintOptions) (rule : LintRule) : Severity :=
  ((o.project.level? rule.id rule.category).bind Level.severity?).getD rule.severity

/-- A finding as it is reported. -/
def report (o : LintOptions) (content : List Char) (f : Finding) : Diagnostic :=
  { Diagnostic.ofFinding content f with severity := o.severityOf f.rule }

/-- The rules whose findings are reported where no directive silences them. -/
structure Admits (o : LintOptions) (rule : LintRule) : Prop where
  notAllowed : o.project.level? rule.id rule.category ≠ some .allow
  severe : o.minSeverity.rank ≤ (o.severityOf rule).rank
  enabled : rule.id ∉ o.disabledRules
  chosen : o.allRules = true ∨ o.categories = [] ∨ rule.category ∈ o.categories

/-- The findings that are reported: those of an admitted rule that no directive about their first line allows. -/
structure Keeps (o : LintOptions) (directives : List Directive) (content : List Char) (f : Finding) : Prop where
  admitted : o.Admits f.rule
  unsilenced : ∀ d ∈ directives,
    ¬ (d.covers ((Lines.ofText content).lineCol f.span.start).1 = true ∧ d.allows f.rule.id = true)

instance (o : LintOptions) (rule : LintRule) : Decidable (o.Admits rule) :=
  decidable_of_iff (o.project.level? rule.id rule.category ≠ some .allow ∧
      o.minSeverity.rank ≤ (o.severityOf rule).rank ∧ rule.id ∉ o.disabledRules ∧
      (o.allRules = true ∨ o.categories = [] ∨ rule.category ∈ o.categories))
    ⟨fun h => ⟨h.1, h.2.1, h.2.2.1, h.2.2.2⟩, fun h => ⟨h.notAllowed, h.severe, h.enabled, h.chosen⟩⟩

instance (o : LintOptions) (directives : List Directive) (content : List Char) (f : Finding) :
    Decidable (o.Keeps directives content f) :=
  decidable_of_iff (o.Admits f.rule ∧ ∀ d ∈ directives,
      ¬ (d.covers ((Lines.ofText content).lineCol f.span.start).1 = true ∧ d.allows f.rule.id = true))
    ⟨fun h => ⟨h.1, h.2⟩, fun h => ⟨h.admitted, h.unsilenced⟩⟩

/-- The reports about a file under given directives. -/
def lintUnder (o : LintOptions) (directives : List Directive) (file : SourceFile) : List Diagnostic :=
  (((Finding.ofFile o.objects file).map (Diagnostic.ofFinding file.content)).filter fun d =>
    !Directive.silences directives d.line d.ruleId).filterMap o.reported?

/-- A run of the linter is one under the directives of the text. -/
theorem lintFile_eq (o : LintOptions) (file : SourceFile) :
    o.lintFile file = o.lintUnder (Directive.ofText file.content) file := rfl

variable {o : LintOptions} {content : List Char} {f : Finding}

theorem leveled?_ofFinding (o : LintOptions) (content : List Char) (f : Finding) :
    o.leveled? (Diagnostic.ofFinding content f) =
      if o.project.level? f.rule.id f.rule.category = some .allow then none else some (o.report content f) := by
  have hlevel : o.project.level? (Diagnostic.ofFinding content f).ruleId (Diagnostic.ofFinding content f).category =
      o.project.level? f.rule.id f.rule.category := rfl
  rw [leveled?, hlevel, report, severityOf]
  cases o.project.level? f.rule.id f.rule.category with
  | none => rfl
  | some level => cases level <;> rfl

theorem wants_report : o.wants (o.report content f) = true ↔
    o.minSeverity.rank ≤ (o.severityOf f.rule).rank ∧ f.rule.id ∉ o.disabledRules ∧
      (o.allRules = true ∨ o.categories = [] ∨ f.rule.category ∈ o.categories) := by
  have hseverity : (o.report content f).severity = o.severityOf f.rule := rfl
  have hid : (o.report content f).ruleId = f.rule.id := rfl
  have hcategory : (o.report content f).category = f.rule.category := rfl
  simp only [wants, hseverity, hid, hcategory, Bool.and_eq_true, Bool.or_eq_true, decide_eq_true_eq, Bool.not_eq_true',
    List.contains_eq_mem, decide_eq_false_iff_not, List.isEmpty_iff, and_assoc, or_assoc]

/-- The options decide about a finding by its rule. -/
theorem reported?_ofFinding (o : LintOptions) (content : List Char) (f : Finding) :
    o.reported? (Diagnostic.ofFinding content f) = if o.Admits f.rule then some (o.report content f) else none := by
  rw [reported?, leveled?_ofFinding]
  by_cases hallow : o.project.level? f.rule.id f.rule.category = some .allow
  · rw [if_pos hallow, if_neg fun h : o.Admits f.rule => h.notAllowed hallow]
    rfl
  · rw [if_neg hallow]
    by_cases hwants : o.wants (o.report content f) = true
    · obtain ⟨hsevere, henabled, hchosen⟩ := wants_report.mp hwants
      rw [if_pos (⟨hallow, hsevere, henabled, hchosen⟩ : o.Admits f.rule), Option.filter_some, if_pos hwants]
    · have hnot : ¬ o.Admits f.rule := fun h => hwants (wants_report.mpr ⟨h.severe, h.enabled, h.chosen⟩)
      rw [if_neg hnot, Option.filter_some, if_neg hwants]

theorem keeps_iff {directives : List Directive} : o.Keeps directives content f ↔
    Directive.silences directives (Diagnostic.ofFinding content f).line (Diagnostic.ofFinding content f).ruleId = false ∧
      o.Admits f.rule := by
  have hline : (Diagnostic.ofFinding content f).line = ((Lines.ofText content).lineCol f.span.start).1 := rfl
  have hid : (Diagnostic.ofFinding content f).ruleId = f.rule.id := rfl
  rw [hline, hid, Directive.silences, List.any_eq_false]
  simp only [Bool.and_eq_true]
  exact ⟨fun h => ⟨h.unsilenced, h.admitted⟩, fun h => ⟨h.2, h.1⟩⟩

/-- The reports are the findings that are kept, in their order. -/
theorem lintUnder_eq (o : LintOptions) (directives : List Directive) (file : SourceFile) :
    o.lintUnder directives file =
      ((Finding.ofFile o.objects file).filter fun f => o.Keeps directives file.content f).map
        (o.report file.content) := by
  rw [lintUnder]
  induction Finding.ofFile o.objects file with
  | nil => rfl
  | cons f fs ih =>
    rw [List.map_cons, List.filter_cons, List.filter_cons]
    cases hsilenced : Directive.silences directives (Diagnostic.ofFinding file.content f).line
        (Diagnostic.ofFinding file.content f).ruleId with
    | true =>
      have hnot : ¬ o.Keeps directives file.content f := by
        rw [keeps_iff, hsilenced]
        exact fun h => Bool.noConfusion h.1
      rw [decide_eq_false hnot]
      exact ih
    | false =>
      have hiff : o.Keeps directives file.content f ↔ o.Admits f.rule := by
        rw [keeps_iff, hsilenced, eq_self_iff_true, true_and]
      rw [decide_eq_decide.mpr hiff, Bool.not_false, if_pos rfl, List.filterMap_cons, reported?_ofFinding, ih]
      by_cases hadmits : o.Admits f.rule
      · rw [if_pos hadmits, decide_eq_true hadmits]
        rfl
      · rw [if_neg hadmits, decide_eq_false hadmits]
        rfl

/-- Settings for the same project that keep no other findings report a part of what is reported, in the same order. -/
theorem lintUnder_sublist {o' : LintOptions} {directives directives' : List Directive} {file : SourceFile}
    (hproject : o'.project = o.project)
    (h : ∀ f, o'.Keeps directives' file.content f → o.Keeps directives file.content f) :
    (o'.lintUnder directives' file).Sublist (o.lintUnder directives file) := by
  have hreport : o'.report = o.report := by
    unfold report severityOf
    rw [hproject]
  have hobjects : o'.objects = o.objects := congrArg (fun p => p.objects.getD []) hproject
  have hfilter : ∀ fs : List Finding, fs.filter (fun f => o'.Keeps directives' file.content f) =
      (fs.filter fun f => o.Keeps directives file.content f).filter fun f => o'.Keeps directives' file.content f := by
    intro fs
    rw [List.filter_filter]
    refine List.filter_congr fun f _ => ?_
    by_cases hkeeps : o'.Keeps directives' file.content f
    · rw [decide_eq_true hkeeps, decide_eq_true (h f hkeeps)]
      rfl
    · rw [decide_eq_false hkeeps]
      rfl
  rw [lintUnder_eq, lintUnder_eq, hreport, hobjects, hfilter]
  exact List.filter_sublist.map _

theorem Keeps.of_minSeverity {directives : List Directive} {severity : Severity}
    (hle : o.minSeverity.rank ≤ severity.rank)
    (h : { o with minSeverity := severity }.Keeps directives content f) : o.Keeps directives content f :=
  ⟨⟨h.admitted.notAllowed, Nat.le_trans hle h.admitted.severe, h.admitted.enabled, h.admitted.chosen⟩, h.unsilenced⟩

theorem Keeps.of_disabledRules {directives : List Directive} {rules : List String} (hsub : o.disabledRules ⊆ rules)
    (h : { o with disabledRules := rules }.Keeps directives content f) : o.Keeps directives content f :=
  ⟨⟨h.admitted.notAllowed, h.admitted.severe, fun hmem => h.admitted.enabled (hsub hmem), h.admitted.chosen⟩,
    h.unsilenced⟩

theorem Keeps.of_directives {directives directives' : List Directive} (hsub : directives ⊆ directives')
    (h : o.Keeps directives' content f) : o.Keeps directives content f :=
  ⟨h.admitted, fun d hd => h.unsilenced d (hsub hd)⟩

theorem lint_eq {path : List Char} {dialect : Source.Dialect} (o : LintOptions) (content : List Char)
    (h : Source.Dialect.ofPath? path = some dialect) :
    o.lint path content = o.lintUnder (Directive.ofText content) (SourceFile.ofText dialect content) := by
  rw [lint, SourceFile.ofPath?, h]
  exact o.lintFile_eq (SourceFile.ofText dialect content)

/-- A run of the linter reports the findings of the calls, in the order of the calls and of the rules, that no directive
silences, whose level is not to allow them, that are severe enough at their level, and whose rule is enabled and of a
chosen category; nothing but the severity is changed. So a higher least severity, more disabled rules and more
directives each leave a part of the reports, in the same order. -/
theorem lint_eq_selection {path : List Char} {dialect : Source.Dialect}
    (h : Source.Dialect.ofPath? path = some dialect) (content : List Char) (o : LintOptions) :
    o.lint path content = o.lintUnder (Directive.ofText content) (SourceFile.ofText dialect content) ∧
    (∀ directives, o.lintUnder directives (SourceFile.ofText dialect content) =
      (((SourceFile.ofText dialect content).calls.flatMap fun call =>
          (Finding.noUndefinedValues? o.objects (SourceFile.ofText dialect content).view call).toList ++
            (Finding.setRequireMerge? (SourceFile.ofText dialect content).view call).toList).filter fun f =>
        o.Keeps directives content f).map fun f =>
          { Diagnostic.ofFinding content f with severity := o.severityOf f.rule }) ∧
    (∀ severity : Severity, o.minSeverity.rank ≤ severity.rank →
      ({ o with minSeverity := severity }.lint path content).Sublist (o.lint path content)) ∧
    (∀ rules, o.disabledRules ⊆ rules →
      ({ o with disabledRules := rules }.lint path content).Sublist (o.lint path content)) ∧
    ∀ directives directives', directives ⊆ directives' →
      (o.lintUnder directives' (SourceFile.ofText dialect content)).Sublist
        (o.lintUnder directives (SourceFile.ofText dialect content)) := by
  refine ⟨lint_eq o content h, ?_, ?_, ?_, ?_⟩
  · intro directives
    exact lintUnder_eq o directives (SourceFile.ofText dialect content)
  · intro severity hle
    rw [lint_eq _ content h, lint_eq _ content h]
    exact lintUnder_sublist rfl fun f => Keeps.of_minSeverity hle
  · intro rules hsub
    rw [lint_eq _ content h, lint_eq _ content h]
    exact lintUnder_sublist rfl fun f => Keeps.of_disabledRules hsub
  · intro directives directives' hsub
    exact lintUnder_sublist rfl fun f => Keeps.of_directives hsub

/-- Options that report errors only and raise the rule on sets to one. -/
def raisedSets : LintOptions where
  minSeverity := .error
  project := { rules := [(LintRule.setRequireMerge.id, .deny)] }

/-- The level of the rule on sets is set before severities are compared, so both sets of the nested program are
reported. A directive for the rule leaves the other reports. -/
theorem lint_eq_selection_nestedSets :
    (raisedSets.lint "a.js".toList nestedText).map (fun d => (d.span, d.severity)) =
      [(⟨11, 57⟩, .error), (⟨0, 59⟩, .error), (⟨44, 53⟩, .error), (⟨30, 55⟩, .error)] ∧
    (raisedSets.lintUnder [⟨1, .line, some [LintRule.setRequireMerge.id]⟩] nestedSets).map Diagnostic.span =
      [⟨11, 57⟩, ⟨44, 53⟩] ∧
    ({ raisedSets with disabledRules := [LintRule.noUndefinedValues.id] }.lint "a.js".toList nestedText).Sublist
      (raisedSets.lint "a.js".toList nestedText) := by
  have hpath : Source.Dialect.ofPath? "a.js".toList = some .javaScript := by decide +kernel
  have hfile : SourceFile.ofText .javaScript nestedText = ⟨nestedText, .javaScript, nestedProgram, false⟩ :=
    nestedSets_eq
  obtain ⟨hlint, hunder, -, hdisabled, -⟩ := lint_eq_selection hpath nestedText raisedSets
  refine ⟨?_, ?_, hdisabled _ (List.nil_subset _)⟩
  · rw [hlint, hunder, hfile]
    decide +kernel
  · rw [nestedSets, hunder, hfile]
    decide +kernel

end LintOptions

end WriteGuard
