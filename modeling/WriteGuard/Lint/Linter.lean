import WriteGuard.Config.Project
import WriteGuard.Lint.Diagnostic

/-!
The linter: the reports about a text that its settings let through, at the severities they set.
-/

namespace WriteGuard

/-- What a run of the linter reports. -/
structure LintOptions where
  /-- Whether all categories are reported, whatever `categories` says. -/
  allRules : Bool := true
  /-- The categories to report; none for all. -/
  categories : List Category := []
  /-- The ids of rules that are not reported. -/
  disabledRules : List String := []
  minSeverity : Severity := .hint
  project : Project := {}
  deriving DecidableEq, Repr, Inhabited

namespace LintOptions

/-- A report at the severity its level sets; none where the level allows it. -/
def leveled? (o : LintOptions) (d : Diagnostic) : Option Diagnostic :=
  match o.project.level? d.ruleId d.category with
  | none => some d
  | some level => level.severity?.map fun severity => { d with severity := severity }

/-- Whether a report is wanted. -/
def wants (o : LintOptions) (d : Diagnostic) : Bool :=
  o.minSeverity.rank ≤ d.severity.rank && !o.disabledRules.contains d.ruleId
    && (o.allRules || o.categories.isEmpty || o.categories.contains d.category)

/-- A report as the options let it through. -/
def reported? (o : LintOptions) (d : Diagnostic) : Option Diagnostic := (o.leveled? d).filter o.wants

/-- The receivers that the rule on undefined values is narrowed to. -/
def objects (o : LintOptions) : List String := o.project.objects.getD []

/-- The reports about a file. -/
def lintFile (o : LintOptions) (file : SourceFile) : List Diagnostic :=
  (Diagnostic.ofFile o.objects file).filterMap o.reported?

/-- The reports about a text; a path of no dialect has none. -/
def lint (o : LintOptions) (path content : List Char) : List Diagnostic :=
  match SourceFile.ofPath? path content with
  | none => []
  | some file => o.lintFile file

end LintOptions

end WriteGuard
