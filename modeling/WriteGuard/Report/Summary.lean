import WriteGuard.Lint.Rule
import WriteGuard.Report.Paint

/-!
Counts of reports by severity and by file.
-/

namespace WriteGuard

/-- Counts of reports. -/
structure Summary where
  total : Nat := 0
  errors : Nat := 0
  warnings : Nat := 0
  info : Nat := 0
  hints : Nat := 0
  filesWithIssues : Nat := 0
  totalFiles : Nat := 0
  deriving DecidableEq, Repr, Inhabited

namespace Summary

/-- How often a severity occurs. -/
def count (severity : Severity) (severities : List Severity) : Nat := (severities.filter (· = severity)).length

/-- The counts of reports by their severities. -/
def ofSeverities (severities : List Severity) : Summary where
  total := severities.length
  errors := count .error severities
  warnings := count .warning severities
  info := count .info severities
  hints := count .hint severities

/-- The counts of the reports of several files. -/
def ofFiles (files : List (List Severity)) : Summary :=
  { ofSeverities files.flatten with
    filesWithIssues := (files.filter fun f => !f.isEmpty).length
    totalFiles := files.length }

/-- The counts in one line. -/
def pretty (colours : Bool) (s : Summary) : String :=
  Style.paint { bold := true } colours (toString s.total ++ " issues") ++ " ("
    ++ Style.paint { bold := true, colour := some .red } colours (toString s.errors) ++ " "
    ++ (if s.errors = 1 then "error" else "errors") ++ ", "
    ++ Style.paint { bold := true, colour := some .yellow } colours (toString s.warnings) ++ " "
    ++ (if s.warnings = 1 then "warning" else "warnings") ++ ", "
    ++ toString s.info ++ " info, " ++ toString s.hints ++ " hints)"

end Summary

end WriteGuard
