import WriteGuard.Command.Arguments
import WriteGuard.Command.Files
import WriteGuard.Command.Help
import WriteGuard.Report.Summary

/-!
A run of the command: what it writes and the code it ends with.
-/

namespace WriteGuard.Command

/-- What a run writes and the code it ends with. -/
structure Output where
  exit : Nat := 0
  stdout : String := ""
  /-- The lines written about the run itself. -/
  stderr : List String := []
  deriving DecidableEq, Repr, Inhabited

/-- The word that opens a line about an error. -/
def errorWord (colours : Bool) : String := Style.paint { bold := true, colour := some .red } colours "Error"

/-! ### The rules -/

/-- A rule in the list of rules. -/
def ruleLines (colours : Bool) (r : LintRule) : String :=
  Style.paint { bold := true, colour := some .cyan } colours r.id ++ " [" ++ r.category.name ++ "] "
    ++ Report.severityWord colours r.severity ++ "\n"
    ++ "    " ++ r.description ++ "\n"
    ++ (if r.hasSuggestions then "    " ++ Style.paint { dimmed := true } colours "Offers suggestions." ++ "\n" else "")
    ++ "    " ++ Style.paint { dimmed := true } colours r.reference ++ "\n"

/-- The list of rules. -/
def ruleList (colours : Bool) : String := String.join (LintRule.all.map (ruleLines colours))

/-! ### The settings of a run -/

/-- The settings of the project with those of the arguments over them. -/
def projectOf (disk : Disk) (a : Arguments) : Except LoadError Project :=
  let found := match a.config with
    | some path => Project.load disk path.toList
    | none => Project.discover disk ((a.paths.head?.getD "").toList)
  found.map fun project => project.merge { objects := a.additionalObjects }

/-- The options of a run. -/
def lintOptions (project : Project) (a : Arguments) : LintOptions where
  allRules := a.categories.isNone
  categories := a.categories.getD []
  disabledRules := a.disable.getD []
  minSeverity := a.severity
  project := project

/-! ### The reports -/

/-- The reports about a file. -/
structure FileReport where
  path : List Char
  diagnostics : List Diagnostic
  deriving DecidableEq, Repr, Inhabited

/-- The reports of several files one after the other, each with the path of its file. -/
def withPaths (reports : List FileReport) : List (List Char × Diagnostic) :=
  reports.flatMap fun r => r.diagnostics.map (r.path, ·)

/-- As many items of a list as a limit lets through, from the front. -/
def upTo {α : Type} (limit : Option UInt64) (items : List α) : List α :=
  match limit with
  | some n => items.take n.toNat
  | none => items

/-- What is left of a limit when so many reports are shown. -/
def spend (limit : Option UInt64) (shown : Nat) : Option UInt64 := limit.map (· - shown.toUInt64)

/-- The first `limit` reports of several files, file by file; files beyond them are left out. -/
def firstReports : Option UInt64 → List FileReport → List FileReport
  | _, [] => []
  | limit, r :: rest =>
    if limit = some 0 then []
    else
      let shown := upTo limit r.diagnostics
      ⟨r.path, shown⟩ :: firstReports (spend limit shown.length) rest

/-- How many reports are shown at most. -/
def limitOf (a : Arguments) : Option UInt64 := if a.maxDiagnostics = 0 then none else some a.maxDiagnostics

/-- What is written about a file. -/
def fileText (colours : Bool) (a : Arguments) (r : FileReport) : String :=
  let path := String.ofList r.path
  if r.diagnostics.isEmpty then
    if !a.quiet && a.format = .pretty then Style.paint { colour := some .green } colours "✓" ++ " " ++ path ++ "\n" else ""
  else Report.render a.format colours a.showFixes path r.diagnostics

/-- The reports of all files as one JSON text. -/
def jsonText (a : Arguments) (reports : List FileReport) : String :=
  (Json.array ((upTo (limitOf a) (withPaths reports)).map fun (path, d) =>
    Report.jsonOne a.showFixes (String.ofList path) d)).pretty 0 ++ "\n"

/-- The lines that close the reports for readers. -/
def closing (colours : Bool) (s : Summary) : String :=
  if 0 < s.total then
    "\n" ++ Style.paint { bold := true } colours "Found" ++ " " ++ s.pretty colours ++ " in "
      ++ toString s.filesWithIssues ++ " of " ++ toString s.totalFiles ++ " files\n"
  else Style.paint { bold := true, colour := some .green } colours "✓ No issues found!" ++ "\n"

/-! ### Statistics -/

/-- How often each rule is reported, the most frequent first, then in the order of ids. -/
def ruleCounts (reports : List FileReport) : List (String × Nat) :=
  let ids := reports.flatMap fun r => r.diagnostics.map (·.ruleId)
  let counts := ids.eraseDups.map fun id => (id, (ids.filter (· = id)).length)
  counts.mergeSort fun a b => b.2 < a.2 || (a.2 = b.2 && a.1 ≤ b.1)

/-- A text with blanks after it up to a width. -/
def padded (width : Nat) (text : String) : String := text ++ Report.repeated (width - text.length) ' '

/-- The lines on how often rules are reported. -/
def statistics (colours : Bool) (reports : List FileReport) : String :=
  match ruleCounts reports with
  | [] => ""
  | counts =>
    "\n" ++ Style.paint { bold := true, underline := true } colours "Rule Statistics:" ++ "\n"
      ++ String.join (counts.map fun (id, n) => "  " ++ padded 40 id ++ " " ++ toString n ++ "\n")

/-! ### The run -/

/-- The code of a run by its counts. -/
def exitCode (s : Summary) (errorOnWarnings : Bool) : Nat :=
  if 0 < s.errors || (errorOnWarnings && 0 < s.warnings) then 1 else 0

/-- The counts of the reports of all files. -/
def summaryOf (reports : List FileReport) : Summary :=
  Summary.ofFiles (reports.map fun r => r.diagnostics.map (·.severity))

/-- The line that says that not all reports are shown. -/
def limitNote (colours : Bool) (a : Arguments) (s : Summary) : List String :=
  if a.maxDiagnostics ≠ 0 && a.maxDiagnostics.toNat < s.total then
    [Style.paint { bold := true, colour := some .blue } colours "Note:" ++ " Showing first "
      ++ toString a.maxDiagnostics ++ " of " ++ toString s.total ++ " diagnostics"]
  else []

/-- What is written about the reports of all files. -/
def reportText (colours : Bool) (a : Arguments) (reports : List FileReport) : String :=
  if a.format = .json then jsonText a reports
  else String.join ((firstReports (limitOf a) reports).map (fileText colours a))
    ++ (if a.format = .pretty then closing colours (summaryOf reports) else "")
    ++ (if a.stats then statistics colours reports else "")

/-- The reports of the files that can be read, and the lines about those that cannot. -/
def lintAll (colours : Bool) (options : LintOptions) (disk : Disk) (files : List (List Char)) :
    List FileReport × List String :=
  let results := files.map fun path => (path, options.lintPath disk path)
  (results.filterMap fun (path, result) => match result with
    | .ok ds => some ⟨path, ds⟩
    | .error _ => none,
   results.filterMap fun (path, result) => match result with
    | .ok _ => none
    | .error e => some (errorWord colours ++ ": " ++ String.ofList path ++ " - " ++ e.message))

/-- The output of a run whose files are linted: their reports, and the lines about files that cannot be read. -/
def conclude (colours : Bool) (a : Arguments) (reports : List FileReport) (errors : List String) : Output :=
  let summary := summaryOf reports
  { exit := exitCode summary a.errorOnWarnings, stdout := reportText colours a reports,
    stderr := errors ++ limitNote colours a summary }

/-- A run that lints. -/
def lintRun (colours : Bool) (disk : Disk) (a : Arguments) : Output :=
  match projectOf disk a with
  | .error e => { exit := 2, stderr := [errorWord colours ++ ": " ++ e.message] }
  | .ok project =>
    match collect disk (a.paths.map String.toList) with
    | [] => { stderr := [Style.paint { colour := some .yellow } colours
        "No JavaScript or TypeScript files found to lint."] }
    | files =>
      let (reports, errors) := lintAll colours (lintOptions project a) disk files
      conclude colours a reports errors

/-- The name and version of the command. -/
def versionLine : String := "firestore-lint 0.1.0\n"

/-- What the command does for its arguments. -/
def run (colours : Bool) (disk : Disk) (request : Request) : Output :=
  match request with
  | .run a => if a.listRules then { stdout := ruleList colours } else lintRun colours disk a
  | .version => { stdout := versionLine }
  | .help long => { stdout := helpText long }
  | .wrong => { exit := 2, stderr := ["Usage: firestore-lint [OPTIONS] [PATHS]..."] }

end WriteGuard.Command
