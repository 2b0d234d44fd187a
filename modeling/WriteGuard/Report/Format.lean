import WriteGuard.Lint.Diagnostic
import WriteGuard.Report.Paint
import WriteGuard.Text.Json

/-!
Reports about a file in the forms for readers, for other tools and for build services.
-/

namespace WriteGuard

/-- The form of a report. -/
inductive Format where
  | pretty
  | json
  | compact
  | github
  deriving DecidableEq, Repr, Inhabited

namespace Format

/-- All forms. -/
def all : List Format := [.pretty, .json, .compact, .github]

/-- The word for a form. -/
def word : Format → String
  | .pretty => "pretty"
  | .json => "json"
  | .compact => "compact"
  | .github => "github"

/-- The form for a word. -/
def ofWord? (word : String) : Option Format := all.find? fun f => f.word = word

end Format

namespace Report

/-! ### For readers -/

/-- The word for a severity, in its colour. -/
def severityWord (colours : Bool) : Severity → String
  | .error => Style.paint { bold := true, colour := some .red } colours "error"
  | .warning => Style.paint { bold := true, colour := some .yellow } colours "warning"
  | .info => Style.paint { bold := true, colour := some .blue } colours "info"
  | .hint => Style.paint { dimmed := true } colours "hint"

/-- The sign for a severity, in its colour. -/
def severitySign (colours : Bool) : Severity → String
  | .error => Style.paint { colour := some .red } colours "✖"
  | .warning => Style.paint { colour := some .yellow } colours "⚠"
  | .info => Style.paint { colour := some .blue } colours "ℹ"
  | .hint => Style.paint { dimmed := true } colours "💡"

/-- The colour of the marks under a line. -/
def markColour : Severity → Colour
  | .error => .red
  | .warning => .yellow
  | _ => .blue

/-- The bytes of the line of a report that it is about. -/
def markedBytes (d : Diagnostic) (snippet : List Char) : Span :=
  let length := Text.byteLength snippet
  ⟨min d.column length, if d.endLine = d.line then min d.endColumn length else length⟩

/-- The number of characters in a range of a line, or of bytes where the range is no part of it. -/
def width (snippet : List Char) (s : Span) : Nat :=
  match Text.slice? snippet s with
  | some cs => cs.length
  | none => s.stop - s.start

/-- The blanks and marks under the line of a report; none where nothing of it is on that line. -/
def marks? (d : Diagnostic) (snippet : List Char) : Option (Nat × Nat) :=
  let s := markedBytes d snippet
  if s.start < s.stop then some (width snippet ⟨0, s.start⟩, width snippet s) else none

/-- So many of a character. -/
def repeated (n : Nat) (c : Char) : String := String.ofList (List.replicate n c)

/-- The line a report is about, and the marks under it. -/
def source (colours : Bool) (d : Diagnostic) : String :=
  match d.snippet with
  | none => ""
  | some snippet =>
    let gutter := toString d.line
    let line := "\n    " ++ gutter ++ " │ " ++ Style.paint { dimmed := true } colours snippet ++ "\n"
    match marks? d snippet.toList with
    | none => line
    | some (indent, count) =>
      line ++ "    " ++ repeated gutter.length ' ' ++ " │ " ++ repeated indent ' '
        ++ Style.paint { colour := some (markColour d.severity) } colours (repeated count '^') ++ "\n"

/-- The line of a report after a change that is offered with it, where the change is on that line. -/
def preview? (d : Diagnostic) (s : Suggestion) : Option String := do
  let snippet ← d.snippet
  let range := s.edit.range
  if d.span.start < d.column then none
  let lineStart := d.span.start - d.column
  if range.start < lineStart || range.stop < lineStart then none
  let before ← Text.takeBytes? (range.start - lineStart) snippet.toList
  let after ← Text.dropBytes? (range.stop - lineStart) snippet.toList
  return String.ofList (before ++ s.edit.newText.toList ++ after)

/-- One change that is offered, with its number. -/
def suggestion (colours : Bool) (d : Diagnostic) (number : Nat) (s : Suggestion) : String :=
  "      " ++ toString number ++ ". " ++ Style.paint { colour := some .green } colours s.message.text ++ "\n"
    ++ match preview? d s with
      | none => ""
      | some preview =>
        "         " ++ Style.paint { dimmed := true } colours (String.ofList (Text.trim preview.toList)) ++ "\n"

/-- The changes that are offered, numbered from `number` on. -/
def suggestionsFrom (colours : Bool) (d : Diagnostic) : Nat → List Suggestion → String
  | _, [] => ""
  | number, s :: rest => suggestion colours d number s ++ suggestionsFrom colours d (number + 1) rest

/-- The changes that are offered with a report. -/
def suggestions (colours : Bool) (d : Diagnostic) : String :=
  if d.suggestions.isEmpty then ""
  else "\n    " ++ Style.paint { bold := true, colour := some .green } colours "Suggestions:" ++ "\n"
    ++ suggestionsFrom colours d 1 d.suggestions

/-- A report for readers. -/
def prettyOne (colours showFixes : Bool) (d : Diagnostic) : String :=
  "\n  " ++ severitySign colours d.severity ++ " "
    ++ Style.paint { dimmed := true } colours (toString d.line ++ ":" ++ toString (d.column + 1)) ++ " "
    ++ severityWord colours d.severity ++ " [" ++ Style.paint { colour := some .cyan } colours d.ruleId ++ "]\n"
    ++ "    " ++ Style.paint { dimmed := true } colours "→" ++ " "
    ++ Style.paint { bold := true } colours d.ruleName ++ "\n"
    ++ "    " ++ d.text ++ "\n"
    ++ source colours d
    ++ (if showFixes then suggestions colours d else "")

/-- All reports about a file for readers. -/
def pretty (colours showFixes : Bool) (path : String) (ds : List Diagnostic) : String :=
  if ds.isEmpty then ""
  else "\n" ++ Style.paint { bold := true, underline := true } colours path ++ "\n"
    ++ String.join (ds.map (prettyOne colours showFixes)) ++ "\n"

/-! ### For tools -/

/-- A change that is offered, for tools. -/
def suggestionJson (s : Suggestion) : Json :=
  .ofEntries [("messageId", .string s.message.key), ("message", .string s.message.text),
    ("range", .array [.nat s.edit.range.start, .nat s.edit.range.stop]), ("text", .string s.edit.newText)]

/-- A report for tools. -/
def jsonOne (showFixes : Bool) (path : String) (d : Diagnostic) : Json :=
  .ofEntries [("file", .string path), ("line", .nat d.line), ("column", .nat d.column), ("end_line", .nat d.endLine),
    ("end_column", .nat d.endColumn), ("severity", .string d.severity.name.toLower), ("rule_id", .string d.ruleId),
    ("rule_name", .string d.ruleName), ("category", .string d.category.name), ("message_id", .string d.message.key),
    ("message", .string d.text),
    ("suggestions", .array (if showFixes then d.suggestions.map suggestionJson else [])),
    ("source", .text? d.snippet)]

/-- All reports about a file for tools. -/
def json (showFixes : Bool) (path : String) (ds : List Diagnostic) : Json := .array (ds.map (jsonOne showFixes path))

/-- The letter for a severity. -/
def severityLetter : Severity → String
  | .error => "E"
  | .warning => "W"
  | .info => "I"
  | .hint => "H"

/-- A report in one line. -/
def compactOne (path : String) (d : Diagnostic) : String :=
  path ++ ":" ++ toString d.line ++ ":" ++ toString (d.column + 1) ++ ": " ++ severityLetter d.severity ++ " ["
    ++ d.ruleId ++ "] " ++ d.text ++ "\n"

/-- All reports about a file, one in a line. -/
def compact (path : String) (ds : List Diagnostic) : String := String.join (ds.map (compactOne path))

/-! ### For build services -/

/-- The level of a severity. -/
def githubLevel : Severity → String
  | .error => "error"
  | .warning => "warning"
  | .info | .hint => "notice"

/-- A message on one line. -/
def oneLine (text : String) : String :=
  String.ofList (text.toList.flatMap fun c => if c = '\n' then "%0A".toList else [c])

/-- A report as a command of a build service. -/
def githubOne (path : String) (d : Diagnostic) : String :=
  "::" ++ githubLevel d.severity ++ " file=" ++ path ++ ",line=" ++ toString d.line ++ ",col=" ++ toString (d.column + 1)
    ++ ",endLine=" ++ toString d.endLine ++ ",endColumn=" ++ toString (d.endColumn + 1) ++ ",title=" ++ d.ruleId ++ "::"
    ++ oneLine d.text ++ "\n"

/-- All reports about a file as commands of a build service. -/
def github (path : String) (ds : List Diagnostic) : String := String.join (ds.map (githubOne path))

/-- All reports about a file in a form. -/
def render (format : Format) (colours showFixes : Bool) (path : String) (ds : List Diagnostic) : String :=
  match format with
  | .pretty => pretty colours showFixes path ds
  | .json => (json showFixes path ds).pretty 0
  | .compact => compact path ds
  | .github => github path ds

end Report

end WriteGuard
