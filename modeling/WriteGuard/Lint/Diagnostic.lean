import WriteGuard.Lint.Directive
import WriteGuard.Text.Lines
import WriteGuard.Write.Finding

/-!
Diagnostics: findings with their lines and columns and with the line of source they begin on. A silenced finding makes no
diagnostic.
-/

namespace WriteGuard

/-- A report about a place in a file. -/
structure Diagnostic where
  /-- The line it begins on, counted from one, and the column in bytes, counted from zero. -/
  line : Nat
  column : Nat
  endLine : Nat
  endColumn : Nat
  span : Span
  severity : Severity
  ruleId : String
  ruleName : String
  category : Category
  message : Message
  /-- The words of the report. -/
  text : String
  suggestions : List Suggestion
  /-- The line of source it begins on. -/
  snippet : Option String
  deriving DecidableEq, Repr, Inhabited

namespace Diagnostic

/-- A finding with its place in the lines of a text. -/
def ofFinding (content : List Char) (f : Finding) : Diagnostic :=
  let lines := Lines.ofText content
  let (line, column) := lines.lineCol f.span.start
  let (endLine, endColumn) := lines.lineCol f.span.stop
  { line, column, endLine, endColumn, span := f.span, severity := f.rule.severity, ruleId := f.rule.id,
    ruleName := f.rule.name, category := f.rule.category, message := f.message, text := f.message.text,
    suggestions := f.suggestions, snippet := some (String.ofList (lines.lineText content line)) }

/-- The reports about a file that no directive silences. -/
def ofFile (objects : List String) (file : SourceFile) : List Diagnostic :=
  let directives := Directive.ofText file.content
  ((Finding.ofFile objects file).map (ofFinding file.content)).filter fun d =>
    !Directive.silences directives d.line d.ruleId

/-- A report in one line. -/
def display (d : Diagnostic) : String :=
  s!"{d.line}:{d.column}: {d.severity.name} [{d.ruleId}] {d.text}"

end Diagnostic

end WriteGuard
