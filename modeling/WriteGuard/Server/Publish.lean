import WriteGuard.Lint.Diagnostic
import WriteGuard.Server.Message

/-!
Reports as an editor shows them. The changes that are offered with a report travel in its data.
-/

namespace WriteGuard

/-- A change of a document at a range. -/
structure RangeEdit where
  range : Range
  newText : String
  deriving DecidableEq, Repr, Inhabited

namespace RangeEdit

/-- A change as the editor sends it. -/
def decoder : Decoder RangeEdit := Decoder.record "a change" ["range", "newText"] fun j => do
  let newText ← Decoder.field? j "newText" Decoder.string
  let range ← Decoder.field? j "range" Range.decoder
  return ⟨← Decoder.required "range" range, ← Decoder.required "newText" newText⟩

/-- A change as it is sent. -/
def toJson (e : RangeEdit) : Json := .ofEntries [("range", e.range.toJson), ("newText", .string e.newText)]

end RangeEdit

/-- A change that is offered with a report, with its title. -/
structure Offer where
  title : String
  edit : RangeEdit
  deriving DecidableEq, Repr, Inhabited

namespace Offer

/-- An offer as the editor sends it back. -/
def decoder : Decoder Offer := Decoder.record "an offer" ["title", "edit"] fun j => do
  let edit ← Decoder.field? j "edit" RangeEdit.decoder
  let title ← Decoder.field? j "title" Decoder.string
  return ⟨← Decoder.required "title" title, ← Decoder.required "edit" edit⟩

/-- An offer as it is sent. -/
def toJson (o : Offer) : Json := .ofEntries [("title", .string o.title), ("edit", o.edit.toJson)]

/-- A suggestion about a text as an offer. -/
def ofSuggestion (lines : Lines) (content : List Char) (s : Suggestion) : Offer :=
  ⟨s.message.text, Range.ofSpan lines content s.edit.range, s.edit.newText⟩

end Offer

/-- A report as an editor holds it. -/
structure EditorDiagnostic where
  range : Range
  severity : Option Int := none
  /-- A text or a number. -/
  code : Option Json := none
  codeDescription : Option Json := none
  source : Option String := none
  message : String
  relatedInformation : Option Json := none
  tags : Option Json := none
  data : Option Json := none
  deriving Inhabited

namespace EditorDiagnostic

/-- The source of every report of this server. -/
def serverSource : String := "firestore-lint"

/-- The number of a severity. -/
def severityNumber : Severity → Int
  | .error => 1
  | .warning => 2
  | .info => 3
  | .hint => 4

/-- A report about a text for an editor. -/
def ofDiagnostic (lines : Lines) (content : List Char) (d : Diagnostic) : EditorDiagnostic :=
  { range := Range.ofSpan lines content d.span
    severity := some (severityNumber d.severity)
    code := some (.string d.ruleId)
    source := some serverSource
    message := d.text
    data := if d.suggestions.isEmpty then none
      else some (.array (d.suggestions.map fun s => (Offer.ofSuggestion lines content s).toJson)) }

/-- Reports about a text for an editor. -/
def ofDiagnostics (content : List Char) (ds : List Diagnostic) : List EditorDiagnostic :=
  ds.map (ofDiagnostic (Lines.ofText content) content)

/-- A report as it is sent; parts that are missing are left out. -/
def toJson (d : EditorDiagnostic) : Json :=
  let part (name : String) (value : Option Json) : List (String × Json) := value.toList.map (name, ·)
  .ofEntries (("range", d.range.toJson) :: ("message", .string d.message) ::
    part "severity" (d.severity.map (.number · 0)) ++ part "code" d.code ++ part "codeDescription" d.codeDescription
    ++ part "source" (d.source.map .string) ++ part "relatedInformation" d.relatedInformation ++ part "tags" d.tags
    ++ part "data" d.data)

/-- The code of a report: a number or a text. -/
def codeDecoder : Decoder Json
  | .string s => .ok (.string s)
  | j => match Decoder.i32 j with
    | .ok m => .ok (.number m 0)
    | .error _ => .error "data did not match any variant of untagged enum NumberOrString"

/-- Where the code of a report is described. -/
def descriptionDecoder : Decoder Json := Decoder.record "struct CodeDescription" ["href"] fun j => do
  let href ← Decoder.field? j "href" Decoder.url
  let href ← Decoder.required "href" href
  return .ofEntries [("href", .string (String.ofList href.text))]

/-- A place in a document. -/
def locationDecoder : Decoder Json := Decoder.record "struct Location" ["uri", "range"] fun j => do
  let range ← Decoder.field? j "range" Range.decoder
  let uri ← Decoder.field? j "uri" Decoder.url
  let uri ← Decoder.required "uri" uri
  let range ← Decoder.required "range" range
  return .ofEntries [("uri", .string (String.ofList uri.text)), ("range", range.toJson)]

/-- A place that a report refers to. -/
def relatedDecoder : Decoder Json :=
  Decoder.record "struct DiagnosticRelatedInformation" ["location", "message"] fun j => do
    let location ← Decoder.field? j "location" locationDecoder
    let message ← Decoder.field? j "message" Decoder.string
    let location ← Decoder.required "location" location
    let message ← Decoder.required "message" message
    return .ofEntries [("location", location), ("message", .string message)]

/-- A report as the editor sends it back. -/
def decoder : Decoder EditorDiagnostic := fun j =>
  match j with
  | .object _ => do
    let code ← Decoder.optionalField j "code" codeDecoder
    let codeDescription ← Decoder.optionalField j "codeDescription" descriptionDecoder
    let data ← Decoder.optionalField j "data" (fun v => .ok v)
    let message ← Decoder.field? j "message" Decoder.string
    let range ← Decoder.field? j "range" Range.decoder
    let related ← Decoder.optionalField j "relatedInformation" (Decoder.list relatedDecoder)
    let severity ← Decoder.optionalField j "severity" Decoder.i32
    let source ← Decoder.optionalField j "source" Decoder.string
    let tags ← Decoder.optionalField j "tags" (Decoder.list Decoder.i32)
    let range ← Decoder.required "range" range
    let message ← Decoder.required "message" message
    return {
      range, severity, code, codeDescription, source, message, data
      relatedInformation := related.map .array
      tags := tags.map fun ts => .array (ts.map (.number · 0)) }
  | _ => Decoder.unexpected j "struct Diagnostic"

end EditorDiagnostic

end WriteGuard
