import WriteGuard.Lint.Linter
import WriteGuard.Server.Publish

/-!
The documents that are open in an editor, and the reports that are published about them.
-/

namespace WriteGuard

/-- An open document. -/
structure Document where
  content : List Char
  version : Int
  languageId : String
  deriving DecidableEq, Repr, Inhabited

/-- The open documents by their addresses. -/
abbrev Documents := List (Url × Document)

namespace Documents

/-- The document at an address. -/
def get? (documents : Documents) (uri : Url) : Option Document :=
  (documents.find? fun entry => entry.1 = uri).map (·.2)

/-- The documents without the one at an address. -/
def erase (documents : Documents) (uri : Url) : Documents := documents.filter fun entry => entry.1 ≠ uri

/-- The documents with one at an address. -/
def insert (documents : Documents) (uri : Url) (d : Document) : Documents := (uri, d) :: documents.erase uri

end Documents

/-- What an editor says about its documents. -/
inductive DocumentEvent where
  | opened (uri : Url) (document : Document)
  /-- New texts of a document, each in the place of the one before. -/
  | changed (uri : Url) (version : Int) (texts : List (List Char))
  | saved (uri : Url)
  | closed (uri : Url)
  deriving DecidableEq, Repr

/-- The reports that are shown for a document from now on. -/
structure Publication where
  uri : Url
  diagnostics : List EditorDiagnostic
  version : Option Int
  deriving Inhabited

namespace DocumentEvent

/-- The document an event is about. -/
def uri : DocumentEvent → Url
  | .opened u _ | .changed u _ _ | .saved u | .closed u => u

/-- The open documents after an event. -/
def store (documents : Documents) : DocumentEvent → Documents
  | .opened uri d => documents.insert uri d
  | .changed uri version texts =>
    match documents.get? uri, texts.getLast? with
    | some d, some text => documents.insert uri { d with content := text, version := version }
    | _, _ => documents
  | .saved _ => documents
  | .closed uri => documents.erase uri

end DocumentEvent

namespace Document

/-- The extension that stands for a language. -/
def extensionOf? (languageId : String) : Option String :=
  match languageId with
  | "javascript" => some "js"
  | "javascriptreact" => some "jsx"
  | "typescript" => some "ts"
  | "typescriptreact" => some "tsx"
  | _ => none

/-- The path that tells the dialect of a document: its own, or else one with the extension of its language. -/
def lintPath (uri : Url) (languageId : String) : List Char :=
  let path := uri.filePath?.getD uri.path
  if (Source.Dialect.ofPath? path).isSome then path
  else match extensionOf? languageId with
    | some extension => Path.withExtension path extension.toList
    | none => path

/-- The reports about a document. -/
def publication (options : LintOptions) (uri : Url) (d : Document) : Publication :=
  ⟨uri, EditorDiagnostic.ofDiagnostics d.content (options.lint (lintPath uri d.languageId) d.content), some d.version⟩

end Document

namespace DocumentEvent

/-- What is published after an event, given the documents that are open then. A closed document has no reports left. -/
def publish (options : LintOptions) (documents : Documents) (e : DocumentEvent) : Option Publication :=
  match e with
  | .closed uri => some ⟨uri, [], none⟩
  | e => (documents.get? e.uri).map (Document.publication options e.uri)

end DocumentEvent

end WriteGuard
