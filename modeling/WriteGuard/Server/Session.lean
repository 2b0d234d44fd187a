import WriteGuard.Config.Discovery
import WriteGuard.Server.CodeAction
import WriteGuard.Server.Documents

/-!
A session with an editor: its messages one after the other, and what the server answers and sends.
-/

namespace WriteGuard

/-- A message of the editor. One with an identifier is a request and asks for a response. -/
structure Incoming where
  id : Option Json
  method : String
  params : Option Json
  deriving Inhabited

namespace Incoming

/-- Reads a message. Parameters that are null count as missing. -/
def ofJson (j : Json) : Incoming where
  id := j.get? "id"
  method := ((j.get? "method").bind Json.str?).getD ""
  params := match j.get? "params" with
    | some .null => none
    | other => other

end Incoming

/-- Why a request gets no result. -/
inductive Refusal where
  /-- The session has not begun. -/
  | notReady
  /-- The request has no place in the session any more. -/
  | misplaced
  /-- The protocol has no such method. -/
  | unknownMethod (name : String)
  /-- The server does not offer this method of the protocol. -/
  | notOffered
  | invalidParameters (words : String)
  deriving DecidableEq, Repr

namespace Refusal

/-- The number of a refusal. -/
def code : Refusal → Int
  | .notReady => -32002
  | .misplaced => -32600
  | .unknownMethod _ | .notOffered => -32601
  | .invalidParameters _ => -32602

/-- The words of a refusal. -/
def message : Refusal → String
  | .notReady => "Server not initialized"
  | .misplaced => "Invalid request"
  | .unknownMethod _ | .notOffered => "Method not found"
  | .invalidParameters words => words

/-- A refusal as it is sent. -/
def toJson (r : Refusal) : Json :=
  .ofEntries ([("code", .number r.code 0), ("message", .string r.message)] ++ match r with
    | .unknownMethod name => [("data", .string name)]
    | _ => [])

end Refusal

/-- What the server sends of its own accord. -/
inductive Outgoing where
  /-- Words for the log of the editor, with their kind: 2 is a warning, 3 is for information. -/
  | log (kind : Nat) (words : String)
  | publish (publication : Publication)

namespace Outgoing

/-- A message as it is sent. -/
def toJson (o : Outgoing) : Json :=
  let (method, params) : String × List (String × Json) := match o with
    | .log kind words => ("window/logMessage", [("type", .nat kind), ("message", .string words)])
    | .publish p =>
      ("textDocument/publishDiagnostics",
        [("uri", .string (String.ofList p.uri.text)), ("diagnostics", .array (p.diagnostics.map EditorDiagnostic.toJson))]
        ++ (p.version.map fun v => ("version", Json.number v 0)).toList)
  .ofEntries [("jsonrpc", .string "2.0"), ("method", .string method), ("params", .ofEntries params)]

end Outgoing

/-! ### Parameters -/

/-- The parameters of a message. -/
def Incoming.read {α : Type} (m : Incoming) (decoder : Decoder α) : Except String α :=
  match m.params with
  | some j => decoder j
  | none => .error "Missing params field"

/-- The address of a document that parameters name. -/
def documentDecoder : Decoder Url := Decoder.record "struct TextDocumentIdentifier" ["uri"] fun j => do
  let uri ← Decoder.field? j "uri" Decoder.url
  Decoder.required "uri" uri

namespace DocumentEvent

/-- The parameters of a document that is opened. -/
def openedDecoder : Decoder DocumentEvent := Decoder.record "struct DidOpenTextDocumentParams" ["textDocument"] fun j => do
  let event ← Decoder.field? j "textDocument"
    (Decoder.record "struct TextDocumentItem" ["uri", "languageId", "version", "text"] fun d => do
      let languageId ← Decoder.field? d "languageId" Decoder.string
      let text ← Decoder.field? d "text" Decoder.string
      let uri ← Decoder.field? d "uri" Decoder.url
      let version ← Decoder.field? d "version" Decoder.i32
      let uri ← Decoder.required "uri" uri
      let languageId ← Decoder.required "languageId" languageId
      let version ← Decoder.required "version" version
      let text ← Decoder.required "text" text
      return opened uri ⟨text.toList, version, languageId⟩)
  Decoder.required "textDocument" event

/-- A new text of a document. A range may come with it, and the text is the whole one all the same. -/
def changeDecoder : Decoder (List Char) :=
  Decoder.record "struct TextDocumentContentChangeEvent" ["range", "rangeLength", "text"] fun j => do
    let _ ← Decoder.optionalField j "range" Range.decoder
    let _ ← Decoder.optionalField j "rangeLength" Decoder.u32
    let text ← Decoder.field? j "text" Decoder.string
    return (← Decoder.required "text" text).toList

/-- The parameters of a document that is changed. -/
def changedDecoder : Decoder DocumentEvent :=
  Decoder.record "struct DidChangeTextDocumentParams" ["textDocument", "contentChanges"] fun j => do
    let texts ← Decoder.field? j "contentChanges" (Decoder.list changeDecoder)
    let document ← Decoder.field? j "textDocument"
      (Decoder.record "struct VersionedTextDocumentIdentifier" ["uri", "version"] fun d => do
        let uri ← Decoder.field? d "uri" Decoder.url
        let version ← Decoder.field? d "version" Decoder.i32
        return (← Decoder.required "uri" uri, ← Decoder.required "version" version))
    let (uri, version) ← Decoder.required "textDocument" document
    return changed uri version (← Decoder.required "contentChanges" texts)

/-- The parameters of a document that is saved. -/
def savedDecoder : Decoder DocumentEvent :=
  Decoder.record "struct DidSaveTextDocumentParams" ["textDocument", "text"] fun j => do
    let _ ← Decoder.optionalField j "text" Decoder.string
    let uri ← Decoder.field? j "textDocument" documentDecoder
    return saved (← Decoder.required "textDocument" uri)

/-- The parameters of a document that is closed. -/
def closedDecoder : Decoder DocumentEvent :=
  Decoder.record "struct DidCloseTextDocumentParams" ["textDocument"] fun j => do
    let uri ← Decoder.field? j "textDocument" documentDecoder
    return closed (← Decoder.required "textDocument" uri)

/-- The parameters of the method for an event. -/
def decoder? (method : String) : Option (Decoder DocumentEvent) :=
  match method with
  | "textDocument/didOpen" => some openedDecoder
  | "textDocument/didChange" => some changedDecoder
  | "textDocument/didSave" => some savedDecoder
  | "textDocument/didClose" => some closedDecoder
  | _ => none

end DocumentEvent

/-- The parameters of a request for fixes: the document, and the reports to fix. -/
def fixesDecoder : Decoder (Url × List EditorDiagnostic) := fun j =>
  match j with
  | .object _ => do
    let context ← Decoder.field? j "context"
      (Decoder.record "struct CodeActionContext" ["diagnostics", "only", "triggerKind"] fun c => do
        let diagnostics ← Decoder.field? c "diagnostics" (Decoder.list EditorDiagnostic.decoder)
        let _ ← Decoder.optionalField c "only" (Decoder.list Decoder.string)
        let _ ← Decoder.optionalField c "triggerKind" Decoder.i32
        Decoder.required "diagnostics" diagnostics)
    let range ← Decoder.field? j "range" Range.decoder
    let uri ← Decoder.field? j "textDocument" documentDecoder
    let uri ← Decoder.required "textDocument" uri
    let _ ← Decoder.required "range" range
    return (uri, ← Decoder.required "context" context)
  | _ => Decoder.unexpected j "struct CodeActionParams"

/-- The parameters at the beginning: the address of the work space, its first folder before its root. -/
def rootDecoder : Decoder (Option Url) := fun j =>
  match j with
  | .object _ => do
    let capabilities ← Decoder.field? j "capabilities" fun c => match c with
      | .object _ => .ok ()
      | _ => Decoder.unexpected c "struct ClientCapabilities"
    let _ ← Decoder.optionalField j "locale" Decoder.string
    let _ ← Decoder.optionalField j "processId" Decoder.u32
    let _ ← Decoder.optionalField j "rootPath" Decoder.string
    let root ← Decoder.optionalField j "rootUri" Decoder.url
    let folders ← Decoder.optionalField j "workspaceFolders"
      (Decoder.list (Decoder.record "struct WorkspaceFolder" ["uri", "name"] fun f => do
        let name ← Decoder.field? f "name" Decoder.string
        let uri ← Decoder.field? f "uri" Decoder.url
        let uri ← Decoder.required "uri" uri
        let _ ← Decoder.required "name" name
        return uri))
    let _ ← Decoder.required "capabilities" capabilities
    return (folders.bind List.head?).or root
  | _ => Decoder.unexpected j "struct InitializeParams"

/-! ### The session -/

/-- The time of life of a session. -/
inductive Phase where
  | fresh
  | ready
  | shutDown
  | exited
  deriving DecidableEq, Repr, Inhabited

/-- A session with an editor. -/
structure Session where
  phase : Phase := .fresh
  options : LintOptions := {}
  documents : Documents := []

/-- What comes of a message. -/
structure Reaction where
  session : Session
  response : Option Json := none
  sent : List Outgoing := []

namespace Session

/-- The name and version of the server and what it offers. -/
def greeting : Json :=
  .ofEntries [
    ("capabilities", .ofEntries [
      ("codeActionProvider", .ofEntries [
        ("codeActionKinds", .array [.string "quickfix"]), ("resolveProvider", .boolean false)]),
      ("textDocumentSync", .ofEntries [
        ("change", .nat 1), ("openClose", .boolean true), ("save", .ofEntries [("includeText", .boolean false)]),
        ("willSave", .boolean false), ("willSaveWaitUntil", .boolean false)])]),
    ("serverInfo", .ofEntries [("name", .string "firestore-lint-lsp"), ("version", .string "0.1.0")])]

/-- Requests of the protocol that the server does not offer. -/
def notOffered : List String := [
  "textDocument/willSaveWaitUntil", "textDocument/declaration", "textDocument/definition",
  "textDocument/typeDefinition", "textDocument/implementation", "textDocument/references",
  "textDocument/prepareCallHierarchy", "callHierarchy/incomingCalls", "callHierarchy/outgoingCalls",
  "textDocument/prepareTypeHierarchy", "typeHierarchy/supertypes", "typeHierarchy/subtypes",
  "textDocument/documentHighlight", "textDocument/documentLink", "documentLink/resolve", "textDocument/hover",
  "textDocument/codeLens", "codeLens/resolve", "textDocument/foldingRange", "textDocument/selectionRange",
  "textDocument/documentSymbol", "textDocument/semanticTokens/full", "textDocument/semanticTokens/full/delta",
  "textDocument/semanticTokens/range", "textDocument/inlineValue", "textDocument/inlayHint", "inlayHint/resolve",
  "textDocument/moniker", "textDocument/completion", "completionItem/resolve", "textDocument/diagnostic",
  "workspace/diagnostic", "textDocument/signatureHelp", "codeAction/resolve", "textDocument/documentColor",
  "textDocument/colorPresentation", "textDocument/formatting", "textDocument/rangeFormatting",
  "textDocument/onTypeFormatting", "textDocument/rename", "textDocument/prepareRename",
  "textDocument/linkedEditingRange", "workspace/symbol", "workspaceSymbol/resolve", "workspace/willCreateFiles",
  "workspace/willRenameFiles", "workspace/willDeleteFiles", "workspace/executeCommand"]

/-- Notices of the protocol that change nothing. -/
def ignored : List String := [
  "$/cancelRequest", "textDocument/willSave", "workspace/didChangeConfiguration",
  "workspace/didChangeWorkspaceFolders", "workspace/didCreateFiles", "workspace/didRenameFiles",
  "workspace/didDeleteFiles", "workspace/didChangeWatchedFiles"]

/-- Nothing comes of a message. -/
def silent (s : Session) : Reaction := { session := s }

/-- The response to a request; a message that is no request gets none. -/
def respond (m : Incoming) (answer : Except Refusal Json) : Option Json :=
  m.id.map fun id => .ofEntries [("jsonrpc", .string "2.0"), ("id", id), match answer with
    | .ok result => ("result", result)
    | .error refusal => ("error", refusal.toJson)]

/-- A request is refused. -/
def refuse (s : Session) (m : Incoming) (r : Refusal) : Reaction :=
  { session := s, response := respond m (.error r) }

/-- Why a message of the protocol has to wait or comes too late. -/
def untimely? (s : Session) : Option Refusal :=
  match s.phase with
  | .fresh => some .notReady
  | .ready => none
  | .shutDown | .exited => some .misplaced

/-- The session with the settings for a directory. With settings that are wrong the linter stays as it is, and a warning
is sent. -/
def configure (disk : Disk) (s : Session) (root : List Char) : Session × List Outgoing :=
  match Project.discover disk root with
  | .ok project => ({ s with options := { project } }, [])
  | .error e => (s, [.log 2 ("firestore-lint: invalid configuration: " ++ e.message)])

/-- The beginning of a session at the root of a work space. -/
def start (disk : Disk) (s : Session) (root : Option Url) : Session × List Outgoing :=
  let (s, sent) := match root.bind Url.filePath? with
    | some path => configure disk s path
    | none => (s, [])
  ({ s with phase := .ready }, sent)

/-- An event about a document: the documents are updated, and reports about it are published. -/
def receive (s : Session) (e : DocumentEvent) : Session × List Publication :=
  let documents := e.store s.documents
  ({ s with documents }, (e.publish s.options documents).toList)

/-- The request that begins a session. Only the first one counts. -/
def handleStart (disk : Disk) (s : Session) (m : Incoming) : Reaction :=
  if s.phase ≠ .fresh then s.refuse m .misplaced
  else if m.id.isNone then s.silent
  else match m.read rootDecoder with
    | .error words => s.refuse m (.invalidParameters words)
    | .ok root =>
      let (s, sent) := s.start disk root
      { session := s, response := respond m (.ok greeting), sent }

/-- The request that ends the work of a session. -/
def handleShutdown (s : Session) (m : Incoming) : Reaction :=
  match s.untimely? with
  | some r => s.refuse m r
  | none =>
    let s := { s with phase := .shutDown }
    match m.params with
    | some j => s.refuse m (.invalidParameters ("Unexpected params: " ++ j.compact))
    | none => { session := s, response := respond m (.ok .null) }

/-- A notice that wants no response. -/
def handleNotice (s : Session) (m : Incoming) (act : Session → Reaction) : Reaction :=
  match s.untimely? with
  | some r => s.refuse m r
  | none => if m.id.isSome then s.silent else act s

/-- A request that gets a result. -/
def handleRequest (s : Session) (m : Incoming) (answer : Except Refusal Json) : Reaction :=
  match s.untimely? with
  | some r => s.refuse m r
  | none => { session := s, response := respond m answer }

/-- The answer to a request for fixes. -/
def fixes (m : Incoming) : Except Refusal Json :=
  match m.read fixesDecoder with
  | .error words => .error (.invalidParameters words)
  | .ok (uri, diagnostics) =>
    match QuickFix.ofDiagnostics (String.ofList uri.text) diagnostics with
    | [] => .ok .null
    | found => .ok (.array (found.map QuickFix.toJson))

/-- What comes of a message. -/
def handle (disk : Disk) (s : Session) (m : Incoming) : Reaction :=
  if s.phase = .exited then s.silent
  else match m.method with
    | "initialize" => s.handleStart disk m
    | "shutdown" => s.handleShutdown m
    | "exit" => { session := { s with phase := .exited } }
    | "initialized" => s.handleNotice m fun s =>
      match m.params with
      | some (.object _) => { session := s, sent := [.log 3 "firestore-lint ready"] }
      | _ => s.silent
    | "textDocument/codeAction" => s.handleRequest m (fixes m)
    | method =>
      match DocumentEvent.decoder? method with
      | some decoder => s.handleNotice m fun s =>
        match m.read decoder with
        | .error _ => s.silent
        | .ok event =>
          let (s, published) := s.receive event
          { session := s, sent := published.map .publish }
      | none =>
        if ignored.contains method then s.handleNotice m silent
        else if notOffered.contains method then s.handleRequest m (.error (match m.params with
          | none => .invalidParameters "Missing params field"
          | some _ => .notOffered))
        else if "$/".toList.isPrefixOf method.toList then s.silent
        else s.refuse m (.unknownMethod method)

end Session

end WriteGuard
