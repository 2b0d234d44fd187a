import WriteGuard.Server.Documents

/-!
Handlers of events that are under way at the same time. A handler updates the documents, looks its document up, and
publishes the reports about what it found. Each of these steps is done at once, but between two steps of one handler any
number of steps of others may come. The options do not change meanwhile.
-/

namespace WriteGuard

/-- A handler of an event, by the step it takes next. -/
inductive Handler where
  /-- It updates the documents. -/
  | storing (event : DocumentEvent)
  /-- It looks its document up. -/
  | looking (uri : Url)
  /-- It publishes the reports about the document as it was found. -/
  | publishing (uri : Url) (document : Document)
  /-- It takes back the reports about a document that was closed. -/
  | clearing (uri : Url)
  | done
  deriving DecidableEq, Repr

namespace Handler

/-- What comes after the update of the documents: one that was closed is not looked up. -/
def afterStoring : DocumentEvent → Handler
  | .closed uri => .clearing uri
  | e => .looking e.uri

/-- What comes after a document is looked up: one that is not there ends the work. -/
def afterLooking (documents : Documents) (uri : Url) : Handler :=
  match documents.get? uri with
  | some d => .publishing uri d
  | none => .done

/-- One step of a handler: the handler and the documents after it, and what it publishes. -/
def advance (options : LintOptions) (documents : Documents) : Handler → Handler × Documents × Option Publication
  | .storing e => (afterStoring e, e.store documents, none)
  | .looking uri => (afterLooking documents uri, documents, none)
  | .publishing uri d => (.done, documents, some (d.publication options uri))
  | .clearing uri => (.done, documents, some ⟨uri, [], none⟩)
  | .done => (.done, documents, none)

end Handler

/-- The open documents, all handlers by the order of their events, and all that they have published so far. -/
structure Pool where
  documents : Documents := []
  handlers : List Handler := []
  published : List Publication := []

/-- What happens next: an event comes, or a handler takes a step. -/
inductive Turn where
  | comes (event : DocumentEvent)
  | advances (handler : Nat)
  deriving DecidableEq, Repr

namespace Pool

/-- The pool after one more turn. -/
def step (options : LintOptions) (pool : Pool) : Turn → Pool
  | .comes e => { pool with handlers := pool.handlers ++ [.storing e] }
  | .advances i =>
    match pool.handlers[i]? with
    | none => pool
    | some h =>
      let (h, documents, publication) := h.advance options pool.documents
      ⟨documents, pool.handlers.set i h, pool.published ++ publication.toList⟩

/-- The pool after turns in any order. -/
def run (options : LintOptions) (turns : List Turn) : Pool := turns.foldl (step options) {}

end Pool

end WriteGuard
