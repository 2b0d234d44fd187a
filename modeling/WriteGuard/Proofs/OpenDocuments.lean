import Mathlib.Data.List.Forall2
import WriteGuard.Server.Session

/-!
Documents over a whole session. Every event about a document leaves the editor with reports that fit what is stored: an
open document is stored as it was last opened or changed, and what was published last about it are the reports of that
text; a closed document is not stored, and what was published last about it is empty. Events about other documents have
no part in this.
-/

namespace WriteGuard

namespace Documents

theorem get?_erase (documents : Documents) (uri other : Url) :
    (documents.erase uri).get? other = if uri = other then none else documents.get? other := by
  rw [erase, get?, List.find?_filter]
  by_cases h : uri = other
  · simp [h]
  · have hkeep : ∀ entry : Url × Document, entry.1 ≠ uri ∧ entry.1 = other ↔ entry.1 = other :=
      fun entry => and_iff_right_of_imp fun hother heq => h (heq.symm.trans hother)
    simp only [decide_eq_true_eq, hkeep, if_neg h, get?]

theorem get?_insert (documents : Documents) (uri other : Url) (d : Document) :
    (documents.insert uri d).get? other = if uri = other then some d else documents.get? other := by
  by_cases h : uri = other
  · simp [insert, get?, h]
  · have herase := get?_erase documents uri other
    simp only [get?, if_neg h] at herase
    simp [insert, get?, h, herase]

end Documents

/-! ### What events say -/

namespace DocumentEvent

/-- The text and the version that an event gives its document. -/
def textAndVersion? : DocumentEvent → Option (List Char × Int)
  | .opened _ d => some (d.content, d.version)
  | .changed _ version texts => texts.getLast?.map (·, version)
  | .saved _ | .closed _ => none

/-- The language that an event gives its document. -/
def language? : DocumentEvent → Option String
  | .opened _ d => some d.languageId
  | .changed .. | .saved _ | .closed _ => none

/-- Whether an event opens its document or closes it. -/
def opens? : DocumentEvent → Option Bool
  | .opened .. => some true
  | .closed _ => some false
  | .changed .. | .saved _ => none

/-- The last answer that events about a document give to a question. -/
def last? {α : Type} (uri : Url) (question : DocumentEvent → Option α) (events : List DocumentEvent) : Option α :=
  ((events.filter fun e => e.uri = uri).filterMap question).getLast?

theorem last?_concat {α : Type} (uri : Url) (question : DocumentEvent → Option α) (events : List DocumentEvent)
    (e : DocumentEvent) : last? uri question (events ++ [e]) =
      if e.uri = uri then (question e).or (last? uri question events) else last? uri question events := by
  by_cases h : e.uri = uri
  · cases hq : question e <;> simp [last?, h, hq]
  · simp [last?, h]

/-- An event leaves all other documents as they are. -/
theorem get?_store_of_ne {e : DocumentEvent} {other : Url} (h : e.uri ≠ other) (documents : Documents) :
    (e.store documents).get? other = documents.get? other := by
  cases e with
  | opened u d => exact (Documents.get?_insert documents u other d).trans (if_neg h)
  | changed u version texts =>
    rw [store]
    split
    · exact (Documents.get?_insert documents u other _).trans (if_neg h)
    · rfl
  | saved u => rfl
  | closed u => exact (Documents.get?_erase documents u other).trans (if_neg h)

/-- What an event makes of its own document. -/
theorem get?_store (e : DocumentEvent) (documents : Documents) :
    (e.store documents).get? e.uri = match e with
      | .opened _ d => some d
      | .changed u version texts => (documents.get? u).map fun d =>
          match texts.getLast? with
          | some text => { d with content := text, version }
          | none => d
      | .saved u => documents.get? u
      | .closed _ => none := by
  cases e with
  | opened u d => exact (Documents.get?_insert documents u u d).trans (if_pos rfl)
  | changed u version texts =>
    cases hd : documents.get? u <;> cases ht : texts.getLast? <;> simp [store, uri, hd, ht, Documents.get?_insert]
  | saved u => rfl
  | closed u => exact (Documents.get?_erase documents u u).trans (if_pos rfl)

/-- A document that is not stored is only stored by an event that opens it. -/
theorem get?_store_of_none {e : DocumentEvent} {documents : Documents} (hopens : e.opens? ≠ some true)
    (h : documents.get? e.uri = none) : (e.store documents).get? e.uri = none := by
  rw [get?_store]
  cases e with
  | opened u d => exact absurd rfl hopens
  | changed u version texts => exact Option.map_eq_none_iff.mpr h
  | saved u => exact h
  | closed u => rfl

/-- A stored document stays stored under an event that neither opens nor closes it, in its language, with the text and
the version that the event gives it, if it gives any. -/
theorem get?_store_of_some {e : DocumentEvent} {documents : Documents} {d : Document} (hopens : e.opens? = none)
    (h : documents.get? e.uri = some d) : ∃ d', (e.store documents).get? e.uri = some d' ∧
      e.textAndVersion?.or (some (d.content, d.version)) = some (d'.content, d'.version) ∧
      d'.languageId = d.languageId := by
  rw [get?_store]
  cases e with
  | opened u d => cases hopens
  | changed u version texts =>
    have hget : documents.get? u = some d := h
    cases htext : texts.getLast? <;> simp [textAndVersion?, hget, htext]
  | saved u => exact ⟨d, h, rfl, rfl⟩
  | closed u => cases hopens

/-- Whatever event does not close its document publishes the reports of what is stored then. -/
theorem publish_eq {e : DocumentEvent} (h : e.opens? ≠ some false) (options : LintOptions) (documents : Documents) :
    e.publish options documents = (documents.get? e.uri).map (Document.publication options e.uri) := by
  cases e with
  | closed u => exact absurd rfl h
  | _ => rfl

/-- Everything that an event publishes is about its own document. -/
theorem uri_of_publish {options : LintOptions} {documents : Documents} {e : DocumentEvent} {p : Publication}
    (h : e.publish options documents = some p) : p.uri = e.uri := by
  cases e with
  | closed uri =>
    simp only [publish, Option.some.injEq] at h
    rw [← h]
    rfl
  | _ =>
    simp only [publish, Option.map_eq_some_iff] at h
    obtain ⟨d, -, rfl⟩ := h
    rfl

end DocumentEvent

/-! ### What an editor was told last -/

namespace Publication

/-- What was published last about a document. -/
def last? (uri : Url) (published : List Publication) : Option Publication :=
  (published.filter fun p => p.uri = uri).getLast?

/-- What an event publishes is from then on what was published last about its document. -/
theorem last?_publish (options : LintOptions) (documents : Documents) (e : DocumentEvent)
    (published : List Publication) : last? e.uri (published ++ (e.publish options documents).toList) =
      (e.publish options documents).or (last? e.uri published) := by
  cases hp : e.publish options documents with
  | none => simp [last?]
  | some p => simp [last?, DocumentEvent.uri_of_publish hp]

end Publication

open DocumentEvent (last? opens? textAndVersion? language?)

/-- What is stored and published about a document after events. -/
structure Tracks (options : LintOptions) (uri : Url) (events : List DocumentEvent) (documents : Documents)
    (published : List Publication) : Prop where
  whileOpen : last? uri opens? events = some true → ∃ d, documents.get? uri = some d ∧
    last? uri textAndVersion? events = some (d.content, d.version) ∧ last? uri language? events = some d.languageId ∧
    Publication.last? uri published = some (d.publication options uri)
  onceClosed : last? uri opens? events = some false →
    documents.get? uri = none ∧ Publication.last? uri published = some ⟨uri, [], none⟩
  neverOpened : (∀ d, .opened uri d ∉ events) →
    documents.get? uri = none ∧ ∀ p ∈ published, p.uri = uri → p.diagnostics = []

namespace Tracks

variable {options : LintOptions} {uri : Url} {events : List DocumentEvent} {documents : Documents}
  {published : List Publication}

/-- At the start nothing is stored and nothing is published. -/
theorem start : Tracks options uri [] [] [] where
  whileOpen h := by cases h
  onceClosed h := by cases h
  neverOpened _ := ⟨rfl, by simp⟩

/-- An event about another document changes nothing. -/
theorem other (h : Tracks options uri events documents published) {e : DocumentEvent} (hne : e.uri ≠ uri) :
    Tracks options uri (events ++ [e]) (e.store documents)
      (published ++ (e.publish options (e.store documents)).toList) := by
  have hpublished : (published ++ (e.publish options (e.store documents)).toList).filter (fun p => p.uri = uri) =
      published.filter fun p => p.uri = uri := by
    rw [List.filter_append, List.append_right_eq_self, List.filter_eq_nil_iff]
    intro p hp
    simpa [DocumentEvent.uri_of_publish (Option.mem_toList.mp hp)] using hne
  refine ⟨?_, ?_, ?_⟩
  · simpa [DocumentEvent.last?_concat, hne, DocumentEvent.get?_store_of_ne hne, Publication.last?, hpublished] using
      h.whileOpen
  · simpa [DocumentEvent.last?_concat, hne, DocumentEvent.get?_store_of_ne hne, Publication.last?, hpublished] using
      h.onceClosed
  · intro hnever
    obtain ⟨hget, hempty⟩ := h.neverOpened fun d hd => hnever d (List.mem_append_left _ hd)
    refine ⟨by rw [DocumentEvent.get?_store_of_ne hne, hget], fun p hp huri => hempty p ?_ huri⟩
    have hmem : p ∈ published.filter fun p => p.uri = uri := by
      rw [← hpublished]
      exact List.mem_filter.mpr ⟨hp, by simpa using huri⟩
    exact (List.mem_filter.mp hmem).1

/-- An event that opens the document. -/
theorem opened {e : DocumentEvent} (huri : e.uri = uri) (hopens : e.opens? = some true) :
    Tracks options uri (events ++ [e]) (e.store documents)
      (published ++ (e.publish options (e.store documents)).toList) := by
  cases e with
  | opened u d =>
    obtain rfl : u = uri := huri
    have hget : ((DocumentEvent.opened u d).store documents).get? u = some d :=
      DocumentEvent.get?_store (.opened u d) documents
    refine ⟨fun _ => ⟨d, hget, ?_, ?_, ?_⟩, fun hclosed => ?_, fun hnever => ?_⟩
    · simp [DocumentEvent.last?_concat, DocumentEvent.uri, textAndVersion?]
    · simp [DocumentEvent.last?_concat, DocumentEvent.uri, language?]
    · refine (Publication.last?_publish options _ (.opened u d) published).trans ?_
      simp [DocumentEvent.publish, DocumentEvent.uri, hget]
    · simp [DocumentEvent.last?_concat, DocumentEvent.uri, opens?] at hclosed
    · exact absurd (List.mem_append_right events List.mem_cons_self) (hnever d)
  | _ => cases hopens

/-- An event that closes the document. -/
theorem closed (h : Tracks options uri events documents published) {e : DocumentEvent} (huri : e.uri = uri)
    (hopens : e.opens? = some false) :
    Tracks options uri (events ++ [e]) (e.store documents)
      (published ++ (e.publish options (e.store documents)).toList) := by
  cases e with
  | closed u =>
    obtain rfl : u = uri := huri
    have hget : ((DocumentEvent.closed u).store documents).get? u = none :=
      DocumentEvent.get?_store (.closed u) documents
    refine ⟨fun hopen => ?_, fun _ => ⟨hget, ?_⟩, fun hnever => ⟨hget, ?_⟩⟩
    · simp [DocumentEvent.last?_concat, DocumentEvent.uri, opens?] at hopen
    · exact Publication.last?_publish options _ (.closed u) published
    · obtain ⟨-, hempty⟩ := h.neverOpened fun d hd => hnever d (List.mem_append_left _ hd)
      intro p hp huri
      rcases List.mem_append.mp hp with hp | hp
      · exact hempty p hp huri
      · obtain rfl : p = ⟨u, [], none⟩ := by simpa [DocumentEvent.publish] using hp
        rfl
  | _ => cases hopens

/-- An event that neither opens nor closes the document. -/
theorem kept (h : Tracks options uri events documents published) {e : DocumentEvent} (huri : e.uri = uri)
    (hopens : e.opens? = none) :
    Tracks options uri (events ++ [e]) (e.store documents)
      (published ++ (e.publish options (e.store documents)).toList) := by
  have hlanguage : e.language? = none := by
    cases e with
    | opened => cases hopens
    | _ => rfl
  have hpublish : e.publish options (e.store documents) = _ :=
    DocumentEvent.publish_eq (by simp [hopens]) options (e.store documents)
  subst huri
  have hlast : last? e.uri opens? (events ++ [e]) = last? e.uri opens? events := by
    simp [DocumentEvent.last?_concat, hopens]
  have hnone : documents.get? e.uri = none → (e.store documents).get? e.uri = none ∧
      (e.publish options (e.store documents)).toList = [] := by
    intro hget
    have hstored := DocumentEvent.get?_store_of_none (by simp [hopens]) hget
    exact ⟨hstored, by simp [hpublish, hstored]⟩
  refine ⟨fun hopen => ?_, fun hclosed => ?_, fun hnever => ?_⟩
  · obtain ⟨d, hget, htext, hlanguages, -⟩ := h.whileOpen (hlast ▸ hopen)
    obtain ⟨d', hget', htext', hlanguage'⟩ := DocumentEvent.get?_store_of_some hopens hget
    refine ⟨d', hget', ?_, ?_, ?_⟩
    · rw [DocumentEvent.last?_concat, if_pos rfl, htext, htext']
    · rw [DocumentEvent.last?_concat, if_pos rfl, hlanguage, Option.none_or, hlanguages, hlanguage']
    · rw [Publication.last?_publish, hpublish, hget']
      rfl
  · obtain ⟨hget, hlastPublished⟩ := h.onceClosed (hlast ▸ hclosed)
    obtain ⟨hstored, hnothing⟩ := hnone hget
    exact ⟨hstored, by rw [hnothing, List.append_nil, hlastPublished]⟩
  · obtain ⟨hget, hempty⟩ := h.neverOpened fun d hd => hnever d (List.mem_append_left _ hd)
    obtain ⟨hstored, hnothing⟩ := hnone hget
    exact ⟨hstored, by rw [hnothing, List.append_nil]; exact hempty⟩

/-- Every event keeps track of every document. -/
theorem step (h : Tracks options uri events documents published) (e : DocumentEvent) :
    Tracks options uri (events ++ [e]) (e.store documents)
      (published ++ (e.publish options (e.store documents)).toList) := by
  by_cases huri : e.uri = uri
  · match hopens : e.opens? with
    | some true => exact opened huri hopens
    | some false => exact h.closed huri hopens
    | none => exact h.kept huri hopens
  · exact h.other huri

end Tracks

/-! ### Messages -/

/-- A message announces an event: it is a notice about a document, and its parameters say what happened. -/
def Incoming.Announces (m : Incoming) (e : DocumentEvent) : Prop :=
  m.id = none ∧ ∃ decoder, DocumentEvent.decoder? m.method = some decoder ∧ m.read decoder = .ok e

/-- A message begins a session: it is the request for it, with parameters that name a work space or none. -/
def Incoming.Begins (m : Incoming) (root : Option Url) : Prop :=
  m.method = "initialize" ∧ m.id.isSome ∧ m.read rootDecoder = .ok root

/-- What a message of the server publishes. -/
def Outgoing.publication? : Outgoing → Option Publication
  | .publish p => some p
  | .log .. => none

theorem Outgoing.filterMap_publish (published : List Publication) :
    (published.map Outgoing.publish).filterMap Outgoing.publication? = published := by
  rw [List.filterMap_map]
  exact List.filterMap_some

namespace Session

/-- The session behind messages that come one after the other, and all that is sent on the way. -/
def handleAll (disk : Disk) : Session → List Incoming → Session × List Outgoing
  | s, [] => (s, [])
  | s, m :: messages =>
    let reaction := s.handle disk m
    let (last, sent) := handleAll disk reaction.session messages
    (last, reaction.sent ++ sent)

/-- A session that has begun takes every event that is announced to it. -/
theorem handle_announced {disk : Disk} {s : Session} {m : Incoming} {e : DocumentEvent} (hready : s.phase = .ready)
    (h : m.Announces e) :
    s.handle disk m = { session := (s.receive e).1, sent := (s.receive e).2.map .publish } := by
  obtain ⟨id, method, params⟩ := m
  obtain ⟨hid, decoder, hdecoder, hread⟩ := h
  simp only at hid hdecoder
  subst hid
  simp only [DocumentEvent.decoder?] at hdecoder
  split at hdecoder <;> cases hdecoder <;>
    simp [handle, hready, handleNotice, untimely?, DocumentEvent.decoder?, hread]

/-- The first message starts the session. -/
theorem handle_begins {m : Incoming} {root : Option Url} (h : m.Begins root) (disk : Disk) :
    (handle disk {} m).session = (start disk {} root).1 ∧ (handle disk {} m).sent = (start disk {} root).2 := by
  obtain ⟨id, method, params⟩ := m
  obtain ⟨hmethod, hid, hread⟩ := h
  obtain ⟨id, rfl⟩ := Option.isSome_iff_exists.mp hid
  simp only at hmethod
  subst hmethod
  simp [handle, handleStart, hread]

/-- The options of a session that starts: those of the settings that are found for its work space, and the default ones
where there is no work space or its settings are wrong. -/
theorem options_start (disk : Disk) (root : Option Url) :
    (start disk {} root).1.options = match root.bind Url.filePath? with
      | none => {}
      | some path =>
        match Project.discover disk path with
        | .ok project => { project }
        | .error _ => {} := by
  cases hpath : root.bind Url.filePath? with
  | none => simp [start, hpath]
  | some path => cases hproject : Project.discover disk path <;> simp [start, configure, hpath, hproject]

/-- The start makes a session ready, with no documents, and publishes nothing. -/
theorem ready_start (disk : Disk) (root : Option Url) :
    (start disk {} root).1.phase = .ready ∧ (start disk {} root).1.documents = [] ∧
      (start disk {} root).2.filterMap Outgoing.publication? = [] := by
  cases hpath : root.bind Url.filePath? with
  | none => simp [start, hpath]
  | some path =>
    cases hproject : Project.discover disk path <;> simp [start, configure, hpath, hproject, Outgoing.publication?]

/-- A session that keeps track of its documents does so over all events that are announced to it. -/
theorem tracks_handleAll (disk : Disk) {messages : List Incoming} {events : List DocumentEvent}
    (hmessages : List.Forall₂ Incoming.Announces messages events) {s : Session} (hready : s.phase = .ready)
    {past : List DocumentEvent} {published : List Publication}
    (h : ∀ uri, Tracks s.options uri past s.documents published) :
    ((handleAll disk s messages).1.phase = .ready ∧ (handleAll disk s messages).1.options = s.options) ∧
    ∀ uri, Tracks s.options uri (past ++ events) (handleAll disk s messages).1.documents
      (published ++ (handleAll disk s messages).2.filterMap Outgoing.publication?) := by
  induction hmessages generalizing s past published with
  | nil =>
    refine ⟨⟨hready, rfl⟩, fun uri => ?_⟩
    simpa [handleAll] using h uri
  | @cons m e messages events hm _ ih =>
    have hstep : ∀ uri, Tracks (s.receive e).1.options uri (past ++ [e]) (s.receive e).1.documents
        (published ++ (s.receive e).2) := fun uri => (h uri).step e
    have hready' : (s.receive e).1.phase = .ready := hready
    obtain ⟨hstate, htracks⟩ := ih hready' hstep
    simp only [handleAll, handle_announced hready hm, List.filterMap_append, Outgoing.filterMap_publish]
    refine ⟨hstate, fun uri => ?_⟩
    have htracks : Tracks s.options uri (past ++ [e] ++ events) _ (published ++ (s.receive e).2 ++ _) := htracks uri
    simpa using htracks

/-- After every event that an editor announces, for every document: if it is open, it is stored with the text and the
version of the last event that gave it any, and what was published last about it are the reports of that text, with that
version; if it was closed, it is not stored and what was published last is empty; if it was never opened, nothing but
empty lists was ever published. An event has no part in other documents, and wrong settings at the start leave the
default options in place. -/
theorem handleAll_tracks_documents (disk : Disk) {first : Incoming} {root : Option Url} (hfirst : first.Begins root)
    {messages : List Incoming} {events : List DocumentEvent}
    (hmessages : List.Forall₂ Incoming.Announces messages events) :
    let last := (handleAll disk {} (first :: messages)).1
    let published := (handleAll disk {} (first :: messages)).2.filterMap Outgoing.publication?
    (∀ uri, last? uri opens? events = some true → ∃ d, last.documents.get? uri = some d ∧
      last? uri textAndVersion? events = some (d.content, d.version) ∧ last? uri language? events = some d.languageId ∧
      Publication.last? uri published = some ⟨uri, EditorDiagnostic.ofDiagnostics d.content
        (last.options.lint (Document.lintPath uri d.languageId) d.content), some d.version⟩) ∧
    (∀ uri, last? uri opens? events = some false →
      last.documents.get? uri = none ∧ Publication.last? uri published = some ⟨uri, [], none⟩) ∧
    (∀ uri, (∀ d, .opened uri d ∉ events) →
      last.documents.get? uri = none ∧ ∀ p ∈ published, p.uri = uri → p.diagnostics = []) ∧
    (∀ m e, m.Announces e → ∀ uri, e.uri ≠ uri →
      (last.handle disk m).session.documents.get? uri = last.documents.get? uri ∧
      ∀ p ∈ (last.handle disk m).sent.filterMap Outgoing.publication?, p.uri ≠ uri) ∧
    last.options = match root.bind Url.filePath? with
      | none => {}
      | some path =>
        match Project.discover disk path with
        | .ok project => { project }
        | .error _ => {} := by
  intro last published
  obtain ⟨hsession, hsent⟩ := handle_begins hfirst disk
  obtain ⟨hready, hdocuments, hnothing⟩ := ready_start disk root
  have hlast : last = (handleAll disk (start disk {} root).1 messages).1 := by simp only [last, handleAll, hsession]
  have hpublished : published = (handleAll disk (start disk {} root).1 messages).2.filterMap Outgoing.publication? := by
    simp only [published, handleAll, hsession, hsent, List.filterMap_append, hnothing, List.nil_append]
  have hstart : ∀ uri, Tracks (start disk {} root).1.options uri [] (start disk {} root).1.documents [] := by
    intro uri
    rw [hdocuments]
    exact Tracks.start
  obtain ⟨⟨hphase, hoptions⟩, hrun⟩ := tracks_handleAll disk hmessages hready hstart
  rw [← hlast] at hphase hoptions
  have htracks : ∀ uri, Tracks last.options uri events last.documents published := by
    intro uri
    simpa [hlast, hpublished, ← hoptions] using hrun uri
  refine ⟨fun uri => (htracks uri).whileOpen, fun uri => (htracks uri).onceClosed, fun uri => (htracks uri).neverOpened,
    ?_, hoptions.trans (options_start disk root)⟩
  intro m e hm uri hne
  rw [handle_announced hphase hm, Outgoing.filterMap_publish]
  refine ⟨DocumentEvent.get?_store_of_ne hne last.documents, fun p hp => ?_⟩
  rw [DocumentEvent.uri_of_publish (Option.mem_toList.mp hp)]
  exact hne

/-- A disk whose settings cannot be read. -/
def brokenSettings : Disk :=
  ⟨.directory [("w".toList, .directory [(".firestore-lint.toml".toList, .file (some "[".toList))])], []⟩

/-- A document in the work space. -/
def savedUrl : Url := ⟨"file".toList, some [], [], "/w/a.js".toList, []⟩

/-- A document that is not yet saved. -/
def unsavedUrl : Url := ⟨"untitled".toList, none, [], "b".toList, []⟩

/-- The request that begins a session there. -/
def workspaceRequest : Incoming :=
  ⟨some (.nat 1), "initialize", some (.object [("capabilities", .object []), ("rootUri", .string "file:///w")])⟩

/-- A notice with parameters about a document. -/
def noticeAbout (method uri : String) (fields : List (String × Json)) (others : List (String × Json)) : Incoming :=
  ⟨none, method, some (.object (("textDocument", .object (("uri", .string uri) :: fields)) :: others))⟩

/-- The notices of a session with two documents, one of which is changed before it is opened. -/
def twoDocuments : List Incoming := [
  noticeAbout "textDocument/didOpen" "file:///w/a.js"
    [("languageId", .string "javascript"), ("version", .nat 1), ("text", .string "x;")] [],
  noticeAbout "textDocument/didChange" "untitled:b" [("version", .nat 7)]
    [("contentChanges", .array [.object [("text", .string "y;")]])],
  noticeAbout "textDocument/didChange" "file:///w/a.js" [("version", .nat 2)]
    [("contentChanges", .array [.object [("text", .string "z;")], .object [("text", .string "doc().set(\x7b\x7d);")]])],
  noticeAbout "textDocument/didOpen" "untitled:b"
    [("languageId", .string "typescript"), ("version", .nat 1), ("text", .string "doc().set(\x7b\x7d);")] [],
  noticeAbout "textDocument/didClose" "untitled:b" [] [],
  noticeAbout "textDocument/didChange" "file:///w/a.js" [("version", .nat 3)] [("contentChanges", .array [])]]

/-- The events they announce. -/
def twoDocumentsEvents : List DocumentEvent := [
  .opened savedUrl ⟨"x;".toList, 1, "javascript"⟩,
  .changed unsavedUrl 7 ["y;".toList],
  .changed savedUrl 2 ["z;".toList, "doc().set(\x7b\x7d);".toList],
  .opened unsavedUrl ⟨"doc().set(\x7b\x7d);".toList, 1, "typescript"⟩,
  .closed unsavedUrl,
  .changed savedUrl 3 []]

theorem announces_twoDocuments : List.Forall₂ Incoming.Announces twoDocuments twoDocumentsEvents := by
  refine .cons ?_ (.cons ?_ (.cons ?_ (.cons ?_ (.cons ?_ (.cons ?_ .nil)))))
  all_goals exact ⟨rfl, _, rfl, rfl⟩

/-- The document that stays open has the reports of its second version, under the default options, and the closed one
has none. -/
theorem handleAll_tracks_documents_twoDocuments :
    let last := (handleAll brokenSettings {} (workspaceRequest :: twoDocuments)).1
    let published := (handleAll brokenSettings {} (workspaceRequest :: twoDocuments)).2.filterMap Outgoing.publication?
    let d : Document := ⟨"doc().set(\x7b\x7d);".toList, 2, "javascript"⟩
    last.documents.get? savedUrl = some d ∧ Publication.last? savedUrl published = some (d.publication {} savedUrl) ∧
    last.documents.get? unsavedUrl = none ∧ Publication.last? unsavedUrl published = some ⟨unsavedUrl, [], none⟩ := by
  intro last published d
  have hbegins : workspaceRequest.Begins (some ⟨"file".toList, some [], [], "/w".toList, []⟩) := ⟨rfl, rfl, rfl⟩
  obtain ⟨hopen, hclosed, -, -, hoptions⟩ := handleAll_tracks_documents brokenSettings hbegins announces_twoDocuments
  obtain ⟨d', hget, htext, hlanguage, hpublished⟩ := hopen savedUrl (by decide)
  have hd : d' = d := by
    have hlast : last? savedUrl textAndVersion? twoDocumentsEvents = some (d.content, d.version) ∧
        last? savedUrl language? twoDocumentsEvents = some d.languageId := by decide
    rw [hlast.1, Option.some.injEq, Prod.mk.injEq] at htext
    rw [hlast.2, Option.some.injEq] at hlanguage
    exact (Document.mk.injEq ..).mpr ⟨htext.1.symm, htext.2.symm, hlanguage.symm⟩
  subst hd
  have hdefault : last.options = {} := hoptions.trans rfl
  rw [hdefault] at hpublished
  exact ⟨hget, hpublished, hclosed unsavedUrl (by decide)⟩

end Session

end WriteGuard
