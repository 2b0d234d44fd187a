import Mathlib.Data.List.Induction
import WriteGuard.Proofs.OpenDocuments
import WriteGuard.Server.Handlers

/-!
Handlers that overlap. In whatever order handlers take their steps, the reports that are published with a version are
those of a document that was stored as a whole, with this version, at one moment before. They may be old, but they are
never mixed from two states of a document.
-/

namespace WriteGuard

namespace Handler

variable {options : LintOptions} {documents : Documents} {h : Handler}

/-- A handler that is about to publish a document has just found it. -/
theorem get?_of_advance_publishing {uri : Url} {d : Document}
    (hnext : (h.advance options documents).1 = .publishing uri d) : documents.get? uri = some d := by
  cases h with
  | storing e => cases e <;> cases hnext
  | looking u =>
    simp only [advance, afterLooking] at hnext
    split at hnext
    case h_1 found hfound =>
      cases hnext
      exact hfound
    case h_2 => cases hnext
  | publishing => cases hnext
  | clearing => cases hnext
  | done => cases hnext

/-- Reports with a version come from a handler that has found its document, and are about nothing else. -/
theorem eq_publishing_of_advance {p : Publication} {v : Int} (hp : (h.advance options documents).2.2 = some p)
    (hv : p.version = some v) : ∃ d, h = .publishing p.uri d ∧ p = d.publication options p.uri := by
  cases h with
  | publishing u d =>
    cases hp
    exact ⟨d, rfl, rfl⟩
  | clearing u =>
    cases hp
    cases hv
  | storing => cases hp
  | looking => cases hp
  | done => cases hp

/-- Every event but one that closes its document has it looked up. -/
theorem afterStoring_eq {e : DocumentEvent} (h : e.opens? ≠ some false) : afterStoring e = .looking e.uri := by
  cases e with
  | closed uri => exact absurd rfl h
  | _ => rfl

end Handler

namespace Pool

/-! ### One turn -/

theorem step_advances (options : LintOptions) {pool : Pool} {i : Nat} {h : Handler} (hi : pool.handlers[i]? = some h) :
    step options pool (.advances i) = ⟨(h.advance options pool.documents).2.1,
      pool.handlers.set i (h.advance options pool.documents).1,
      pool.published ++ (h.advance options pool.documents).2.2.toList⟩ := by
  simp only [step, hi]

theorem step_idle (options : LintOptions) {pool : Pool} {i : Nat} (hi : pool.handlers[i]? = none) :
    step options pool (.advances i) = pool := by
  simp only [step, hi]

/-- A handler that is about to publish a document was so before the turn, or has found the document in it. -/
theorem publishing_of_step {options : LintOptions} {pool : Pool} {turn : Turn} {uri : Url} {d : Document}
    (hmem : .publishing uri d ∈ (step options pool turn).handlers) :
    .publishing uri d ∈ pool.handlers ∨ pool.documents.get? uri = some d := by
  cases turn with
  | comes e => exact .inl (by simpa [step] using hmem)
  | advances i =>
    cases hi : pool.handlers[i]? with
    | none => exact .inl (step_idle options hi ▸ hmem)
    | some h =>
      rw [step_advances options hi] at hmem
      rcases List.mem_or_eq_of_mem_set hmem with hmem | heq
      · exact .inl hmem
      · exact .inr (Handler.get?_of_advance_publishing heq.symm)

/-- What was published stays so, and in its place. -/
theorem published_prefix_step (options : LintOptions) (pool : Pool) (turn : Turn) :
    pool.published <+: (step options pool turn).published := by
  cases turn with
  | comes e => exact List.prefix_refl _
  | advances i =>
    cases hi : pool.handlers[i]? with
    | none => simp [step_idle options hi]
    | some h => simp [step_advances options hi]

/-- Reports with a version were published before the turn, or they are the next ones and come from a handler that had
found their document. -/
theorem published_of_step {options : LintOptions} {pool : Pool} {turn : Turn} {k : Nat} {p : Publication} {v : Int}
    (hp : (step options pool turn).published[k]? = some p) (hv : p.version = some v) :
    pool.published[k]? = some p ∨ k = pool.published.length ∧
      ∃ d, .publishing p.uri d ∈ pool.handlers ∧ p = d.publication options p.uri := by
  cases turn with
  | comes e => exact .inl hp
  | advances i =>
    cases hi : pool.handlers[i]? with
    | none => exact .inl (step_idle options hi ▸ hp)
    | some h =>
      rw [step_advances options hi] at hp
      by_cases hold : k < pool.published.length
      · exact .inl (List.getElem?_append_left hold ▸ hp)
      · rw [List.getElem?_append_right (Nat.le_of_not_lt hold)] at hp
        obtain ⟨hk, hnew⟩ : k - pool.published.length = 0 ∧ (h.advance options pool.documents).2.2 = some p := by
          cases hq : (h.advance options pool.documents).2.2 <;> simp_all [List.getElem?_singleton]
        obtain ⟨d, rfl, heq⟩ := Handler.eq_publishing_of_advance hnew hv
        exact .inr ⟨by omega, d, List.mem_of_getElem? hi, heq⟩

/-! ### Any number of turns -/

theorem run_concat (options : LintOptions) (turns : List Turn) (turn : Turn) :
    run options (turns ++ [turn]) = step options (run options turns) turn := by
  simp [run]

/-- A document was stored as it is at some moment of a run, when no more than so many reports were published. -/
def Held (options : LintOptions) (turns : List Turn) (count : Nat) (uri : Url) (d : Document) : Prop :=
  ∃ moment, moment <+: turns ∧ (run options moment).published.length ≤ count ∧
    (run options moment).documents.get? uri = some d

theorem Held.concat {options : LintOptions} {turns : List Turn} {count : Nat} {uri : Url} {d : Document}
    (h : Held options turns count uri d) (turn : Turn) : Held options (turns ++ [turn]) count uri d := by
  obtain ⟨moment, hmoment, hrest⟩ := h
  exact ⟨moment, hmoment.trans (List.prefix_append turns [turn]), hrest⟩

theorem Held.mono {options : LintOptions} {turns : List Turn} {count count' : Nat} {uri : Url} {d : Document}
    (h : Held options turns count uri d) (hle : count ≤ count') : Held options turns count' uri d := by
  obtain ⟨moment, hmoment, hcount, hget⟩ := h
  exact ⟨moment, hmoment, Nat.le_trans hcount hle, hget⟩

/-- All that is published with a version, or is about to be, was stored as a whole at some moment before. -/
structure Untorn (options : LintOptions) (turns : List Turn) : Prop where
  found : ∀ uri d, .publishing uri d ∈ (run options turns).handlers →
    Held options turns (run options turns).published.length uri d
  published : ∀ k p v, (run options turns).published[k]? = some p → p.version = some v →
    ∃ d, Held options turns k p.uri d ∧ p = d.publication options p.uri

/-- No turn tears anything. -/
theorem Untorn.concat {options : LintOptions} {turns : List Turn} (h : Untorn options turns) (turn : Turn) :
    Untorn options (turns ++ [turn]) := by
  have hprefix := published_prefix_step options (run options turns) turn
  constructor
  · intro uri d hmem
    rw [run_concat] at hmem ⊢
    rcases publishing_of_step hmem with hmem | hget
    · exact ((h.found uri d hmem).concat turn).mono hprefix.length_le
    · exact ⟨turns, List.prefix_append turns [turn], hprefix.length_le, hget⟩
  · intro k p v hp hv
    rw [run_concat] at hp
    rcases published_of_step hp hv with hp | ⟨rfl, d, hpublishing, heq⟩
    · obtain ⟨d, hheld, heq⟩ := h.published k p v hp hv
      exact ⟨d, hheld.concat turn, heq⟩
    · exact ⟨d, (h.found p.uri d hpublishing).concat turn, heq⟩

theorem untorn (options : LintOptions) (turns : List Turn) : Untorn options turns := by
  induction turns using List.reverseRecOn with
  | nil => constructor <;> simp [run]
  | append_singleton turns turn ih => exact ih.concat turn

/-! ### A handler that is left alone -/

theorem step_newest (options : LintOptions) (documents : Documents) (others : List Handler) (h : Handler)
    (published : List Publication) :
    step options ⟨documents, others ++ [h], published⟩ (.advances others.length) =
      ⟨(h.advance options documents).2.1, others ++ [(h.advance options documents).1],
        published ++ (h.advance options documents).2.2.toList⟩ := by
  rw [step_advances options (List.getElem?_concat_length ..)]
  simp

/-- The turns of an event whose handler comes after others and is not interrupted. -/
def alone (e : DocumentEvent) (others : Nat) : List Turn :=
  [.comes e, .advances others, .advances others, .advances others]

/-- A handler that is not interrupted does what a session does that takes its events one after the other. -/
theorem foldl_alone (options : LintOptions) (pool : Pool) (e : DocumentEvent) :
    let last := (alone e pool.handlers.length).foldl (step options) pool
    let (s, published) := Session.receive { options, documents := pool.documents } e
    last.documents = s.documents ∧ last.published = pool.published ++ published := by
  obtain ⟨documents, others, published⟩ := pool
  have hcomes : step options ⟨documents, others, published⟩ (.comes e) =
      ⟨documents, others ++ [.storing e], published⟩ := rfl
  simp only [alone, List.foldl_cons, List.foldl_nil, hcomes, step_newest, Session.receive]
  by_cases hclosed : e.opens? = some false
  · cases e with
    | closed uri => simp [Handler.advance, Handler.afterStoring, DocumentEvent.publish]
    | _ => cases hclosed
  · rw [DocumentEvent.publish_eq hclosed]
    cases hget : (e.store documents).get? e.uri <;>
      simp [Handler.advance, Handler.afterStoring_eq hclosed, Handler.afterLooking, hget]

/-- In every run, whatever the order of the steps, reports that are published with a version are those of one document
that was stored under their address at one moment before, with its text, its language and this version. This is not for
want of reports: left alone at any time, the handler of any event stores and publishes what a session does. -/
theorem run_publishes_whole_documents (options : LintOptions) (turns : List Turn) :
    (∀ k p v, (run options turns).published[k]? = some p → p.version = some v →
      ∃ moment, moment <+: turns ∧ (run options moment).published.length ≤ k ∧
        ∃ d, (run options moment).documents.get? p.uri = some d ∧ d.version = v ∧
          p = ⟨p.uri, EditorDiagnostic.ofDiagnostics d.content
            (options.lint (Document.lintPath p.uri d.languageId) d.content), some v⟩) ∧
    ∀ e, let pool := run options turns
      let last := run options (turns ++ alone e pool.handlers.length)
      let (s, published) := Session.receive { options, documents := pool.documents } e
      last.documents = s.documents ∧ last.published = pool.published ++ published := by
  constructor
  · intro k p v hp hv
    obtain ⟨d, ⟨moment, hmoment, hcount, hget⟩, heq⟩ := (untorn options turns).published k p v hp hv
    have hversion : d.version = v := by
      rw [heq] at hv
      exact Option.some.inj hv
    subst hversion
    exact ⟨moment, hmoment, hcount, d, hget, rfl, heq⟩
  · intro e
    simp only [run, List.foldl_append]
    exact foldl_alone options _ e

/-- A document is opened and looked up, and before its reports are published a change of it is stored, looked up and
published. -/
def overtaken (uri : Url) : List Turn := [
  .comes (.opened uri ⟨"doc().set(\x7b\x7d);".toList, 1, "javascript"⟩), .advances 0, .advances 0,
  .comes (.changed uri 2 ["x;".toList]), .advances 1, .advances 1, .advances 1,
  .advances 0]

/-- The old reports come last, and are those of the first version as it was stored, all the same. -/
theorem run_publishes_whole_documents_overtaken :
    let turns := overtaken ⟨"untitled".toList, none, [], "a".toList, []⟩
    (run {} turns).published.map Publication.version = [some 2, some 1] ∧
    (run {} turns).documents.map (·.2.version) = [2] ∧
    ∃ p, (run {} turns).published[1]? = some p ∧ p.version = some 1 ∧
      ∃ moment, moment <+: turns ∧ (run {} moment).published.length ≤ 1 ∧
        ∃ d, (run {} moment).documents.get? p.uri = some d ∧ d.version = 1 ∧
          p = ⟨p.uri, EditorDiagnostic.ofDiagnostics d.content
            (LintOptions.lint {} (Document.lintPath p.uri d.languageId) d.content), some 1⟩ := by
  intro turns
  have hversions : (run {} turns).published.map Publication.version = [some 2, some 1] ∧
      (run {} turns).documents.map (·.2.version) = [2] := by decide +kernel
  obtain ⟨p, hp, hv⟩ : ∃ p, (run {} turns).published[1]? = some p ∧ p.version = some 1 := by
    rw [← Option.map_eq_some_iff, ← List.getElem?_map, hversions.1]
    rfl
  exact ⟨hversions.1, hversions.2, p, hp, hv, (run_publishes_whole_documents {} turns).1 1 p 1 hp hv⟩

end Pool

end WriteGuard
