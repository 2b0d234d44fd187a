import Mathlib.Data.List.Nodup
import WriteGuard.Proofs.OverlappingHandlers

/-!
What is still published about a document that was closed, while handlers overlap, and by which handler. As long as the
document is not opened again nobody finds it, so every handler publishes what it had to publish about it when it was
closed, or still has to: a handler that closes it the empty list, and a handler that had found it before the reports
about what it found. These come late, after the reports were taken back.
-/

namespace WriteGuard

namespace Handler

/-- What a handler has to publish about a document that is closed and stays so. -/
def owed? (options : LintOptions) (uri : Url) : Handler → Option Publication
  | .publishing u d => if u = uri then some (d.publication options uri) else none
  | .storing (.closed u) | .clearing u => if u = uri then some ⟨uri, [], none⟩ else none
  | _ => none

/-- Whether the next step of a handler opens a document. -/
def opens (uri : Url) : Handler → Bool
  | .storing (.opened u _) => u = uri
  | _ => false

/-- The handlers that an event can have, from its start to its end. -/
inductive Handles : DocumentEvent → Handler → Prop
  | storing {e : DocumentEvent} : Handles e (.storing e)
  | looking {e : DocumentEvent} (h : e.opens? ≠ some false) : Handles e (.looking e.uri)
  | publishing {e : DocumentEvent} {d : Document} (h : e.opens? ≠ some false) : Handles e (.publishing e.uri d)
  | clearing {uri : Url} : Handles (.closed uri) (.clearing uri)
  | done {e : DocumentEvent} : Handles e .done

/-- What the handler of an event publishes about a document that is closed: the empty list if it closes the document too,
and else only the reports about the document as the handler had found it before. -/
def Late (options : LintOptions) (uri : Url) (e : DocumentEvent) (before : Option Handler) (p : Publication) : Prop :=
  e = .closed uri ∧ p = ⟨uri, [], none⟩ ∨
    e ≠ .closed uri ∧ ∃ d, before = some (.publishing uri d) ∧ p = d.publication options uri

variable {options : LintOptions} {documents : Documents} {h : Handler} {uri : Url} {e : DocumentEvent}

/-- A document that is closed stays so under every step that does not open it. -/
theorem get?_advance (hclosed : documents.get? uri = none) (hopens : h.opens uri = false) :
    (h.advance options documents).2.1.get? uri = none := by
  cases h with
  | storing e =>
    simp only [advance]
    by_cases he : e.uri = uri
    · subst he
      refine DocumentEvent.get?_store_of_none ?_ hclosed
      intro hopened
      cases e with
      | opened u d => simp [opens, DocumentEvent.uri] at hopens
      | _ => cases hopened
    · rw [DocumentEvent.get?_store_of_ne he]
      exact hclosed
  | _ => exact hclosed

/-- What a handler has to publish about a closed document is published by its next step, or still has to be. -/
theorem owed_advance (options : LintOptions) (h : Handler) (hclosed : documents.get? uri = none) :
    (h.advance options documents).2.2.toList.filter (fun p => p.uri = uri) ++
      ((h.advance options documents).1.owed? options uri).toList = (h.owed? options uri).toList := by
  cases h with
  | storing e => cases e <;> rfl
  | looking u =>
    simp only [advance, afterLooking, owed?]
    cases hget : documents.get? u with
    | none => rfl
    | some d =>
      have hne : u ≠ uri := by
        rintro rfl
        rw [hclosed] at hget
        cases hget
      simp [hne]
  | publishing u d => by_cases hu : u = uri <;> simp [advance, owed?, Document.publication, hu]
  | clearing u => by_cases hu : u = uri <;> simp [advance, owed?, hu]
  | done => rfl

/-- A handler is at its end once it has published. -/
theorem done_of_advance {p : Publication} (hp : (h.advance options documents).2.2 = some p) :
    (h.advance options documents).1 = .done := by
  cases h with
  | publishing => rfl
  | clearing => rfl
  | storing => cases hp
  | looking => cases hp
  | done => cases hp

theorem Handles.advance (hh : Handles e h) (options : LintOptions) (documents : Documents) :
    Handles e (h.advance options documents).1 := by
  cases hh with
  | storing =>
    by_cases hclosed : e.opens? = some false
    · cases e with
      | closed uri => exact .clearing
      | _ => cases hclosed
    · simp only [Handler.advance, afterStoring_eq hclosed]
      exact .looking hclosed
  | looking hopens =>
    simp only [Handler.advance, afterLooking]
    cases documents.get? e.uri with
    | none => exact .done
    | some d => exact .publishing hopens
  | publishing => exact .done
  | clearing => exact .done
  | done => exact .done

/-- A handler that is not done has to publish what its event and what it has found ask for. -/
theorem Handles.owed_iff (hh : Handles e h) {p : Publication} :
    h.owed? options uri = some p ↔ h ≠ .done ∧ Late options uri e (some h) p := by
  unfold Late
  have hother : e.opens? ≠ some false → e ≠ .closed uri := by
    rintro hopens rfl
    exact hopens rfl
  cases hh with
  | storing => cases e <;> simp [owed?, eq_comm]
  | looking hopens => simp [owed?, hother hopens]
  | publishing hopens =>
    by_cases hu : e.uri = uri
    · simp [owed?, hother hopens, hu, eq_comm]
    · simp [owed?, hother hopens, hu]
  | clearing => simp [owed?, eq_comm]
  | done => simp [owed?]

end Handler

namespace Pool

/-! ### Handlers and the turns that bring them -/

/-- The events that come in some turns. -/
def events (turns : List Turn) : List DocumentEvent :=
  turns.filterMap fun
    | .comes e => some e
    | .advances _ => none

/-- The handlers there are, and behind them those that some turns bring. -/
def upcoming (pool : Pool) (turns : List Turn) : List Handler := pool.handlers ++ (events turns).map .storing

section Upcoming

variable {options : LintOptions} {pool : Pool} {j : Nat}

@[simp]
theorem upcoming_nil (pool : Pool) : pool.upcoming [] = pool.handlers := List.append_nil _

theorem upcoming_append (pool : Pool) (turns more : List Turn) :
    pool.upcoming (turns ++ more) = pool.upcoming turns ++ (events more).map .storing := by
  simp [upcoming, events]

theorem getElem?_upcoming {h : Handler} (hj : pool.handlers[j]? = some h) (turns : List Turn) :
    (pool.upcoming turns)[j]? = some h := by
  rw [upcoming, List.getElem?_append_left (List.getElem?_eq_some_iff.mp hj).1, hj]

/-- A handler that is past its first step is one of those there are. -/
theorem getElem?_of_upcoming {h : Handler} {turns : List Turn} (hj : (pool.upcoming turns)[j]? = some h)
    (hpast : ∀ e, h ≠ .storing e) : pool.handlers[j]? = some h := by
  rw [upcoming, List.getElem?_append] at hj
  split at hj
  · exact hj
  · rw [List.getElem?_map, Option.map_eq_some_iff] at hj
    obtain ⟨e, -, heq⟩ := hj
    exact absurd heq.symm (hpast e)

theorem upcoming_eq_iff {h a : Handler} {turns : List Turn} (hj : (pool.upcoming turns)[j]? = some h)
    (hpast : ∀ e, a ≠ .storing e) : h = a ↔ pool.handlers[j]? = some a := by
  constructor
  · rintro rfl
    exact getElem?_of_upcoming hj hpast
  · intro ha
    exact Option.some.inj (hj.symm.trans (getElem?_upcoming ha turns))

theorem upcoming_comes (options : LintOptions) (pool : Pool) (e : DocumentEvent) (turns : List Turn) :
    (step options pool (.comes e)).upcoming turns = pool.upcoming (.comes e :: turns) := by
  simp [upcoming, step, events]

theorem upcoming_advances {i : Nat} {h : Handler} (hi : pool.handlers[i]? = some h) (turns : List Turn) :
    (step options pool (.advances i)).upcoming turns =
      (pool.upcoming (.advances i :: turns)).set i (h.advance options pool.documents).1 := by
  rw [step_advances options hi, upcoming, upcoming, List.set_append_left _ _ (List.getElem?_eq_some_iff.mp hi).1]
  rfl

/-- What every step of a handler keeps holds of the handlers after some turns if it holds of those there are and of
those that the turns bring. -/
theorem foldl_upcoming (options : LintOptions) {P : List Handler → Prop}
    (hstep : ∀ hs i h documents, hs[i]? = some h → P hs → P (hs.set i (h.advance options documents).1)) :
    ∀ (turns more : List Turn) (pool : Pool), P (pool.upcoming (turns ++ more)) →
      P ((turns.foldl (step options) pool).upcoming more)
  | [], _, _, h => h
  | .comes e :: turns, more, pool, h => by
      refine foldl_upcoming options hstep turns more _ ?_
      rw [upcoming_comes]
      exact h
  | .advances i :: turns, more, pool, h => by
      refine foldl_upcoming options hstep turns more _ ?_
      cases hi : pool.handlers[i]? with
      | none =>
        rw [step_idle options hi]
        exact h
      | some a =>
        rw [upcoming_advances hi]
        exact hstep _ i a _ (getElem?_upcoming hi _) h

/-- The turns bring all handlers that there are in the end. -/
theorem length_upcoming_foldl (options : LintOptions) (turns more : List Turn) (pool : Pool) :
    ((turns.foldl (step options) pool).upcoming more).length = (pool.upcoming (turns ++ more)).length := by
  refine foldl_upcoming options (P := fun hs => hs.length = (pool.upcoming (turns ++ more)).length) ?_ turns more pool rfl
  intro hs i h documents _ hlength
  rw [List.length_set, hlength]

/-- What a handler keeps by its steps it keeps over any number of turns. -/
theorem foldl_handler (options : LintOptions) {P : Handler → Prop}
    (hstep : ∀ h documents, P h → P (Handler.advance options documents h).1) (turns more : List Turn) {h : Handler}
    (hj : (pool.upcoming (turns ++ more))[j]? = some h) (hh : P h) :
    ∃ h', ((turns.foldl (step options) pool).upcoming more)[j]? = some h' ∧ P h' := by
  refine foldl_upcoming options (P := fun hs => ∃ h', hs[j]? = some h' ∧ P h') ?_ turns more pool ⟨h, hj, hh⟩
  rintro hs i a documents ha ⟨h', hj', hh'⟩
  by_cases hij : i = j
  · subst hij
    obtain rfl := Option.some.inj (ha.symm.trans hj')
    exact ⟨_, List.getElem?_set_self (List.getElem?_eq_some_iff.mp ha).1, hstep a documents hh'⟩
  · exact ⟨h', by rw [List.getElem?_set_ne hij, hj'], hh'⟩

/-- A handler that is done stays so. -/
theorem done_foldl (options : LintOptions) (turns : List Turn) (hdone : pool.handlers[j]? = some .done) :
    (turns.foldl (step options) pool).handlers[j]? = some .done := by
  have hstep : ∀ h documents, h = .done → (Handler.advance options documents h).1 = .done := by
    rintro h documents rfl
    rfl
  obtain ⟨h, hj, rfl⟩ := foldl_handler options hstep turns [] (getElem?_upcoming hdone _) rfl
  rwa [upcoming_nil] at hj

/-- The handler of an event has the index of the event. -/
theorem exists_handler (options : LintOptions) (turns more : List Turn) {e : DocumentEvent}
    (he : (events (turns ++ more))[j]? = some e) :
    ∃ h, ((run options turns).upcoming more)[j]? = some h ∧ Handler.Handles e h := by
  refine foldl_handler options (fun h documents hh => hh.advance options documents) turns more ?_ Handler.Handles.storing
  rw [upcoming, List.nil_append, List.getElem?_map, he]
  rfl

theorem exists_event (options : LintOptions) (turns more : List Turn) {h : Handler}
    (hj : ((run options turns).upcoming more)[j]? = some h) :
    ∃ e, (events (turns ++ more))[j]? = some e ∧ Handler.Handles e h := by
  have hlt : j < (events (turns ++ more)).length := by
    have hlength := length_upcoming_foldl options turns more {}
    have hin := (List.getElem?_eq_some_iff.mp hj).1
    rw [run, hlength] at hin
    simpa [upcoming] using hin
  have he := List.getElem?_eq_getElem hlt
  obtain ⟨h', hj', hh⟩ := exists_handler options turns more he
  obtain rfl := Option.some.inj (hj.symm.trans hj')
  exact ⟨_, he, hh⟩

end Upcoming

/-! ### What is published by whom -/

/-- What a turn publishes, with the handler that does. -/
def said (options : LintOptions) (pool : Pool) : Turn → List (Nat × Publication)
  | .comes _ => []
  | .advances i =>
    match pool.handlers[i]? with
    | none => []
    | some h => (h.advance options pool.documents).2.2.toList.map fun p => (i, p)

/-- All that some turns publish, with the handlers that do. -/
def log (options : LintOptions) : Pool → List Turn → List (Nat × Publication)
  | _, [] => []
  | pool, turn :: turns => said options pool turn ++ log options (step options pool turn) turns

/-- What a handler publishes about a document. -/
def about (uri : Url) (j : Nat) (entries : List (Nat × Publication)) : List Publication :=
  ((entries.filter fun entry => entry.2.uri = uri).filter fun entry => entry.1 = j).map Prod.snd

/-- What the handler at an index has to publish about a document that is closed and stays so. -/
def owedBy (options : LintOptions) (uri : Url) (j : Nat) (handlers : List Handler) : List Publication :=
  (handlers[j]?.bind (Handler.owed? options uri)).toList

/-- Whether a turn opens a document. -/
def opens (uri : Url) (pool : Pool) : Turn → Bool
  | .comes _ => false
  | .advances i => pool.handlers[i]?.any (Handler.opens uri)

/-- No turn of those that follow opens a document. -/
def Unopened (options : LintOptions) (uri : Url) : Pool → List Turn → Prop
  | _, [] => True
  | pool, turn :: turns => pool.opens uri turn = false ∧ Unopened options uri (step options pool turn) turns

instance (options : LintOptions) (uri : Url) : (pool : Pool) → (turns : List Turn) →
    Decidable (Unopened options uri pool turns)
  | _, [] => .isTrue trivial
  | pool, turn :: turns =>
    have := instDecidableUnopened options uri (step options pool turn) turns
    inferInstanceAs (Decidable (pool.opens uri turn = false ∧ Unopened options uri (step options pool turn) turns))

theorem unopened_append {options : LintOptions} {uri : Url} : ∀ {pool : Pool} {turns more : List Turn},
    Unopened options uri pool (turns ++ more) →
      Unopened options uri pool turns ∧ Unopened options uri (turns.foldl (step options) pool) more
  | _, [], _, h => ⟨trivial, h⟩
  | _, _ :: _, _, h => by
      obtain ⟨hturn, hmore⟩ := unopened_append h.2
      exact ⟨⟨h.1, hturn⟩, hmore⟩

section Log

variable {options : LintOptions} {pool : Pool} {turns : List Turn} {uri : Url} {j : Nat} {p : Publication}

theorem said_idle {i : Nat} (hi : pool.handlers[i]? = none) : said options pool (.advances i) = [] := by
  simp only [said, hi]

theorem said_advances {i : Nat} {h : Handler} (hi : pool.handlers[i]? = some h) :
    said options pool (.advances i) = (h.advance options pool.documents).2.2.toList.map fun p => (i, p) := by
  simp only [said, hi]

/-- The log says what is published. -/
theorem published_foldl (options : LintOptions) : ∀ (turns : List Turn) (pool : Pool),
    (turns.foldl (step options) pool).published = pool.published ++ (log options pool turns).map Prod.snd
  | [], pool => by simp [log]
  | .comes e :: turns, pool => by
      rw [List.foldl_cons, published_foldl options turns]
      rfl
  | .advances i :: turns, pool => by
      rw [List.foldl_cons, published_foldl options turns, log, List.map_append, ← List.append_assoc]
      congr 1
      cases hi : pool.handlers[i]? with
      | none => simp [step_idle options hi, said_idle hi]
      | some h => simp [step_advances options hi, said_advances hi, Function.comp_def]

theorem mem_about {entries : List (Nat × Publication)} : p ∈ about uri j entries ↔ (j, p) ∈ entries ∧ p.uri = uri := by
  simp [about]

theorem about_append (uri : Url) (j : Nat) (entries more : List (Nat × Publication)) :
    about uri j (entries ++ more) = about uri j entries ++ about uri j more := by
  simp [about]

/-- A handler that has published is done. -/
theorem done_of_mem_log : ∀ {turns : List Turn} {pool : Pool}, (j, p) ∈ log options pool turns →
    (turns.foldl (step options) pool).handlers[j]? = some .done
  | [], _, h => by cases h
  | turn :: turns, pool, h => by
      rcases List.mem_append.mp h with hsaid | hlater
      · refine done_foldl options turns ?_
        cases turn with
        | comes e => cases hsaid
        | advances i =>
          cases hi : pool.handlers[i]? with
          | none =>
            rw [said_idle hi] at hsaid
            cases hsaid
          | some a =>
            rw [said_advances hi] at hsaid
            obtain ⟨q, hq, heq⟩ := List.mem_map.mp hsaid
            obtain ⟨rfl, rfl⟩ := Prod.mk.inj heq
            rw [step_advances options hi, Handler.done_of_advance (Option.mem_toList.mp hq)]
            exact List.getElem?_set_self (List.getElem?_eq_some_iff.mp hi).1
      · rw [List.foldl_cons]
        exact done_of_mem_log hlater

end Log

section Closed

variable {options : LintOptions} {pool : Pool} {turns : List Turn} {uri : Url} {j : Nat} {p : Publication}

theorem get?_step {turn : Turn} (hclosed : pool.documents.get? uri = none) (hopens : pool.opens uri turn = false) :
    (step options pool turn).documents.get? uri = none := by
  cases turn with
  | comes e => exact hclosed
  | advances i =>
    cases hi : pool.handlers[i]? with
    | none =>
      rw [step_idle options hi]
      exact hclosed
    | some h =>
      rw [step_advances options hi]
      exact Handler.get?_advance hclosed (by simpa [opens, hi] using hopens)

/-- A closed document stays so in turns that do not open it. -/
theorem get?_foldl : ∀ {turns : List Turn} {pool : Pool}, pool.documents.get? uri = none →
    Unopened options uri pool turns → (turns.foldl (step options) pool).documents.get? uri = none
  | [], _, hclosed, _ => hclosed
  | turn :: turns, pool, hclosed, ⟨hopens, hmore⟩ => by
      rw [List.foldl_cons]
      exact get?_foldl (get?_step hclosed hopens) hmore

/-- One turn: what the handler at an index publishes about the document, and what it still has to publish. -/
theorem about_said (options : LintOptions) (hclosed : pool.documents.get? uri = none) (j : Nat) (turn : Turn)
    (turns : List Turn) :
    about uri j (said options pool turn) ++ owedBy options uri j ((step options pool turn).upcoming turns) =
      owedBy options uri j (pool.upcoming (turn :: turns)) := by
  cases turn with
  | comes e => rw [upcoming_comes]; rfl
  | advances i =>
    cases hi : pool.handlers[i]? with
    | none =>
      rw [said_idle hi, step_idle options hi]
      rfl
    | some h =>
      have hlt := (List.getElem?_eq_some_iff.mp (getElem?_upcoming hi (.advances i :: turns))).1
      rw [said_advances hi, upcoming_advances hi]
      by_cases hij : i = j
      · subst hij
        have hown := Handler.owed_advance options h hclosed
        simp [owedBy, about, List.getElem?_set_self hlt, getElem?_upcoming hi, ← hown, List.filter_map,
          Function.comp_def]
      · simp [owedBy, about, List.getElem?_set_ne hij, hij, List.filter_map, Function.comp_def]

/-- What a handler publishes about a closed document in turns that do not open it, together with what it still has to
publish, is what it had to publish. -/
theorem about_log (options : LintOptions) (j : Nat) : ∀ (turns : List Turn) {pool : Pool},
    pool.documents.get? uri = none → Unopened options uri pool turns →
      about uri j (log options pool turns) ++ owedBy options uri j (turns.foldl (step options) pool).handlers =
        owedBy options uri j (pool.upcoming turns)
  | [], pool, _, _ => by rw [upcoming_nil]; rfl
  | turn :: turns, pool, hclosed, ⟨hopens, hmore⟩ => by
      rw [log, about_append, List.append_assoc, List.foldl_cons,
        about_log options j turns (get?_step hclosed hopens) hmore, about_said options hclosed]

theorem owedBy_of_done {handlers : List Handler} (hdone : handlers[j]? = some .done) :
    owedBy options uri j handlers = [] := by
  rw [owedBy, hdone]
  rfl

theorem length_owedBy_le (options : LintOptions) (uri : Url) (j : Nat) (handlers : List Handler) :
    (owedBy options uri j handlers).length ≤ 1 := by
  rw [owedBy]
  cases handlers[j]?.bind (Handler.owed? options uri) <;> simp

/-- A handler publishes what it had to exactly if it comes to its end. -/
theorem mem_log_iff (hclosed : pool.documents.get? uri = none) (hunopened : Unopened options uri pool turns)
    (hp : p.uri = uri) : (j, p) ∈ log options pool turns ↔
      (turns.foldl (step options) pool).handlers[j]? = some .done ∧
        p ∈ owedBy options uri j (pool.upcoming turns) := by
  rw [← about_log options j turns hclosed hunopened, List.mem_append, mem_about]
  constructor
  · intro hmem
    exact ⟨done_of_mem_log hmem, Or.inl ⟨hmem, hp⟩⟩
  · rintro ⟨hdone, ⟨hmem, -⟩ | howed⟩
    · exact hmem
    · rw [owedBy_of_done hdone] at howed
      cases howed

/-- No handler publishes about the document twice. -/
theorem nodup_log (hclosed : pool.documents.get? uri = none) (hunopened : Unopened options uri pool turns) :
    (((log options pool turns).filter fun entry => entry.2.uri = uri).map Prod.fst).Nodup := by
  rw [List.nodup_iff_count_le_one]
  intro j
  have hlength := congrArg List.length (about_log options j turns hclosed hunopened)
  have hle := length_owedBy_le options uri j (pool.upcoming turns)
  rw [List.length_append, about, List.length_map, ← List.countP_eq_length_filter] at hlength
  rw [List.count, List.countP_map]
  refine Nat.le_trans (Nat.le_of_eq ?_) (Nat.le_trans (Nat.le.intro hlength) hle)
  exact List.countP_congr fun entry _ => by simp

/-- What a handler has to publish later on is what it had to publish, unless it is done. -/
theorem mem_owedBy_foldl (hclosed : pool.documents.get? uri = none) (hunopened : Unopened options uri pool turns)
    (more : List Turn) : p ∈ owedBy options uri j ((turns.foldl (step options) pool).upcoming more) ↔
      (turns.foldl (step options) pool).handlers[j]? ≠ some .done ∧
        p ∈ owedBy options uri j (pool.upcoming (turns ++ more)) := by
  have hlength := length_upcoming_foldl options turns [] pool
  rw [upcoming_nil, List.append_nil] at hlength
  rw [upcoming_append]
  cases hj : (turns.foldl (step options) pool).handlers[j]? with
  | none =>
    -- the handler is one of those that are still to come
    have hge := List.getElem?_eq_none_iff.mp hj
    rw [owedBy, owedBy, upcoming, List.getElem?_append_right hge, hlength, List.getElem?_append_right (hlength ▸ hge)]
    simp
  | some h =>
    have hlt := (List.getElem?_eq_some_iff.mp hj).1
    have hlater : owedBy options uri j ((turns.foldl (step options) pool).upcoming more) =
        owedBy options uri j (turns.foldl (step options) pool).handlers := by
      rw [owedBy, owedBy, getElem?_upcoming hj, hj]
    have hbefore : owedBy options uri j (pool.upcoming turns ++ (events more).map .storing) =
        owedBy options uri j (pool.upcoming turns) := by
      rw [owedBy, owedBy, List.getElem?_append_left (hlength ▸ hlt)]
    rw [hlater, hbefore, ← about_log options j turns hclosed hunopened, List.mem_append, mem_about]
    constructor
    · intro howed
      refine ⟨?_, Or.inr howed⟩
      rintro hdone
      rw [owedBy_of_done (hj.trans hdone)] at howed
      cases howed
    · rintro ⟨hdone, ⟨hmem, -⟩ | howed⟩
      · exact absurd (hj.symm.trans (done_of_mem_log hmem)) hdone
      · exact howed

/-- In a run, the handlers that have something to publish about a closed document are those that close it and those that
have found it. -/
theorem mem_owedBy_run_iff (options : LintOptions) (turns more : List Turn) :
    p ∈ owedBy options uri j ((run options turns).upcoming more) ↔
      (run options turns).handlers[j]? ≠ some .done ∧
        ∃ e, (events (turns ++ more))[j]? = some e ∧ Handler.Late options uri e (run options turns).handlers[j]? p := by
  have hdone : ∀ {h}, ((run options turns).upcoming more)[j]? = some h →
      (h = .done ↔ (run options turns).handlers[j]? = some .done) :=
    fun hj => upcoming_eq_iff hj fun e heq => by cases heq
  have hlate : ∀ {h e}, ((run options turns).upcoming more)[j]? = some h →
      (Handler.Late options uri e (some h) p ↔ Handler.Late options uri e (run options turns).handlers[j]? p) := by
    intro h e hj
    have hfound : ∀ d, h = .publishing uri d ↔ (run options turns).handlers[j]? = some (.publishing uri d) :=
      fun d => upcoming_eq_iff hj fun e heq => by cases heq
    simp only [Handler.Late, Option.some.injEq, hfound]
  rw [owedBy, Option.mem_toList, Option.bind_eq_some_iff]
  constructor
  · rintro ⟨h, hj, howed⟩
    obtain ⟨e, he, hh⟩ := exists_event options turns more hj
    rw [hh.owed_iff, hlate hj, Ne, hdone hj] at howed
    exact ⟨howed.1, e, he, howed.2⟩
  · rintro ⟨hopen, e, he, hdue⟩
    obtain ⟨h, hj, hh⟩ := exists_handler options turns more he
    refine ⟨h, hj, ?_⟩
    rw [hh.owed_iff, hlate hj, Ne, hdone hj]
    exact ⟨hopen, hdue⟩

end Closed

/-! ### After a document was closed -/

/-- A handler closes a document by its step after `start` and takes the reports about it back by its step after `mid`.
No turn after the first of these steps opens the document. -/
structure Closes (options : LintOptions) (uri : Url) (i : Nat) (start mid rest : List Turn) : Prop where
  removes : (run options start).handlers[i]? = some (.storing (.closed uri))
  clears : (run options (start ++ .advances i :: mid)).handlers[i]? = some (.clearing uri)
  unopened : Unopened options uri (run options (start ++ [.advances i])) (mid ++ .advances i :: rest)

instance (options : LintOptions) (uri : Url) (i : Nat) (start mid rest : List Turn) :
    Decidable (Closes options uri i start mid rest) :=
  decidable_of_iff ((run options start).handlers[i]? = some (.storing (.closed uri)) ∧
      (run options (start ++ .advances i :: mid)).handlers[i]? = some (.clearing uri) ∧
      Unopened options uri (run options (start ++ [.advances i])) (mid ++ .advances i :: rest))
    ⟨fun h => ⟨h.1, h.2.1, h.2.2⟩, fun h => ⟨h.removes, h.clears, h.unopened⟩⟩

theorem foldl_cleared (options : LintOptions) (i : Nat) (start mid : List Turn) :
    (mid ++ [Turn.advances i]).foldl (step options) (run options (start ++ [.advances i])) =
      run options (start ++ .advances i :: mid ++ [.advances i]) := by
  simp [run]

theorem foldl_last (options : LintOptions) (i : Nat) (start mid rest : List Turn) :
    rest.foldl (step options) (run options (start ++ .advances i :: mid ++ [.advances i])) =
      run options (start ++ .advances i :: mid ++ .advances i :: rest) := by
  simp [run]

namespace Closes

variable {options : LintOptions} {uri : Url} {i : Nat} {start mid rest : List Turn}

theorem get?_removed (h : Closes options uri i start mid rest) :
    (run options (start ++ [.advances i])).documents.get? uri = none := by
  rw [run_concat, step_advances options h.removes]
  exact DocumentEvent.get?_store (.closed uri) _

/-- No turn opens the document between the two steps of the handler, and none after them. -/
theorem unopened_parts (h : Closes options uri i start mid rest) :
    Unopened options uri (run options (start ++ [.advances i])) (mid ++ [.advances i]) ∧
      Unopened options uri (run options (start ++ .advances i :: mid ++ [.advances i])) rest := by
  rw [← foldl_cleared]
  refine unopened_append ?_
  rw [List.append_assoc]
  exact h.unopened

theorem get?_cleared (h : Closes options uri i start mid rest) :
    (run options (start ++ .advances i :: mid ++ [.advances i])).documents.get? uri = none := by
  rw [← foldl_cleared]
  exact get?_foldl h.get?_removed h.unopened_parts.1

theorem getLast?_cleared (h : Closes options uri i start mid rest) :
    (run options (start ++ .advances i :: mid ++ [.advances i])).published.getLast? = some ⟨uri, [], none⟩ := by
  rw [run_concat, step_advances options h.clears]
  exact List.getLast?_concat

/-- The handlers that publish about the document after its reports were taken back are those that come to their end
then, and what they publish was settled when the document was removed. -/
theorem mem_log_iff (h : Closes options uri i start mid rest) (j : Nat) {p : Publication} (hp : p.uri = uri) :
    (j, p) ∈ log options (run options (start ++ .advances i :: mid ++ [.advances i])) rest ↔
      (run options (start ++ .advances i :: mid ++ [.advances i])).handlers[j]? ≠ some .done ∧
      (run options (start ++ .advances i :: mid ++ .advances i :: rest)).handlers[j]? = some .done ∧
      ∃ e, (events (start ++ .advances i :: mid ++ .advances i :: rest))[j]? = some e ∧
        Handler.Late options uri e (run options (start ++ [.advances i])).handlers[j]? p := by
  have hturns : start ++ [.advances i] ++ (mid ++ [.advances i] ++ rest) =
      start ++ .advances i :: mid ++ .advances i :: rest := by simp
  have hkept : (run options (start ++ .advances i :: mid ++ [.advances i])).handlers[j]? ≠ some .done →
      (run options (start ++ [.advances i])).handlers[j]? ≠ some .done := by
    rw [← foldl_cleared]
    exact mt (done_foldl options _)
  have howed := mem_owedBy_foldl (p := p) (j := j) h.get?_removed h.unopened_parts.1 rest
  rw [mem_owedBy_run_iff, hturns, foldl_cleared] at howed
  rw [Pool.mem_log_iff h.get?_cleared h.unopened_parts.2 hp, foldl_last, howed]
  constructor
  · rintro ⟨hdone, hopen, -, hlate⟩
    exact ⟨hopen, hdone, hlate⟩
  · rintro ⟨hopen, hdone, hlate⟩
    exact ⟨hdone, hopen, hkept hopen, hlate⟩

end Closes

/-- A document that was closed stays so until it is opened again. What is published about it meanwhile, after the
reports about it were taken back, is known handler by handler, and no handler publishes about it twice. A handler that
comes to its end in this time publishes the empty list if it closes the document too. Any other handler publishes only
if it had found the document before it was removed, and then the reports about what it had found. So nothing more is
published about the document exactly if no handler of either kind comes to its end. -/
theorem publishes_after_close_iff {options : LintOptions} {uri : Url} {i : Nat} {start mid rest : List Turn}
    (h : Closes options uri i start mid rest) :
    let turns := start ++ .advances i :: mid ++ .advances i :: rest
    let removed := run options (start ++ [.advances i])
    let cleared := run options (start ++ .advances i :: mid ++ [.advances i])
    let last := run options turns
    let new := log options cleared rest
    cleared.published.getLast? = some ⟨uri, [], none⟩ ∧ last.documents.get? uri = none ∧
    last.published = cleared.published ++ new.map Prod.snd ∧
    ((new.filter fun entry => entry.2.uri = uri).map Prod.fst).Nodup ∧
    (∀ j p, p.uri = uri → ((j, p) ∈ new ↔ cleared.handlers[j]? ≠ some .done ∧ last.handlers[j]? = some .done ∧
      ∃ e, (events turns)[j]? = some e ∧ Handler.Late options uri e removed.handlers[j]? p)) ∧
    ((∀ entry ∈ new, entry.2.uri ≠ uri) ↔ ∀ (j : Nat) (e : DocumentEvent), (events turns)[j]? = some e →
      cleared.handlers[j]? ≠ some .done → last.handlers[j]? = some .done →
        e ≠ .closed uri ∧ ∀ d, removed.handlers[j]? ≠ some (.publishing uri d)) := by
  intro turns removed cleared last new
  have hrest := h.unopened_parts.2
  refine ⟨h.getLast?_cleared, ?_, ?_, nodup_log h.get?_cleared hrest, fun j p hp => h.mem_log_iff j hp, ?_, ?_⟩
  · rw [show last = _ from (foldl_last options i start mid rest).symm]
    exact get?_foldl h.get?_cleared hrest
  · rw [show last = _ from (foldl_last options i start mid rest).symm]
    exact published_foldl options rest cleared
  · intro hnone j e he hopen hdone
    have hsilent : ∀ p, p.uri = uri → ¬ Handler.Late options uri e removed.handlers[j]? p :=
      fun p hp hlate => hnone (j, p) ((h.mem_log_iff j hp).mpr ⟨hopen, hdone, e, he, hlate⟩) hp
    have hclose : e ≠ .closed uri := fun heq => hsilent ⟨uri, [], none⟩ rfl (Or.inl ⟨heq, rfl⟩)
    exact ⟨hclose, fun d hfound => hsilent (d.publication options uri) rfl (Or.inr ⟨hclose, d, hfound, rfl⟩)⟩
  · rintro hnone ⟨j, p⟩ hentry hp
    obtain ⟨hopen, hdone, e, he, hlate⟩ := (h.mem_log_iff j hp).mp hentry
    obtain ⟨hclose, hfound⟩ := hnone j e he hopen hdone
    rcases hlate with ⟨hclosing, -⟩ | ⟨-, d, hd, -⟩
    · exact hclose hclosing
    · exact hfound d hd

/-- The address of a document without a file. -/
def untitled : Url := ⟨"untitled".toList, none, [], "a".toList, []⟩

/-- A document with one report. -/
def oneSet : Document := ⟨"doc().set(\x7b\x7d);".toList, 1, "javascript"⟩

/-- The document is opened and found, and before its reports are published it is closed. -/
def foundAndClosed : List Turn :=
  [.comes (.opened untitled oneSet), .advances 0, .advances 0, .comes (.closed untitled)]

/-- Closing a document does not clear it for good: the handler that had found the document before it was closed
publishes its reports after they were taken back, and nothing takes them back again. -/
theorem reports_return_after_close :
    Closes {} untitled 1 foundAndClosed [] [.advances 0] ∧
    (run {} (foundAndClosed ++ [.advances 1, .advances 1])).published.map
      (fun p => (p.uri, p.diagnostics.length, p.version)) = [(untitled, 0, none)] ∧
    (run {} (foundAndClosed ++ [.advances 1, .advances 1, .advances 0])).published.map
      (fun p => (p.uri, p.diagnostics.length, p.version)) = [(untitled, 0, none), (untitled, 1, some 1)] := by
  decide +kernel

/-- The document is closed once more before its reports come. -/
def closedAgain : List Turn := [.comes (.closed untitled), .advances 2, .advances 2, .advances 0]

/-- With a second handler that closes the document, both publish after the reports were taken back: this one the empty
list, and the one that had found the document its reports. The first handler that closes the document does not. -/
theorem publishes_after_close_iff_untitled :
    let cleared := run {} (foundAndClosed ++ [.advances 1] ++ [.advances 1])
    (2, ⟨untitled, [], none⟩) ∈ log {} cleared closedAgain ∧
    (0, oneSet.publication {} untitled) ∈ log {} cleared closedAgain ∧
    (1, ⟨untitled, [], none⟩) ∉ log {} cleared closedAgain := by
  have h : Closes {} untitled 1 foundAndClosed [] closedAgain := by decide +kernel
  obtain ⟨-, -, -, -, hmem, -⟩ := publishes_after_close_iff h
  refine ⟨(hmem 2 _ rfl).mpr ⟨by decide +kernel, by decide +kernel, .closed untitled, rfl, Or.inl ⟨rfl, rfl⟩⟩, ?_, ?_⟩
  · refine (hmem 0 _ rfl).mpr ⟨by decide +kernel, by decide +kernel, .opened untitled oneSet, rfl, Or.inr ?_⟩
    exact ⟨by decide, oneSet, by decide +kernel, rfl⟩
  · intro hagain
    exact absurd ((hmem 1 _ rfl).mp hagain).1 (by decide +kernel)

end Pool

end WriteGuard
