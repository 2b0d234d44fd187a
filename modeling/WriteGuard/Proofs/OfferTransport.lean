import Mathlib.Data.List.Forall2
import WriteGuard.Lint.Linter
import WriteGuard.Server.CodeAction

/-!
Offers on their way through an editor. They leave in the data of reports and come back in a request for fixes, among
reports of other tools and with whatever data. What counts as a list of offers is said here apart from the decoders, as
the JSON values that spell one, and the decoders read just these. So every offer comes back once, in its place, and
nothing else becomes a fix.
-/

namespace WriteGuard

namespace Json

/-- An entry put into an object is found under its key, and all other keys find what they found before. -/
theorem get?_insert (entry : String × Json) (entries : List (String × Json)) (key : String) :
    (object (insert entry entries)).get? key =
      if entry.1 = key then some entry.2 else (object entries).get? key := by
  induction entries with
  | nil => by_cases h : entry.1 = key <;> simp [insert, get?, h]
  | cons other rest ih =>
    simp only [get?] at ih ⊢
    rw [insert]
    by_cases hsame : entry.1 = other.1
    · by_cases hkey : other.1 = key <;> simp [hsame, hkey]
    rw [if_neg hsame]
    by_cases hless : entry.1 < other.1
    · rw [if_pos hless]
      by_cases hkey : entry.1 = key <;> simp [hkey]
    · rw [if_neg hless]
      by_cases hother : other.1 = key
      · have hentry : entry.1 ≠ key := fun h => hsame (h.trans hother.symm)
        simp [hother, hentry]
      · simpa [hother] using ih

/-- An object of two entries. -/
theorem get?_ofEntries_pair (m n : String) (a b : Json) (key : String) :
    (ofEntries [(m, a), (n, b)]).get? key = if n = key then some b else if m = key then some a else none := by
  simp only [ofEntries, List.foldl_cons, List.foldl_nil, get?_insert]
  rfl

/-- A value that has two named parts: an object with entries for both, or a list of just these two in order. -/
inductive HasParts (m n : String) (a b : Json) : Json → Prop where
  | named {entries : List (String × Json)} (first : (object entries).get? m = some a)
      (second : (object entries).get? n = some b) : HasParts m n a b (object entries)
  | listed : HasParts m n a b (array [a, b])

theorem hasParts_ofEntries {m n : String} (h : m ≠ n) (a b : Json) :
    HasParts m n a b (ofEntries [(m, a), (n, b)]) := by
  refine .named ?_ ?_
  · exact (get?_ofEntries_pair m n a b m).trans (by simp [h.symm])
  · exact (get?_ofEntries_pair m n a b n).trans (by simp)

end Json

/-! ### The decoders -/

namespace Decoder

theorem string_eq_ok_iff {j : Json} {s : String} : string j = .ok s ↔ j = .string s := by
  cases j <;> simp [string, unexpected]

theorem u32_eq_ok_iff {j : Json} {n : Nat} : u32 j = .ok n ↔ n < 4294967296 ∧ j = .nat n := by
  cases j with
  | number m places =>
    cases places with
    | zero =>
      by_cases h : 0 ≤ m ∧ m ≤ 4294967295
      · simp [u32, integer, h, Except.map, Json.nat]
        omega
      · simp [u32, integer, h, Except.map, Json.nat]
        omega
    | succ places => simp [u32, integer, unexpected, Except.map, Json.nat]
  | _ => simp [u32, integer, unexpected, Except.map, Json.nat]

theorem bind_eq_ok_iff {α β : Type} {x : Except String α} {f : α → Except String β} {b : β} :
    (x >>= f) = .ok b ↔ ∃ a, x = .ok a ∧ f a = .ok b := by
  cases x <;> simp [bind, Except.bind]

theorem pure_eq_ok_iff {α : Type} {a b : α} : (pure a : Except String α) = .ok b ↔ a = b := by
  simp [pure, Except.pure]

theorem required_eq_ok_iff {α : Type} {name : String} {part : Option α} {a : α} :
    required name part = .ok a ↔ part = some a := by
  cases part <;> simp [required]

theorem field?_eq_ok_some_iff {α : Type} {j : Json} {name : String} {part : Decoder α} {a : α} :
    field? j name part = .ok (some a) ↔ ∃ v, j.get? name = some v ∧ part v = .ok a := by
  cases hv : j.get? name with
  | none => simp [field?, hv]
  | some v => cases ha : part v <;> simp [field?, hv, ha, Except.map]

/-- A list is read item by item. -/
theorem list_eq_ok_iff {α : Type} {item : Decoder α} {j : Json} {xs : List α} :
    list item j = .ok xs ↔ ∃ items, j = .array items ∧ List.Forall₂ (fun j x => item j = .ok x) items xs := by
  cases j with
  | array items =>
    simp only [list, Json.array.injEq, exists_eq_left']
    induction items generalizing xs with
    | nil => simp [pure_eq_ok_iff, @eq_comm _ [] xs]
    | cons j items ih =>
      simp only [List.mapM_cons, bind_eq_ok_iff, pure_eq_ok_iff, ih, List.forall₂_cons_left_iff]
      constructor
      · rintro ⟨x, hx, xs, hxs, rfl⟩
        exact ⟨x, xs, hx, hxs, rfl⟩
      · rintro ⟨x, xs, hx, hxs, rfl⟩
        exact ⟨x, hx, xs, hxs, rfl⟩
  | _ => simp [list, unexpected]

/-- A record of two parts, whatever it is built into, is read from the values that have these parts. -/
theorem record_pair_eq_ok_iff {α β γ : Type} {kind m n : String} (hne : m ≠ n) {p : Decoder α} {q : Decoder β}
    {mk : α → β → γ} {j : Json} {r : γ} :
    record kind [m, n] (fun j => do
      let second ← field? j n q
      let first ← field? j m p
      return mk (← required m first) (← required n second)) j = .ok r ↔
      ∃ a b x y, Json.HasParts m n a b j ∧ p a = .ok x ∧ q b = .ok y ∧ r = mk x y := by
  -- the parts of an object, or of the object that a list of parts stands for
  have hread : ∀ j : Json, (do
      let second ← field? j n q
      let first ← field? j m p
      return mk (← required m first) (← required n second)) = .ok r ↔
      ∃ a b x y, (j.get? m = some a ∧ j.get? n = some b) ∧ p a = .ok x ∧ q b = .ok y ∧ r = mk x y := by
    intro j
    simp only [bind_eq_ok_iff, required_eq_ok_iff, pure_eq_ok_iff]
    constructor
    · rintro ⟨_, hsecond, _, hfirst, x, rfl, y, rfl, rfl⟩
      obtain ⟨b, hb, hy⟩ := field?_eq_ok_some_iff.mp hsecond
      obtain ⟨a, ha, hx⟩ := field?_eq_ok_some_iff.mp hfirst
      exact ⟨a, b, x, y, ⟨ha, hb⟩, hx, hy, rfl⟩
    · rintro ⟨a, b, x, y, ⟨ha, hb⟩, hx, hy, rfl⟩
      have hsecond := field?_eq_ok_some_iff.mpr ⟨b, hb, hy⟩
      have hfirst := field?_eq_ok_some_iff.mpr ⟨a, ha, hx⟩
      exact ⟨some y, hsecond, some x, hfirst, x, rfl, y, rfl, rfl⟩
  cases j with
  | object entries =>
    rw [record, hread]
    constructor
    · rintro ⟨a, b, x, y, ⟨ha, hb⟩, hrest⟩
      exact ⟨a, b, x, y, .named ha hb, hrest⟩
    · rintro ⟨a, b, x, y, ⟨ha, hb⟩, hrest⟩
      exact ⟨a, b, x, y, ⟨ha, hb⟩, hrest⟩
  | array items =>
    by_cases hlength : items.length = 2
    · obtain ⟨a, b, rfl⟩ := List.length_eq_two.mp hlength
      simp only [record, List.length_cons, List.length_nil, if_true, List.zip_cons_cons, List.zip_nil_left, hread,
        Json.get?_ofEntries_pair, if_neg hne.symm, Option.some.injEq]
      constructor
      · rintro ⟨_, _, x, y, ⟨rfl, rfl⟩, hrest⟩
        exact ⟨a, b, x, y, .listed, hrest⟩
      · rintro ⟨_, _, x, y, ⟨⟩, hrest⟩
        exact ⟨a, b, x, y, ⟨rfl, rfl⟩, hrest⟩
    · constructor
      · intro h
        simp [record, hlength] at h
      · rintro ⟨_, _, _, _, ⟨⟩, _⟩
        exact absurd rfl hlength
  | _ =>
    constructor
    · intro h
      simp [record, unexpected] at h
    · rintro ⟨_, _, _, _, ⟨⟩, _⟩

end Decoder

/-! ### What spells an offer -/

/-- A value spells a place: its line and its column as numbers of 32 bits. -/
def Position.Spelled (p : Position) (j : Json) : Prop :=
  (p.line < 4294967296 ∧ p.character < 4294967296) ∧
    Json.HasParts "line" "character" (.nat p.line) (.nat p.character) j

/-- A value spells a range: its two ends. -/
def Range.Spelled (r : Range) (j : Json) : Prop :=
  ∃ start stop, Json.HasParts "start" "end" start stop j ∧ r.start.Spelled start ∧ r.stop.Spelled stop

/-- A value spells a change: its range and its new text. -/
def RangeEdit.Spelled (e : RangeEdit) (j : Json) : Prop :=
  ∃ range, Json.HasParts "range" "newText" range (.string e.newText) j ∧ e.range.Spelled range

/-- A value spells an offer: its title and its change. -/
def Offer.Spelled (o : Offer) (j : Json) : Prop :=
  ∃ edit, Json.HasParts "title" "edit" (.string o.title) edit j ∧ o.edit.Spelled edit

/-- A value spells offers: a list of values that each spell one. -/
def Offer.ListSpelled (offers : List Offer) (j : Json) : Prop :=
  ∃ items, j = .array items ∧ List.Forall₂ (fun j o => o.Spelled j) items offers

theorem Position.decoder_eq_ok_iff {j : Json} {p : Position} : decoder j = .ok p ↔ p.Spelled j := by
  rw [decoder, Decoder.record_pair_eq_ok_iff (by decide)]
  simp only [Decoder.u32_eq_ok_iff]
  constructor
  · rintro ⟨_, _, line, character, hparts, ⟨hline, rfl⟩, ⟨hcharacter, rfl⟩, rfl⟩
    exact ⟨⟨hline, hcharacter⟩, hparts⟩
  · rintro ⟨⟨hline, hcharacter⟩, hparts⟩
    exact ⟨_, _, p.line, p.character, hparts, ⟨hline, rfl⟩, ⟨hcharacter, rfl⟩, rfl⟩

theorem Range.decoder_eq_ok_iff {j : Json} {r : Range} : decoder j = .ok r ↔ r.Spelled j := by
  rw [decoder, Decoder.record_pair_eq_ok_iff (by decide)]
  simp only [Position.decoder_eq_ok_iff]
  constructor
  · rintro ⟨start, stop, _, _, hparts, hstart, hstop, rfl⟩
    exact ⟨start, stop, hparts, hstart, hstop⟩
  · rintro ⟨start, stop, hparts, hstart, hstop⟩
    exact ⟨start, stop, r.start, r.stop, hparts, hstart, hstop, rfl⟩

theorem RangeEdit.decoder_eq_ok_iff {j : Json} {e : RangeEdit} : decoder j = .ok e ↔ e.Spelled j := by
  rw [decoder, Decoder.record_pair_eq_ok_iff (by decide)]
  simp only [Range.decoder_eq_ok_iff, Decoder.string_eq_ok_iff]
  constructor
  · rintro ⟨range, _, _, newText, hparts, hrange, rfl, rfl⟩
    exact ⟨range, hparts, hrange⟩
  · rintro ⟨range, hparts, hrange⟩
    exact ⟨range, _, e.range, e.newText, hparts, hrange, rfl, rfl⟩

theorem Offer.decoder_eq_ok_iff {j : Json} {o : Offer} : decoder j = .ok o ↔ o.Spelled j := by
  rw [decoder, Decoder.record_pair_eq_ok_iff (by decide)]
  simp only [RangeEdit.decoder_eq_ok_iff, Decoder.string_eq_ok_iff]
  constructor
  · rintro ⟨_, edit, title, _, hparts, rfl, hedit, rfl⟩
    exact ⟨edit, hparts, hedit⟩
  · rintro ⟨edit, hparts, hedit⟩
    exact ⟨_, edit, o.title, o.edit, hparts, rfl, hedit, rfl⟩

/-- The data that are read as offers are those that spell them. -/
theorem Offer.list_decoder_eq_ok_iff {j : Json} {offers : List Offer} :
    Decoder.list decoder j = .ok offers ↔ ListSpelled offers j := by
  simp only [Decoder.list_eq_ok_iff, decoder_eq_ok_iff, ListSpelled]

/-! ### Out and back -/

/-- Places of a text are counted in words of 32 bits, so they can always be sent. -/
theorem Position.spelled_ofOffset (lines : Lines) (text : List Char) (offset : Nat) :
    (ofOffset lines text offset).Spelled (ofOffset lines text offset).toJson :=
  ⟨⟨Nat.mod_lt _ (by decide), Nat.mod_lt _ (by decide)⟩, Json.hasParts_ofEntries (by decide) _ _⟩

/-- An offer that is sent is spelled by what is sent. -/
theorem Offer.spelled_ofSuggestion (lines : Lines) (content : List Char) (s : Suggestion) :
    (ofSuggestion lines content s).Spelled (ofSuggestion lines content s).toJson :=
  ⟨_, Json.hasParts_ofEntries (by decide) _ _, _, Json.hasParts_ofEntries (by decide) _ _,
    _, _, Json.hasParts_ofEntries (by decide) _ _, Position.spelled_ofOffset .., Position.spelled_ofOffset ..⟩

namespace QuickFix

/-- The offers of a report of this server are its suggestions, in their order. -/
theorem offers_ofDiagnostic (lines : Lines) (content : List Char) (d : Diagnostic) :
    offers (.ofDiagnostic lines content d) = d.suggestions.map (Offer.ofSuggestion lines content) := by
  by_cases hnone : d.suggestions = []
  · simp [offers, EditorDiagnostic.ofDiagnostic, hnone]
  have hspelled : Offer.ListSpelled (d.suggestions.map (Offer.ofSuggestion lines content))
      (.array (d.suggestions.map fun s => (Offer.ofSuggestion lines content s).toJson)) := by
    refine ⟨_, rfl, ?_⟩
    rw [List.forall₂_map_left_iff, List.forall₂_map_right_iff, List.forall₂_same]
    exact fun s _ => Offer.spelled_ofSuggestion lines content s
  simp [offers, EditorDiagnostic.ofDiagnostic, hnone, Offer.list_decoder_eq_ok_iff.mpr hspelled]

/-- A report that offers nothing: one of another source, one without data, or one whose data spell no offers. -/
inductive Foreign (d : EditorDiagnostic) : Prop where
  | source (h : d.source ≠ some EditorDiagnostic.serverSource) : Foreign d
  | noData (h : d.data = none) : Foreign d
  | otherData {data : Json} (h : d.data = some data) (hno : ∀ offers, ¬ Offer.ListSpelled offers data) : Foreign d

theorem offers_of_foreign {d : EditorDiagnostic} (h : Foreign d) : offers d = [] := by
  cases h with
  | source hsource => simp [offers, hsource]
  | noData hdata => simp [offers, hdata]
  | @otherData data hdata hno =>
    cases hread : Decoder.list Offer.decoder data with
    | error e => simp [offers, hdata, hread]
    | ok found => exact absurd (Offer.list_decoder_eq_ok_iff.mp hread) (hno found)

/-- The fixes for a report are its offers in order, and the one with number zero is the preferred one. -/
theorem ofDiagnostic_eq (uri : String) (d : EditorDiagnostic) :
    ofDiagnostic uri d = (offers d).zipIdx.map fun (o, i) => ofOffer uri d (i = 0) o := by
  have hrest : ∀ (rest : List Offer) (k : Nat),
      (rest.zipIdx (k + 1)).map (fun (o, i) => ofOffer uri d (decide (i = 0)) o) = rest.map (ofOffer uri d false) := by
    intro rest
    induction rest with
    | nil => exact fun _ => rfl
    | cons o rest ih => simp [List.zipIdx_cons, ih]
  rw [ofDiagnostic]
  split
  · next h => simp [h]
  · next h => simp [h, List.zipIdx_cons, hrest]

end QuickFix

/-! ### Among other reports -/

/-- A list that holds two lists, each in its own order. -/
inductive Interleaved {α : Type} : List α → List α → List α → Prop where
  | nil : Interleaved [] [] []
  | left (a : α) {xs ys zs : List α} (h : Interleaved xs ys zs) : Interleaved (a :: xs) ys (a :: zs)
  | right (a : α) {xs ys zs : List α} (h : Interleaved xs ys zs) : Interleaved xs (a :: ys) (a :: zs)

/-- One list behind the other is a way to hold both. -/
theorem Interleaved.append {α : Type} (xs ys : List α) : Interleaved xs ys (xs ++ ys) := by
  induction xs with
  | nil =>
    induction ys with
    | nil => exact .nil
    | cons y ys ih => exact .right y ih
  | cons x xs ih => exact .left x ih

namespace QuickFix

/-- Reports that offer nothing can stand anywhere among others without a trace. -/
theorem ofDiagnostics_interleaved (uri : String) {own others mixed : List EditorDiagnostic}
    (h : Interleaved own others mixed) (hothers : ∀ d ∈ others, Foreign d) :
    ofDiagnostics uri mixed = ofDiagnostics uri own := by
  induction h with
  | nil => rfl
  | left d _ ih =>
    have hrest := ih hothers
    simp only [ofDiagnostics, List.flatMap_cons] at hrest ⊢
    rw [hrest]
  | right d _ ih =>
    have hrest := ih fun d' hd' => hothers d' (List.mem_cons_of_mem d hd')
    have hnone : ofDiagnostic uri d = [] := by
      rw [ofDiagnostic_eq, offers_of_foreign (hothers d List.mem_cons_self)]
      rfl
    simp only [ofDiagnostics, List.flatMap_cons] at hrest ⊢
    rw [hnone, hrest, List.nil_append]

/-- Every suggestion comes back from an editor as one fix, in the order of reports and then of suggestions, with its
words, its range, its text and its report; the first of each report is the preferred one. Reports that offer nothing
here, wherever they stand between, add nothing. -/
theorem ofDiagnostics_round_trip (uri : String) (content : List Char) (ds : List Diagnostic)
    {others mixed : List EditorDiagnostic} (hothers : ∀ d ∈ others, Foreign d)
    (hmixed : Interleaved (EditorDiagnostic.ofDiagnostics content ds) others mixed) :
    ofDiagnostics uri mixed = ds.flatMap fun d => d.suggestions.zipIdx.map fun (s, i) => {
      title := s.message.text
      uri
      edit := ⟨Range.ofSpan (Lines.ofText content) content s.edit.range, s.edit.newText⟩
      diagnostic := .ofDiagnostic (Lines.ofText content) content d
      preferred := i = 0 } := by
  rw [ofDiagnostics_interleaved uri hmixed hothers, ofDiagnostics, EditorDiagnostic.ofDiagnostics, List.flatMap_map]
  congr 1
  funext d
  rw [ofDiagnostic_eq, offers_ofDiagnostic, ← List.map_zipIdx, List.map_map]
  rfl

/-- A text with one report, on its second line, that comes with two suggestions. -/
def overwritingText : List Char := "'😀';\ndoc().set(\x7b\x7d);".toList

/-- Its reports. -/
def overwritingReports : List Diagnostic := LintOptions.lint {} "a.js".toList overwritingText

/-- A report with data, from this server or from another tool. -/
def reportFrom (source : String) (data : Option Json) : EditorDiagnostic :=
  { range := ⟨⟨0, 0⟩, ⟨0, 1⟩⟩, source := some source, message := "", data }

/-- Reports that offer nothing: one of another tool with an offer of its own, one without data, and one of whose data
only the title is there. -/
def foreignReports : List EditorDiagnostic := [
  reportFrom "eslint" (some (.array [(⟨"", ⟨⟨0, 0⟩, ⟨0, 1⟩⟩, ""⟩ : Offer).toJson])),
  reportFrom EditorDiagnostic.serverSource none,
  reportFrom EditorDiagnostic.serverSource (some (.array [.ofEntries [("title", .string "")]]))]

theorem foreign_foreignReports : ∀ d ∈ foreignReports, Foreign d := by
  intro d hd
  simp only [foreignReports, List.mem_cons, List.not_mem_nil, or_false] at hd
  rcases hd with rfl | rfl | rfl
  · exact .source (by decide)
  · exact .noData rfl
  · refine .otherData rfl fun offers hspelled => ?_
    have hread := Offer.list_decoder_eq_ok_iff.mpr hspelled
    have herror : Decoder.list Offer.decoder (.array [.ofEntries [("title", .string "")]]) =
        .error "missing field `edit`" := rfl
    rw [herror] at hread
    cases hread

/-- The two offers of the text go past the reports that offer nothing. -/
theorem ofDiagnostics_round_trip_amongOthers :
    (ofDiagnostics "file:///a.js" (foreignReports.take 1 ++
        EditorDiagnostic.ofDiagnostics overwritingText overwritingReports ++ foreignReports.drop 1)).map
        (fun f => (f.title, f.uri, f.edit, f.preferred)) =
      [(Message.addMergeOption.text, "file:///a.js", ⟨⟨⟨1, 12⟩, ⟨1, 12⟩⟩, ", \x7b merge: true \x7d"⟩, true),
        (Message.changeToUpdate.text, "file:///a.js", ⟨⟨⟨1, 6⟩, ⟨1, 9⟩⟩, "update"⟩, false)] := by
  have hmixed : ∀ own, Interleaved own foreignReports (foreignReports.take 1 ++ own ++ foreignReports.drop 1) :=
    fun own => .right _ (Interleaved.append own (foreignReports.drop 1))
  rw [ofDiagnostics_round_trip "file:///a.js" overwritingText _ foreign_foreignReports (hmixed _)]
  decide +kernel

end QuickFix

end WriteGuard
