import WriteGuard.Server.Publish

/-!
Quick fixes: the offers that travelled with the reports of this server, one fix for each.
-/

namespace WriteGuard

/-- A fix that an editor can apply. -/
structure QuickFix where
  title : String
  /-- The document to change. -/
  uri : String
  edit : RangeEdit
  diagnostic : EditorDiagnostic
  preferred : Bool
  deriving Inhabited

namespace QuickFix

/-- The offers of a report of this server; none for other reports and for other data. -/
def offers (d : EditorDiagnostic) : List Offer :=
  if d.source = some EditorDiagnostic.serverSource then
    match d.data with
    | none => []
    | some data =>
      match Decoder.list Offer.decoder data with
      | .ok offers => offers
      | .error _ => []
  else []

/-- The fix for an offer. -/
def ofOffer (uri : String) (d : EditorDiagnostic) (preferred : Bool) (o : Offer) : QuickFix :=
  ⟨o.title, uri, o.edit, d, preferred⟩

/-- The fixes for a report. The first offer is the preferred one. -/
def ofDiagnostic (uri : String) (d : EditorDiagnostic) : List QuickFix :=
  match offers d with
  | [] => []
  | first :: rest => ofOffer uri d true first :: rest.map (ofOffer uri d false)

/-- The fixes for several reports about a document. -/
def ofDiagnostics (uri : String) (ds : List EditorDiagnostic) : List QuickFix := ds.flatMap (ofDiagnostic uri)

/-- A fix as it is sent. -/
def toJson (f : QuickFix) : Json :=
  .ofEntries [("title", .string f.title), ("kind", .string "quickfix"), ("diagnostics", .array [f.diagnostic.toJson]),
    ("edit", .ofEntries [("changes", .ofEntries [(f.uri, .array [f.edit.toJson])])]),
    ("isPreferred", .boolean f.preferred)]

end QuickFix

end WriteGuard
