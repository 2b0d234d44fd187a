import WriteGuard.Write.Payload
import WriteGuard.Write.Suggestion

/-!
The checks of the rules on a single call.
-/

namespace WriteGuard

/-- A violation of a rule at a place in the text. -/
structure Finding where
  rule : LintRule
  message : Message
  span : Span
  suggestions : List Suggestion
  deriving DecidableEq, Repr, Inhabited

namespace Finding

/-- A write whose payload holds `undefined`. -/
def noUndefinedValues? (objects : List String) (view : SourceView) (call : Call) : Option Finding :=
  match Signature.ofCall? (Operations.writes objects) call with
  | none => none
  | some signature =>
    match signature.payload? call with
    | none => none
    | some payload =>
      if Payload.containsSentinel view payload
      then some ⟨.noUndefinedValues, .noUndefinedValues, payload.span, []⟩ else none

/-- A set that does not merge. -/
def setRequireMerge? (view : SourceView) (call : Call) : Option Finding :=
  match Signature.ofCall? Operations.overwritingSets call with
  | none => none
  | some signature =>
    if MergeCheck.ofCall call signature = .satisfied then none
    else some ⟨.setRequireMerge, .missingMerge, call.span, Suggestion.forMerge view call signature⟩

/-- The violations of a call. -/
def ofCall (objects : List String) (view : SourceView) (call : Call) : List Finding :=
  (noUndefinedValues? objects view call).toList ++ (setRequireMerge? view call).toList

/-- The violations of several calls, call by call. -/
def ofCalls (objects : List String) (view : SourceView) (calls : List Call) : List Finding :=
  calls.flatMap (ofCall objects view)

/-- The violations of a file. -/
def ofFile (objects : List String) (file : SourceFile) : List Finding := ofCalls objects file.view file.calls

end Finding

end WriteGuard
