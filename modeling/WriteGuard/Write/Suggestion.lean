import WriteGuard.Lint.Rule
import WriteGuard.Source.Edit
import WriteGuard.Source.File
import WriteGuard.Write.Merge

/-!
Changes offered for a set that does not merge: a merge option, or an update in its place.
-/

namespace WriteGuard

/-- A change that is offered with a finding. -/
structure Suggestion where
  message : Message
  edit : TextEdit
  deriving DecidableEq, Repr, Inhabited

namespace Suggestion

/-- The options that are added to a call. -/
def mergeOption : String := "\x7b merge: true \x7d"

/-- Where the arguments of a call are over and only commas and brackets can follow. -/
def tail (call : Call) : Span :=
  ⟨match call.arguments.getLast? with
    | some argument => argument.span.stop
    | none => call.callee.span.stop, call.span.stop⟩

/-- The merge option in front of the bracket that closes a call. -/
def insertMergeOption? (view : SourceView) (call : Call) : Option TextEdit :=
  match (view.tokens (tail call)).reverse with
  | [] => none
  | closing :: before =>
    if closing.isPunctuator ")" then
      let comma := match before with
        | last :: _ => last.isPunctuator ","
        | [] => false
      some (.insertBefore closing ((if comma then " " else ", ") ++ mergeOption))
    else none

/-- The name of an operation in the place of a token, in the quotes of that token. -/
def requoted? (token : Token) (operation : String) : Option String :=
  match token.kind with
  | .string | .template => token.text.toList.head?.map fun quote => String.ofList (quote :: operation.toList ++ [quote])
  | _ => some operation

/-- An update in the place of a set. -/
def switchToUpdate? (view : SourceView) (signature : Signature) : Option TextEdit :=
  match Operations.updateVariant? signature.operation with
  | none => none
  | some operation =>
    match (view.tokens signature.operationSpan).find? fun t => t.span = signature.operationSpan with
    | none => none
    | some token => (requoted? token operation).map (.replace token)

/-- The changes offered for a set that does not merge, the preferred one first. An option can be added only where the
payload is the last argument. -/
def forMerge (view : SourceView) (call : Call) (signature : Signature) : List Suggestion :=
  (if call.arguments.length = signature.optionsIndex
    then (insertMergeOption? view call).toList.map (⟨.addMergeOption, ·⟩) else [])
  ++ (switchToUpdate? view signature).toList.map (⟨.changeToUpdate, ·⟩)

end Suggestion

end WriteGuard
