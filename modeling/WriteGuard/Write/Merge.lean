import WriteGuard.Write.Signature

/-!
Whether the options of a write ask for a merge.
-/

namespace WriteGuard

/-- What the options of a write say about merging. -/
inductive MergeCheck where
  | satisfied
  /-- The call has no options. -/
  | noOptions
  /-- The options are not an object literal. -/
  | notAnObject
  /-- The options do not ask for a merge. -/
  | noDirective
  deriving DecidableEq, Repr, Inhabited

namespace MergeCheck

/-- The name of an answer. -/
def name : MergeCheck → String
  | .satisfied => "Satisfied"
  | .noOptions => "NoOptionsArgument"
  | .notAnObject => "NotAnObject"
  | .noDirective => "NoMergeDirective"

/-- Whether a property is `merge: true`, or `mergeFields` with an array. -/
def isDirective (p : Property) : Bool :=
  match p.key.staticName?, p.value with
  | some "merge", .literal ⟨.boolean true, _⟩ => true
  | some "mergeFields", .array _ _ => true
  | _, _ => false

/-- What the options of a call say. -/
def ofCall (call : Call) (signature : Signature) : MergeCheck :=
  match call.arguments[signature.optionsIndex]? with
  | none => .noOptions
  | some options =>
    match options.members? with
    | none => .notAnObject
    | some members => if (Member.properties members).any isDirective then .satisfied else .noDirective

end MergeCheck

end WriteGuard
