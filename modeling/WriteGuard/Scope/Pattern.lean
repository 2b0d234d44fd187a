import WriteGuard.Expr.Lower

/-!
Which names a pattern, a parameter list or an import binds. Default values, types, keys and the outside names of imports
bind nothing.
-/

namespace WriteGuard.Source.Tree

mutual

/-- Whether a pattern binds a name. -/
def binds (content : List Char) (name : String) : Tree → Bool
  | .node k _ s cs =>
    match k with
    | .identifier | .shorthandPattern => String.ofList (Text.sliceD content s) = name
    | .assignmentPattern | .objectAssignmentPattern => (partBinds content name .left cs).getD false
    | .pairPattern => (partBinds content name .value cs).getD false
    | .parameter => (partBinds content name .pattern cs).getD false
    | .importSpecifier =>
      ((partBinds content name .alias cs).or (partBinds content name .name cs)).getD false
    | .typeMark | .decorator | .string => false
    | _ => anyBinds content name cs

/-- Whether the first tree that plays a part binds a name; none if there is no such tree. -/
def partBinds (content : List Char) (name : String) (role : Role) : List Tree → Option Bool
  | [] => none
  | t :: ts => if t.role = some role then some (binds content name t) else partBinds content name role ts

/-- Whether one of the trees that are neither comments nor bare symbols binds a name. -/
def anyBinds (content : List Char) (name : String) : List Tree → Bool
  | [] => false
  | t :: ts => (t.kind.isNamed && !t.isComment && binds content name t) || anyBinds content name ts

end

end WriteGuard.Source.Tree
