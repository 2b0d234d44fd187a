import WriteGuard.Scope.Pattern
import WriteGuard.Source.Preorder

/-!
The declarations of a name that a scope makes itself. Only a plain variable has an initial value that can be followed;
parameters, imports, functions, classes, destructuring and loop heads bind the name to something unknown.
-/

namespace WriteGuard.Scope

open Source

/-- A declaration of a name. -/
inductive Declaration where
  /-- A plain variable with the node of its initial value, if it has one. -/
  | declarator (value : Option Tree)
  /-- Anything else that binds the name. -/
  | unknown

variable (content : List Char) (name : String)

/-- The declaration of the name in one declarator. -/
def ofDeclarator (t : Tree) : List Declaration :=
  if t.kind = .declarator then
    match t.child? .name with
    | none => []
    | some target =>
      if target.kind = .identifier then
        if target.text content = name then [.declarator (t.child? .value)] else []
      else if target.binds content name then [.unknown] else []
  else []

/-- The declarations of the name in a list of declarators. -/
def ofDeclarators (t : Tree) : List Declaration := t.namedChildren.flatMap (ofDeclarator content name)

/-- An unknown declaration if the part of a node that plays a role binds the name. -/
def ofPattern (pattern : Option Tree) : List Declaration :=
  match pattern with
  | some t => if t.binds content name then [.unknown] else []
  | none => []

mutual

/-- The declarations of the name that a statement makes in the block it stands in. -/
def ofStatement : Tree → List Declaration
  | .node k role s cs =>
    match k with
    | .lexicalDeclaration => ofDeclarators content name (.node k role s cs)
    | .functionDeclaration | .classDeclaration =>
      match Tree.child? (.node k role s cs) .name with
      | some own => if own.text content = name then [.unknown] else []
      | none => []
    | .importStatement => if Tree.binds content name (.node k role s cs) then [.unknown] else []
    | .exportStatement => ofExported cs
    | _ => []

/-- The declarations of the name that the declaration among the parts of an export makes. -/
def ofExported : List Tree → List Declaration
  | [] => []
  | t :: ts => if t.role = some .declaration then ofStatement t else ofExported ts

end

/-- The declarations of the name by `var` that a statement makes itself. -/
def ofVar (t : Tree) : List Declaration :=
  match t.kind with
  | .variableDeclaration => ofDeclarators content name t
  | .forEachStatement =>
    if ((t.child? .kind).map fun w => w.text content) = some "var" then ofPattern content name (t.child? .left) else []
  | _ => []

/-- The parts of a statement in which a `var` may stand that belongs to the same function. -/
def innerStatements (t : Tree) : List Tree :=
  match t.kind with
  | .variableDeclaration => []
  | .forEachStatement => (t.child? .body).toList
  | k => if k.holdsStatements then t.namedChildren else []

theorem innerStatements_sublist (t : Tree) : (innerStatements t).Sublist t.children := by
  unfold innerStatements
  split
  · exact List.nil_sublist _
  · exact Tree.toList_sublist_children fun c hc => List.mem_of_find?_eq_some hc
  · split
    · exact List.filter_sublist
    · exact List.nil_sublist _

/-- The declarations of the name by `var` in the statements that wait and in those inside them, behind what was found
before. The statement that came last is taken first, so the last part of a statement comes right after it. -/
def hoistedFrom (found : Array Declaration) : List Tree → Array Declaration
  | [] => found
  | t :: pending => hoistedFrom (found ++ ofVar content name t) ((innerStatements t).reverse ++ pending)
termination_by pending => Tree.pendingSize pending
decreasing_by
  rw [Tree.pendingSize_append, Tree.pendingSize_perm (List.reverse_perm _), Tree.pendingSize_cons]
  exact Nat.add_lt_add_right (Tree.pendingSize_parts_lt (innerStatements_sublist t)) _

/-- The declarations of the name in a block; `hoists` tells whether a `var` anywhere inside belongs to it. -/
def ofBlock (t : Tree) (hoists : Bool) : List Declaration :=
  t.namedChildren.flatMap (ofStatement content name) ++
    if hoists then (hoistedFrom content name #[] t.namedChildren.reverse).toList else []

/-- Whether a `var` in the block of this node belongs to the block. -/
def ownsBlock (parent : Option Tree) : Bool :=
  match parent with
  | some p => p.kind.isFunction || p.kind = .staticBlock
  | none => false

/-- The declarations of the name that a node makes itself, as a scope inside `parent`. -/
def declarations (parent : Option Tree) (scope : Tree) : List Declaration :=
  match scope.kind with
  | .program => ofBlock content name scope true
  | .block => ofBlock content name scope (ownsBlock parent)
  | .forStatement =>
    match scope.child? .initializer with
    | some start =>
      if start.kind = .lexicalDeclaration && start.namedChildren.any fun d =>
        ((d.child? .name).map (Tree.binds content name)).getD false
      then [.unknown] else []
    | none => []
  | .forEachStatement =>
    if (scope.child? .kind).isSome then ofPattern content name (scope.child? .left) else []
  | .catchClause => ofPattern content name (scope.child? .parameter)
  | k =>
    if k.isFunction then ofPattern content name ((scope.child? .parameters).or (scope.child? .parameter)) else []

end WriteGuard.Scope
