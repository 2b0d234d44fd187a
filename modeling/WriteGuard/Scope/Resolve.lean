import WriteGuard.Scope.Declaration
import WriteGuard.Source.Cover

/-!
The value a name stands for. The innermost scope around a reference that declares the name decides: it gives the initial
value if it declares the name exactly once, as a plain variable with a value.
-/

namespace WriteGuard.Scope

open Source

/-- The node of the initial value of a name, as seen from inside a list of scopes, the innermost first. -/
def initializer? (content : List Char) (name : String) : List Tree → Option Tree
  | [] => none
  | scope :: above =>
    match declarations content name above.head? scope with
    | [] => initializer? content name above
    | [.declarator value] => value
    | _ => none

/-- The value of a name referred to at a range of a program. -/
def resolve (content : List Char) (root : Tree) (name : String) (at_ : Span) : Option Expr :=
  (initializer? content name (root.covering at_).tail).map (Lower.expr content)

end WriteGuard.Scope
