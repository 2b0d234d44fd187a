import WriteGuard.Source.File

/-!
Whether a payload holds `undefined`: through the properties of object literals and through the initial values of
variables, to a fixed number of steps.
-/

namespace WriteGuard.Payload

/-- The name of the value that cannot be stored. -/
def sentinel : String := "undefined"

/-- How many steps into objects and through variables are made. -/
def maxSteps : Nat := 32

/-- Whether the sentinel is found in fewer than `fuel` steps. -/
def inspect (view : SourceView) : Nat → Expr → Bool
  | 0, _ => false
  | fuel + 1, e =>
    match e with
    | .ident i =>
      if i.name = sentinel then true
      else match view.resolve i.name i.span with
        | some value => inspect view fuel value
        | none => false
    | .object members _ => (Member.properties members).any fun p => inspect view fuel p.value
    | _ => false

/-- Whether an expression is or holds the sentinel. -/
def containsSentinel (view : SourceView) (e : Expr) : Bool := inspect view (maxSteps + 1) e

end WriteGuard.Payload
