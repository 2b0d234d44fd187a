import WriteGuard.Expr.Basic
import WriteGuard.Write.Operation

/-!
Calls recognised as writes: the operation, where it is named, and which argument is its payload.
-/

namespace WriteGuard

/-- A call recognised as a write. -/
structure Signature where
  operation : String
  /-- Where the operation is named. -/
  operationSpan : Span
  payloadIndex : Nat
  deriving DecidableEq, Repr, Inhabited

namespace Signature

/-- The options of a write come after its payload. -/
def optionsIndex (s : Signature) : Nat := s.payloadIndex + 1

/-- The payload of a call with this signature. -/
def payload? (s : Signature) (call : Call) : Option Expr := call.arguments[s.payloadIndex]?

/-- Whether an expression is a call of `doc` or of a member `doc`. -/
def isDocumentCall : Expr → Bool
  | .call (.ident i) _ _ => i.name = "doc"
  | .call (.member _ selector _) _ _ => selector.name? = some "doc"
  | _ => false

/-- Whether the receiver of a method counts. -/
def receives (receivers : Receivers) (receiver : Expr) : Bool :=
  match receivers with
  | .any => true
  | .listed names =>
    names.isEmpty || match receiver with
      | .ident i => names.contains i.name
      | _ => true
  | .document => isDocumentCall receiver

/-- The write that a call makes, if it is one of the given operations. -/
def ofCall? (operations : Operations) (call : Call) : Option Signature :=
  match call.callee with
  | .ident i => if operations.functions.contains i.name then some ⟨i.name, i.span, 1⟩ else none
  | .member object selector _ =>
    match selector.name? with
    | none => none
    | some name =>
      if operations.methods.contains name && receives operations.receivers object
      then some ⟨name, selector.span, 0⟩ else none
  | _ => none

end Signature

end WriteGuard
