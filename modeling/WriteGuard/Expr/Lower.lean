import WriteGuard.Expr.Basic
import WriteGuard.Source.Tree
import WriteGuard.Text.Bytes

/-!
Expressions read off syntax trees. One level of a tree is read by functions that take the reading of its parts as an
argument; nesting is followed to a fixed depth, below which everything is `other`.
-/

namespace WriteGuard

open Source

namespace Source.Tree

/-- The characters a node covers. -/
def text (content : List Char) (t : Tree) : String := String.ofList (Text.sliceD content t.span)

/-- A node as a name. -/
def toIdent (content : List Char) (t : Tree) : Ident := ⟨t.text content, t.span⟩

/-- The first child that is neither a comment nor a bare symbol. -/
def firstNamed? (t : Tree) : Option Tree := t.namedChildren.head?

end Source.Tree

namespace Lower

/-- A quoted text without its quotes; any other text as it is. -/
def unquoted (text : List Char) : List Char :=
  match text with
  | open_ :: rest =>
    if ("\"'`".toList.contains open_) && rest.getLast? = some open_ then rest.dropLast else text
  | [] => text

/-- The text between the quotes of a node. -/
def quotedText (content : List Char) (t : Tree) : String := String.ofList (unquoted (Text.sliceD content t.span))

variable (content : List Char) (part : Tree → Expr)

/-- A call node as a call. A template in the place of the arguments makes no call. -/
def call? (t : Tree) : Option Call :=
  match t.child? .callee, t.child? .arguments with
  | some callee, some arguments =>
    if arguments.kind = .arguments then some ⟨part callee, arguments.namedChildren.map part, t.span⟩ else none
  | _, _ => none

/-- The member a node chooses. -/
def selector? (t : Tree) : Option Selector :=
  if t.kind = .subscript then (t.child? .index).map fun index => .computed (part index)
  else (t.child? .property).map fun name =>
    if name.kind = .privateName then .privateName (name.toIdent content) else .named (name.toIdent content)

/-- A node for a member of a value. -/
def member (t : Tree) : Expr :=
  match t.child? .object, selector? content part t with
  | some object, some selector => .member (part object) selector t.span
  | _, _ => .other t.span

/-- What a spread stands for. -/
def spreadArgument (t : Tree) : Expr := (t.firstNamed?.map part).getD (.other t.span)

/-- The key of a property. -/
def key (t : Tree) : Key :=
  match t.kind with
  | .propertyName | .identifier => .ident (t.toIdent content)
  | .string | .number =>
    match part t with
    | .literal l => .literal l
    | e => .computed e
  | .computedKey => .computed ((t.firstNamed?.map part).getD (.other t.span))
  | _ => .computed (.other t.span)

/-- A member of an object literal. -/
def objectMember (t : Tree) : Member :=
  match t.kind with
  | .pair =>
    match t.child? .key, t.child? .value with
    | some k, some v => .property (key content part k) (part v) false t.span
    | _, _ => .other t.span
  | .shorthand =>
    let ident := t.toIdent content
    .property (.ident ident) (.ident ident) true t.span
  | .spread => .spread (spreadArgument part t) t.span
  | _ => .other t.span

/-- A template as a literal. -/
def templateValue (t : Tree) : LiteralValue :=
  .template (if t.namedChildren.any fun c => c.kind = .substitution then none else some (quotedText content t))

/-- One level of an expression. -/
def node (t : Tree) : Expr :=
  match t.kind with
  | .parens => (t.firstNamed?.map part).getD (.other t.span)
  | .identifier | .undefinedName => .ident (t.toIdent content)
  | .call => ((call? part t).map Call.toExpr).getD (.other t.span)
  | .member | .subscript => member content part t
  | .object => .object (t.namedChildren.map (objectMember content part)) t.span
  | .array => .array (t.namedChildren.map part) t.span
  | .spread => .spread (spreadArgument part t) t.span
  | .string => .literal ⟨.string (quotedText content t), t.span⟩
  | .template => .literal ⟨templateValue content t, t.span⟩
  | .number => .literal ⟨.number (t.text content), t.span⟩
  | .trueWord => .literal ⟨.boolean true, t.span⟩
  | .falseWord => .literal ⟨.boolean false, t.span⟩
  | .nullWord => .literal ⟨.null, t.span⟩
  | .regex => .literal ⟨.regex, t.span⟩
  | _ => .other t.span

end Lower

/-- The expression at a node, followed through `depth` levels. -/
def Expr.ofTree (content : List Char) : Nat → Tree → Expr
  | 0, t => .other t.span
  | depth + 1, t => Lower.node content (Expr.ofTree content depth) t

/-- How many levels of nesting are followed below an expression. -/
def Lower.maxDepth : Nat := 256

/-- The expression at a node. -/
def Lower.expr (content : List Char) (t : Tree) : Expr := Expr.ofTree content (maxDepth + 1) t

/-- The call at a node, if it is one. -/
def Call.ofTree? (content : List Char) (t : Tree) : Option Call :=
  if t.kind = .call then Lower.call? (Expr.ofTree content Lower.maxDepth) t else none

end WriteGuard
