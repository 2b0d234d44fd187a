import WriteGuard.Text.Span

/-!
Expressions as the analyses see them: calls, names, members, object and array literals and plain literals. Everything
else is `other`. Each expression keeps the bytes it was written in.
-/

namespace WriteGuard

/-- A name where it is written. -/
structure Ident where
  name : String
  span : Span
  deriving DecidableEq, Repr, Inhabited

/-- What a literal says. -/
inductive LiteralValue where
  /-- The text between the quotes, as it is written. -/
  | string (text : String)
  /-- The number as it is written. -/
  | number (text : String)
  | boolean (value : Bool)
  | null
  /-- The text between the backticks, none when something is substituted in it. -/
  | template (text : Option String)
  | regex
  deriving DecidableEq, Repr, Inhabited

/-- A literal where it is written. -/
structure Literal where
  value : LiteralValue
  span : Span
  deriving DecidableEq, Repr, Inhabited

/-- The text of a literal that is a string, or a template without substitutions. -/
def Literal.staticString? (l : Literal) : Option String :=
  match l.value with
  | .string text => some text
  | .template text => text
  | _ => none

mutual

/-- An expression. -/
inductive Expr where
  | call (callee : Expr) (arguments : List Expr) (span : Span)
  | ident (ident : Ident)
  | member (object : Expr) (property : Selector) (span : Span)
  | object (members : List Member) (span : Span)
  | array (elements : List Expr) (span : Span)
  | spread (argument : Expr) (span : Span)
  | literal (literal : Literal)
  /-- An expression that no analysis looks into. -/
  | other (span : Span)

/-- How a member of an object is chosen. -/
inductive Selector where
  /-- By a name after a dot. -/
  | named (ident : Ident)
  /-- By the value of an expression in brackets. -/
  | computed (key : Expr)
  /-- By a name that is private to a class. -/
  | privateName (ident : Ident)

/-- A member of an object literal. -/
inductive Member where
  /-- A key and its value; a shorthand gives a variable under its own name. -/
  | property (key : Key) (value : Expr) (shorthand : Bool) (span : Span)
  | spread (argument : Expr) (span : Span)
  /-- A method, an accessor or anything else without a key and a value. -/
  | other (span : Span)

/-- The key of a property. -/
inductive Key where
  | ident (ident : Ident)
  | literal (literal : Literal)
  | computed (key : Expr)

end

instance : Inhabited Expr := ⟨.other default⟩

/-- A property of an object literal. -/
structure Property where
  key : Key
  value : Expr
  shorthand : Bool
  span : Span

namespace Expr

/-- The bytes an expression is written in. -/
def span : Expr → Span
  | .call _ _ s | .member _ _ s | .object _ s | .array _ s | .spread _ s | .other s => s
  | .ident i => i.span
  | .literal l => l.span

/-- The name an expression is, if it is one. -/
def ident? : Expr → Option Ident
  | .ident i => some i
  | _ => none

/-- The members of an object literal. -/
def members? : Expr → Option (List Member)
  | .object members _ => some members
  | _ => none

/-- The text of a string literal, or of a template without substitutions. -/
def staticString? : Expr → Option String
  | .literal l => l.staticString?
  | _ => none

end Expr

namespace Selector

/-- The name of the member, where it is known without evaluation. Private names have none. -/
def name? : Selector → Option String
  | .named i => some i.name
  | .computed key => key.staticString?
  | .privateName _ => none

/-- The bytes the member is named in. -/
def span : Selector → Span
  | .named i | .privateName i => i.span
  | .computed key => key.span

end Selector

namespace Key

/-- The name of a key, where it is known without evaluation. Numbers have none. -/
def staticName? : Key → Option String
  | .ident i => some i.name
  | .literal ⟨.string text, _⟩ => some text
  | .literal _ => none
  | .computed key => key.staticString?

end Key

namespace Member

/-- A member as a property, if it has a key and a value. -/
def property? : Member → Option Property
  | .property key value shorthand span => some ⟨key, value, shorthand, span⟩
  | _ => none

/-- The bytes a member is written in. -/
def span : Member → Span
  | .property _ _ _ s | .spread _ s | .other s => s

/-- The properties among the members of an object. -/
def properties (members : List Member) : List Property := members.filterMap property?

end Member

/-- A call with its arguments. -/
structure Call where
  callee : Expr
  arguments : List Expr
  span : Span

namespace Call

/-- A call as an expression. -/
def toExpr (c : Call) : Expr := .call c.callee c.arguments c.span

end Call

end WriteGuard
