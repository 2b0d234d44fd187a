import WriteGuard.Source.Cover
import WriteGuard.Source.TreeCursor
import WriteGuard.Text.Bytes

/-!
Tokens: the leaves of a syntax tree, with strings, templates, regular expressions and numbers in one piece and without
the comments.
-/

namespace WriteGuard

/-- What a token is. -/
inductive TokenKind where
  | identifier
  | keyword
  | punctuator
  | string
  | template
  | numeric
  | regularExpression
  | other
  deriving DecidableEq, Repr, Inhabited

namespace TokenKind

/-- All kinds of tokens. -/
def all : List TokenKind :=
  [.identifier, .keyword, .punctuator, .string, .template, .numeric, .regularExpression, .other]

/-- The name of a kind. -/
def name : TokenKind → String
  | .identifier => "Identifier"
  | .keyword => "Keyword"
  | .punctuator => "Punctuator"
  | .string => "String"
  | .template => "Template"
  | .numeric => "Numeric"
  | .regularExpression => "RegularExpression"
  | .other => "Other"

/-- The kind with a name. -/
def ofName? (name : String) : Option TokenKind := all.find? fun k => k.name = name

end TokenKind

/-- A token where it is written. -/
structure Token where
  kind : TokenKind
  text : String
  span : Span
  deriving DecidableEq, Repr, Inhabited

namespace Token

/-- Whether a token is the given punctuation mark. -/
def isPunctuator (t : Token) (mark : String) : Bool := t.kind = .punctuator && t.text = mark

end Token

namespace Source

/-- The kind of token a leaf makes. -/
def Kind.token : Kind → TokenKind
  | .string => .string
  | .template => .template
  | .number => .numeric
  | .regex => .regularExpression
  | .identifier | .undefinedName | .propertyName | .shorthand | .shorthandPattern | .privateName | .label
  | .typeName => .identifier
  | .trueWord | .falseWord | .nullWord | .thisWord | .superWord => .keyword
  | .symbol name =>
    if name = "string" then .string
    else if name = "number" then .numeric
    else if name.toList.all Char.isAlpha then .keyword
    else .punctuator
  | _ => .other

namespace Tree

/-- Whether a node is a single token. -/
def isToken : Tree → Bool
  | .node k _ _ cs => cs.isEmpty || k.isAtomic

/-- A node as a token. -/
def toToken (content : List Char) (t : Tree) : Token :=
  ⟨t.kind.token, String.ofList (Text.sliceD content t.span), t.span⟩

/-- Whether two ranges have bytes in common. -/
def overlaps (r s : Span) : Bool := r.start < s.stop && s.start < r.stop

/-- Whether the search for the tokens within a range takes note of a node. -/
def concerns (r : Span) (t : Tree) : Bool := overlaps r t.span && !t.isComment

/-- The token that a node makes within a range. -/
def tokenIn? (content : List Char) (r : Span) (t : Tree) : Option Token :=
  if concerns r t && t.isToken && !t.span.isEmpty && r.contains t.span then some (t.toToken content) else none

/-- The tokens of a tree that lie within a range. Nodes that are single tokens are not entered. -/
def tokensIn (content : List Char) (r : Span) (t : Tree) : List Token :=
  TreeCursor.gather (tokenIn? content r) (fun t => concerns r t && !t.isToken) t

/-- The tokens within a range, looked for in the smallest node that covers it. -/
def tokensOf (content : List Char) (t : Tree) (r : Span) : List Token :=
  match t.covering r with
  | [] => []
  | smallest :: _ => tokensIn content r smallest

end Tree

end Source

end WriteGuard
