import WriteGuard.Source.Kind
import WriteGuard.Text.Span

/-!
Syntax trees. Every node has a kind, the bytes it covers, the part it plays in its parent and its children in source
order; comments are nodes too and stand where they were written.
-/

namespace WriteGuard.Source

/-- A node of a syntax tree. -/
inductive Tree where
  | node (kind : Kind) (role : Option Role) (span : Span) (children : List Tree)

namespace Tree

/-- What the node is. -/
def kind : Tree → Kind
  | .node k _ _ _ => k

/-- The part the node plays in its parent. -/
def role : Tree → Option Role
  | .node _ r _ _ => r

/-- The bytes the node covers. -/
def span : Tree → Span
  | .node _ _ s _ => s

/-- The parts of the node. -/
def children : Tree → List Tree
  | .node _ _ _ cs => cs

/-- Whether the node is a comment. -/
def isComment (t : Tree) : Bool := t.kind.isComment

/-- The same node in another part. -/
def withRole (r : Role) : Tree → Tree
  | .node k old s cs => if k.isComment then .node k old s cs else .node k (some r) s cs

/-- The children that are neither comments nor bare symbols. -/
def namedChildren (t : Tree) : List Tree := t.children.filter fun c => c.kind.isNamed && !c.isComment

/-- The first child that plays a part. -/
def child? (t : Tree) (r : Role) : Option Tree := t.children.find? fun c => c.role = some r

/-- The range from the start of the first tree to the end of the last; `offset` where there is none. -/
def cover (offset : Nat) : List Tree → Span
  | [] => Span.empty offset
  | t :: ts => ⟨t.span.start, ((t :: ts).getLastD t).span.stop⟩

/-- Trees as the children of one new node. Comments before the first of them stay outside. -/
def enclose (k : Kind) (offset : Nat) (ts : List Tree) : List Tree :=
  let inner := ts.dropWhile isComment
  ts.takeWhile isComment ++ [.node k none (cover offset inner) inner]

mutual

/-- Whether text inside the node belongs to no construct. -/
def hasError : Tree → Bool
  | .node k _ _ cs => k = .error || hasErrors cs

/-- Whether one of the trees holds an error. -/
def hasErrors : List Tree → Bool
  | [] => false
  | t :: ts => hasError t || hasErrors ts

end

end Tree

end WriteGuard.Source
