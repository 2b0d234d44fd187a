import WriteGuard.Source.Tree

/-!
The smallest node that covers a range of bytes, with the nodes around it.
-/

namespace WriteGuard.Source.Tree

/-- Whether a node reaches from the start of a range to its end. A node that ends where the range starts does so only if
it is empty itself. -/
def reaches (r : Span) (s : Span) : Bool :=
  r.stop ≤ s.stop && (if s.start = s.stop then r.start ≤ s.stop else r.start < s.stop)

mutual

/-- The smallest node below `t` that covers a range, then the nodes around it up to `t` and `above`. -/
def descend (r : Span) (above : List Tree) : Tree → List Tree
  | .node k role s cs => descendInto r (.node k role s cs :: above) cs

/-- The search among the children of the first node of `above`. -/
def descendInto (r : Span) (above : List Tree) : List Tree → List Tree
  | [] => above
  | t :: ts =>
    if reaches r t.span then
      if r.start < t.span.start then above else descend r above t
    else descendInto r above ts

end

/-- The smallest node that covers a range and all nodes around it, from inside to outside. A reversed range has none. -/
def covering (t : Tree) (r : Span) : List Tree := if r.stop < r.start then [] else descend r [] t

end WriteGuard.Source.Tree
