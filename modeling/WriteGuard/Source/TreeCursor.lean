import WriteGuard.Source.Preorder

/-!
A cursor on a syntax tree and the walk of a tree with it. The cursor moves to the first child, to the next sibling and
to the parent of its node, and does not leave the tree it was set on. The walk visits a node, goes down to its children
where it may enter it, and else goes on to what comes next, as far up as it must.
-/

namespace WriteGuard.Source

/-- A place in a tree. -/
structure TreeCursor where
  node : Tree
  /-- The siblings that follow the node. -/
  behind : List Tree
  /-- The nodes around it from inside to outside, up to the one the cursor was set on. Each has the siblings that follow
  it. -/
  above : List (Tree × List Tree)

namespace TreeCursor

/-- A cursor that is set on a tree. -/
def start (t : Tree) : TreeCursor := ⟨t, [], []⟩

/-- The cursor on the first child of its node. -/
def firstChild? (c : TreeCursor) : Option TreeCursor :=
  match c.node.children with
  | [] => none
  | t :: ts => some ⟨t, ts, (c.node, c.behind) :: c.above⟩

/-- The cursor on the next sibling of its node. -/
def nextSibling? (c : TreeCursor) : Option TreeCursor :=
  match c.behind with
  | [] => none
  | t :: ts => some ⟨t, ts, c.above⟩

/-- The cursor on the parent of its node. -/
def parent? (c : TreeCursor) : Option TreeCursor :=
  match c.above with
  | [] => none
  | (t, ts) :: above => some ⟨t, ts, above⟩

theorem length_above_of_parent? {c parent : TreeCursor} (h : c.parent? = some parent) :
    parent.above.length < c.above.length := by
  unfold parent? at h
  split at h
  · cases h
  · next hc =>
    obtain rfl := Option.some.inj h
    rw [hc]
    exact Nat.lt_succ_self _

/-- The cursor on the next sibling of its node, or else of the nearest node above that has one. -/
def onward? (c : TreeCursor) : Option TreeCursor :=
  match c.nextSibling? with
  | some next => some next
  | none =>
    match _hup : c.parent? with
    | some parent => parent.onward?
    | none => none
termination_by c.above.length
decreasing_by exact length_above_of_parent? _hup

/-- One round of a walk: down to the first child of a node that is entered, and else onward. -/
def next? (enters : Tree → Bool) (c : TreeCursor) : Option TreeCursor :=
  match if enters c.node then c.firstChild? else none with
  | some child => some child
  | none => c.onward?

/-! ### What is still ahead -/

/-- The trees behind the node that a walk has not come to. -/
def later (c : TreeCursor) : List Tree := c.behind ++ c.above.flatMap Prod.snd

theorem later_of_onward? (c : TreeCursor) :
    c.onward? = none ∧ c.later = [] ∨ ∃ next, c.onward? = some next ∧ c.later = next.node :: next.later := by
  obtain ⟨t, behind, above⟩ := c
  induction above generalizing t behind with
  | nil =>
    cases behind with
    | nil => exact Or.inl ⟨by rw [onward?]; rfl, rfl⟩
    | cons s ss => exact Or.inr ⟨⟨s, ss, []⟩, by rw [onward?]; rfl, rfl⟩
  | cons p above ih =>
    cases behind with
    | nil =>
      have hup : (⟨t, [], p :: above⟩ : TreeCursor).onward? = (⟨p.1, p.2, above⟩ : TreeCursor).onward? := by
        rw [onward?]
        rfl
      rw [hup]
      exact ih p.1 p.2
    | cons s ss => exact Or.inr ⟨⟨s, ss, p :: above⟩, by rw [onward?]; rfl, rfl⟩

/-- How many nodes a walk can still visit, this one among them. -/
def ahead (c : TreeCursor) : Nat := Tree.pendingSize (c.node :: c.later)

theorem ahead_eq (c : TreeCursor) : c.ahead = Tree.pendingSize c.node.children + 1 + Tree.pendingSize c.later := by
  rw [ahead, Tree.pendingSize_cons, Tree.pendingSize_singleton]

theorem ahead_of_onward? {c next : TreeCursor} (h : c.onward? = some next) : next.ahead < c.ahead := by
  rcases later_of_onward? c with ⟨hnone, -⟩ | ⟨_, hnext, hlater⟩
  · rw [hnone] at h
    cases h
  · obtain rfl := Option.some.inj (hnext.symm.trans h)
    rw [ahead_eq c, hlater, ahead]
    omega

theorem ahead_of_firstChild? {c child : TreeCursor} (h : c.firstChild? = some child) : child.ahead < c.ahead := by
  unfold firstChild? at h
  split at h
  · cases h
  · next t ts hc =>
    obtain rfl := Option.some.inj h
    have hsplit : t :: later ⟨t, ts, (c.node, c.behind) :: c.above⟩ = (t :: ts) ++ c.later := by simp [later]
    rw [ahead_eq c, hc, ahead, hsplit, Tree.pendingSize_append]
    omega

/-- Every round of a walk leaves fewer nodes ahead. -/
theorem ahead_of_next? {enters : Tree → Bool} {c next : TreeCursor} (h : c.next? enters = some next) :
    next.ahead < c.ahead := by
  unfold next? at h
  split at h
  · next child hchild =>
    obtain rfl := Option.some.inj h
    split at hchild
    · exact ahead_of_firstChild? hchild
    · cases hchild
  · exact ahead_of_onward? h

/-! ### The walk -/

/-- A walk from a cursor on: what is taken from the nodes it visits, behind what was found before. -/
def gatherFrom {α : Type} (take : Tree → Option α) (enters : Tree → Bool) (found : Array α) (c : TreeCursor) :
    Array α :=
  let found := match take c.node with
    | some a => found.push a
    | none => found
  match _hnext : c.next? enters with
  | some next => gatherFrom take enters found next
  | none => found
termination_by c.ahead
decreasing_by exact ahead_of_next? _hnext

/-- What a walk of a tree takes from the nodes it visits. -/
def gather {α : Type} (take : Tree → Option α) (enters : Tree → Bool) (t : Tree) : List α :=
  (gatherFrom take enters #[] (start t)).toList

end TreeCursor

end WriteGuard.Source
