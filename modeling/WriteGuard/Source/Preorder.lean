import WriteGuard.Source.Tree

/-!
The nodes of a tree, each before its children, and how many of them stand at and below some nodes. A search that keeps
nodes for later ends since this number falls with every node it takes.
-/

namespace WriteGuard.Source.Tree

mutual

/-- The nodes of a tree, each before its children. -/
def preorder : Tree → List Tree
  | .node k role s cs => .node k role s cs :: preorderAll cs

/-- The nodes of several trees, one tree after the other. -/
def preorderAll : List Tree → List Tree
  | [] => []
  | t :: ts => preorder t ++ preorderAll ts

end

theorem preorderAll_eq_flatMap : ∀ ts : List Tree, preorderAll ts = ts.flatMap preorder
  | [] => rfl
  | t :: ts => by rw [preorderAll, preorderAll_eq_flatMap ts, List.flatMap_cons]

theorem preorder_eq (t : Tree) : t.preorder = t :: t.children.flatMap preorder := by
  cases t
  rw [preorder, preorderAll_eq_flatMap]
  rfl

theorem toList_sublist_children {t : Tree} {part : Option Tree} (h : ∀ c, part = some c → c ∈ t.children) :
    part.toList.Sublist t.children := by
  cases part with
  | none => exact List.nil_sublist _
  | some c => exact List.singleton_sublist.mpr (h c rfl)

/-- The number of nodes at and below some nodes. -/
def pendingSize (pending : List Tree) : Nat := (pending.flatMap preorder).length

theorem pendingSize_append (pending more : List Tree) :
    pendingSize (pending ++ more) = pendingSize pending + pendingSize more := by
  rw [pendingSize, List.flatMap_append, List.length_append, pendingSize, pendingSize]

theorem pendingSize_cons (t : Tree) (rest : List Tree) : pendingSize (t :: rest) = pendingSize [t] + pendingSize rest :=
  pendingSize_append [t] rest

theorem pendingSize_singleton (t : Tree) : pendingSize [t] = pendingSize t.children + 1 := by
  rw [pendingSize, List.flatMap_singleton, preorder_eq, List.length_cons, pendingSize]

theorem pendingSize_perm {pending other : List Tree} (h : pending.Perm other) : pendingSize pending = pendingSize other :=
  (h.flatMap_right preorder).length_eq

theorem pendingSize_sublist {pending more : List Tree} (h : pending.Sublist more) :
    pendingSize pending ≤ pendingSize more := by
  induction h with
  | slnil => exact Nat.le_refl _
  | cons t _ ih =>
    rw [pendingSize_cons]
    exact Nat.le_add_left_of_le ih
  | @cons_cons few many t _ ih =>
    rw [pendingSize_cons t few, pendingSize_cons t many]
    exact Nat.add_le_add_left ih _

/-- Some children of a node in the place of the node. -/
theorem pendingSize_parts_lt {t : Tree} {parts : List Tree} (h : parts.Sublist t.children) :
    pendingSize parts < pendingSize [t] := by
  rw [pendingSize_singleton]
  exact Nat.lt_succ_of_le (pendingSize_sublist h)

end WriteGuard.Source.Tree
