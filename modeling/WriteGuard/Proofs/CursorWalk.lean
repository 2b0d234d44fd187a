import Mathlib.Data.List.Basic
import WriteGuard.Proofs.Nesting
import WriteGuard.Source.TreeCursor

/-!
The walk of a tree with a cursor ends, and visits each node before the nodes below it: all nodes of the tree, or those
that are reached through nodes the walk enters. Every round takes the first node off what is still ahead.
-/

namespace WriteGuard.Source

namespace Tree

mutual

/-- The nodes that are reached through nodes of a kind that is entered, each before its children. -/
def visited (enters : Tree → Bool) : Tree → List Tree
  | .node k role s cs => .node k role s cs :: if enters (.node k role s cs) then visitedAll enters cs else []

/-- The same for several trees, one tree after the other. -/
def visitedAll (enters : Tree → Bool) : List Tree → List Tree
  | [] => []
  | t :: ts => visited enters t ++ visitedAll enters ts

end

variable {enters : Tree → Bool}

theorem visitedAll_eq_flatMap (enters : Tree → Bool) : ∀ ts : List Tree,
    visitedAll enters ts = ts.flatMap (visited enters)
  | [] => rfl
  | t :: ts => by rw [visitedAll, visitedAll_eq_flatMap enters ts, List.flatMap_cons]

theorem visited_eq (enters : Tree → Bool) (t : Tree) :
    t.visited enters = t :: if enters t then t.children.flatMap (visited enters) else [] := by
  cases t
  rw [visited, visitedAll_eq_flatMap]
  rfl

/-- All nodes are reached if every node is entered. -/
theorem visited_true (t : Tree) : t.visited (fun _ => true) = t.preorder := by
  induction t using byChildren with
  | step t ih =>
    rw [visited_eq, preorder_eq, if_pos rfl, List.flatMap_congr ih]

end Tree

namespace TreeCursor

variable {enters : Tree → Bool}

/-- The nodes that a walk visits from a cursor on: those below its node and those of the trees behind it. -/
def toVisit (enters : Tree → Bool) (c : TreeCursor) : List Tree :=
  c.node.visited enters ++ c.later.flatMap (Tree.visited enters)

theorem toVisit_start (enters : Tree → Bool) (t : Tree) : (start t).toVisit enters = t.visited enters :=
  List.append_nil _

theorem toVisit_of_firstChild? {c child : TreeCursor} (henters : enters c.node = true)
    (h : c.firstChild? = some child) : c.toVisit enters = c.node :: child.toVisit enters := by
  unfold firstChild? at h
  split at h
  · cases h
  · next t ts hc =>
    obtain rfl := Option.some.inj h
    rw [toVisit, Tree.visited_eq, if_pos henters, hc]
    simp [toVisit, later]

theorem toVisit_of_leaving {c : TreeCursor} (h : enters c.node = false ∨ c.node.children = []) :
    c.toVisit enters = c.node :: c.later.flatMap (Tree.visited enters) := by
  rw [toVisit, Tree.visited_eq]
  rcases h with h | h <;> simp [h]

/-- A round of a walk takes the first node off those that are to be visited; the last round takes the only one. -/
theorem next?_cases (enters : Tree → Bool) (c : TreeCursor) :
    c.next? enters = none ∧ c.toVisit enters = [c.node] ∨
      ∃ next, c.next? enters = some next ∧ c.toVisit enters = c.node :: next.toVisit enters := by
  unfold next?
  split
  · next child hchild =>
    split at hchild
    · next henters => exact Or.inr ⟨child, rfl, toVisit_of_firstChild? henters hchild⟩
    · cases hchild
  · next hdown =>
    have hleaving : enters c.node = false ∨ c.node.children = [] := by
      split at hdown
      · refine Or.inr ?_
        unfold firstChild? at hdown
        split at hdown
        · assumption
        · cases hdown
      · next henters => exact Or.inl (Bool.eq_false_iff.mpr henters)
    rw [toVisit_of_leaving hleaving]
    rcases later_of_onward? c with ⟨hnone, hlater⟩ | ⟨next, hnext, hlater⟩
    · exact Or.inl ⟨hnone, by rw [hlater, List.flatMap_nil]⟩
    · exact Or.inr ⟨next, hnext, by rw [hlater, List.flatMap_cons, toVisit]⟩

/-- A whole walk: the places of the cursor, round by round, until there is nowhere to go. -/
inductive Walk (enters : Tree → Bool) : TreeCursor → List TreeCursor → Prop
  | last {c : TreeCursor} (h : c.next? enters = none) : Walk enters c [c]
  | round {c next : TreeCursor} {places : List TreeCursor} (h : c.next? enters = some next)
      (hwalk : Walk enters next places) : Walk enters c (c :: places)

/-- Every walk ends, with as many rounds as there are nodes to be visited, and visits them in their order. -/
theorem exists_walk (enters : Tree → Bool) (c : TreeCursor) :
    ∃ places, Walk enters c places ∧ places.map node = c.toVisit enters := by
  rcases next?_cases enters c with ⟨hnone, hvisit⟩ | ⟨next, hnext, hvisit⟩
  · exact ⟨[c], .last hnone, hvisit.symm⟩
  · obtain ⟨places, hwalk, hplaces⟩ := exists_walk enters next
    exact ⟨c :: places, .round hnext hwalk, by rw [hvisit, List.map_cons, hplaces]⟩
termination_by c.ahead
decreasing_by exact ahead_of_next? hnext

section Gather

variable {α : Type} {c : TreeCursor}

theorem gatherFrom_of_none (take : Tree → Option α) (found : Array α) (h : c.next? enters = none) :
    (gatherFrom take enters found c).toList = found.toList ++ (take c.node).toList := by
  rw [gatherFrom]
  split
  · next hnext => simp [h] at hnext
  · cases take c.node <;> simp

theorem gatherFrom_of_some (take : Tree → Option α) (found : Array α) {next : TreeCursor}
    (h : c.next? enters = some next) : ∃ more, more.toList = found.toList ++ (take c.node).toList ∧
    gatherFrom take enters found c = gatherFrom take enters more next := by
  rw [gatherFrom]
  split
  · next other hother =>
    obtain rfl := Option.some.inj (h.symm.trans hother)
    exact ⟨_, by cases take c.node <;> simp, rfl⟩
  · next hnone => simp [h] at hnone

/-- A walk takes what it finds from place to place. -/
theorem Walk.toList_gatherFrom {places : List TreeCursor} (h : Walk enters c places) (take : Tree → Option α)
    (found : Array α) : (gatherFrom take enters found c).toList = found.toList ++ (places.map node).filterMap take := by
  induction h generalizing found with
  | last hnone =>
    rw [gatherFrom_of_none take found hnone]
    cases htake : take _ <;> simp [htake]
  | round hnext _ ih =>
    obtain ⟨more, hmore, heq⟩ := gatherFrom_of_some take found hnext
    rw [heq, ih, hmore, List.append_assoc, List.map_cons]
    cases htake : take _ <;> simp [htake]

/-- A walk of a tree takes what it finds from the nodes it reaches, in their order. -/
theorem gather_eq (take : Tree → Option α) (enters : Tree → Bool) (t : Tree) :
    gather take enters t = (t.visited enters).filterMap take := by
  obtain ⟨places, hwalk, hplaces⟩ := exists_walk enters (start t)
  rw [gather, hwalk.toList_gatherFrom take #[], hplaces, toVisit_start]
  rfl

/-- A walk takes what the node itself has, and then what the trees below have if it enters the node. -/
theorem gather_eq_append (take : Tree → Option α) (enters : Tree → Bool) (t : Tree) :
    gather take enters t =
      (take t).toList ++ if enters t then t.children.flatMap (gather take enters) else [] := by
  have hbelow : (t.children.flatMap (Tree.visited enters)).filterMap take =
      t.children.flatMap (gather take enters) := by
    rw [List.filterMap_flatMap]
    exact List.flatMap_congr fun c _ => (gather_eq take enters c).symm
  rw [gather_eq, Tree.visited_eq, ← hbelow]
  cases htake : take t <;> cases enters t <;> simp [htake]

end Gather

end TreeCursor

end WriteGuard.Source
