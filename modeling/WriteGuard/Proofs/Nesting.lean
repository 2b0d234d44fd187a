import WriteGuard.Source.Cover
import WriteGuard.Source.Preorder

/-!
Trees whose nodes lie inside each other. A node holds its children in order and without overlap, so the search for the
smallest node around a range of bytes goes through every node that covers the range.
-/

namespace WriteGuard

/-- A range whose ends are in order lies within another one. -/
def Span.Holds (s t : Span) : Prop := s.start ≤ t.start ∧ t.start ≤ t.stop ∧ t.stop ≤ s.stop

theorem Span.Holds.trans {r s t : Span} (h : r.Holds s) (h' : s.Holds t) : r.Holds t := by
  unfold Span.Holds at *
  omega

namespace Source.Tree

/-! ### Trees and their nodes -/

mutual

/-- Whether two trees are the same, node by node. -/
def decEq : (a b : Tree) → Decidable (a = b)
  | .node k r s cs, .node k' r' s' cs' =>
    if h : k = k' ∧ r = r' ∧ s = s' then
      match decEqAll cs cs' with
      | .isTrue hc => .isTrue (by rw [h.1, h.2.1, h.2.2, hc])
      | .isFalse hc => .isFalse fun he => hc (Tree.node.inj he).2.2.2
    else .isFalse fun he => h ⟨(Tree.node.inj he).1, (Tree.node.inj he).2.1, (Tree.node.inj he).2.2.1⟩

/-- Whether two lists of trees are the same. -/
def decEqAll : (as bs : List Tree) → Decidable (as = bs)
  | [], [] => .isTrue rfl
  | [], b :: bs => .isFalse (List.cons_ne_nil b bs).symm
  | a :: as, [] => .isFalse (List.cons_ne_nil a as)
  | a :: as, b :: bs =>
    match decEq a b, decEqAll as bs with
    | .isTrue h, .isTrue hs => .isTrue (by rw [h, hs])
    | .isFalse h, _ => .isFalse fun he => h (List.cons.inj he).1
    | _, .isFalse hs => .isFalse fun he => hs (List.cons.inj he).2

end

instance : DecidableEq Tree := decEq

/-- A leaf for a keyword or punctuation mark. -/
def mark (name : String) (start stop : Nat) : Tree := .node (.symbol name) none ⟨start, stop⟩ []

/-- What passes from the children of each node to the node holds of every tree. -/
theorem byChildren {motive : Tree → Prop} (step : ∀ t, (∀ c ∈ t.children, motive c) → motive t) : ∀ t, motive t
  | .node k r s cs => step _ fun c hc =>
      have hlt : sizeOf c < sizeOf (Tree.node k r s cs) :=
        Nat.lt_of_lt_of_le (List.sizeOf_lt_of_mem hc) (by rw [Tree.node.sizeOf_spec, children]; omega)
      byChildren step c
termination_by t => sizeOf t
decreasing_by exact hlt

theorem mem_preorder {a t : Tree} : a ∈ t.preorder ↔ a = t ∨ ∃ c ∈ t.children, a ∈ c.preorder := by
  rw [preorder_eq, List.mem_cons, List.mem_flatMap]

theorem mem_preorder_self (t : Tree) : t ∈ t.preorder := mem_preorder.mpr (Or.inl rfl)

theorem mem_preorder_of_mem_children {c t : Tree} (hc : c ∈ t.children) : c ∈ t.preorder :=
  mem_preorder.mpr (Or.inr ⟨c, hc, mem_preorder_self c⟩)

theorem mem_preorder_trans {a b t : Tree} (ha : a ∈ b.preorder) (hb : b ∈ t.preorder) : a ∈ t.preorder := by
  induction t using byChildren with
  | step t ih =>
    rcases mem_preorder.mp hb with rfl | ⟨c, hc, hb⟩
    · exact ha
    · exact mem_preorder.mpr (Or.inr ⟨c, hc, ih c hc hb⟩)

theorem mem_preorder_of_child {c t root : Tree} (hc : c ∈ t.children) (ht : t ∈ root.preorder) : c ∈ root.preorder :=
  mem_preorder_trans (mem_preorder_of_mem_children hc) ht

/-! ### Nodes inside nodes -/

/-- A node holds its children in order and without overlap. -/
structure Nested (t : Tree) : Prop where
  ordered : t.span.start ≤ t.span.stop
  inside : ∀ c ∈ t.children, t.span.start ≤ c.span.start ∧ c.span.stop ≤ t.span.stop
  apart : t.children.Pairwise fun a b => a.span.stop ≤ b.span.start

instance (t : Tree) : Decidable t.Nested :=
  decidable_of_iff (t.span.start ≤ t.span.stop ∧
      (∀ c ∈ t.children, t.span.start ≤ c.span.start ∧ c.span.stop ≤ t.span.stop) ∧
      t.children.Pairwise fun a b => a.span.stop ≤ b.span.start)
    ⟨fun h => ⟨h.1, h.2.1, h.2.2⟩, fun h => ⟨h.ordered, h.inside, h.apart⟩⟩

/-- Every node of the tree holds its children in order and without overlap. -/
def WellFormed (t : Tree) : Prop := ∀ a ∈ t.preorder, a.Nested

instance (t : Tree) : Decidable t.WellFormed := inferInstanceAs (Decidable (∀ a ∈ t.preorder, a.Nested))

namespace WellFormed

theorem nested {t : Tree} (hw : t.WellFormed) : t.Nested := hw t (mem_preorder_self t)

theorem of_mem {root t : Tree} (hw : root.WellFormed) (ht : t ∈ root.preorder) : t.WellFormed :=
  fun a ha => hw a (mem_preorder_trans ha ht)

theorem child {t c : Tree} (hw : t.WellFormed) (hc : c ∈ t.children) : c.WellFormed :=
  hw.of_mem (mem_preorder_of_mem_children hc)

/-- A node lies within the bytes of the tree. -/
theorem span_of_mem {root t : Tree} (hw : root.WellFormed) (ht : t ∈ root.preorder) :
    root.span.start ≤ t.span.start ∧ t.span.stop ≤ root.span.stop := by
  induction root using byChildren with
  | step root ih =>
    rcases mem_preorder.mp ht with rfl | ⟨c, hc, ht⟩
    · exact ⟨Nat.le_refl _, Nat.le_refl _⟩
    · obtain ⟨hstart, hstop⟩ := ih c hc (hw.child hc) ht
      obtain ⟨hcstart, hcstop⟩ := hw.nested.inside c hc
      exact ⟨Nat.le_trans hcstart hstart, Nat.le_trans hstop hcstop⟩

theorem holds_of_mem {t c : Tree} (hw : t.WellFormed) (hc : c ∈ t.preorder) : t.span.Holds c.span := by
  obtain ⟨hstart, hstop⟩ := hw.span_of_mem hc
  exact ⟨hstart, (hw.of_mem hc).nested.ordered, hstop⟩

theorem holds_self {t : Tree} (hw : t.WellFormed) : t.span.Holds t.span := hw.holds_of_mem (mem_preorder_self t)

end WellFormed

/-- Two children of a node are the same, or one ends before the other starts. -/
theorem Nested.eq_or_apart {t x y : Tree} (hn : t.Nested) (hx : x ∈ t.children) (hy : y ∈ t.children) :
    x = y ∨ x.span.stop ≤ y.span.start ∨ y.span.stop ≤ x.span.start := by
  obtain ⟨front, rest, hsplit⟩ := List.append_of_mem hy
  have hapart := hn.apart
  rw [hsplit, List.pairwise_append, List.pairwise_cons] at hapart
  obtain ⟨-, ⟨hafter, -⟩, hbefore⟩ := hapart
  rw [hsplit, List.mem_append, List.mem_cons] at hx
  rcases hx with hx | rfl | hx
  · exact Or.inr (Or.inl (hbefore x hx y List.mem_cons_self))
  · exact Or.inl rfl
  · exact Or.inr (Or.inr (hafter x hx))

/-- Of two nodes of a well-formed tree the later one stands below the earlier one or behind it. -/
theorem WellFormed.preorder_pairwise {t : Tree} (hw : t.WellFormed) : t.preorder.Pairwise fun a b =>
    (∃ c ∈ a.children, b ∈ c.preorder) ∨ a.span.stop ≤ b.span.start := by
  induction t using byChildren with
  | step t ih =>
    rw [preorder_eq, List.pairwise_cons, List.pairwise_flatMap]
    refine ⟨fun b hb => Or.inl (List.mem_flatMap.mp hb), fun c hc => ih c hc (hw.child hc), ?_⟩
    refine hw.nested.apart.imp_of_mem ?_
    intro c d hc hd hcd a ha b hb
    have hastop := ((hw.child hc).span_of_mem ha).2
    have hbstart := ((hw.child hd).span_of_mem hb).1
    exact Or.inr (by omega)

/-! ### The search for a range -/

theorem descend_eq (r : Span) (above : List Tree) (t : Tree) :
    descend r above t = descendInto r (t :: above) t.children := by
  cases t
  rw [descend]
  rfl

theorem reaches_of_le {r s : Span} (hr : r.start < s.stop) (hs : s.start < s.stop) (he : r.stop ≤ s.stop) :
    reaches r s = true := by
  rw [reaches, decide_eq_true he, if_neg (Nat.ne_of_lt hs), decide_eq_true hr, Bool.and_self]

/-- The search passes over the children that end before the range does. -/
theorem descendInto_append {r : Span} (above : List Tree) {ts : List Tree} : ∀ {xs : List Tree},
    (∀ x ∈ xs, x.span.stop < r.stop) → descendInto r above (xs ++ ts) = descendInto r above ts
  | [], _ => rfl
  | x :: xs, h => by
      have hx : reaches r x.span = false := by
        have hlt := h x List.mem_cons_self
        rw [reaches, decide_eq_false (by omega), Bool.false_and]
      rw [List.cons_append, descendInto, hx, if_neg Bool.false_ne_true]
      exact descendInto_append above fun y hy => h y (List.mem_cons_of_mem x hy)

/-- The search goes into the first child that ends where the range does or later, if it covers the range. -/
theorem descendInto_cons {r : Span} (above : List Tree) {t : Tree} {ts : List Tree} (hr : r.start < r.stop)
    (hs : t.span.start ≤ r.start) (he : r.stop ≤ t.span.stop) :
    descendInto r above (t :: ts) = descend r above t := by
  rw [descendInto, if_pos (reaches_of_le (by omega) (by omega) he), if_neg (by omega)]

/-- The search for a range goes through every node of a well-formed tree that covers the range. -/
theorem descend_of_mem_preorder {r : Span} {root t : Tree} (hw : root.WellFormed) (ht : t ∈ root.preorder)
    (hr : r.start < r.stop) (hs : t.span.start ≤ r.start) (he : r.stop ≤ t.span.stop) (above : List Tree) :
    ∃ above', descend r above root = descend r above' t := by
  induction root using byChildren generalizing above with
  | step root ih =>
    rcases mem_preorder.mp ht with rfl | ⟨c, hc, ht⟩
    · exact ⟨above, rfl⟩
    · obtain ⟨hcs, hce⟩ := (hw.child hc).span_of_mem ht
      obtain ⟨above', h⟩ := ih c hc (hw.child hc) ht (root :: above)
      refine ⟨above', ?_⟩
      -- the children before `c` end before the range starts
      obtain ⟨xs, ys, hsplit⟩ := List.append_of_mem hc
      have hbefore : ∀ x ∈ xs, x.span.stop < r.stop := by
        intro x hx
        have hapart := hw.nested.apart
        rw [hsplit] at hapart
        have := (List.pairwise_append.mp hapart).2.2 x hx c List.mem_cons_self
        omega
      rw [descend_eq, hsplit, descendInto_append (root :: above) hbefore,
        descendInto_cons (root :: above) hr (by omega) (by omega)]
      exact h

end Source.Tree

end WriteGuard
