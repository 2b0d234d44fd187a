import WriteGuard.Proofs.Nesting

/-!
The smallest node of a well-formed tree that covers a range of bytes. The search for it goes down from the root through
the first part of each node that covers the range, until no part does. For a range that is not empty there is no choice
on the way: below the root it goes through all nodes that cover the range and no others.
-/

namespace WriteGuard

/-- A stretch of bytes covers a range. Where an empty range stands between two stretches, the one behind it covers it;
an empty stretch covers the empty range in its own place. -/
def Span.Covers (s r : Span) : Prop :=
  r.start ≤ r.stop ∧ s.start ≤ r.start ∧ r.stop ≤ s.stop ∧ (r.start < s.stop ∨ s.start = s.stop)

instance (s r : Span) : Decidable (s.Covers r) :=
  inferInstanceAs (Decidable (r.start ≤ r.stop ∧ s.start ≤ r.start ∧ r.stop ≤ s.stop ∧
    (r.start < s.stop ∨ s.start = s.stop)))

namespace Source.Tree

/-- The first part of a node that covers a range. -/
def coveringPart? (t : Tree) (r : Span) : Option Tree := t.children.find? fun c => c.span.Covers r

/-- A node and the nodes around it up to the root, each of them the first part of the next that covers a range. The root
stands for all of the text, so it need not cover the range. -/
inductive Around (root : Tree) (r : Span) : List Tree → Prop
  | root (hr : r.start ≤ r.stop) : Around root r [root]
  | part {t c : Tree} {above : List Tree} (h : Around root r (t :: above)) (hc : t.coveringPart? r = some c) :
      Around root r (c :: t :: above)

/-- The smallest node that covers a range, and the nodes around it. -/
structure Smallest (root : Tree) (r : Span) (t : Tree) (above : List Tree) : Prop where
  around : Around root r (t :: above)
  least : ∀ c ∈ t.children, ¬ c.span.Covers r

variable {root t : Tree} {r : Span} {above : List Tree}

theorem coveringPart?_eq_none : t.coveringPart? r = none ↔ ∀ c ∈ t.children, ¬ c.span.Covers r := by
  simp [coveringPart?]

theorem coveringPart?_cases {c : Tree} (h : t.coveringPart? r = some c) : c ∈ t.children ∧ c.span.Covers r :=
  ⟨List.mem_of_find?_eq_some h, by simpa using List.find?_some h⟩

/-! ### The way down -/

/-- A node covers a range exactly if it reaches to the end of it and does not start behind its start. -/
theorem covers_iff_reaches {s : Span} (hr : r.start ≤ r.stop) :
    s.Covers r ↔ reaches r s = true ∧ s.start ≤ r.start := by
  simp only [Span.Covers, reaches, Bool.and_eq_true, decide_eq_true_eq]
  split <;> simp only [decide_eq_true_eq] <;> omega

/-- Among parts in order, the search goes into the first one that covers the range. -/
theorem descendInto_eq (hr : r.start ≤ r.stop) : ∀ {cs : List Tree}, (∀ c ∈ cs, c.span.start ≤ c.span.stop) →
    cs.Pairwise (fun a b => a.span.stop ≤ b.span.start) →
      descendInto r above cs = match cs.find? fun c => c.span.Covers r with
        | some c => descend r above c
        | none => above
  | [], _, _ => rfl
  | c :: cs, hordered, hapart => by
      obtain ⟨hbehind, hapart'⟩ := List.pairwise_cons.mp hapart
      have hc := covers_iff_reaches (s := c.span) hr
      rw [descendInto, List.find?_cons]
      by_cases hreach : reaches r c.span = true
      · by_cases hstart : r.start < c.span.start
        · -- the parts behind this one start even later
          have hnone : (c :: cs).find? (fun d => decide (d.span.Covers r)) = none := by
            rw [List.find?_eq_none]
            intro d hd
            have hlater : c.span.start ≤ d.span.start := by
              rcases List.mem_cons.mp hd with rfl | hd
              · exact Nat.le_refl _
              · exact Nat.le_trans (hordered c List.mem_cons_self) (hbehind d hd)
            simp only [decide_eq_true_eq]
            intro hcovers
            exact absurd hcovers.2.1 (by omega)
          rw [List.find?_cons] at hnone
          rw [if_pos hreach, if_pos hstart, hnone]
        · have hcovers : c.span.Covers r := hc.mpr ⟨hreach, Nat.le_of_not_lt hstart⟩
          simp only [hreach, hstart, hcovers, decide_true, if_true, if_false]
      · have hcovers : ¬ c.span.Covers r := fun h => hreach (hc.mp h).1
        simp only [hreach, hcovers, decide_false]
        exact descendInto_eq hr (fun d hd => hordered d (List.mem_cons_of_mem c hd)) hapart'

/-- The search below a node of a well-formed tree. -/
theorem descend_eq_of_wellFormed (hw : t.WellFormed) (hr : r.start ≤ r.stop) :
    descend r above t = match t.coveringPart? r with
      | some c => descend r (t :: above) c
      | none => t :: above := by
  rw [descend_eq]
  exact descendInto_eq hr (fun c hc => (hw.child hc).nested.ordered) hw.nested.apart

theorem Around.mem_preorder {chain : List Tree} (h : Around root r chain) : ∀ a ∈ chain, a ∈ root.preorder := by
  induction h with
  | root => simp [mem_preorder_self]
  | part h hc ih =>
    intro a ha
    rcases List.mem_cons.mp ha with rfl | ha
    · exact mem_preorder_of_child (coveringPart?_cases hc).1 (ih _ List.mem_cons_self)
    · exact ih a ha

theorem Around.ordered {chain : List Tree} (h : Around root r chain) : r.start ≤ r.stop := by
  induction h with
  | root hr => exact hr
  | part _ _ ih => exact ih

/-- The search comes through every node of the way down. -/
theorem Around.covering_eq (hw : root.WellFormed) (h : Around root r (t :: above)) :
    root.covering r = descend r above t := by
  have hr := h.ordered
  suffices hchain : ∀ chain, Around root r chain → ∀ t above, chain = t :: above →
      root.covering r = descend r above t from hchain _ h t above rfl
  intro chain hchain
  induction hchain with
  | root =>
    rintro t above heq
    obtain ⟨rfl, rfl⟩ := List.cons.inj heq
    rw [covering, if_neg (by omega)]
  | @part t c above hup hc ih =>
    rintro c' above' heq
    obtain ⟨rfl, rfl⟩ := List.cons.inj heq
    rw [ih t above rfl, descend_eq_of_wellFormed (hw.of_mem (hup.mem_preorder t List.mem_cons_self)) hr, hc]

/-- The search gives the smallest node and the nodes around it. -/
theorem Smallest.covering_eq (hw : root.WellFormed) (h : Smallest root r t above) : root.covering r = t :: above := by
  have ht := hw.of_mem (h.around.mem_preorder t List.mem_cons_self)
  rw [h.around.covering_eq hw, descend_eq_of_wellFormed ht h.around.ordered, coveringPart?_eq_none.mpr h.least]

/-- Below every node that covers a range there is a smallest one. -/
theorem Around.exists_smallest (h : Around root r (t :: above)) : ∃ t' above', Smallest root r t' above' := by
  induction t using byChildren generalizing above with
  | step t ih =>
    cases hc : t.coveringPart? r with
    | none => exact ⟨t, above, h, coveringPart?_eq_none.mp hc⟩
    | some c => exact ih c (coveringPart?_cases hc).1 (.part h hc)

/-- Every range that is not reversed has a smallest node. -/
theorem exists_smallest (root : Tree) (hr : r.start ≤ r.stop) : ∃ t above, Smallest root r t above :=
  (Around.root hr).exists_smallest

/-- What the search gives is the smallest node with the nodes around it. -/
theorem smallest_of_covering (hw : root.WellFormed) (hr : r.start ≤ r.stop) (h : root.covering r = t :: above) :
    Smallest root r t above := by
  obtain ⟨t', above', hs⟩ := exists_smallest root hr
  obtain ⟨rfl, rfl⟩ := List.cons.inj (h.symm.trans (hs.covering_eq hw))
  exact hs

/-! ### All nodes that cover a range -/

/-- A node covers what a node inside it covers. -/
theorem WellFormed.covers_of_mem {a : Tree} (hw : t.WellFormed) (ha : a ∈ t.preorder) (hcovers : a.span.Covers r)
    (hr : r.start < r.stop) : t.span.Covers r := by
  obtain ⟨hstart, hstop⟩ := hw.span_of_mem ha
  obtain ⟨hordered, has, hae, -⟩ := hcovers
  exact ⟨hordered, by omega, by omega, Or.inl (by omega)⟩

/-- Two parts of a node do not cover the same range, unless it is empty. -/
theorem Nested.eq_of_covers {c d : Tree} (hn : t.Nested) (hr : r.start < r.stop) (hc : c ∈ t.children)
    (hd : d ∈ t.children) (hcr : c.span.Covers r) (hdr : d.span.Covers r) : c = d := by
  rcases hn.eq_or_apart hc hd with heq | hapart
  · exact heq
  · obtain ⟨-, hcs, hce, -⟩ := hcr
    obtain ⟨-, hds, hde, -⟩ := hdr
    omega

/-- The nodes that cover a range that is not empty are above a node of the way down or below it. -/
theorem Around.mem_or_below {chain : List Tree} (hw : root.WellFormed) (h : Around root r chain) (hr : r.start < r.stop)
    {a : Tree} (ha : a ∈ root.preorder) (hcovers : a.span.Covers r) :
    ∀ t above, chain = t :: above → a ∈ above ∨ a ∈ t.preorder := by
  induction h with
  | root =>
    rintro t above heq
    obtain ⟨rfl, rfl⟩ := List.cons.inj heq
    exact Or.inr ha
  | @part t c above hup hc ih =>
    rintro c' above' heq
    obtain ⟨rfl, rfl⟩ := List.cons.inj heq
    have ht := hw.of_mem (hup.mem_preorder t List.mem_cons_self)
    rcases ih t above rfl with hmem | hbelow
    · exact Or.inl (List.mem_cons_of_mem t hmem)
    · rcases Tree.mem_preorder.mp hbelow with rfl | ⟨d, hd, had⟩
      · exact Or.inl List.mem_cons_self
      · -- the part above the node covers the range as well, so it is the one on the way
        obtain ⟨hcmem, hccovers⟩ := coveringPart?_cases hc
        have heq := ht.nested.eq_of_covers hr hd hcmem ((ht.child hd).covers_of_mem had hcovers hr) hccovers
        exact Or.inr (heq ▸ had)

/-- For a range that is not empty, the nodes that cover it are the smallest one and nodes around that. -/
theorem Smallest.mem_of_covers (hw : root.WellFormed) (h : Smallest root r t above) (hr : r.start < r.stop) {a : Tree}
    (ha : a ∈ root.preorder) (hcovers : a.span.Covers r) : a ∈ t :: above := by
  rcases h.around.mem_or_below hw hr ha hcovers t above rfl with hmem | hbelow
  · exact List.mem_cons_of_mem t hmem
  · rcases Tree.mem_preorder.mp hbelow with rfl | ⟨d, hd, had⟩
    · exact List.mem_cons_self
    · have ht := hw.of_mem (h.around.mem_preorder t List.mem_cons_self)
      exact absurd ((ht.child hd).covers_of_mem had hcovers hr) (h.least d hd)

end Source.Tree

end WriteGuard
