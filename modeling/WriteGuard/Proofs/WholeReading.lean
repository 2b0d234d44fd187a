import WriteGuard.Proofs.CallOrder

/-!
Expressions read without a limit on their nesting. A tree is as high as its longest way down, and reading it through
that many levels reads all of it: more levels give the same expression, and each level is read from the whole readings
of the nodes below.
-/

namespace WriteGuard

open Source Source.Tree

namespace Source.Tree

/-! ### Ways down -/

/-- A way down from a node to a leaf, through one part at each level. -/
inductive Way : Tree → List Tree → Prop
  | leaf {t : Tree} (h : t.children = []) : Way t [t]
  | down {t c : Tree} {way : List Tree} (hc : c ∈ t.children) (h : Way c way) : Way t (t :: way)

mutual

/-- The most nodes of a sort that a way down from a node goes through. -/
def most (sort : Kind → Bool) : Tree → Nat
  | .node k _ _ cs => mostAll sort cs + if sort k then 1 else 0

/-- The most such nodes on a way down from one of several nodes. -/
def mostAll (sort : Kind → Bool) : List Tree → Nat
  | [] => 0
  | t :: ts => max (most sort t) (mostAll sort ts)

end

/-- The number of levels of a tree. -/
def height (t : Tree) : Nat := t.most fun _ => true

variable {sort : Kind → Bool} {t c : Tree}

theorem most_eq (sort : Kind → Bool) (t : Tree) :
    t.most sort = mostAll sort t.children + if sort t.kind then 1 else 0 := by
  cases t
  rfl

theorem most_le_mostAll : ∀ {ts : List Tree}, c ∈ ts → c.most sort ≤ mostAll sort ts
  | t :: ts, hc => by
      rw [mostAll]
      rcases List.mem_cons.mp hc with rfl | hc
      · exact Nat.le_max_left ..
      · exact Nat.le_trans (most_le_mostAll hc) (Nat.le_max_right ..)

theorem exists_mem_mostAll (sort : Kind → Bool) : ∀ {ts : List Tree}, ts ≠ [] → ∃ c ∈ ts, mostAll sort ts = c.most sort
  | [t], _ => ⟨t, List.mem_cons_self, by simp [mostAll]⟩
  | t :: u :: ts, _ => by
      obtain ⟨c, hc, heq⟩ := exists_mem_mostAll sort (List.cons_ne_nil u ts)
      rw [mostAll, heq]
      rcases Nat.le_total (t.most sort) (c.most sort) with hle | hle
      · exact ⟨c, List.mem_cons_of_mem t hc, Nat.max_eq_right hle⟩
      · exact ⟨t, List.mem_cons_self, Nat.max_eq_left hle⟩

theorem most_add_le (sort : Kind → Bool) (hc : c ∈ t.children) :
    c.most sort + (if sort t.kind then 1 else 0) ≤ t.most sort := by
  rw [most_eq sort t]
  exact Nat.add_le_add_right (most_le_mostAll hc) _

theorem most_le_of_mem_preorder (sort : Kind → Bool) (hc : c ∈ t.preorder) : c.most sort ≤ t.most sort := by
  induction t using byChildren with
  | step t ih =>
    rcases mem_preorder.mp hc with rfl | ⟨d, hd, hc⟩
    · exact Nat.le_refl _
    · have hle := most_add_le sort hd
      have hbelow := ih d hd hc
      omega

/-- A node below another one has fewer levels. -/
theorem height_lt {d : Tree} (hd : d ∈ t.children) (hc : c ∈ d.preorder) : c.height < t.height := by
  have hle : d.height + 1 ≤ t.height := most_add_le (fun _ => true) hd
  have hbelow : c.height ≤ d.height := most_le_of_mem_preorder (fun _ => true) hc
  omega

theorem Way.countP_le {way : List Tree} (h : Way t way) : (way.countP fun a => sort a.kind) ≤ t.most sort := by
  induction h with
  | leaf h =>
    rw [List.countP_singleton, most_eq]
    omega
  | down hc _ ih =>
    have hle := most_add_le sort hc
    rw [List.countP_cons]
    omega

theorem exists_way_countP (sort : Kind → Bool) (t : Tree) :
    ∃ way, Way t way ∧ (way.countP fun a => sort a.kind) = t.most sort := by
  induction t using byChildren with
  | step t ih =>
    by_cases hleaf : t.children = []
    · refine ⟨[t], .leaf hleaf, ?_⟩
      rw [List.countP_singleton, most_eq, hleaf, mostAll, Nat.zero_add]
    · obtain ⟨c, hc, heq⟩ := exists_mem_mostAll sort hleaf
      obtain ⟨way, hway, hcount⟩ := ih c hc
      refine ⟨t :: way, .down hc hway, ?_⟩
      rw [List.countP_cons, hcount, most_eq sort t, heq]

/-- A bound holds for the nodes of a sort on every way down exactly if it holds for the most of them. -/
theorem most_le_iff {n : Nat} : t.most sort ≤ n ↔ ∀ way, Way t way → (way.countP fun a => sort a.kind) ≤ n := by
  constructor
  · intro h way hway
    exact Nat.le_trans hway.countP_le h
  · intro h
    obtain ⟨way, hway, hcount⟩ := exists_way_countP sort t
    exact hcount ▸ h way hway

end Source.Tree

/-! ### Readings that agree below a node -/

namespace Lower

variable {content : List Char} {part other : Tree → Expr} {t : Tree}

theorem map_firstNamed?_congr (h : ∀ c ∈ t.children, ∀ d ∈ c.preorder, part d = other d) :
    t.firstNamed?.map part = t.firstNamed?.map other := by
  cases hf : t.firstNamed? with
  | none => rfl
  | some c =>
    have hmem := (List.mem_filter.mp (List.mem_of_mem_head? hf)).1
    rw [Option.map_some, Option.map_some, h c hmem c (mem_preorder_self c)]

theorem map_namedChildren_congr {α : Type} {f g : Tree → α} (h : ∀ c ∈ t.children, f c = g c) :
    t.namedChildren.map f = t.namedChildren.map g :=
  List.map_congr_left fun c hc => h c (List.mem_filter.mp hc).1

theorem key_congr (h : ∀ d ∈ t.preorder, part d = other d) : key content part t = key content other t := by
  have hbelow : ∀ c ∈ t.children, ∀ d ∈ c.preorder, part d = other d :=
    fun c hc d hd => h d (mem_preorder.mpr (Or.inr ⟨c, hc, hd⟩))
  unfold key
  rw [h t (mem_preorder_self t), map_firstNamed?_congr hbelow]

theorem objectMember_congr (h : ∀ c ∈ t.children, ∀ d ∈ c.preorder, part d = other d) :
    objectMember content part t = objectMember content other t := by
  unfold objectMember
  split
  · split
    · next k v hk hv =>
      have hkey := List.mem_of_find?_eq_some hk
      have hvalue := List.mem_of_find?_eq_some hv
      rw [key_congr (h k hkey), h v hvalue v (mem_preorder_self v)]
    · rfl
  · rfl
  · rw [spreadArgument, spreadArgument, map_firstNamed?_congr h]
  · rfl

theorem selector?_congr (h : ∀ c ∈ t.children, ∀ d ∈ c.preorder, part d = other d) :
    selector? content part t = selector? content other t := by
  unfold selector?
  split
  · cases hi : t.child? .index with
    | none => rfl
    | some index =>
      rw [Option.map_some, Option.map_some, h index (List.mem_of_find?_eq_some hi) index (mem_preorder_self index)]
  · rfl

theorem member_congr (h : ∀ c ∈ t.children, ∀ d ∈ c.preorder, part d = other d) :
    member content part t = member content other t := by
  unfold member
  rw [selector?_congr h]
  split
  · next owner selector howner _ => rw [h owner (List.mem_of_find?_eq_some howner) owner (mem_preorder_self owner)]
  · rfl

theorem call?_congr (h : ∀ c ∈ t.children, ∀ d ∈ c.preorder, part d = other d) : call? part t = call? other t := by
  unfold call?
  split
  · next callee args hcallee hargs =>
    have hlist : args.namedChildren.map part = args.namedChildren.map other :=
      map_namedChildren_congr fun c hc =>
        h args (List.mem_of_find?_eq_some hargs) c (mem_preorder_of_mem_children hc)
    rw [hlist, h callee (List.mem_of_find?_eq_some hcallee) callee (mem_preorder_self callee)]
  · rfl

/-- One level of an expression depends only on the readings of the nodes below. -/
theorem node_congr (h : ∀ c ∈ t.children, ∀ d ∈ c.preorder, part d = other d) :
    node content part t = node content other t := by
  have hmembers : t.namedChildren.map (objectMember content part) = t.namedChildren.map (objectMember content other) :=
    map_namedChildren_congr fun c hc =>
      objectMember_congr fun d hd e he => h c hc e (mem_preorder_trans he (mem_preorder_of_mem_children hd))
  have helements : t.namedChildren.map part = t.namedChildren.map other :=
    map_namedChildren_congr fun c hc => h c hc c (mem_preorder_self c)
  unfold node
  rw [call?_congr h, member_congr h, hmembers, helements, spreadArgument, spreadArgument, map_firstNamed?_congr h]

/-- The expression at a node, followed through all levels of the tree. -/
def whole (content : List Char) (t : Tree) : Expr := Expr.ofTree content t.height t

end Lower

/-- More levels than the tree has give the same expression. -/
theorem Expr.ofTree_eq_ofTree (content : List Char) : ∀ {m n : Nat} {t : Tree}, t.height ≤ m → t.height ≤ n →
    Expr.ofTree content m t = Expr.ofTree content n t
  | 0, _, t, hm, _ => by
      rw [height, most_eq] at hm
      simp at hm
  | _ + 1, 0, t, _, hn => by
      rw [height, most_eq] at hn
      simp at hn
  | m + 1, n + 1, t, hm, hn => by
      rw [Expr.ofTree, Expr.ofTree]
      refine Lower.node_congr fun c hc d hd => ?_
      have hlt := height_lt hc hd
      exact ofTree_eq_ofTree content (by omega) (by omega)

theorem Lower.ofTree_eq_whole (content : List Char) {n : Nat} {t : Tree} (h : t.height ≤ n) :
    Expr.ofTree content n t = Lower.whole content t :=
  Expr.ofTree_eq_ofTree content h (Nat.le_refl _)

/-- Nothing is cut off in a whole reading: each level is read from the whole readings of the nodes below. -/
theorem Lower.whole_eq (content : List Char) (t : Tree) :
    Lower.whole content t = Lower.node content (Lower.whole content) t := by
  rw [← Lower.ofTree_eq_whole content (Nat.le_succ t.height), Expr.ofTree]
  refine Lower.node_congr fun c hc d hd => ?_
  have hlt := height_lt hc hd
  exact Lower.ofTree_eq_whole content (by omega)

end WriteGuard
