import WriteGuard.Proofs.Addresses
import WriteGuard.Proofs.DistinctReports

/-!
The calls of a file in their order. They are read from the call nodes of the tree by their addresses, a node before the
nodes below it. An argument list starts with a bracket, so a call is longer than the calls in it and no two calls have
the same bytes. A call inside an expression that was read from a node is read from a node below, and is a call of the
file again.
-/

namespace WriteGuard

open Source Source.Tree

namespace Source.Tree

/-- A node that makes a call: it has a callee and an argument list, which a template is not. -/
structure IsCall (t : Tree) : Prop where
  kind : t.kind = .call
  callee : ∃ callee, t.child? .callee = some callee
  arguments : ∃ args, t.child? .arguments = some args ∧ args.kind = .arguments

theorem mem_preorder_of_child? {t c : Tree} {role : Role} (h : t.child? role = some c) : c ∈ t.preorder :=
  mem_preorder_of_mem_children (List.mem_of_find?_eq_some h)

theorem mem_preorder_of_namedChild {t c : Tree} (h : c ∈ t.namedChildren) : c ∈ t.preorder :=
  mem_preorder_of_mem_children (List.mem_filter.mp h).1

/-- The nodes of a tree come in the order of their addresses, a node before the nodes below it. -/
theorem listed_preorder (t : Tree) : Listed (List.Lex (· < ·)) t.preorder fun p a => t.at? p = some a := by
  induction t using byChildren with
  | step t ih =>
    have hparts := Listed.parts byIndex_lex ih
    rw [preorder_eq]
    refine ((Listed.here _ t).append hparts ?_).congr fun p a => ⟨?_, ?_⟩
    · rintro p a q b ⟨rfl, -⟩ ⟨i, c, q, rfl, -⟩
      exact .nil
    · rintro (⟨rfl, rfl⟩ | ⟨i, c, q, rfl, hc, hq⟩)
      · rfl
      · exact at?_cons.mpr ⟨c, hc, hq⟩
    · intro hp
      cases p with
      | nil => exact Or.inl ⟨rfl, (Option.some.inj hp).symm⟩
      | cons i q =>
        obtain ⟨c, hc, hq⟩ := at?_cons.mp hp
        exact Or.inr ⟨i, c, q, rfl, hc, hq⟩

end Source.Tree

/-! ### The nodes of calls -/

theorem Call.toExpr_injective {a b : Call} (h : a.toExpr = b.toExpr) : a = b := by
  cases a
  cases b
  obtain ⟨rfl, rfl, rfl⟩ := Expr.call.inj h
  rfl

theorem Lower.call?_eq_some_iff (part : Tree → Expr) {t : Tree} {call : Call} : Lower.call? part t = some call ↔
    ∃ callee args, t.child? .callee = some callee ∧ t.child? .arguments = some args ∧ args.kind = .arguments ∧
      call = ⟨part callee, args.namedChildren.map part, t.span⟩ := by
  constructor
  · intro h
    unfold Lower.call? at h
    split at h
    · next callee args hcallee hargs =>
      split at h
      · next hk => exact ⟨callee, args, hcallee, hargs, hk, (Option.some.inj h).symm⟩
      · cases h
    · cases h
  · rintro ⟨callee, args, hcallee, hargs, hk, rfl⟩
    simp only [Lower.call?, hcallee, hargs, if_pos hk]

theorem Source.Tree.IsCall.exists_call {t : Tree} (h : t.IsCall) (content : List Char) :
    ∃ call, Call.ofTree? content t = some call := by
  obtain ⟨hk, ⟨callee, hcallee⟩, args, hargs, hkargs⟩ := h
  rw [Call.ofTree?, if_pos hk]
  exact ⟨_, (Lower.call?_eq_some_iff _).mpr ⟨callee, args, hcallee, hargs, hkargs, rfl⟩⟩

/-- The call at a node is the expression at the node, read to the full depth. -/
theorem Call.ofTree?_eq_some_iff {content : List Char} {t : Tree} {call : Call} :
    Call.ofTree? content t = some call ↔ t.IsCall ∧ call.toExpr = Lower.expr content t := by
  have hexpr : ∀ found, Call.ofTree? content t = some found → t.IsCall ∧ found.toExpr = Lower.expr content t := by
    intro found hfound
    obtain ⟨callee, args, hnode⟩ := Call.ofTree?_cases hfound
    rw [Call.ofTree?, if_pos hnode.kind] at hfound
    refine ⟨⟨hnode.kind, ⟨callee, hnode.child_callee⟩, args, hnode.child_arguments, hnode.kind_args⟩, ?_⟩
    rw [Lower.expr, Expr.ofTree, Lower.node, hnode.kind, hfound]
    rfl
  refine ⟨hexpr call, ?_⟩
  rintro ⟨hcall, heq⟩
  obtain ⟨found, hfound⟩ := hcall.exists_call content
  rw [hfound, Call.toExpr_injective (heq.trans (hexpr found hfound).2.symm)]

/-- The calls of a file come from the nodes that make a call, in the order of their addresses and each read once. -/
theorem SourceFile.listed_calls (file : SourceFile) : Listed (List.Lex (· < ·)) file.calls fun p call =>
    ∃ t, file.tree.at? p = some t ∧ t.IsCall ∧ call.toExpr = Lower.expr file.content t := by
  rw [calls_eq]
  refine ((listed_preorder file.tree).filterMap (Call.ofTree? file.content)).congr fun p call => ?_
  simp only [Call.ofTree?_eq_some_iff]

/-! ### The bytes of calls -/

/-- A range starts first, or is the longer one of two that start together. -/
def Span.Before (s t : Span) : Prop := s.start < t.start ∨ s.start = t.start ∧ t.stop < s.stop

theorem Span.Before.ne {s t : Span} (h : s.Before t) : s ≠ t := by
  rintro rfl
  unfold Span.Before at h
  omega

section Bytes

variable {content : List Char} {t : Tree}

/-- A call has more bytes than its argument list has, and that has some. -/
theorem Source.Tree.IsCall.start_lt_stop (h : t.IsCall) (hw : t.WellFormed)
    (ho : ∀ a ∈ t.preorder, a.kind = .arguments → a.Opened content) : t.span.start < t.span.stop := by
  obtain ⟨args, hargs, hk⟩ := h.arguments
  have hmem : args ∈ t.children := List.mem_of_find?_eq_some hargs
  have hlt := (ho args (mem_preorder_of_mem_children hmem) hk).start_lt_stop (hw.child hmem)
  have hin := hw.nested.inside args hmem
  omega

/-- A call below a call starts later or ends earlier. -/
theorem Source.Tree.IsCall.before_of_below (h : t.IsCall) (hw : t.WellFormed)
    (ho : ∀ a ∈ t.preorder, a.kind = .arguments → a.Opened content) {c b : Tree} (hc : c ∈ t.children)
    (hb : b ∈ c.preorder) (hkb : b.kind = .call) : t.span.Before b.span := by
  obtain ⟨args, hargs, hk⟩ := h.arguments
  have hmem : args ∈ t.children := List.mem_of_find?_eq_some hargs
  have hopened := ho args (mem_preorder_of_mem_children hmem) hk
  have hin := (hw.child hc).span_of_mem hb
  have hcin := hw.nested.inside c hc
  have hargsin := hw.nested.inside args hmem
  unfold Span.Before
  rcases hw.nested.eq_or_apart hc hmem with rfl | hapart
  · rcases mem_preorder.mp hb with rfl | ⟨x, hx, hbx⟩
    · rw [hk] at hkb
      cases hkb
    · have hlt := hopened.start_lt (hw.child hc) hx hbx (by rw [hkb]; rfl)
      omega
  · -- the call stands beside the argument list, which has some bytes
    have hlt := hopened.start_lt_stop (hw.child hmem)
    omega

/-- Earlier calls start first, or start together with the later ones and are longer. -/
theorem SourceFile.calls_pairwise_before {file : SourceFile} (hw : file.tree.WellFormed)
    (ho : ∀ a ∈ file.tree.preorder, a.kind = .arguments → a.Opened file.content) :
    file.calls.Pairwise fun a b => a.span.Before b.span := by
  have hnodes := hw.preorder_pairwise.imp_of_mem fun {a b} ha _ hab => And.intro ha hab
  rw [calls_eq]
  refine hnodes.filterMap (Call.ofTree? file.content) ?_
  rintro a b ⟨ha, hab⟩ x hx y hy
  obtain ⟨_, _, hnodex⟩ := Call.ofTree?_cases hx
  obtain ⟨_, _, hnodey⟩ := Call.ofTree?_cases hy
  have hcall := (Call.ofTree?_eq_some_iff.mp hx).1
  have hopened : ∀ n ∈ a.preorder, n.kind = .arguments → n.Opened file.content :=
    fun n hn => ho n (mem_preorder_trans hn ha)
  rw [hnodex.span_eq, hnodey.span_eq]
  rcases hab with ⟨c, hc, hbc⟩ | hbehind
  · exact hcall.before_of_below (hw.of_mem ha) hopened hc hbc hnodey.kind
  · have hlt := hcall.start_lt_stop (hw.of_mem ha) hopened
    exact Or.inl (Nat.lt_of_lt_of_le hlt hbehind)

end Bytes

/-! ### Calls in calls -/

/-- The expressions in the key of a property. -/
def Key.parts : Key → List Expr
  | .computed key => [key]
  | .ident _ | .literal _ => []

/-- The expressions in the choice of a member. -/
def Selector.parts : Selector → List Expr
  | .computed key => [key]
  | .named _ | .privateName _ => []

/-- The expressions in a member of an object literal. -/
def Member.parts : Member → List Expr
  | .property key value _ _ => value :: key.parts
  | .spread argument _ => [argument]
  | .other _ => []

/-- The expressions that an expression is made of. -/
def Expr.parts : Expr → List Expr
  | .call callee arguments _ => callee :: arguments
  | .member owner property _ => owner :: property.parts
  | .object members _ => members.flatMap Member.parts
  | .array elements _ => elements
  | .spread argument _ => [argument]
  | .ident _ | .literal _ | .other _ => []

/-- An expression stands in another one, at any depth. -/
inductive Expr.Inside (e : Expr) : Expr → Prop
  | self : Inside e e
  | part {a b : Expr} (ha : a ∈ b.parts) (h : Inside e a) : Inside e b

namespace Lower

/-- What the parts of an expression are read as: an expression for a node of the tree, or one that has no parts. -/
inductive FromNode (part : Tree → Expr) (t : Tree) : Expr → Prop
  | node {c : Tree} (hc : c ∈ t.preorder) : FromNode part t (part c)
  | name {i : Ident} : FromNode part t (.ident i)
  | other {s : Span} : FromNode part t (.other s)

variable {content : List Char} {part : Tree → Expr} {t : Tree}

theorem FromNode.of_mem {c : Tree} {e : Expr} (h : FromNode part c e) (hc : c ∈ t.preorder) : FromNode part t e := by
  cases h with
  | node hd => exact .node (mem_preorder_trans hd hc)
  | name => exact .name
  | other => exact .other

theorem FromNode.of_firstNamed? (part : Tree → Expr) (t : Tree) (s : Span) :
    FromNode part t ((t.firstNamed?.map part).getD (.other s)) := by
  cases hf : t.firstNamed? with
  | none => exact .other
  | some c => exact .node (mem_preorder_of_namedChild (List.mem_of_mem_head? hf))

/-- The expressions in the key of a property. -/
theorem fromNode_key {e : Expr} (h : e ∈ (key content part t).parts) : FromNode part t e := by
  unfold key at h
  split at h
  case h_1 | h_2 => cases h
  case h_3 | h_4 =>
    split at h
    · cases h
    · obtain rfl := List.mem_singleton.mp h
      exact .node (mem_preorder_self t)
  case h_5 =>
    obtain rfl := List.mem_singleton.mp h
    exact .of_firstNamed? part t _
  case h_6 =>
    obtain rfl := List.mem_singleton.mp h
    exact .other

theorem fromNode_selector {selector : Selector} (hs : selector? content part t = some selector) {e : Expr}
    (h : e ∈ selector.parts) : FromNode part t e := by
  unfold selector? at hs
  split at hs
  · obtain ⟨index, hindex, rfl⟩ := Option.map_eq_some_iff.mp hs
    obtain rfl := List.mem_singleton.mp h
    exact .node (mem_preorder_of_child? hindex)
  · obtain ⟨name, -, rfl⟩ := Option.map_eq_some_iff.mp hs
    split at h <;> cases h

theorem fromNode_objectMember {e : Expr} (h : e ∈ (objectMember content part t).parts) : FromNode part t e := by
  unfold objectMember at h
  split at h
  · split at h
    · next k v hk hv =>
      rcases List.mem_cons.mp h with rfl | h
      · exact .node (mem_preorder_of_child? hv)
      · exact (fromNode_key h).of_mem (mem_preorder_of_child? hk)
    · cases h
  · obtain rfl := List.mem_singleton.mp h
    exact .name
  · obtain rfl := List.mem_singleton.mp h
    exact .of_firstNamed? part t _
  · cases h

theorem fromNode_call {call : Call} (hcall : call? part t = some call) {e : Expr} (h : e ∈ call.toExpr.parts) :
    FromNode part t e := by
  obtain ⟨callee, args, hcallee, hargs, -, rfl⟩ := (call?_eq_some_iff part).mp hcall
  rcases List.mem_cons.mp h with rfl | h
  · exact .node (mem_preorder_of_child? hcallee)
  · obtain ⟨a, ha, rfl⟩ := List.mem_map.mp h
    exact .node (mem_preorder_trans (mem_preorder_of_namedChild ha) (mem_preorder_of_child? hargs))

theorem fromNode_member {e : Expr} (h : e ∈ (member content part t).parts) : FromNode part t e := by
  unfold member at h
  split at h
  · next owner selector howner hselector =>
    rcases List.mem_cons.mp h with rfl | h
    · exact .node (mem_preorder_of_child? howner)
    · exact fromNode_selector hselector h
  · cases h

/-- The parts of one level of an expression that is not in parentheses. -/
theorem fromNode_node (hk : t.kind ≠ .parens) {e : Expr} (h : e ∈ (node content part t).parts) :
    FromNode part t e := by
  unfold node at h
  split at h
  case h_1 hparens => exact absurd hparens hk
  case h_4 =>
    cases hcall : call? part t with
    | none =>
      rw [hcall] at h
      cases h
    | some call =>
      rw [hcall] at h
      exact fromNode_call hcall h
  case h_5 | h_6 => exact fromNode_member h
  case h_7 =>
    obtain ⟨m, hm, h⟩ := List.mem_flatMap.mp h
    obtain ⟨c, hc, rfl⟩ := List.mem_map.mp hm
    exact (fromNode_objectMember h).of_mem (mem_preorder_of_namedChild hc)
  case h_8 =>
    obtain ⟨c, hc, rfl⟩ := List.mem_map.mp h
    exact .node (mem_preorder_of_namedChild hc)
  case h_9 =>
    obtain rfl := List.mem_singleton.mp h
    exact .of_firstNamed? part t _
  all_goals cases h

/-- One level of an expression that is not in parentheses is a call only at a node that makes a call. -/
theorem isCall_of_node (hk : t.kind ≠ .parens) {f : Expr} {es : List Expr} {s : Span}
    (h : node content part t = .call f es s) : t.IsCall ∧ t.span = s := by
  unfold node at h
  split at h
  case h_1 hparens => exact absurd hparens hk
  case h_4 hcall =>
    cases hfound : call? part t with
    | none =>
      rw [hfound] at h
      cases h
    | some call =>
      obtain ⟨callee, args, hcallee, hargs, hkargs, rfl⟩ := (call?_eq_some_iff part).mp hfound
      rw [hfound] at h
      cases h
      exact ⟨⟨hcall, ⟨callee, hcallee⟩, args, hargs, hkargs⟩, rfl⟩
  case h_5 | h_6 =>
    unfold member at h
    split at h <;> cases h
  all_goals cases h

end Lower

/-- A call in the expression at a node stands at a node below that makes a call. -/
theorem Expr.exists_isCall_of_inside {content : List Char} {f : Expr} {es : List Expr} {s : Span} :
    ∀ (depth : Nat) (t : Tree), Inside (.call f es s) (Expr.ofTree content depth t) →
      ∃ c ∈ t.preorder, c.IsCall ∧ c.span = s
  | 0, t, h => by
      cases h with
      | part ha => cases ha
  | depth + 1, t, h => by
      have hbelow : ∀ e, Lower.FromNode (Expr.ofTree content depth) t e → Inside (.call f es s) e →
          ∃ c ∈ t.preorder, c.IsCall ∧ c.span = s := by
        intro e he h
        cases he with
        | @node c hc =>
          obtain ⟨d, hd, hcall⟩ := exists_isCall_of_inside depth c h
          exact ⟨d, mem_preorder_trans hd hc, hcall⟩
        | name =>
          cases h with
          | part ha => cases ha
        | other =>
          cases h with
          | part ha => cases ha
      by_cases hk : t.kind = .parens
      · rw [ofTree_of_parens content depth hk] at h
        exact hbelow _ (.of_firstNamed? _ t _) h
      · rw [Expr.ofTree] at h
        generalize he : Lower.node content (Expr.ofTree content depth) t = e at h
        cases h with
        | self =>
          obtain ⟨hcall, hspan⟩ := Lower.isCall_of_node hk he
          exact ⟨t, mem_preorder_self t, hcall, hspan⟩
        | part ha h =>
          rw [← he] at ha
          exact hbelow _ (Lower.fromNode_node hk ha) h

namespace SourceFile

/-- A call in a call of the file is a call of the file with the same bytes. -/
theorem exists_call_of_inside {file : SourceFile} {call : Call} (hcall : call ∈ file.calls) {f : Expr} {es : List Expr}
    {s : Span} (h : Expr.Inside (.call f es s) call.toExpr) : ∃ other ∈ file.calls, other.span = s := by
  rw [calls_eq] at hcall ⊢
  obtain ⟨t, ht, hread⟩ := List.mem_filterMap.mp hcall
  rw [(Call.ofTree?_eq_some_iff.mp hread).2] at h
  obtain ⟨c, hc, hiscall, rfl⟩ := Expr.exists_isCall_of_inside _ t h
  obtain ⟨other, hother⟩ := hiscall.exists_call file.content
  obtain ⟨callee, args, hnode⟩ := Call.ofTree?_cases hother
  exact ⟨other, List.mem_filterMap.mpr ⟨c, mem_preorder_trans hc ht, hother⟩, hnode.span_eq⟩

/-- The search for calls ends: its cursor visits every node, a node before those below it, and reads the calls place by
place. -/
theorem exists_walk_calls (file : SourceFile) : ∃ places, TreeCursor.Walk (fun _ => true) (.start file.tree) places ∧
    places.map TreeCursor.node = file.tree.preorder ∧
    file.calls = places.filterMap fun c => Call.ofTree? file.content c.node := by
  obtain ⟨places, hwalk, hplaces⟩ := TreeCursor.exists_walk (fun _ => true) (.start file.tree)
  rw [TreeCursor.toVisit_start, visited_true] at hplaces
  refine ⟨places, hwalk, hplaces, ?_⟩
  rw [calls_eq, ← hplaces, List.filterMap_map]
  rfl

/-- The search for calls walks the whole tree and ends. The calls are read from the nodes that make a call, each of them
once and from the top, in the order of their addresses. Of two calls the earlier one starts first, or starts together
with the other one and is longer; so no two have the same bytes. Every call in a call, at any depth, is a call of the
file again. -/
theorem calls_in_order (file : SourceFile) (hw : file.tree.WellFormed)
    (ho : ∀ t ∈ file.tree.preorder, t.kind = .arguments → t.Opened file.content) :
    (∃ places, TreeCursor.Walk (fun _ => true) (.start file.tree) places ∧
      places.map TreeCursor.node = file.tree.preorder ∧
      file.calls = places.filterMap fun c => Call.ofTree? file.content c.node) ∧
    Listed (List.Lex (· < ·)) file.calls (fun p call =>
      ∃ t, file.tree.at? p = some t ∧ t.IsCall ∧ call.toExpr = Lower.expr file.content t) ∧
    file.calls.Pairwise (fun a b => a.span.Before b.span) ∧
    (file.calls.map Call.span).Nodup ∧
    ∀ call ∈ file.calls, ∀ f es s, Expr.Inside (.call f es s) call.toExpr → ∃ other ∈ file.calls, other.span = s := by
  have hbefore := calls_pairwise_before hw ho
  refine ⟨exists_walk_calls file, listed_calls file, hbefore, ?_, fun call hcall f es s => exists_call_of_inside hcall⟩
  exact List.pairwise_map.mpr (hbefore.imp Span.Before.ne)

/-- Three calls in each other: the walk has a round for each node, and of the two calls that start together it reads the
longer one first. -/
theorem calls_in_order_nestedSets :
    (∃ places, TreeCursor.Walk (fun _ => true) (.start nestedSets.tree) places ∧ places.length = 44) ∧
    nestedSets.calls.map Call.span = [⟨0, 59⟩, ⟨30, 55⟩, ⟨30, 35⟩] ∧
    ∀ a ∈ nestedSets.calls[1]?, ∀ b ∈ nestedSets.calls[2]?, a.span.Before b.span := by
  have ho : ∀ t ∈ nestedSets.tree.preorder, t.kind = .arguments → t.Opened nestedSets.content := by
    rw [nestedSets_eq]
    decide +kernel
  have hspans : nestedSets.calls.map Call.span = [⟨0, 59⟩, ⟨30, 55⟩, ⟨30, 35⟩] := by
    rw [nestedSets_eq]
    decide +kernel
  have hcount : nestedSets.tree.preorder.length = 44 := by
    rw [nestedSets_eq]
    decide +kernel
  obtain ⟨⟨places, hwalk, hplaces, -⟩, -, hbefore, -⟩ := calls_in_order nestedSets wellFormed_nestedSets ho
  refine ⟨⟨places, hwalk, ?_⟩, hspans, ?_⟩
  · rw [← hcount, ← hplaces, List.length_map]
  · intro a ha b hb
    obtain ⟨h₁, rfl⟩ := List.getElem?_eq_some_iff.mp ha
    obtain ⟨h₂, rfl⟩ := List.getElem?_eq_some_iff.mp hb
    exact List.pairwise_iff_getElem.mp hbefore 1 2 h₁ h₂ (by decide)

end SourceFile

end WriteGuard
