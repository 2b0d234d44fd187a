import WriteGuard.Proofs.CallOrder

/-!
Expressions that lie inside each other as the nodes they are read from do. The bytes of an expression hold those of its
parts, to every depth; the members of an object, the elements of an array and the arguments of a call come in order and
do not overlap, and the arguments stand between the callee and the end of the call. Parentheses, which an expression
leaves out of its bytes, and nesting that is not followed change nothing about this.
-/

namespace WriteGuard

open Source Source.Tree

/-- The bytes the key of a property is written in. -/
def Key.span : Key → Span
  | .ident i => i.span
  | .literal l => l.span
  | .computed key => key.span

/-- The key and the value of a property, or what is spread, lie within the member. -/
def Member.Nested : Member → Prop
  | .property key value _ s => s.Holds key.span ∧ s.Holds value.span
  | .spread argument s => s.Holds argument.span
  | .other _ => True

/-- What an expression is made of lies within it, in order. -/
def Expr.Nested : Expr → Prop
  | .call callee arguments s => s.Holds callee.span ∧
      (∀ e ∈ arguments, s.Holds e.span ∧ callee.span.stop ≤ e.span.start ∧ e.span.stop < s.stop) ∧
      arguments.Pairwise fun a b => a.span.stop ≤ b.span.start
  | .member owner property s => s.Holds owner.span ∧ s.Holds property.span
  | .object members s => (∀ m ∈ members, s.Holds m.span ∧ m.Nested) ∧
      members.Pairwise fun a b => a.span.stop ≤ b.span.start
  | .array elements s => (∀ e ∈ elements, s.Holds e.span) ∧
      elements.Pairwise fun a b => a.span.stop ≤ b.span.start
  | .spread argument s => s.Holds argument.span
  | .ident _ | .literal _ | .other _ => True

/-- Every expression in an expression, at any depth, has its parts within it. -/
def Expr.NestedThroughout (e : Expr) : Prop := ∀ a, Expr.Inside a e → a.Nested

namespace Source.Tree

/-- The callee of a node comes before its argument list. -/
def CalleeFirst (t : Tree) : Prop :=
  ∀ callee ∈ t.child? .callee, ∀ args ∈ t.child? .arguments, [callee, args].Sublist t.children

/-- The last part of a node is a closing bracket that has some bytes. -/
def EndsInBracket (t : Tree) : Prop :=
  ∃ c ∈ t.children.getLast?, c.kind = .symbol ")" ∧ c.span.start < c.span.stop

instance (t : Tree) : Decidable t.CalleeFirst :=
  inferInstanceAs (Decidable (∀ callee ∈ t.child? .callee, ∀ args ∈ t.child? .arguments,
    [callee, args].Sublist t.children))

instance (t : Tree) : Decidable t.EndsInBracket :=
  inferInstanceAs (Decidable (∃ c ∈ t.children.getLast?, c.kind = .symbol ")" ∧ c.span.start < c.span.stop))

/-- Nodes hold their parts in order, callees come before their arguments, and argument lists are closed. -/
structure InOrder (root : Tree) : Prop where
  nested : root.WellFormed
  calleeFirst : ∀ t ∈ root.preorder, t.kind = .call → t.CalleeFirst
  closed : ∀ t ∈ root.preorder, t.kind = .arguments → t.EndsInBracket

instance (root : Tree) : Decidable root.InOrder :=
  decidable_of_iff (root.WellFormed ∧ (∀ t ∈ root.preorder, t.kind = .call → t.CalleeFirst) ∧
      ∀ t ∈ root.preorder, t.kind = .arguments → t.EndsInBracket)
    ⟨fun h => ⟨h.1, h.2.1, h.2.2⟩, fun h => ⟨h.nested, h.calleeFirst, h.closed⟩⟩

theorem InOrder.of_mem {root t : Tree} (h : root.InOrder) (ht : t ∈ root.preorder) : t.InOrder where
  nested := h.nested.of_mem ht
  calleeFirst a ha := h.calleeFirst a (mem_preorder_trans ha ht)
  closed a ha := h.closed a (mem_preorder_trans ha ht)

/-- A part of an argument list that is more than a mark ends before the bracket that closes the list. -/
theorem EndsInBracket.stop_lt {t c : Tree} (h : t.EndsInBracket) (hw : t.WellFormed) (hc : c ∈ t.namedChildren) :
    c.span.stop < t.span.stop := by
  obtain ⟨bracket, hlast, hkind, hlt⟩ := h
  obtain ⟨hmem, hnamed⟩ := List.mem_filter.mp hc
  have hne : c ≠ bracket := by
    rintro rfl
    simp [hkind, Kind.isNamed] at hnamed
  have hin := (hw.nested.inside bracket (List.mem_of_getLast? hlast)).2
  obtain ⟨front, hsplit⟩ := List.getLast?_eq_some_iff.mp hlast
  have hapart := hw.nested.apart
  rw [hsplit] at hmem hapart
  have hfront := (List.mem_append.mp hmem).resolve_right fun h => hne (List.mem_singleton.mp h)
  have hbefore := (List.pairwise_append.mp hapart).2.2 c hfront bracket List.mem_cons_self
  omega

end Source.Tree

/-! ### One level of an expression -/

namespace Lower

variable {content : List Char} {part : Tree → Expr} {t : Tree}

/-- What is read from a node below lies within the bytes of the node. -/
theorem holds_part (hw : t.WellFormed) (hpart : ∀ c ∈ t.preorder, c.span.Holds (part c).span) {c : Tree}
    (hc : c ∈ t.preorder) : t.span.Holds (part c).span :=
  (hw.holds_of_mem hc).trans (hpart c hc)

theorem holds_firstNamed? (hw : t.WellFormed) (hpart : ∀ c ∈ t.preorder, c.span.Holds (part c).span) :
    t.span.Holds ((t.firstNamed?.map part).getD (.other t.span)).span := by
  cases hf : t.firstNamed? with
  | none => exact hw.holds_self
  | some c => exact holds_part hw hpart (mem_preorder_of_namedChild (List.mem_of_mem_head? hf))

/-- What is read from the parts of a node in order comes in order. -/
theorem pairwise_map_part (hw : t.WellFormed) (hpart : ∀ c ∈ t.preorder, c.span.Holds (part c).span) :
    (t.namedChildren.map part).Pairwise fun a b => a.span.stop ≤ b.span.start := by
  refine List.pairwise_map.mpr ((hw.nested.apart.filter _).imp_of_mem ?_)
  intro a b ha hb hab
  have hstop := (hpart a (mem_preorder_of_namedChild ha)).2.2
  have hstart := (hpart b (mem_preorder_of_namedChild hb)).1
  omega

theorem holds_key (hw : t.WellFormed) (hpart : ∀ c ∈ t.preorder, c.span.Holds (part c).span) :
    t.span.Holds (key content part t).span := by
  have hself := hw.holds_self
  have hread := hpart t (mem_preorder_self t)
  unfold key
  split
  case h_1 | h_2 => exact hself
  case h_3 | h_4 =>
    split
    · next l hl =>
      rw [hl] at hread
      exact hread
    · exact hread
  case h_5 => exact holds_firstNamed? hw hpart
  case h_6 => exact hself

theorem holds_selector (hw : t.WellFormed) (hpart : ∀ c ∈ t.preorder, c.span.Holds (part c).span)
    {selector : Selector} (h : selector? content part t = some selector) : t.span.Holds selector.span := by
  unfold selector? at h
  split at h
  · obtain ⟨index, hindex, rfl⟩ := Option.map_eq_some_iff.mp h
    exact holds_part hw hpart (mem_preorder_of_child? hindex)
  · obtain ⟨name, hname, rfl⟩ := Option.map_eq_some_iff.mp h
    have hin := hw.holds_of_mem (mem_preorder_of_child? hname)
    split <;> exact hin

theorem span_objectMember (content : List Char) (part : Tree → Expr) (t : Tree) :
    (objectMember content part t).span = t.span := by
  unfold objectMember
  split
  · split <;> rfl
  all_goals rfl

theorem nested_objectMember (hw : t.WellFormed) (hpart : ∀ c ∈ t.preorder, c.span.Holds (part c).span) :
    (objectMember content part t).Nested := by
  unfold objectMember
  split
  · split
    · next k v hk hv =>
      have hkey := mem_preorder_of_child? hk
      have hread : k.span.Holds (key content part k).span :=
        holds_key (hw.of_mem hkey) fun c hc => hpart c (mem_preorder_trans hc hkey)
      exact ⟨(hw.holds_of_mem hkey).trans hread, holds_part hw hpart (mem_preorder_of_child? hv)⟩
    · trivial
  · have hself := hw.holds_self
    exact ⟨hself, hself⟩
  · exact holds_firstNamed? hw hpart
  · trivial

theorem nested_object (hw : t.WellFormed) (hpart : ∀ c ∈ t.preorder, c.span.Holds (part c).span) :
    (Expr.object (t.namedChildren.map (objectMember content part)) t.span).Nested := by
  refine ⟨?_, List.pairwise_map.mpr ?_⟩
  · intro m hm
    obtain ⟨c, hc, rfl⟩ := List.mem_map.mp hm
    have hmem := mem_preorder_of_namedChild hc
    rw [span_objectMember]
    exact ⟨hw.holds_of_mem hmem, nested_objectMember (hw.of_mem hmem) fun d hd => hpart d (mem_preorder_trans hd hmem)⟩
  · simp only [span_objectMember]
    exact hw.nested.apart.filter _

theorem nested_member (hw : t.WellFormed) (hpart : ∀ c ∈ t.preorder, c.span.Holds (part c).span) :
    (member content part t).Nested := by
  unfold member
  split
  · next owner selector howner hselector =>
    exact ⟨holds_part hw hpart (mem_preorder_of_child? howner), holds_selector hw hpart hselector⟩
  · trivial

theorem span_member (content : List Char) (part : Tree → Expr) (t : Tree) : (member content part t).span = t.span := by
  unfold member
  split <;> rfl

/-- The arguments of a call stand between its callee and the bracket that closes it. -/
theorem nested_call (h : t.InOrder) (hk : t.kind = .call) (hpart : ∀ c ∈ t.preorder, c.span.Holds (part c).span)
    {call : Call} (hcall : call? part t = some call) : call.toExpr.Nested := by
  obtain ⟨callee, args, hcallee, hargs, hkargs, rfl⟩ := (call?_eq_some_iff part).mp hcall
  have hw := h.nested
  have hfmem := mem_preorder_of_child? hcallee
  have hamem := mem_preorder_of_child? hargs
  have hargsw := hw.of_mem hamem
  have hpartargs : ∀ c ∈ args.preorder, c.span.Holds (part c).span :=
    fun c hc => hpart c (mem_preorder_trans hc hamem)
  have hfirst : callee.span.stop ≤ args.span.start := by
    have hsub := h.calleeFirst t (mem_preorder_self t) hk callee hcallee args hargs
    exact (List.pairwise_cons.mp (hw.nested.apart.sublist hsub)).1 args List.mem_cons_self
  refine ⟨holds_part hw hpart hfmem, ?_, pairwise_map_part hargsw hpartargs⟩
  intro e he
  obtain ⟨a, ha, rfl⟩ := List.mem_map.mp he
  have hin := mem_preorder_of_namedChild ha
  have hlt := (h.closed args hamem hkargs).stop_lt hargsw ha
  have hread := hpart a (mem_preorder_trans hin hamem)
  have hfread := hpart callee hfmem
  have hastart := (hargsw.span_of_mem hin).1
  have hargsstop := (hw.span_of_mem hamem).2
  refine ⟨holds_part hw hpart (mem_preorder_trans hin hamem), ?_, ?_⟩
  · exact Nat.le_trans hfread.2.2 (Nat.le_trans hfirst (Nat.le_trans hastart hread.1))
  · exact Nat.lt_of_le_of_lt hread.2.2 (Nat.lt_of_lt_of_le hlt hargsstop)

/-- One level of an expression that is not in parentheses has its parts within it. -/
theorem nested_node (h : t.InOrder) (hk : t.kind ≠ .parens) (hpart : ∀ c ∈ t.preorder, c.span.Holds (part c).span) :
    (node content part t).Nested := by
  have hw := h.nested
  unfold node
  split
  case h_1 hparens => exact absurd hparens hk
  case h_4 hcall =>
    cases hfound : call? part t with
    | none => trivial
    | some call => exact nested_call h hcall hpart hfound
  case h_5 | h_6 => exact nested_member hw hpart
  case h_7 => exact nested_object hw hpart
  case h_8 =>
    refine ⟨?_, pairwise_map_part hw hpart⟩
    intro e he
    obtain ⟨c, hc, rfl⟩ := List.mem_map.mp he
    exact holds_part hw hpart (mem_preorder_of_namedChild hc)
  case h_9 => exact holds_firstNamed? hw hpart
  all_goals trivial

end Lower

/-! ### All levels -/

namespace Expr

variable {content : List Char} {root t : Tree}

/-- An expression without parts has nothing but itself in it. -/
theorem nestedThroughout_of_parts_eq_nil {e : Expr} (hp : e.parts = []) (hn : e.Nested) : e.NestedThroughout := by
  intro a ha
  cases ha with
  | self => exact hn
  | part hb => rw [hp] at hb; cases hb

/-- An expression has its parts within it throughout if it has and each part has. -/
theorem NestedThroughout.of_parts {e : Expr} (hn : e.Nested) (hp : ∀ p ∈ e.parts, p.NestedThroughout) :
    e.NestedThroughout := by
  intro a ha
  cases ha with
  | self => exact hn
  | part hb h => exact hp _ hb a h

/-- What is read from the nodes of a tree, and the names and unread parts between them, has its parts within it. -/
theorem nestedThroughout_of_fromNode {part : Tree → Expr} (hpart : ∀ c ∈ t.preorder, (part c).NestedThroughout)
    {e : Expr} (he : Lower.FromNode part t e) : e.NestedThroughout := by
  cases he with
  | node hc => exact hpart _ hc
  | name => exact nestedThroughout_of_parts_eq_nil rfl trivial
  | other => exact nestedThroughout_of_parts_eq_nil rfl trivial

/-- The expression at a node has its parts within it to every depth. -/
theorem nestedThroughout_ofTree (content : List Char) : ∀ (depth : Nat) {t : Tree}, t.InOrder →
    (Expr.ofTree content depth t).NestedThroughout
  | 0, _, _ => nestedThroughout_of_parts_eq_nil rfl trivial
  | depth + 1, t, h => by
      have hread : ∀ c ∈ t.preorder, (Expr.ofTree content depth c).NestedThroughout :=
        fun c hc => nestedThroughout_ofTree content depth (h.of_mem hc)
      by_cases hk : t.kind = .parens
      · rw [ofTree_of_parens content depth hk]
        exact nestedThroughout_of_fromNode hread (.of_firstNamed? _ t _)
      · have hholds : ∀ c ∈ t.preorder, c.span.Holds (Expr.ofTree content depth c).span :=
          fun c hc => holds_ofTree content depth (h.nested.of_mem hc)
        refine .of_parts (Lower.nested_node h hk hholds) fun p hp => ?_
        exact nestedThroughout_of_fromNode hread (Lower.fromNode_node hk hp)

/-- Read from a node to any depth, an expression lies within the bytes of the node, and every expression in it has its
parts within it and in order. The same holds of a call, a member of a value, an object, the key of a property and a
spread that are read from a node whose parts are followed to any depth. -/
theorem spans_nested (h : root.InOrder) (ht : t ∈ root.preorder) (depth : Nat) :
    (t.span.Holds (Expr.ofTree content depth t).span ∧ (Expr.ofTree content depth t).NestedThroughout) ∧
    (t.kind = .call → ∀ call, Lower.call? (Expr.ofTree content depth) t = some call →
      call.span = t.span ∧ call.toExpr.NestedThroughout) ∧
    ((Lower.member content (Expr.ofTree content depth) t).span = t.span ∧
      (Lower.member content (Expr.ofTree content depth) t).NestedThroughout) ∧
    (Expr.object (t.namedChildren.map (Lower.objectMember content (Expr.ofTree content depth)))
      t.span).NestedThroughout ∧
    (t.span.Holds (Lower.key content (Expr.ofTree content depth) t).span ∧
      ∀ e ∈ (Lower.key content (Expr.ofTree content depth) t).parts, e.NestedThroughout) ∧
    (Expr.spread (Lower.spreadArgument (Expr.ofTree content depth) t) t.span).NestedThroughout := by
  have hin := h.of_mem ht
  have hw := hin.nested
  have hholds : ∀ c ∈ t.preorder, c.span.Holds (Expr.ofTree content depth c).span :=
    fun c hc => holds_ofTree content depth (hw.of_mem hc)
  have hread : ∀ c ∈ t.preorder, (Expr.ofTree content depth c).NestedThroughout :=
    fun c hc => nestedThroughout_ofTree content depth (hin.of_mem hc)
  refine ⟨⟨holds_ofTree content depth hw, nestedThroughout_ofTree content depth hin⟩, ?_, ?_, ?_, ?_, ?_⟩
  · intro hk call hcall
    obtain ⟨callee, args, -, -, -, heq⟩ := (Lower.call?_eq_some_iff _).mp hcall
    refine ⟨by rw [heq], .of_parts (Lower.nested_call hin hk hholds hcall) fun p hp => ?_⟩
    exact nestedThroughout_of_fromNode hread (Lower.fromNode_call hcall hp)
  · refine ⟨Lower.span_member .., .of_parts (Lower.nested_member hw hholds) fun p hp => ?_⟩
    exact nestedThroughout_of_fromNode hread (Lower.fromNode_member hp)
  · refine .of_parts (Lower.nested_object hw hholds) fun p hp => ?_
    obtain ⟨m, hm, hp⟩ := List.mem_flatMap.mp hp
    obtain ⟨c, hc, rfl⟩ := List.mem_map.mp hm
    exact nestedThroughout_of_fromNode hread
      ((Lower.fromNode_objectMember hp).of_mem (mem_preorder_of_namedChild hc))
  · refine ⟨Lower.holds_key hw hholds, fun p hp => ?_⟩
    exact nestedThroughout_of_fromNode hread (Lower.fromNode_key hp)
  · refine .of_parts (Lower.holds_firstNamed? hw hholds) fun p hp => ?_
    obtain rfl := List.mem_singleton.mp hp
    exact nestedThroughout_of_fromNode hread (.of_firstNamed? _ t _)

/-- The payload of the outer set is read so far that the parts of the inner set are not followed. The inner set has its
callee and its argument within it all the same. -/
theorem spans_nested_outerPayload :
    nestedProgram.InOrder ∧ (Expr.ofTree nestedText 2 outerPayload).span = ⟨11, 57⟩ ∧
    (Expr.ofTree nestedText 2 outerPayload).NestedThroughout ∧
    (Expr.call (.other ⟨30, 42⟩) [.other ⟨43, 54⟩] ⟨30, 55⟩).Nested := by
  have horder : nestedProgram.InOrder := by decide +kernel
  have hmem : outerPayload ∈ nestedProgram.preorder := by decide +kernel
  obtain ⟨⟨-, hnested⟩, -⟩ := spans_nested horder hmem 2
  have hinner : Expr.Inside (.call (.other ⟨30, 42⟩) [.other ⟨43, 54⟩] ⟨30, 55⟩)
      (Expr.ofTree nestedText 2 outerPayload) := .part (.tail _ (.head _)) .self
  exact ⟨horder, rfl, hnested, hnested _ hinner⟩

end Expr

end WriteGuard
