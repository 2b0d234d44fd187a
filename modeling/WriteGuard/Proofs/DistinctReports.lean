import WriteGuard.Lint.Diagnostic
import WriteGuard.Proofs.CallNodes
import WriteGuard.Proofs.Classification

/-!
No place is reported twice by one rule, however the calls of a file stand in each other. The brackets of a call keep its
arguments away from both of its ends. So a call inside an argument has all of its own arguments further inside, and the
bytes of an argument without its parentheses are never those of an argument of another call.
-/

namespace WriteGuard

open Source Source.Tree

/-- A range misses another one, or holds all of it. -/
def Span.Clear (s t : Span) : Prop :=
  t.stop ≤ s.start ∨ s.stop ≤ t.start ∨ (s.start ≤ t.start ∧ t.stop ≤ s.stop)

/-! ### What stands between brackets -/

namespace Source.Tree

/-- An argument list starts with its bracket. -/
def Opened (content : List Char) (t : Tree) : Prop := ∃ o, t.children.head? = some o ∧ IsMark content "(" o

/-- The parts of an argument list stand between its two brackets. -/
structure Bracketed (content : List Char) (t : Tree) : Prop where
  opened : t.Opened content
  closes : ∃ c, t.children.getLast? = some c ∧ IsMark content ")" c

instance (content : List Char) (mark : String) (t : Tree) : Decidable (IsMark content mark t) :=
  decidable_of_iff (t.kind = .symbol mark ∧ t.children = [] ∧ t.text content = mark)
    ⟨fun h => ⟨h.1, h.2.1, h.2.2⟩, fun h => ⟨h.kind, h.leaf, h.written⟩⟩

instance (content : List Char) (t : Tree) : Decidable (t.Opened content) :=
  inferInstanceAs (Decidable (∃ o ∈ t.children.head?, IsMark content "(" o))

instance (content : List Char) (t : Tree) : Decidable (t.Bracketed content) :=
  decidable_of_iff (t.Opened content ∧ ∃ c ∈ t.children.getLast?, IsMark content ")" c)
    ⟨fun h => ⟨h.1, h.2⟩, fun h => ⟨h.opened, h.closes⟩⟩

variable {content : List Char}

theorem IsMark.isNamed_of_mem {mark : String} {t b : Tree} (h : IsMark content mark t) (hb : b ∈ t.preorder) :
    b.kind.isNamed = false := by
  rcases mem_preorder.mp hb with rfl | ⟨c, hc, -⟩
  · exact h.isNamed
  · rw [h.leaf] at hc
    cases hc

namespace Opened

variable {t : Tree}

/-- Every node of an argument list that is more than a mark starts behind the bracket. -/
theorem start_lt {x b : Tree} (h : Opened content t) (hw : t.WellFormed) (hx : x ∈ t.children) (hb : b ∈ x.preorder)
    (hn : b.kind.isNamed = true) : t.span.start < b.span.start := by
  obtain ⟨o, ho, hopen⟩ := h
  obtain ⟨rest, hfirst⟩ := List.head?_eq_some_iff.mp ho
  have hne : x ≠ o := by
    rintro rfl
    rw [hopen.isNamed_of_mem hb] at hn
    cases hn
  have hin := (hw.child hx).span_of_mem hb
  have hlt := hopen.start_lt_stop (by decide)
  have hstart := (hw.nested.inside o (List.mem_of_mem_head? ho)).1
  have hapart := hw.nested.apart
  rw [hfirst] at hx hapart
  have hafter := (List.pairwise_cons.mp hapart).1 x ((List.mem_cons.mp hx).resolve_left hne)
  omega

theorem start_lt_stop (h : Opened content t) (hw : t.WellFormed) : t.span.start < t.span.stop := by
  obtain ⟨o, ho, hopen⟩ := h
  have hlt := hopen.start_lt_stop (by decide)
  have hin := hw.nested.inside o (List.mem_of_mem_head? ho)
  omega

end Opened

namespace Bracketed

variable {t : Tree}

theorem start_lt_stop (h : Bracketed content t) (hw : t.WellFormed) : t.span.start < t.span.stop :=
  h.opened.start_lt_stop hw

/-- Every node of an argument list that is more than a mark lies between the brackets. -/
theorem between {x b : Tree} (h : Bracketed content t) (hw : t.WellFormed) (hx : x ∈ t.children) (hb : b ∈ x.preorder)
    (hn : b.kind.isNamed = true) : t.span.start < b.span.start ∧ b.span.stop < t.span.stop := by
  obtain ⟨c, hc, hclose⟩ := h.closes
  have hxc : x ≠ c := by
    rintro rfl
    rw [hclose.isNamed_of_mem hb] at hn
    cases hn
  obtain ⟨init, hlast⟩ := List.getLast?_eq_some_iff.mp hc
  have hstart := h.opened.start_lt hw hx hb hn
  have hin := (hw.child hx).span_of_mem hb
  have hcloselt := hclose.start_lt_stop (by decide)
  have hcstop := (hw.nested.inside c (List.mem_of_getLast? hc)).2
  -- the part ends before the closing bracket starts
  have hbefore : x.span.stop ≤ c.span.start := by
    have hapart := hw.nested.apart
    rw [hlast] at hx hapart
    have hinit := (List.mem_append.mp hx).resolve_right fun hlast => hxc (List.mem_singleton.mp hlast)
    exact (List.pairwise_append.mp hapart).2.2 x hinit c List.mem_cons_self
  omega

end Bracketed

end Source.Tree

/-! ### Arguments and the calls in them -/

/-- An expression without its parentheses misses each node around it that is no parenthesis, or holds it. -/
theorem Expr.span_ofTree_clear (content : List Char) : ∀ (depth : Nat) {t b : Tree}, t.WellFormed → b ∈ t.preorder →
    b.kind ≠ .parens → (Expr.ofTree content depth t).span.Clear b.span
  | 0, t, b, hw, hb, _ => Or.inr (Or.inr (hw.span_of_mem hb))
  | depth + 1, t, b, hw, hb, hk => by
      by_cases ht : t.kind = .parens
      · rw [ofTree_of_parens content depth ht]
        cases hf : t.firstNamed? with
        | none => exact Or.inr (Or.inr (hw.span_of_mem hb))
        | some inner =>
          have hinner := mem_children_of_firstNamed? hf
          rcases mem_preorder.mp hb with rfl | ⟨c, hc, hbc⟩
          · exact absurd ht hk
          · rcases hw.nested.eq_or_apart hc hinner with rfl | hapart
            · exact span_ofTree_clear content depth (hw.child hc) hbc hk
            · -- the node stands in the parentheses beside the expression
              have hin := (hw.child hc).span_of_mem hbc
              obtain ⟨hlow, hordered, hhigh⟩ := holds_ofTree content depth (hw.child hinner)
              simp only [Option.map_some, Option.getD_some, Span.Clear]
              omega
      · rw [span_ofTree_of_ne_parens content (depth + 1) ht]
        exact Or.inr (Or.inr (hw.span_of_mem hb))

namespace CallNode

variable {content : List Char} {t callee args : Tree} {call : Call}

/-- The arguments of a call lie strictly within its bytes. -/
theorem argument_strict (h : CallNode content t callee args call) (hw : t.WellFormed) (hbr : args.Bracketed content)
    {e : Expr} (he : e ∈ call.arguments) :
    t.span.start < e.span.start ∧ e.span.start ≤ e.span.stop ∧ e.span.stop < t.span.stop := by
  obtain ⟨a, ha, hnamed, rfl⟩ := h.exists_argument he
  have hargs := hw.child h.args_mem
  have hin := hw.nested.inside args h.args_mem
  have hbetween := hbr.between hargs ha (mem_preorder_self a) hnamed
  obtain ⟨hlow, hordered, hhigh⟩ := Expr.holds_ofTree content Lower.maxDepth (hargs.child ha)
  omega

/-- An argument of a call misses each call below that call, or holds it. -/
theorem argument_clear (h : CallNode content t callee args call) (hw : t.WellFormed) {e : Expr}
    (he : e ∈ call.arguments) {c b : Tree} (hc : c ∈ t.children) (hb : b ∈ c.preorder) (hk : b.kind = .call) :
    e.span.Clear b.span := by
  have hin := (hw.child hc).span_of_mem hb
  rcases hw.nested.eq_or_apart hc h.args_mem with rfl | hapart
  · obtain ⟨a, ha, -, rfl⟩ := h.exists_argument he
    rcases mem_preorder.mp hb with rfl | ⟨x, hx, hbx⟩
    · rw [h.kind_args] at hk
      cases hk
    · have hlist := hw.child hc
      rcases hlist.nested.eq_or_apart hx ha with rfl | hapart
      · exact Expr.span_ofTree_clear content Lower.maxDepth (hlist.child hx) hbx (by rw [hk]; decide)
      · -- the call stands in another argument
        have hin := (hlist.child hx).span_of_mem hbx
        obtain ⟨hlow, hordered, hhigh⟩ := Expr.holds_ofTree content Lower.maxDepth (hlist.child ha)
        simp only [Span.Clear]
        omega
  · -- the call stands outside the argument list
    have hwithin := h.argument_within hw he
    simp only [Span.Clear]
    omega

/-- A call below another one does not have all of its bytes. -/
theorem span_ne_of_below (h : CallNode content t callee args call) (hw : t.WellFormed) (hbr : args.Bracketed content)
    {c b : Tree} (hc : c ∈ t.children) (hb : b ∈ c.preorder) (hk : b.kind = .call) : t.span ≠ b.span := by
  have hlist := hw.child h.args_mem
  have hin := hw.nested.inside args h.args_mem
  intro heq
  rcases hw.nested.eq_or_apart hc h.args_mem with rfl | hapart
  · rcases mem_preorder.mp hb with rfl | ⟨x, hx, hbx⟩
    · rw [h.kind_args] at hk
      cases hk
    · have hbetween := hbr.between hlist hx hbx (by rw [hk]; rfl)
      rw [heq] at hin
      omega
  · have hlt := hbr.start_lt_stop hlist
    have hbin := (hw.child hc).span_of_mem hb
    rw [heq] at hin
    omega

/-- Of two calls of a tree, neither the bytes of the calls nor those of any of their arguments are the same. -/
theorem spans_ne {b callee' args' : Tree} {call' : Call} (h : CallNode content t callee args call)
    (h' : CallNode content b callee' args' call') (hw : t.WellFormed) (hw' : b.WellFormed)
    (hbr : args.Bracketed content) (hbr' : args'.Bracketed content)
    (hlater : (∃ c ∈ t.children, b ∈ c.preorder) ∨ t.span.stop ≤ b.span.start) :
    call.span ≠ call'.span ∧ ∀ e ∈ call.arguments, ∀ e' ∈ call'.arguments, e.span ≠ e'.span := by
  rw [h.span_eq, h'.span_eq]
  refine ⟨?_, fun e he e' he' heq => ?_⟩
  · rcases hlater with ⟨c, hc, hb⟩ | hlater
    · exact h.span_ne_of_below hw hbr hc hb h'.kind
    · have hlt := hbr.start_lt_stop (hw.child h.args_mem)
      have hin := hw.nested.inside args h.args_mem
      intro heq
      rw [← heq] at hlater
      omega
  · have hstrict := h'.argument_strict hw' hbr' he'
    have hwithin := h.argument_within hw he
    have hclear : e.span.Clear b.span := by
      rcases hlater with ⟨c, hc, hb⟩ | hlater
      · exact h.argument_clear hw he hc hb h'.kind
      · exact Or.inr (Or.inl (by omega))
    rw [Span.Clear, heq] at hclear
    rw [heq] at hwithin
    omega

end CallNode

/-! ### The reports of a file -/

namespace Finding

/-- The two rules report a call once each. -/
theorem ofCall_pairwise (objects : List String) (view : SourceView) (call : Call) :
    (ofCall objects view call).Pairwise fun f g => (f.rule.id, f.span) ≠ (g.rule.id, g.span) := by
  rw [ofCall, List.pairwise_append]
  refine ⟨?_, ?_, ?_⟩
  · cases noUndefinedValues? objects view call <;> simp
  · cases setRequireMerge? view call <;> simp
  · intro f hf g hg heq
    have hfrule := (noUndefinedValues?_place (Option.mem_toList.mp hf)).1
    have hgrule := (setRequireMerge?_place (Option.mem_toList.mp hg)).1
    rw [hfrule, hgrule] at heq
    exact absurd (Prod.mk.inj heq).1 (by decide)

/-- Calls that share neither their bytes nor those of an argument are never reported in the same place by one rule. -/
theorem ofCall_ne {objects : List String} {view : SourceView} {call call' : Call} {f g : Finding}
    (hspan : call.span ≠ call'.span) (hargs : ∀ e ∈ call.arguments, ∀ e' ∈ call'.arguments, e.span ≠ e'.span)
    (hf : f ∈ ofCall objects view call) (hg : g ∈ ofCall objects view call') :
    (f.rule.id, f.span) ≠ (g.rule.id, g.span) := by
  intro heq
  obtain ⟨hid, hplace⟩ := Prod.mk.inj heq
  rw [ofCall, List.mem_append, Option.mem_toList, Option.mem_toList] at hf hg
  rcases hf with hf | hf <;> rcases hg with hg | hg
  · obtain ⟨-, e, he, hfspan⟩ := noUndefinedValues?_place hf
    obtain ⟨-, e', he', hgspan⟩ := noUndefinedValues?_place hg
    exact hargs e he e' he' (hfspan.symm.trans (hplace.trans hgspan))
  · rw [(noUndefinedValues?_place hf).1, (setRequireMerge?_place hg).1] at hid
    exact absurd hid (by decide)
  · rw [(setRequireMerge?_place hf).1, (noUndefinedValues?_place hg).1] at hid
    exact absurd hid (by decide)
  · have hfspan := (setRequireMerge?_place hf).2
    have hgspan := (setRequireMerge?_place hg).2
    exact hspan (hfspan.symm.trans (hplace.trans hgspan))

/-- No two findings of a file have the same rule and the same bytes. -/
theorem ofFile_pairwise (objects : List String) {file : SourceFile} (hw : file.tree.WellFormed)
    (hargs : ∀ t ∈ file.tree.preorder, t.kind = .arguments → t.Bracketed file.content) :
    (ofFile objects file).Pairwise fun f g => (f.rule.id, f.span) ≠ (g.rule.id, g.span) := by
  rw [ofFile, ofCalls, List.pairwise_flatMap]
  refine ⟨fun call _ => ofCall_pairwise objects file.view call, ?_⟩
  -- the calls come in the order of their nodes, so a later one stands below or behind an earlier one
  rw [SourceFile.calls_eq, List.pairwise_filterMap]
  refine hw.preorder_pairwise.imp_of_mem ?_
  intro a b ha hb hlater call hcall call' hcall' f hf g hg
  obtain ⟨callee, args, hnode⟩ := Call.ofTree?_cases hcall
  obtain ⟨callee', args', hnode'⟩ := Call.ofTree?_cases hcall'
  have hbr := hargs args (mem_preorder_of_child hnode.args_mem ha) hnode.kind_args
  have hbr' := hargs args' (mem_preorder_of_child hnode'.args_mem hb) hnode'.kind_args
  obtain ⟨hspan, harguments⟩ := hnode.spans_ne hnode' (hw.of_mem ha) (hw.of_mem hb) hbr hbr' hlater
  exact ofCall_ne hspan harguments hf hg

end Finding

/-- In a well-formed tree whose argument lists stand in brackets, no two reports of a run have the same rule and the
same bytes. -/
theorem Diagnostic.ofFile_nodup (objects : List String) (file : SourceFile) (hw : file.tree.WellFormed)
    (hargs : ∀ t ∈ file.tree.preorder, t.kind = .arguments → t.Bracketed file.content) :
    ((Diagnostic.ofFile objects file).map fun d => (d.ruleId, d.span)).Nodup := by
  have hreports : ((Diagnostic.ofFile objects file).map fun d => (d.ruleId, d.span)).Sublist
      ((Finding.ofFile objects file).map fun f => (f.rule.id, f.span)) := by
    have hsub : (Diagnostic.ofFile objects file).Sublist
        ((Finding.ofFile objects file).map (Diagnostic.ofFinding file.content)) := List.filter_sublist
    have hmapped := hsub.map fun d => (d.ruleId, d.span)
    rw [List.map_map] at hmapped
    exact hmapped
  refine hreports.nodup ?_
  rw [List.Nodup, List.pairwise_map]
  exact Finding.ofFile_pairwise objects hw hargs

/-- Both rules report both sets of the nested program, each in a place of its own. -/
theorem Diagnostic.ofFile_nodup_nestedSets :
    ((Diagnostic.ofFile [] nestedSets).map fun d => (d.ruleId, d.span)).Nodup ∧
      (Diagnostic.ofFile [] nestedSets).map Diagnostic.span = [⟨11, 57⟩, ⟨0, 59⟩, ⟨44, 53⟩, ⟨30, 55⟩] := by
  have hargs : ∀ t ∈ nestedSets.tree.preorder, t.kind = .arguments → t.Bracketed nestedSets.content := by
    rw [nestedSets_eq]
    decide +kernel
  refine ⟨Diagnostic.ofFile_nodup [] nestedSets wellFormed_nestedSets hargs, ?_⟩
  rw [nestedSets_eq]
  decide +kernel

end WriteGuard
