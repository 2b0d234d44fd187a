import WriteGuard.Proofs.MergeInsertion

/-!
Calls and the nodes they are read from. The callee and the argument list of a call are parts of its node, and each
argument is read from a part of the list, so that all of them lie within the bytes of the call.
-/

namespace WriteGuard

open Source Source.Tree

/-- A call as it is read from a node with a callee and an argument list. -/
structure CallNode (content : List Char) (t callee args : Tree) (call : Call) : Prop where
  kind : t.kind = .call
  child_callee : t.child? .callee = some callee
  child_arguments : t.child? .arguments = some args
  kind_args : args.kind = .arguments
  read : call = ⟨Expr.ofTree content Lower.maxDepth callee,
    args.namedChildren.map (Expr.ofTree content Lower.maxDepth), t.span⟩

theorem Call.ofTree?_cases {content : List Char} {t : Tree} {call : Call} (h : Call.ofTree? content t = some call) :
    ∃ callee args, CallNode content t callee args call := by
  unfold Call.ofTree? at h
  split at h
  · next hk =>
    unfold Lower.call? at h
    split at h
    · next callee args hc ha =>
      split at h
      · next hl => exact ⟨callee, args, hk, hc, ha, hl, (Option.some.inj h).symm⟩
      · cases h
    · cases h
  · cases h

/-- The search for calls enters every node, and so reads the calls in the order of the nodes. -/
theorem SourceFile.calls_eq (file : SourceFile) :
    file.calls = file.tree.preorder.filterMap (Call.ofTree? file.content) := by
  rw [SourceFile.calls, TreeCursor.gather_eq, visited_true]

/-- Every call of a file is read from a node of its tree. -/
theorem SourceFile.mem_calls {file : SourceFile} {call : Call} (h : call ∈ file.calls) :
    ∃ t ∈ file.tree.preorder, ∃ callee args, CallNode file.content t callee args call := by
  rw [SourceFile.calls_eq] at h
  obtain ⟨t, ht, hcall⟩ := List.mem_filterMap.mp h
  exact ⟨t, ht, Call.ofTree?_cases hcall⟩

namespace CallNode

variable {content : List Char} {t callee args : Tree} {call : Call}

theorem callee_mem (h : CallNode content t callee args call) : callee ∈ t.children :=
  List.mem_of_find?_eq_some h.child_callee

theorem args_mem (h : CallNode content t callee args call) : args ∈ t.children :=
  List.mem_of_find?_eq_some h.child_arguments

theorem span_eq (h : CallNode content t callee args call) : call.span = t.span := by
  rw [h.read]

theorem callee_eq (h : CallNode content t callee args call) :
    call.callee = Expr.ofTree content Lower.maxDepth callee := by
  rw [h.read]

/-- An argument is read from a part of the argument list that is more than a mark. -/
theorem exists_argument (h : CallNode content t callee args call) {e : Expr} (he : e ∈ call.arguments) :
    ∃ a ∈ args.children, a.kind.isNamed = true ∧ e = Expr.ofTree content Lower.maxDepth a := by
  rw [h.read] at he
  obtain ⟨a, ha, rfl⟩ := List.mem_map.mp he
  obtain ⟨hmem, hnamed⟩ := List.mem_filter.mp ha
  exact ⟨a, hmem, (Bool.and_eq_true_iff.mp hnamed).1, rfl⟩

/-- The argument list and the arguments lie within the bytes of the call. -/
theorem argument_within (h : CallNode content t callee args call) (hw : t.WellFormed) {e : Expr}
    (he : e ∈ call.arguments) : t.span.start ≤ args.span.start ∧ args.span.start ≤ e.span.start ∧
      e.span.start ≤ e.span.stop ∧ e.span.stop ≤ args.span.stop ∧ args.span.stop ≤ t.span.stop := by
  obtain ⟨a, ha, -, rfl⟩ := h.exists_argument he
  have hargs := hw.child h.args_mem
  obtain ⟨hstart, hordered, hstop⟩ := Expr.holds_ofTree content Lower.maxDepth (hargs.child ha)
  obtain ⟨hfirst, hlast⟩ := hargs.nested.inside a ha
  obtain ⟨hopen, hclose⟩ := hw.nested.inside args h.args_mem
  exact ⟨hopen, Nat.le_trans hfirst hstart, hordered, Nat.le_trans hstop hlast, hclose⟩

end CallNode

/-! ### A set in the payload of another one -/

/-- The text of the program. Both payloads stand in parentheses, and the inner set is named between backticks. -/
def nestedText : List Char := "setDoc(r, (\x7b a: undefined, b: doc()[`set`]((undefined)) \x7d));".toList

/-- The inner set. -/
def innerSet : Tree :=
  .node .call (some .value) ⟨30, 55⟩ [
    .node .subscript (some .callee) ⟨30, 42⟩ [
      .node .call (some .object) ⟨30, 35⟩ [
        .node .identifier (some .callee) ⟨30, 33⟩ [],
        .node .arguments (some .arguments) ⟨33, 35⟩ [mark "(" 33 34, mark ")" 34 35]],
      mark "[" 35 36,
      .node .template (some .index) ⟨36, 41⟩ [mark "`" 36 37, .node .fragment none ⟨37, 40⟩ [], mark "`" 40 41],
      mark "]" 41 42],
    .node .arguments (some .arguments) ⟨42, 55⟩ [
      mark "(" 42 43,
      .node .parens none ⟨43, 54⟩ [mark "(" 43 44, .node .undefinedName none ⟨44, 53⟩ [], mark ")" 53 54],
      mark ")" 54 55]]

/-- The payload of the outer set. -/
def outerPayload : Tree :=
  .node .object none ⟨11, 57⟩ [
    mark "\x7b" 11 12,
    .node .pair none ⟨13, 25⟩ [
      .node .propertyName (some .key) ⟨13, 14⟩ [], mark ":" 14 15, .node .undefinedName (some .value) ⟨16, 25⟩ []],
    mark "," 25 26,
    .node .pair none ⟨27, 55⟩ [.node .propertyName (some .key) ⟨27, 28⟩ [], mark ":" 28 29, innerSet],
    mark "\x7d" 56 57]

/-- The program. -/
def nestedProgram : Tree :=
  .node .program none ⟨0, 60⟩ [
    .node (.other "expression") none ⟨0, 60⟩ [
      .node .call none ⟨0, 59⟩ [
        .node .identifier (some .callee) ⟨0, 6⟩ [],
        .node .arguments (some .arguments) ⟨6, 59⟩ [
          mark "(" 6 7, .node .identifier none ⟨7, 8⟩ [], mark "," 8 9,
          .node .parens none ⟨10, 58⟩ [mark "(" 10 11, outerPayload, mark ")" 57 58],
          mark ")" 58 59]],
      mark ";" 59 60]]

/-- The program as a file. -/
def nestedSets : SourceFile := SourceFile.ofText .javaScript nestedText

set_option maxRecDepth 100000 in
theorem parse_nestedText : (Source.parse .javaScript nestedText).root = nestedProgram ∧
    (Source.parse .javaScript nestedText).broken = false := by decide +kernel

theorem nestedSets_eq : nestedSets = ⟨nestedText, .javaScript, nestedProgram, false⟩ := by
  rw [nestedSets, SourceFile.ofText]
  simp only [parse_nestedText.1, parse_nestedText.2]

theorem wellFormed_nestedSets : nestedSets.tree.WellFormed := by
  rw [nestedSets_eq]
  decide +kernel

end WriteGuard
