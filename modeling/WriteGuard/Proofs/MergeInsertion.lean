import WriteGuard.Proofs.TokenRanges
import WriteGuard.Write.Suggestion

/-!
Where the merge option goes. The tokens behind the last argument of a call are the brackets that close this argument,
a comma if one is written there, and the bracket that closes the call; the option goes in front of the last of them and
brings a comma of its own unless there is one.
-/

namespace WriteGuard

open Source

namespace Source.Tree

/-! ### Calls as they are written -/

section Written

variable (content : List Char)

/-- An expression in any number of parentheses, with comments around it at every level. -/
inductive Wrapped : Tree → Prop
  | bare {t : Tree} (hk : t.kind ≠ .parens) : Wrapped t
  | parens {t opening inner closing : Tree} {before after : List Tree} (hk : t.kind = .parens)
      (hparts : t.children = opening :: before ++ inner :: after ++ [closing])
      (ho : IsMark content "(" opening) (hc : IsMark content ")" closing) (hb : ∀ c ∈ before, c.isComment = true)
      (hn : (inner.kind.isNamed && !inner.isComment) = true) (h : Wrapped inner) : Wrapped t

/-- An argument of a call. -/
structure IsArgument (t : Tree) : Prop where
  named : t.kind.isNamed = true
  wrapped : Wrapped content t

/-- Arguments with a comma between each two of them, and the arguments alone. -/
inductive Divided : List Tree → List Tree → Prop
  | one {e : Tree} (he : IsArgument content e) : Divided [e] [e]
  | more {e comma : Tree} {ts es : List Tree} (he : IsArgument content e) (hc : IsMark content "," comma)
      (h : Divided ts es) : Divided (e :: comma :: ts) (e :: es)

/-- The arguments of a call in their brackets, without the comments. Between the last argument and the closing bracket
stands a comma or nothing. -/
structure ArgumentList (t : Tree) (es trailing : List Tree) (closing : Tree) : Prop where
  kind : t.kind = .arguments
  parts : ∃ opening items, (t.children.filter fun c => !c.isComment) = opening :: items ++ trailing ++ [closing] ∧
    IsMark content "(" opening ∧ Divided content items es
  trailing : trailing = [] ∨ ∃ comma, trailing = [comma] ∧ IsMark content "," comma
  closing : IsMark content ")" closing

/-- A call with one or more arguments that ends with the bracket that closes them. -/
structure CallWith (t : Tree) (es trailing : List Tree) (closing : Tree) : Prop where
  kind : t.kind = .call
  callee : ∃ f, t.child? .callee = some f
  arguments : ∃ args, t.child? .arguments = some args ∧ ArgumentList content args es trailing closing
  ends : closing.span.stop = t.span.stop

end Written

variable {content : List Char}

theorem IsMark.isNamed {mark : String} {t : Tree} (h : IsMark content mark t) : t.kind.isNamed = false := by
  rw [h.kind]
  rfl

namespace Divided

theorem filter_isNamed {items es : List Tree} (h : Divided content items es) :
    (items.filter fun c => c.kind.isNamed) = es := by
  induction h with
  | one he => simp [he.named]
  | more he hc _ ih => simp [he.named, hc.isNamed, ih]

theorem exists_last {items es : List Tree} (h : Divided content items es) :
    ∃ front last, items = front ++ [last] ∧ es.getLast? = some last ∧ IsArgument content last := by
  induction h with
  | @one e he => exact ⟨[], e, rfl, rfl, he⟩
  | @more e comma _ _ _ _ _ ih =>
    obtain ⟨front, last, rfl, hlast, harg⟩ := ih
    exact ⟨e :: comma :: front, last, rfl, by rw [List.getLast?_cons, hlast]; rfl, harg⟩

end Divided

namespace ArgumentList

variable {args closing : Tree} {es trailing : List Tree}

/-- The parts between the brackets that are neither comments nor commas are the arguments. -/
theorem namedChildren (h : ArgumentList content args es trailing closing) : args.namedChildren = es := by
  obtain ⟨opening, items, hparts, ho, hd⟩ := h.parts
  have htrailing : (trailing.filter fun c => c.kind.isNamed) = [] := by
    rcases h.trailing with rfl | ⟨comma, rfl, hcomma⟩
    · rfl
    · rw [List.filter_cons_of_neg (by rw [hcomma.isNamed]; decide), List.filter_nil]
  rw [Tree.namedChildren, ← List.filter_filter, hparts, List.filter_append, List.filter_append, htrailing,
    List.filter_cons_of_neg (by rw [ho.isNamed]; decide), hd.filter_isNamed,
    List.filter_cons_of_neg (by rw [h.closing.isNamed]; decide), List.filter_nil, List.append_nil, List.append_nil]

theorem last_mem {last : Tree} (h : ArgumentList content args es trailing closing) (hlast : es.getLast? = some last) :
    last ∈ args.children := by
  have hmem : last ∈ args.namedChildren := h.namedChildren ▸ List.mem_of_getLast? hlast
  exact (List.mem_filter.mp hmem).1

/-- A call reads off its callee and its arguments. -/
theorem call_ofTree? {t callee : Tree} (h : ArgumentList content args es trailing closing) (hk : t.kind = .call)
    (hf : t.child? .callee = some callee) (ha : t.child? .arguments = some args) :
    Call.ofTree? content t = some ⟨Expr.ofTree content Lower.maxDepth callee,
      es.map (Expr.ofTree content Lower.maxDepth), t.span⟩ := by
  rw [Call.ofTree?, if_pos hk, Lower.call?, hf, ha]
  simp only [h.kind, if_true, h.namedChildren]

end ArgumentList

end Source.Tree

/-! ### The bytes of an expression -/

namespace Expr

open Source.Tree

/-- Only parentheses are left out of the bytes of an expression. -/
theorem span_ofTree_of_ne_parens (content : List Char) (depth : Nat) {t : Tree} (hk : t.kind ≠ .parens) :
    (Expr.ofTree content depth t).span = t.span := by
  cases depth with
  | zero => rfl
  | succ depth =>
    rw [Expr.ofTree, Lower.node]
    split
    · exact absurd ‹_› hk
    all_goals try rfl
    · cases hc : Lower.call? (Expr.ofTree content depth) t with
      | none => rfl
      | some call =>
        rw [Lower.call?] at hc
        split at hc
        · split at hc
          · rw [← Option.some.inj hc]
            rfl
          · cases hc
        · cases hc
    all_goals
      rw [Lower.member]
      split <;> rfl

theorem mem_children_of_firstNamed? {t inner : Tree} (h : t.firstNamed? = some inner) : inner ∈ t.children :=
  (List.mem_filter.mp (List.mem_of_mem_head? h)).1

theorem ofTree_of_parens (content : List Char) (depth : Nat) {t : Tree} (hk : t.kind = .parens) :
    Expr.ofTree content (depth + 1) t = (t.firstNamed?.map (Expr.ofTree content depth)).getD (.other t.span) := by
  rw [Expr.ofTree, Lower.node, hk]

/-- An expression lies within the bytes of its node. -/
theorem holds_ofTree (content : List Char) : ∀ (depth : Nat) {t : Tree}, t.WellFormed →
    t.span.Holds (Expr.ofTree content depth t).span
  | 0, _, hw => hw.holds_self
  | depth + 1, t, hw => by
      by_cases hk : t.kind = .parens
      · rw [ofTree_of_parens content depth hk]
        cases hf : t.firstNamed? with
        | none => exact hw.holds_self
        | some inner =>
          have hmem := mem_children_of_firstNamed? hf
          exact (hw.holds_of_mem (mem_preorder_of_mem_children hmem)).trans (holds_ofTree content depth (hw.child hmem))
      · rw [span_ofTree_of_ne_parens content (depth + 1) hk]
        exact hw.holds_self

end Expr

/-! ### The tokens behind the last argument -/

namespace Source.Tree

variable {content : List Char} {r : Span}

/-- What the parentheses around an expression hold first, apart from comments, is the expression. -/
theorem firstNamed?_of_parens {t opening inner : Tree} {before after : List Tree}
    (hparts : t.children = opening :: before ++ inner :: after) (ho : IsMark content "(" opening)
    (hb : ∀ c ∈ before, c.isComment = true) (hn : (inner.kind.isNamed && !inner.isComment) = true) :
    t.firstNamed? = some inner := by
  have hnone : before.find? (fun c => c.kind.isNamed && !c.isComment) = none :=
    List.find?_eq_none.mpr fun c hc => by simp [hb c hc]
  rw [firstNamed?, namedChildren, List.head?_filter, hparts, List.cons_append,
    List.find?_cons_of_neg (by simp [ho.isNamed]), List.find?_append, hnone, Option.none_or, List.find?_cons, hn]

/-- Behind an argument without its parentheses there is nothing of it, or at last the bracket that closes it. -/
theorem IsArgument.tokensIn_behind {t : Tree} (h : IsArgument content t) (hw : t.WellFormed) {depth : Nat}
    (hs : r.start = (Expr.ofTree content (depth + 1) t).span.stop) (he : t.span.stop ≤ r.stop) :
    tokensIn content r t = [] ∨ ∃ init s, tokensIn content r t = init ++ [⟨.punctuator, ")", s⟩] := by
  cases h.wrapped with
  | bare hk =>
    rw [Expr.span_ofTree_of_ne_parens content (depth + 1) hk] at hs
    exact Or.inl (tokensIn_of_stop_le (by omega))
  | @parens _ opening inner closing before after hk hparts ho hc hb hn _ =>
    have hinner : inner ∈ t.children := by simp [hparts]
    have hclosing : closing ∈ t.children := by simp [hparts]
    have hsplit : t.children = opening :: before ++ inner :: (after ++ [closing]) := by simp [hparts]
    have hfirst := firstNamed?_of_parens hsplit ho hb hn
    -- the range starts inside the parentheses, before the bracket that closes them
    rw [Expr.ofTree_of_parens content depth hk, hfirst, Option.map_some, Option.getD_some] at hs
    have hlow := (Expr.holds_ofTree content depth (hw.child hinner)).2.2
    have hapart := hw.nested.apart
    rw [hparts] at hapart
    have hbefore := (List.pairwise_append.mp hapart).2.2 inner (by simp) closing List.mem_cons_self
    have hinside := hw.nested.inside closing hclosing
    have hlt := hc.start_lt_stop (by decide)
    have hover : overlaps r t.span = true := overlaps_of_lt (by omega) (by omega)
    refine Or.inr ⟨(opening :: before ++ inner :: after).flatMap (tokensIn content r), closing.span, ?_⟩
    rw [tokensIn_of_parts hover (by rw [hk]; rfl) (List.ne_nil_of_mem hinner), hparts, List.flatMap_append,
      List.flatMap_singleton, hc.tokensIn (by decide) (by omega) (by omega)]
    rfl

namespace ArgumentList

variable {args closing : Tree} {es trailing : List Tree}

theorem closing_mem (h : ArgumentList content args es trailing closing) : closing ∈ args.children := by
  obtain ⟨opening, items, hparts, -, -⟩ := h.parts
  have hmem : closing ∈ args.children.filter fun c => !c.isComment := by simp [hparts]
  exact (List.mem_filter.mp hmem).1

/-- The tokens in the last part of an argument list are looked for in the closing bracket or in the whole list; both
hold the same. -/
theorem tokensOf_eq {root : Tree} (h : ArgumentList content args es trailing closing) (hw : root.WellFormed)
    (ha : args ∈ root.preorder) (hs : args.span.start ≤ r.start) (hr : r.start ≤ closing.span.start)
    (he : closing.span.stop = r.stop) (hend : args.span.stop = r.stop) :
    root.tokensOf content r = args.children.flatMap (tokensIn content r) := by
  have hlt := h.closing.start_lt_stop (by decide)
  obtain ⟨above, hdescend⟩ := descend_of_mem_preorder hw ha (by omega) hs (by omega) []
  obtain ⟨xs, ys, hsplit⟩ := List.append_of_mem h.closing_mem
  have hapart := (hw.of_mem ha).nested.apart
  rw [hsplit] at hapart
  have hbefore : ∀ x ∈ xs, x.span.stop ≤ closing.span.start := fun x hx =>
    (List.pairwise_append.mp hapart).2.2 x hx closing List.mem_cons_self
  have hafter : ∀ y ∈ ys, closing.span.stop ≤ y.span.start :=
    (List.pairwise_cons.mp (List.pairwise_append.mp hapart).2.1).1
  rw [tokensOf, covering, if_neg (by omega), hdescend, descend_eq, hsplit,
    descendInto_append _ fun x hx => by have := hbefore x hx; omega]
  by_cases hin : r.start < closing.span.start
  · have hreach : reaches r closing.span = true := reaches_of_le (by omega) hlt (by omega)
    have hover : overlaps r args.span = true := overlaps_of_lt (by omega) (by omega)
    rw [descendInto, if_pos hreach, if_pos hin, ← hsplit]
    exact tokensIn_of_parts hover (by rw [h.kind]; rfl) (List.ne_nil_of_mem h.closing_mem)
  · -- the range is the closing bracket
    have hxs : xs.flatMap (tokensIn content r) = [] :=
      flatMap_tokensIn_eq_nil fun x hx => by have := hbefore x hx; omega
    have hys : ys.flatMap (tokensIn content r) = [] :=
      List.flatMap_eq_nil_iff.mpr fun y hy => tokensIn_of_le_start (by have := hafter y hy; omega)
    rw [descendInto_cons _ (by omega) (by omega) (by omega), descend_eq, h.closing.leaf, descendInto,
      List.flatMap_append, hxs, List.flatMap_cons, hys, List.append_nil, List.nil_append]

/-- The tokens from the last argument, without its parentheses, to the end of the list. -/
theorem tokensOf_tail {root last : Tree} (h : ArgumentList content args es trailing closing) (hw : root.WellFormed)
    (ha : args ∈ root.preorder) (hlast : es.getLast? = some last) {depth : Nat}
    (hs : r.start = (Expr.ofTree content (depth + 1) last).span.stop) (he : closing.span.stop = r.stop)
    (hend : args.span.stop = r.stop) :
    root.tokensOf content r = tokensIn content r last
      ++ trailing.map (fun comma => ⟨.punctuator, ",", comma.span⟩) ++ [⟨.punctuator, ")", closing.span⟩] := by
  obtain ⟨opening, items, hparts, -, hdivided⟩ := h.parts
  obtain ⟨front, last', rfl, hlast', -⟩ := hdivided.exists_last
  obtain rfl : last' = last := Option.some.inj (hlast'.symm.trans hlast)
  have hargs := hw.of_mem ha
  have hmem := h.last_mem hlast
  -- the parts of the list stand one after the other
  have hapart := hargs.nested.apart.filter fun c => !c.isComment
  rw [← List.cons_append] at hparts
  rw [hparts] at hapart
  obtain ⟨hapart, -, hclosing⟩ := List.pairwise_append.mp hapart
  obtain ⟨hapart, -, htrailing⟩ := List.pairwise_append.mp hapart
  obtain ⟨-, -, hfront⟩ := List.pairwise_append.mp hapart
  obtain ⟨hlow, hordered, hhigh⟩ := Expr.holds_ofTree content (depth + 1) (hargs.child hmem)
  have hinside := hargs.nested.inside last' hmem
  have hbracket := hclosing last' (by simp) closing List.mem_cons_self
  have hlt := h.closing.start_lt_stop (by decide)
  have hbefore : (opening :: front).flatMap (tokensIn content r) = [] :=
    flatMap_tokensIn_eq_nil fun x hx => by
      have := hfront x hx last' List.mem_cons_self
      omega
  have hcommas : trailing.flatMap (tokensIn content r) = trailing.map fun comma => ⟨.punctuator, ",", comma.span⟩ := by
    rcases h.trailing with rfl | ⟨comma, rfl, hcomma⟩
    · rfl
    · have hstart := htrailing last' (by simp) comma List.mem_cons_self
      have hstop := hclosing comma (by simp) closing List.mem_cons_self
      rw [List.flatMap_singleton, hcomma.tokensIn (by decide) (by omega) (by omega)]
      rfl
  rw [h.tokensOf_eq hw ha (by omega) (by omega) he hend, ← flatMap_tokensIn_filter, hparts, List.flatMap_append,
    List.flatMap_append, List.flatMap_append, hbefore, hcommas, List.flatMap_singleton, List.flatMap_singleton,
    h.closing.tokensIn (by decide) (by omega) (by omega)]
  rfl

end ArgumentList

end Source.Tree

/-! ### The insertion -/

namespace Suggestion

open Source.Tree

/-- The option goes in front of the last token, with a comma unless there is one before that token. -/
theorem insertMergeOption?_eq (view : SourceView) {call : Call} {before : List Token} {closing : Token}
    (h : view.tokens (tail call) = before ++ [closing]) (hc : closing.isPunctuator ")" = true) :
    insertMergeOption? view call = some (.insertBefore closing
      ((if before.getLast?.any (·.isPunctuator ",") then " " else ", ") ++ mergeOption)) := by
  rw [insertMergeOption?, h, List.reverse_append, List.reverse_singleton, List.singleton_append, ← List.head?_reverse]
  simp only [hc, if_true]
  cases before.reverse <;> rfl

/-- What is put between the last argument and the option makes one comma together with what is written there. -/
theorem one_comma {content : List Char} {trailing : List Tree} {tokens : List Token}
    (h : trailing = [] ∨ ∃ comma, trailing = [comma] ∧ IsMark content "," comma)
    (ht : tokens = [] ∨ ∃ init s, tokens = init ++ [⟨.punctuator, ")", s⟩]) :
    ∃ inserted : List String,
      (if (tokens ++ trailing.map fun comma => (⟨.punctuator, ",", comma.span⟩ : Token)).getLast?.any
        (·.isPunctuator ",") then " " else ", ") = String.join inserted ++ " " ∧
      trailing.map (Tree.text content) ++ inserted = [","] := by
  rcases h with rfl | ⟨comma, rfl, hcomma⟩
  · refine ⟨[","], ?_, rfl⟩
    rcases ht with rfl | ⟨init, s, rfl⟩
    · rfl
    · simp only [List.map_nil, List.append_nil, List.getLast?_append, List.getLast?_singleton, Option.some_or,
        Option.any_some]
      rfl
  · refine ⟨[], ?_, by rw [List.map_singleton, hcomma.written]; rfl⟩
    simp only [List.map_singleton, List.getLast?_append, List.getLast?_singleton, Option.some_or, Option.any_some]
    rfl

/-- For every call that is written with one or more arguments, the option can be inserted. The new text is the old one
up to the bracket that closes the call, then the insertion, then the rest; and the commas behind the last argument,
together with those that are inserted before the option, are exactly one. -/
theorem insertMergeOption?_apply {file : SourceFile} {t closing : Tree} {es trailing : List Tree}
    (hw : file.tree.WellFormed) (ht : t ∈ file.tree.preorder) (hc : CallWith file.content t es trailing closing) :
    ∃ call edit before after inserted,
      Call.ofTree? file.content t = some call ∧ insertMergeOption? file.view call = some edit ∧
      file.content = before ++ ')' :: after ∧ Text.byteLength before + 1 = t.span.stop ∧
      edit.apply file.content = before ++ edit.newText.toList ++ ')' :: after ∧
      edit.newText = String.join inserted ++ " " ++ mergeOption ∧
      trailing.map (Tree.text file.content) ++ inserted = [","] := by
  obtain ⟨callee, hcallee⟩ := hc.callee
  obtain ⟨args, hchild, hlist⟩ := hc.arguments
  have hmem : args ∈ t.children := List.mem_of_find?_eq_some hchild
  have hargs : args ∈ file.tree.preorder :=
    mem_preorder_trans (mem_preorder_of_mem_children hmem) ht
  obtain ⟨_, _, -, -, hdivided⟩ := hlist.parts
  obtain ⟨_, last, -, hlast, harg⟩ := hdivided.exists_last
  have hlastmem := hlist.last_mem hlast
  have hends := hc.ends
  have hstop : args.span.stop = t.span.stop := by
    have := ((hw.of_mem hargs).nested.inside closing hlist.closing_mem).2
    have := ((hw.of_mem ht).nested.inside args hmem).2
    omega
  have hcall := hlist.call_ofTree? hc.kind hcallee hchild
  generalize hr : (⟨(Expr.ofTree file.content Lower.maxDepth last).span.stop, t.span.stop⟩ : Span) = r
  have htail : tail ⟨Expr.ofTree file.content Lower.maxDepth callee,
      es.map (Expr.ofTree file.content Lower.maxDepth), t.span⟩ = r := by
    rw [tail, List.getLast?_map, hlast, ← hr]
    rfl
  have hstart : r.start = (Expr.ofTree file.content (255 + 1) last).span.stop := by rw [← hr]; rfl
  have hend : t.span.stop = r.stop := by rw [← hr]
  have htokens := hlist.tokensOf_tail hw hargs hlast hstart (hends.trans hend) (hstop.trans hend)
  have hinsert := insertMergeOption?_eq file.view (by rw [htail]; exact htokens) (by simp [Token.isPunctuator])
  obtain ⟨inserted, htext, hone⟩ := one_comma hlist.trailing
    (harg.tokensIn_behind ((hw.of_mem hargs).child hlastmem) hstart
      (by have := ((hw.of_mem hargs).nested.inside last hlastmem).2; omega))
  obtain ⟨before, after, hcontent, hbefore, hupto⟩ := hlist.closing.split (by decide)
  have hsplit : file.content = before ++ ')' :: after := by rw [hcontent, List.append_assoc]; rfl
  refine ⟨_, _, before, after, inserted, hcall, hinsert, hsplit, ?_, ?_, by rw [TextEdit.newText, htext], hone⟩
  · rw [← hends, ← hupto, Text.byteLength_append]
    rfl
  · rw [hsplit]
    exact TextEdit.apply_insertBefore _ hbefore

/-- A call with type arguments whose last argument stands in two pairs of parentheses, with comments inside and behind
them and a comma at the end. -/
def wrappedText : List Char := "f<T>(a, ((b /*x*/)) /*y*/ , );".toList

/-- The last argument in the inner parentheses. -/
def innerArgument : Tree :=
  .node .parens none ⟨9, 18⟩ [
    mark "(" 9 10, .node .identifier none ⟨10, 11⟩ [], .node .comment none ⟨12, 17⟩ [], mark ")" 17 18]

/-- The last argument. -/
def lastArgument : Tree := .node .parens none ⟨8, 19⟩ [mark "(" 8 9, innerArgument, mark ")" 18 19]

/-- The call. -/
def wrappedCall : Tree :=
  .node .call none ⟨0, 29⟩ [
    .node .identifier (some .callee) ⟨0, 1⟩ [],
    .node (.other "type arguments") none ⟨1, 4⟩ [mark "<" 1 2, .node .typeName none ⟨2, 3⟩ [], mark ">" 3 4],
    .node .arguments (some .arguments) ⟨4, 29⟩ [
      mark "(" 4 5, .node .identifier none ⟨5, 6⟩ [], mark "," 6 7, lastArgument, .node .comment none ⟨20, 25⟩ [],
      mark "," 26 27, mark ")" 28 29]]

/-- The program. -/
def wrappedProgram : Tree :=
  .node .program none ⟨0, 30⟩ [.node (.other "expression") none ⟨0, 30⟩ [wrappedCall, mark ";" 29 30]]

set_option maxRecDepth 100000 in
theorem tree_wrappedText : (SourceFile.ofText .typeScript wrappedText).tree = wrappedProgram := by decide +kernel

theorem isArgument_lastArgument : IsArgument wrappedText lastArgument := by
  have hinner : Wrapped wrappedText innerArgument :=
    @Wrapped.parens _ _ _ (.node .identifier none ⟨10, 11⟩ []) _ [] [.node .comment none ⟨12, 17⟩ []] rfl rfl
      ⟨rfl, rfl, rfl⟩ ⟨rfl, rfl, rfl⟩ (fun c hc => absurd hc List.not_mem_nil) rfl (.bare (by decide))
  exact ⟨rfl, @Wrapped.parens _ _ _ innerArgument _ [] [] rfl rfl ⟨rfl, rfl, rfl⟩ ⟨rfl, rfl, rfl⟩
    (fun c hc => absurd hc List.not_mem_nil) rfl hinner⟩

theorem callWith_wrappedCall : CallWith wrappedText wrappedCall
    [.node .identifier none ⟨5, 6⟩ [], lastArgument] [mark "," 26 27] (mark ")" 28 29) where
  kind := rfl
  callee := ⟨_, rfl⟩
  arguments := ⟨_, rfl, {
    kind := rfl
    parts := ⟨mark "(" 4 5, [.node .identifier none ⟨5, 6⟩ [], mark "," 6 7, lastArgument], by decide, ⟨rfl, rfl, rfl⟩,
      .more ⟨rfl, .bare (by decide)⟩ ⟨rfl, rfl, rfl⟩ (.one isArgument_lastArgument)⟩
    trailing := Or.inr ⟨_, rfl, ⟨rfl, rfl, rfl⟩⟩
    closing := ⟨rfl, rfl, rfl⟩ }⟩
  ends := rfl

/-- The option can be inserted in the call of the program and brings no comma. -/
theorem insertMergeOption?_apply_wrappedCall :
    ∃ call edit before after inserted,
      Call.ofTree? wrappedText wrappedCall = some call ∧
      insertMergeOption? (SourceFile.ofText .typeScript wrappedText).view call = some edit ∧
      wrappedText = before ++ ')' :: after ∧ Text.byteLength before + 1 = wrappedCall.span.stop ∧
      edit.apply wrappedText = before ++ edit.newText.toList ++ ')' :: after ∧
      edit.newText = String.join inserted ++ " " ++ mergeOption ∧
      [mark "," 26 27].map (Tree.text wrappedText) ++ inserted = [","] := by
  have hw : (SourceFile.ofText .typeScript wrappedText).tree.WellFormed := by
    rw [tree_wrappedText]
    decide
  have ht : wrappedCall ∈ (SourceFile.ofText .typeScript wrappedText).tree.preorder := by
    rw [tree_wrappedText]
    decide
  have hcontent : (SourceFile.ofText .typeScript wrappedText).content = wrappedText := rfl
  have h := insertMergeOption?_apply hw ht (hcontent ▸ callWith_wrappedCall)
  rwa [hcontent] at h

end Suggestion

end WriteGuard
