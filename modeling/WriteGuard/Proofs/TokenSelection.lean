import Mathlib.Data.List.Basic
import WriteGuard.Proofs.SmallestNode
import WriteGuard.Proofs.TokenRanges
import WriteGuard.Source.File

/-!
The tokens within a range as a selection. All tokens of a tree are its leaves, with the nodes that are one token taken
whole and the comments left out. The search for the tokens within a range passes over the nodes that have no bytes in
common with it and starts at the smallest node that covers it; still it finds what is left of all tokens when the empty
ones and those that are not within the range are dropped.
-/

namespace WriteGuard

/-- A token has some bytes, and all of them lie within a range. -/
def Token.fits (r : Span) (token : Token) : Bool := !token.span.isEmpty && r.contains token.span

theorem Token.fits_iff {r : Span} {token : Token} : token.fits r = true ↔
    r.start ≤ token.span.start ∧ token.span.start < token.span.stop ∧ token.span.stop ≤ r.stop := by
  simp only [fits, Span.isEmpty, Span.length, Span.contains, Bool.and_eq_true, Bool.not_eq_true', decide_eq_true_eq,
    beq_eq_false_iff_ne]
  omega

namespace Source.Tree

mutual

/-- All tokens of a tree, in order. -/
def tokens (content : List Char) : Tree → List Token
  | .node k role s cs =>
    if k.isComment then []
    else if isToken (.node k role s cs) then [toToken content (.node k role s cs)]
    else tokensAll content cs

/-- All tokens of several trees, one tree after the other. -/
def tokensAll (content : List Char) : List Tree → List Token
  | [] => []
  | t :: ts => tokens content t ++ tokensAll content ts

end

variable {content : List Char} {r : Span} {t : Tree}

theorem tokensAll_eq_flatMap (content : List Char) : ∀ ts : List Tree,
    tokensAll content ts = ts.flatMap (tokens content)
  | [] => by rw [tokensAll, List.flatMap_nil]
  | t :: ts => by rw [tokensAll, tokensAll_eq_flatMap content ts, List.flatMap_cons]

theorem tokens_eq (content : List Char) (t : Tree) :
    tokens content t =
      if t.isComment then [] else if t.isToken then [t.toToken content] else t.children.flatMap (tokens content) := by
  cases t
  rw [tokens, tokensAll_eq_flatMap]
  rfl

/-- A token is made of a node of the tree. -/
theorem exists_node_of_mem_tokens {token : Token} (h : token ∈ tokens content t) :
    ∃ a ∈ t.preorder, token = a.toToken content := by
  induction t using byChildren with
  | step t ih =>
    rw [tokens_eq] at h
    split at h
    · cases h
    · split at h
      · exact ⟨t, mem_preorder_self t, List.mem_singleton.mp h⟩
      · obtain ⟨c, hc, htoken⟩ := List.mem_flatMap.mp h
        obtain ⟨a, ha, heq⟩ := ih c hc htoken
        exact ⟨a, mem_preorder.mpr (Or.inr ⟨c, hc, ha⟩), heq⟩

/-- The tokens of a tree lie within its bytes. -/
theorem WellFormed.span_of_mem_tokens (hw : t.WellFormed) {token : Token} (h : token ∈ tokens content t) :
    t.span.start ≤ token.span.start ∧ token.span.stop ≤ t.span.stop := by
  obtain ⟨a, ha, rfl⟩ := exists_node_of_mem_tokens h
  exact hw.span_of_mem ha

/-- The tokens of a tree come in order and do not overlap. -/
theorem WellFormed.tokens_pairwise (hw : t.WellFormed) :
    (tokens content t).Pairwise fun a b => a.span.stop ≤ b.span.start := by
  induction t using byChildren with
  | step t ih =>
    rw [tokens_eq]
    split
    · exact .nil
    · split
      · exact List.pairwise_singleton ..
      · refine List.pairwise_flatMap.mpr ⟨fun c hc => ih c hc (hw.child hc), ?_⟩
        refine hw.nested.apart.imp_of_mem ?_
        intro c d hc hd hcd a ha b hb
        have hastop := ((hw.child hc).span_of_mem_tokens ha).2
        have hbstart := ((hw.child hd).span_of_mem_tokens hb).1
        omega

/-! ### What the search passes over -/

/-- A tree that has no bytes in common with a range has no token that fits it. -/
theorem WellFormed.filter_fits_of_apart (hw : t.WellFormed) (h : t.span.stop ≤ r.start ∨ r.stop ≤ t.span.start) :
    (tokens content t).filter (Token.fits r) = [] := by
  refine List.filter_eq_nil_iff.mpr ?_
  intro token htoken hfits
  have hin := hw.span_of_mem_tokens htoken
  have hwithin := Token.fits_iff.mp hfits
  omega

/-- The search in a tree finds all of its tokens that fit the range. -/
theorem WellFormed.tokensIn_eq_filter (hw : t.WellFormed) :
    tokensIn content r t = (tokens content t).filter (Token.fits r) := by
  induction t using byChildren with
  | step t ih =>
    by_cases hover : overlaps r t.span = true
    · rw [tokensIn_eq, tokens_eq, hover]
      cases t.isComment with
      | true => rfl
      | false =>
        cases t.isToken with
        | true =>
          simp only [Bool.true_and, Bool.not_false, if_true, Bool.false_eq_true, if_false, List.filter_cons,
            List.filter_nil]
          rfl
        | false =>
          simp only [Bool.true_and, Bool.not_false, if_true, Bool.false_eq_true, if_false, List.filter_flatMap]
          exact List.flatMap_congr fun c hc => ih c hc (hw.child hc)
    · have hapart : t.span.stop ≤ r.start ∨ r.stop ≤ t.span.start := by
        simp only [overlaps, Bool.and_eq_true, decide_eq_true_eq] at hover
        omega
      rw [hw.filter_fits_of_apart hapart, tokensIn_eq, Bool.eq_false_iff.mpr hover]
      rfl

/-- The tokens of a node that fit a range are those of the part that covers the range. -/
theorem WellFormed.filter_fits_of_coveringPart (hw : t.WellFormed) (hatomic : t.kind.isAtomic = false)
    (hcomment : t.isComment = false) {c : Tree} (hc : t.coveringPart? r = some c) :
    (tokens content t).filter (Token.fits r) = (tokens content c).filter (Token.fits r) := by
  obtain ⟨hmem, -, hstart, hstop, -⟩ := coveringPart?_cases hc
  have htoken : t.isToken = false := by
    cases t
    rw [isToken, Bool.or_eq_false_iff]
    exact ⟨List.isEmpty_eq_false_iff.mpr (List.ne_nil_of_mem hmem), hatomic⟩
  -- the parts on both sides of the one that covers the range keep clear of the range
  obtain ⟨xs, ys, hsplit⟩ := List.append_of_mem hmem
  have hapart := hw.nested.apart
  rw [hsplit, List.pairwise_append, List.pairwise_cons] at hapart
  obtain ⟨-, ⟨hafter, -⟩, hbefore⟩ := hapart
  have hxs : xs.flatMap (fun x => (tokens content x).filter (Token.fits r)) = [] := by
    refine List.flatMap_eq_nil_iff.mpr fun x hx => ?_
    have hx' : x ∈ t.children := by rw [hsplit]; exact List.mem_append_left _ hx
    have hle := hbefore x hx c List.mem_cons_self
    exact (hw.child hx').filter_fits_of_apart (Or.inl (by omega))
  have hys : ys.flatMap (fun y => (tokens content y).filter (Token.fits r)) = [] := by
    refine List.flatMap_eq_nil_iff.mpr fun y hy => ?_
    have hy' : y ∈ t.children := by rw [hsplit]; exact List.mem_append_right _ (List.mem_cons_of_mem c hy)
    have hle := hafter y hy
    exact (hw.child hy').filter_fits_of_apart (Or.inr (by omega))
  rw [tokens_eq, hcomment, htoken]
  simp only [Bool.false_eq_true, if_false]
  rw [List.filter_flatMap, hsplit, List.flatMap_append, List.flatMap_cons, hxs, hys, List.nil_append, List.append_nil]

/-- On the way down to a range no token that fits it is lost, unless a node on the way is one token or a comment. -/
theorem Around.filter_fits {root : Tree} {chain : List Tree} (hw : root.WellFormed) (h : Around root r chain) :
    ∀ n above, chain = n :: above → (∀ a ∈ above, a.kind.isAtomic = false ∧ a.isComment = false) →
      (tokens content root).filter (Token.fits r) = (tokens content n).filter (Token.fits r) := by
  induction h with
  | root =>
    rintro n above heq -
    obtain ⟨rfl, rfl⟩ := List.cons.inj heq
    rfl
  | @part t c above hup hc ih =>
    rintro c' above' heq hplain
    obtain ⟨rfl, rfl⟩ := List.cons.inj heq
    obtain ⟨hatomic, hcomment⟩ := hplain t List.mem_cons_self
    have ht := hw.of_mem (hup.mem_preorder t List.mem_cons_self)
    rw [ih t above rfl fun a ha => hplain a (List.mem_cons_of_mem t ha),
      ht.filter_fits_of_coveringPart hatomic hcomment hc]

end Source.Tree

namespace SourceFile

open Source Source.Tree

/-- The tokens within a range are all tokens of the smallest node around the range that fit it. They are also the tokens
of the whole file that fit it, unless a node around that one is a single token or a comment. Each has some bytes and
starts where the one before it ends or later, and its text is what the file says in its place. -/
theorem tokensOf_eq_selection (file : SourceFile) (hw : file.tree.WellFormed) {r : Span} (hr : r.start ≤ r.stop) :
    ∃ n above, Smallest file.tree r n above ∧
      file.tokensOf r = (n.tokens file.content).filter (Token.fits r) ∧
      ((∀ a ∈ above, a.kind.isAtomic = false ∧ a.isComment = false) →
        file.tokensOf r = (file.tree.tokens file.content).filter (Token.fits r)) ∧
      (file.tokensOf r).Pairwise (fun a b => a.span.stop ≤ b.span.start) ∧
      ∀ token ∈ file.tokensOf r, token.span.start < token.span.stop ∧
        ∀ before piece after, file.content = before ++ piece ++ after → Text.byteLength before = token.span.start →
          Text.byteLength (before ++ piece) = token.span.stop → token.text = String.ofList piece := by
  obtain ⟨n, above, hsmallest⟩ := exists_smallest file.tree hr
  have hn := hw.of_mem (hsmallest.around.mem_preorder n List.mem_cons_self)
  have hselected : file.tokensOf r = (n.tokens file.content).filter (Token.fits r) := by
    rw [SourceFile.tokensOf, Tree.tokensOf, hsmallest.covering_eq hw]
    exact hn.tokensIn_eq_filter
  refine ⟨n, above, hsmallest, hselected, fun hplain => ?_, ?_, ?_⟩
  · rw [hselected, hsmallest.around.filter_fits hw n above rfl hplain]
  · rw [hselected]
    exact hn.tokens_pairwise.filter _
  · intro token htoken
    rw [hselected, List.mem_filter] at htoken
    refine ⟨(Token.fits_iff.mp htoken.2).2.1, ?_⟩
    intro before piece after hcontent hstart hstop
    obtain ⟨a, -, rfl⟩ := exists_node_of_mem_tokens htoken.1
    have hslice : Text.slice? file.content a.span = some piece :=
      Text.slice?_eq_some_iff.mpr ⟨before, after, hcontent, hstart, hstop⟩
    rw [toToken, Text.sliceD, hslice, Option.getD_some]

/-- A call with a substitution in its first argument and a comment before its second one. -/
def templateText : List Char := "fg(`a$\x7bb\x7d`, /*x*/ cd);".toList

/-- The program. -/
def templateProgram : Tree :=
  .node .program none ⟨0, 22⟩ [
    .node (.other "expression") none ⟨0, 22⟩ [
      .node .call none ⟨0, 21⟩ [
        .node .identifier (some .callee) ⟨0, 2⟩ [],
        .node .arguments (some .arguments) ⟨2, 21⟩ [
          mark "(" 2 3,
          .node .template none ⟨3, 10⟩ [
            mark "`" 3 4, .node .fragment none ⟨4, 5⟩ [],
            .node .substitution none ⟨5, 9⟩ [mark "$\x7b" 5 7, .node .identifier none ⟨7, 8⟩ [], mark "\x7d" 8 9],
            mark "`" 9 10],
          mark "," 10 11, .node .comment none ⟨12, 17⟩ [], .node .identifier none ⟨18, 20⟩ [], mark ")" 20 21]],
      mark ";" 21 22]]

/-- The program as a file. -/
def templateCall : SourceFile := .ofText .javaScript templateText

set_option maxRecDepth 100000 in
theorem tree_templateCall : templateCall.tree = templateProgram := by decide +kernel

/-- The range cuts the name of the function and the last argument in two, and holds the comment. No template and no
comment stands around it, so the tokens are those of the whole file. -/
theorem tokensOf_eq_selection_templateCall :
    templateCall.tree.WellFormed ∧
    templateCall.tokensOf ⟨1, 19⟩ = [⟨.punctuator, "(", ⟨2, 3⟩⟩, ⟨.template, "`a$\x7bb\x7d`", ⟨3, 10⟩⟩,
      ⟨.punctuator, ",", ⟨10, 11⟩⟩] ∧
    (templateCall.tree.tokens templateCall.content).filter (Token.fits ⟨1, 19⟩) = templateCall.tokensOf ⟨1, 19⟩ := by
  have hw : templateCall.tree.WellFormed := by
    rw [tree_templateCall]
    decide +kernel
  obtain ⟨n, above, hsmallest, -, hwhole, -⟩ := tokensOf_eq_selection templateCall hw (r := ⟨1, 19⟩) (by decide)
  refine ⟨hw, ?_, (hwhole ?_).symm⟩
  · rw [SourceFile.tokensOf, tree_templateCall]
    decide +kernel
  · have haround : ∀ a ∈ (templateCall.tree.covering ⟨1, 19⟩).tail, a.kind.isAtomic = false ∧ a.isComment = false := by
      rw [tree_templateCall]
      decide +kernel
    rwa [hsmallest.covering_eq hw] at haround

/-- Around the substituted name stands the template, which is one token of the file: there the search finds a token that
is not among those of the file. -/
example : templateProgram.tokensOf templateText ⟨7, 8⟩ = [⟨.identifier, "b", ⟨7, 8⟩⟩] ∧
    (templateProgram.tokens templateText).filter (Token.fits ⟨7, 8⟩) = [] := by
  decide +kernel

end SourceFile

end WriteGuard
