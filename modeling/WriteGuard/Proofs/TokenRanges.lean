import WriteGuard.Expr.Lower
import WriteGuard.Proofs.ByteCuts
import WriteGuard.Proofs.CursorWalk

/-!
Which tokens of a tree lie within a range: none of the parts that end before the range or start after it, none of the
comments, and every punctuation mark inside.
-/

namespace WriteGuard.Source.Tree

/-- A punctuation mark, as it is written. -/
structure IsMark (content : List Char) (mark : String) (t : Tree) : Prop where
  kind : t.kind = .symbol mark
  leaf : t.children = []
  written : t.text content = mark

section Range

variable {content : List Char} {r : Span} {t : Tree}

theorem overlaps_of_lt {s : Span} (hr : r.start < s.stop) (hs : s.start < r.stop) : overlaps r s = true := by
  rw [overlaps, decide_eq_true hr, decide_eq_true hs, Bool.and_self]

/-- The tokens that the walk finds, level by level. -/
theorem tokensIn_eq (content : List Char) (r : Span) (t : Tree) :
    tokensIn content r t =
      if overlaps r t.span && !t.isComment then
        if t.isToken then if !t.span.isEmpty && r.contains t.span then [t.toToken content] else []
        else t.children.flatMap (tokensIn content r)
      else [] := by
  have hwalk : tokensIn content r t = (tokenIn? content r t).toList ++
      if concerns r t && !t.isToken then t.children.flatMap (tokensIn content r) else [] :=
    TreeCursor.gather_eq_append _ _ t
  rw [hwalk, ← concerns, tokenIn?]
  cases concerns r t <;> cases t.isToken <;> simp [apply_ite Option.toList]

theorem tokensIn_of_stop_le (h : t.span.stop ≤ r.start) : tokensIn content r t = [] := by
  rw [tokensIn_eq, overlaps, decide_eq_false (by omega)]
  rfl

theorem tokensIn_of_le_start (h : r.stop ≤ t.span.start) : tokensIn content r t = [] := by
  rw [tokensIn_eq, overlaps, decide_eq_false (p := t.span.start < r.stop) (by omega), Bool.and_false]
  rfl

theorem tokensIn_of_isComment (h : t.isComment = true) : tokensIn content r t = [] := by
  rw [tokensIn_eq, h, Bool.not_true, Bool.and_false]
  rfl

/-- The tokens of a node with parts are those of its parts. -/
theorem tokensIn_of_parts (hover : overlaps r t.span = true) (hk : (t.kind.isComment || t.kind.isAtomic) = false)
    (hc : t.children ≠ []) : tokensIn content r t = t.children.flatMap (tokensIn content r) := by
  obtain ⟨hcomment, hatomic⟩ := Bool.or_eq_false_iff.mp hk
  have htoken : t.isToken = false := by
    cases t
    rw [isToken, Bool.or_eq_false_iff]
    exact ⟨List.isEmpty_eq_false_iff.mpr hc, hatomic⟩
  rw [tokensIn_eq, hover, isComment, hcomment, htoken]
  rfl

theorem flatMap_tokensIn_eq_nil {ts : List Tree} (h : ∀ x ∈ ts, x.span.stop ≤ r.start) :
    ts.flatMap (tokensIn content r) = [] :=
  List.flatMap_eq_nil_iff.mpr fun x hx => tokensIn_of_stop_le (h x hx)

/-- Comments among several trees add no token. -/
theorem flatMap_tokensIn_filter (content : List Char) (r : Span) : ∀ ts : List Tree,
    (ts.filter fun c => !c.isComment).flatMap (tokensIn content r) = ts.flatMap (tokensIn content r)
  | [] => rfl
  | t :: ts => by
      rw [List.filter_cons]
      cases hc : t.isComment with
      | true => simpa [tokensIn_of_isComment hc] using flatMap_tokensIn_filter content r ts
      | false => simpa using flatMap_tokensIn_filter content r ts

end Range

namespace IsMark

variable {content : List Char} {mark : String} {t : Tree}

/-- The text around a punctuation mark. -/
theorem split (h : IsMark content mark t) (hne : mark ≠ "") : ∃ before after,
    content = before ++ mark.toList ++ after ∧ Text.byteLength before = t.span.start ∧
      Text.byteLength (before ++ mark.toList) = t.span.stop := by
  have hslice : Text.sliceD content t.span = mark.toList := by rw [← h.written, text, String.toList_ofList]
  have hchars : mark.toList ≠ [] := fun hnil => hne (String.toList_eq_nil_iff.mp hnil)
  exact Text.slice?_eq_some_iff.mp (Text.slice?_of_sliceD hslice hchars)

theorem start_lt_stop (h : IsMark content mark t) (hne : mark ≠ "") : t.span.start < t.span.stop := by
  have hslice : Text.sliceD content t.span ≠ [] := by
    intro hnil
    refine hne ?_
    rw [← h.written, text, hnil]
  exact Text.start_lt_stop_of_sliceD hslice

theorem toToken (h : IsMark content mark t) : t.toToken content = ⟨(Kind.symbol mark).token, mark, t.span⟩ := by
  have hw := h.written
  rw [text] at hw
  rw [Tree.toToken, h.kind, hw]

/-- A punctuation mark within a range is the one token of its node there. -/
theorem tokensIn {r : Span} (h : IsMark content mark t) (hne : mark ≠ "") (hs : r.start ≤ t.span.start)
    (he : t.span.stop ≤ r.stop) : tokensIn content r t = [⟨(Kind.symbol mark).token, mark, t.span⟩] := by
  have hlt := h.start_lt_stop hne
  have hover : overlaps r t.span = true := overlaps_of_lt (by omega) (by omega)
  have hcomment : t.isComment = false := by rw [isComment, h.kind]; rfl
  have htoken : t.isToken = true := by
    have hl := h.leaf
    cases t
    rw [children] at hl
    rw [hl, isToken]
    rfl
  have hfull : (!t.span.isEmpty && r.contains t.span) = true := by
    simp only [Span.isEmpty, Span.length, Span.contains, Bool.and_eq_true, Bool.not_eq_true', decide_eq_true_eq,
      beq_eq_false_iff_ne]
    omega
  rw [tokensIn_eq, hover, hcomment, htoken, hfull, h.toToken]
  rfl

end IsMark

end WriteGuard.Source.Tree
