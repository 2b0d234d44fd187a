import WriteGuard.Proofs.ByteCuts
import WriteGuard.Proofs.Nesting
import WriteGuard.Proofs.Readings
import WriteGuard.Proofs.SlashLexemes

/-!
Where a comment can seem to begin. Between two places of a text stand the lexemes of the trees that were read there, and
blanks. If one of these places looks like the beginning of a comment, then it lies in a comment or in a piece of text that
the trees show: no other lexeme has a slash behind its first character, and where a lexeme begins there is no comment.
-/

namespace WriteGuard.Source

/-! ### Places that look like comments -/

/-- Whether a text looks like a comment that begins with neither a slash nor a star. -/
def opensRemark (text : List Char) : Bool :=
  (Scanner.comment text).isSome &&
    match text.drop 2 with
    | c :: _ => c ≠ '/' && c ≠ '*'
    | [] => false

theorem comment_of_opensRemark {text : List Char} (h : opensRemark text = true) : (Scanner.comment text).isSome = true :=
  (Bool.and_eq_true _ _ ▸ h : _ ∧ _).1

theorem third_of_opensRemark {a b : Char} {text : List Char} (h : opensRemark (a :: b :: text) = true) :
    ∃ c rest, text = c :: rest ∧ c ≠ '/' ∧ c ≠ '*' := by
  have hthird := (Bool.and_eq_true _ _ ▸ h : _ ∧ _).2
  cases text with
  | nil => cases hthird
  | cons c rest => exact ⟨c, rest, rfl, by simpa using hthird⟩

theorem comment_of_ne {c : Char} {rest : List Char} (hc : c ≠ '/') : Scanner.comment (c :: rest) = none := by
  rw [Scanner.comment.eq_def]
  split
  · next heq => exact absurd (List.cons.inj heq).1 hc
  · next heq => exact absurd (List.cons.inj heq).1 hc
  · rfl

theorem comment_slash_of_ne {c : Char} {rest : List Char} (hslash : c ≠ '/') (hstar : c ≠ '*') :
    Scanner.comment ('/' :: c :: rest) = none := by
  rw [Scanner.comment.eq_def]
  split
  · next heq => exact absurd (List.cons.inj (List.cons.inj heq).2).1 hslash
  · next heq => exact absurd (List.cons.inj (List.cons.inj heq).2).1 hstar
  · rfl

theorem head?_of_comment {text : List Char} (h : (Scanner.comment text).isSome = true) : text.head? = some '/' := by
  cases text with
  | nil => cases h
  | cons c rest =>
    by_cases hc : c = '/'
    · rw [hc, List.head?_cons]
    · rw [comment_of_ne hc] at h
      cases h

/-- Behind the slash that seems to open a comment stands the second character of its mark, and no other comment. -/
theorem not_comment_of_opensRemark {rest : List Char} (h : opensRemark ('/' :: rest) = true) :
    Scanner.comment rest = none ∧ (rest.head? = some '/' ∨ rest.head? = some '*') := by
  have hcomment := comment_of_opensRemark h
  cases rest with
  | nil => cases hcomment
  | cons mark text =>
    obtain ⟨c, rest, rfl, hslash, hstar⟩ := third_of_opensRemark h
    by_cases hmark : mark = '/'
    · rw [hmark]
      exact ⟨comment_slash_of_ne hslash hstar, Or.inl rfl⟩
    · have hmark' : mark = '*' := Decidable.byContradiction fun hne => by
        rw [comment_slash_of_ne hmark hne] at hcomment
        cases hcomment
      exact ⟨comment_of_ne hmark, Or.inr (congrArg some hmark')⟩

/-! ### Pieces of text in trees -/

namespace Kind

/-- Whether what is written at a node stands for itself: a comment, or text of a literal or of markup. -/
def holdsText : Kind → Bool
  | .comment | .markupComment | .hashBang | .fragment | .escape | .markupText | .regex => true
  | _ => false

end Kind

namespace Tree

/-- Whether a byte lies in a comment or piece of text of one of the trees. -/
def Quotes (trees : List Tree) (offset : Nat) : Prop :=
  ∃ t ∈ trees, ∃ n ∈ t.preorder, n.kind.holdsText = true ∧ n.span.start ≤ offset ∧ offset < n.span.stop

theorem Quotes.of_subset {ts ts' : List Tree} {offset : Nat} (h : Quotes ts offset) (hsub : ts ⊆ ts') :
    Quotes ts' offset := by
  obtain ⟨t, ht, n, hn, hkind, hspan⟩ := h
  exact ⟨t, hsub ht, n, hn, hkind, hspan⟩

theorem Quotes.single {kind : Kind} {role : Option Role} {span : Span} {children : List Tree} {offset : Nat}
    (hkind : kind.holdsText = true) (hstart : span.start ≤ offset) (hstop : offset < span.stop) :
    Quotes [.node kind role span children] offset :=
  ⟨_, List.mem_singleton_self _, _, mem_preorder_self _, hkind, hstart, hstop⟩

theorem Quotes.enclose {ts : List Tree} {offset : Nat} (h : Quotes ts offset) (kind : Kind) (at_ : Nat) :
    Quotes (enclose kind at_ ts) offset := by
  obtain ⟨t, ht, n, hn, hkind, hspan⟩ := h
  rw [← List.takeWhile_append_dropWhile (p := isComment) (l := ts)] at ht
  rcases List.mem_append.mp ht with hbefore | hinner
  · exact ⟨t, List.mem_append_left _ hbefore, n, hn, hkind, hspan⟩
  · exact ⟨_, List.mem_append_right _ (List.mem_singleton_self _), n,
      mem_preorder.mpr (Or.inr ⟨t, hinner, hn⟩), hkind, hspan⟩

theorem Quotes.join {ts : List Tree} {offset : Nat} (h : Quotes ts offset) (kind : Kind) (at_ : Nat) :
    Quotes (Rule.join kind at_ ts) offset := by
  rw [Rule.join]
  split
  · exact h
  · exact h
  · exact h.enclose kind at_

theorem Quotes.map_withRole {ts : List Tree} {offset : Nat} (h : Quotes ts offset) (role : Role) :
    Quotes (ts.map (withRole role)) offset := by
  obtain ⟨t, ht, n, hn, hkind, hspan⟩ := h
  have hsame : (t.withRole role).kind = t.kind ∧ (t.withRole role).span = t.span ∧
      (t.withRole role).children = t.children := by
    obtain ⟨k, r, s, cs⟩ := t
    rw [withRole]
    split <;> exact ⟨rfl, rfl, rfl⟩
  refine ⟨t.withRole role, List.mem_map_of_mem ht, ?_⟩
  rcases mem_preorder.mp hn with rfl | ⟨c, hc, hn⟩
  · exact ⟨_, mem_preorder_self _, hsame.1 ▸ hkind, hsame.2.1 ▸ hspan⟩
  · exact ⟨n, mem_preorder.mpr (Or.inr ⟨c, hsame.2.2 ▸ hc, hn⟩), hkind, hspan⟩

end Tree

open WriteGuard.Source.Tree (Quotes)

/-! ### The text between two places -/

/-- What stands between a place and a later one. -/
structure Between (c next : Cursor) (front : List Char) : Prop where
  text : c.rest = front ++ next.rest
  offset : next.offset = c.offset + Text.byteLength front

theorem Between.refl (c : Cursor) : Between c c [] := ⟨rfl, rfl⟩

theorem Between.trans {c middle next : Cursor} {f g : List Char} (hf : Between c middle f) (hg : Between middle next g) :
    Between c next (f ++ g) :=
  ⟨by rw [hf.text, hg.text, List.append_assoc], by rw [hg.offset, hf.offset, Text.byteLength_append, Nat.add_assoc]⟩

theorem between_advance : ∀ (n : Nat) (c : Cursor), Between c (c.advance n) (c.rest.take n)
  | 0, c => Between.refl c
  | n + 1, ⟨offset, []⟩ => Between.refl _
  | n + 1, ⟨offset, d :: ds⟩ => by
      obtain ⟨htext, hoffset⟩ := between_advance n ⟨offset + d.utf8Size, ds⟩
      rw [Cursor.advance]
      refine ⟨?_, ?_⟩
      · rw [List.take_succ_cons, List.cons_append, ← htext]
      · rw [hoffset, List.take_succ_cons, Text.byteLength, Nat.add_assoc]

theorem between_afterBlanks : ∀ (offset : Nat) (text : List Char),
    ∃ front, Between ⟨offset, text⟩ (Cursor.afterBlanks offset text) front ∧ ∀ c ∈ front, Scanner.isBlank c = true
  | offset, [] => ⟨[], Between.refl _, by simp⟩
  | offset, d :: ds => by
      rw [Cursor.afterBlanks]
      split
      · next hblank =>
        obtain ⟨front, ⟨htext, hoffset⟩, hfront⟩ := between_afterBlanks (offset + d.utf8Size) ds
        refine ⟨d :: front, ⟨congrArg (d :: ·) htext, ?_⟩, ?_⟩
        · rw [hoffset, Text.byteLength, Nat.add_assoc]
        · rintro c (_ | ⟨_, hc⟩)
          · exact hblank
          · exact hfront c hc
      · exact ⟨[], Between.refl _, by simp⟩

/-! ### Covered text -/

/-- Every place between two places that looks like a comment lies in a comment or piece of text of the trees. -/
def Covers (trees : List Tree) (c next : Cursor) : Prop :=
  ∃ front, Between c next front ∧ ∀ u v, front = u ++ v → v ≠ [] → opensRemark (v ++ next.rest) = true →
    Quotes trees (c.offset + Text.byteLength u)

namespace Covers

theorem refl (c : Cursor) : Covers [] c c := by
  refine ⟨[], Between.refl c, fun u v huv hv _ => ?_⟩
  exact absurd (List.append_eq_nil_iff.mp huv.symm).2 hv

theorem imp {ts ts' : List Tree} {c next : Cursor} (h : Covers ts c next)
    (himp : ∀ offset, Quotes ts offset → Quotes ts' offset) : Covers ts' c next := by
  obtain ⟨front, hbetween, hplaces⟩ := h
  exact ⟨front, hbetween, fun u v huv hv hopens => himp _ (hplaces u v huv hv hopens)⟩

theorem trans {ts ts' : List Tree} {c middle next : Cursor} (h : Covers ts c middle) (h' : Covers ts' middle next) :
    Covers (ts ++ ts') c next := by
  obtain ⟨f, hf, hplaces⟩ := h
  obtain ⟨g, hg, hplaces'⟩ := h'
  refine ⟨f ++ g, hf.trans hg, fun u v huv hv hopens => ?_⟩
  -- the place lies in the first piece or is at or behind its end
  rcases List.append_eq_append_iff.mp huv with ⟨w, rfl, rfl⟩ | ⟨w, rfl, rfl⟩
  · have := hplaces' w v rfl hv hopens
    rw [hf.offset, Nat.add_assoc, ← Text.byteLength_append] at this
    exact this.of_subset (List.subset_append_right _ _)
  · cases w with
    | nil =>
      have := hplaces' [] g rfl hv hopens
      rw [hf.offset, List.append_nil] at this
      exact this.of_subset (List.subset_append_right _ _)
    | cons d w =>
      rw [List.append_assoc, ← hg.text] at hopens
      exact (hplaces u (d :: w) rfl (List.cons_ne_nil d w) hopens).of_subset (List.subset_append_left _ _)

/-- A text without slashes looks nowhere like a comment. -/
theorem of_noSlash {ts : List Tree} {c next : Cursor} {front : List Char} (h : Between c next front)
    (hfront : '/' ∉ front) : Covers ts c next := by
  refine ⟨front, h, ?_⟩
  rintro u (_ | ⟨d, v⟩) rfl hv hopens
  · exact absurd rfl hv
  · have hd : d = '/' := Option.some.inj (head?_of_comment (comment_of_opensRemark hopens))
    exact absurd (List.mem_append_right u (hd ▸ List.mem_cons_self)) hfront

/-- A piece of text covers all of itself. -/
theorem of_holdsText {kind : Kind} {role : Option Role} {children : List Tree} {c next : Cursor} {front : List Char}
    (h : Between c next front) (hkind : kind.holdsText = true) :
    Covers [.node kind role ⟨c.offset, next.offset⟩ children] c next := by
  refine ⟨front, h, fun u v huv hv _ => .single hkind (Nat.le_add_right _ _) ?_⟩
  have hpos : Text.byteLength v ≠ 0 := fun hzero => hv (Text.eq_nil_of_byteLength hzero)
  show c.offset + Text.byteLength u < next.offset
  rw [h.offset, huv, Text.byteLength_append]
  omega

/-- A lexeme with a slash at most as its first character, where no comment begins. -/
theorem of_slashFirst {ts : List Tree} {c : Cursor} {scan : Scanner} {n : Nat} (hscan : scan.SlashFirst)
    (hn : scan c.rest = some n) (hnone : Scanner.comment c.rest = none) : Covers ts c (c.advance n) := by
  refine ⟨c.rest.take n, between_advance n c, ?_⟩
  rintro (_ | ⟨d, u⟩) v huv hv hopens
  · rw [← List.nil_append v, ← huv, ← (between_advance n c).text] at hopens
    have := comment_of_opensRemark hopens
    rw [hnone] at this
    cases this
  · obtain ⟨e, v, rfl⟩ := List.exists_cons_of_ne_nil hv
    have he : e = '/' := Option.some.inj (head?_of_comment (comment_of_opensRemark hopens))
    refine absurd ?_ (hscan c.rest n hn)
    rw [huv, List.cons_append, List.tail_cons, he]
    exact List.mem_append_right u List.mem_cons_self

theorem skipBlanks (c : Cursor) : Covers [] c c.skipBlanks := by
  obtain ⟨front, hbetween, hblank⟩ := between_afterBlanks c.offset c.rest
  refine of_noSlash hbetween fun hmem => ?_
  have hslash := hblank '/' hmem
  revert hslash
  decide

end Covers

/-! ### Comments before a lexeme -/

namespace Rule

theorem length_comment_pos {text : List Char} {n : Nat} (h : Scanner.comment text = some n) :
    0 < (text.take n).length := by
  rw [Scanner.comment.eq_def] at h
  split at h
  · rw [← Option.some.inj h]
    exact Nat.succ_pos _
  · obtain ⟨m, -, rfl⟩ := Option.map_eq_some_iff.mp h
    exact Nat.succ_pos _
  · cases h

theorem covers_remarksUpTo : ∀ (fuel : Nat) (c : Cursor), Covers (remarksUpTo fuel c).1 c (remarksUpTo fuel c).2
  | 0, c => Covers.refl c
  | fuel + 1, c => by
      rw [remarksUpTo]
      dsimp only
      split
      · exact .skipBlanks c
      · next n hn =>
        have hcomment := @Covers.of_holdsText .comment none [] _ _ _ (between_advance n c.skipBlanks) rfl
        exact ((Covers.skipBlanks c).trans hcomment).trans (covers_remarksUpTo fuel _)

theorem isComment_remarksUpTo : ∀ (fuel : Nat) (c : Cursor), ∀ t ∈ (remarksUpTo fuel c).1, t.isComment = true
  | 0, _ => by simp [remarksUpTo]
  | fuel + 1, c => by
      rw [remarksUpTo]
      dsimp only
      split
      · simp
      · rintro t (_ | ⟨_, ht⟩)
        · rfl
        · exact isComment_remarksUpTo fuel _ t ht

/-- With fuel for each character, no comment is left behind the comments. -/
theorem comment_remarksUpTo : ∀ (fuel : Nat) (c : Cursor), c.rest.length ≤ fuel →
    Scanner.comment (remarksUpTo fuel c).2.rest = none
  | 0, c, hfuel => by
      rw [remarksUpTo, List.eq_nil_of_length_eq_zero (Nat.le_zero.mp hfuel)]
      rfl
  | fuel + 1, c, hfuel => by
      rw [remarksUpTo]
      dsimp only
      split
      · next hnone => exact hnone
      · next n hn =>
        refine comment_remarksUpTo fuel _ ?_
        obtain ⟨front, hblanks, -⟩ := between_afterBlanks c.offset c.rest
        have hstart := congrArg List.length hblanks.text
        have hstop := congrArg List.length (between_advance n c.skipBlanks).text
        have hlong : 0 < (c.skipBlanks.rest.take n).length := length_comment_pos hn
        simp only [List.length_append] at hstart hstop
        change c.rest.length = front.length + c.skipBlanks.rest.length at hstart
        omega

theorem covers_remarks (c : Cursor) : Covers (remarks c).1 c (remarks c).2 := covers_remarksUpTo _ c

theorem isComment_remarks {c : Cursor} {t : Tree} (ht : t ∈ (remarks c).1) : t.isComment = true :=
  isComment_remarksUpTo _ c t ht

theorem comment_remarks (c : Cursor) : Scanner.comment (remarks c).2.rest = none :=
  comment_remarksUpTo _ c (Nat.le_refl _)

/-- Where neither a blank nor a comment stands, there are no remarks. -/
theorem remarks_of_none {c : Cursor} {d : Char} (hd : c.rest.head? = some d) (hblank : Scanner.isBlank d = false)
    (hnone : Scanner.comment c.rest = none) : remarks c = ([], c) := by
  obtain ⟨offset, rest⟩ := c
  obtain ⟨ds, rfl⟩ := List.head?_eq_some_iff.mp hd
  have hskip : Cursor.skipBlanks ⟨offset, d :: ds⟩ = ⟨offset, d :: ds⟩ := by
    rw [Cursor.skipBlanks, Cursor.afterBlanks, hblank, if_neg Bool.false_ne_true]
  rw [remarks, List.length_cons, remarksUpTo, hskip]
  dsimp only
  rw [hnone]

end Rule

end WriteGuard.Source
