import WriteGuard.Server.Publish
import WriteGuard.Text.White
import WriteGuard.Proofs.ByteCuts

/-!
Places as editors read them. An editor finds a place by counting line feeds and then UTF-16 code units on the line.
Every cut of a text between two characters has such a place, a later cut has a later one, and the place leads back to
the cut. So an editor that makes an offered change arrives at the text that the change itself makes.
-/

namespace WriteGuard

namespace Text

/-- The text from line `n` on, counted from zero. -/
def dropLines? : Nat → List Char → Option (List Char)
  | 0, cs => some cs
  | _ + 1, [] => none
  | n + 1, c :: cs => if c = '\n' then dropLines? n cs else dropLines? (n + 1) cs

/-- The text behind its first `n` code units. There is none inside a character or behind the end of the line. -/
def dropUnits? : Nat → List Char → Option (List Char)
  | 0, cs => some cs
  | _ + 1, [] => none
  | n + 1, c :: cs => if c ≠ '\n' ∧ units c ≤ n + 1 then dropUnits? (n + 1 - units c) cs else none

/-- A byte offset between two characters of a text, or at one of its ends. -/
def IsBoundary (text : List Char) (n : Nat) : Prop := ∃ front rest, text = front ++ rest ∧ byteLength front = n

/-- A text whose lines, and the code units of each line, can be counted in words of 32 bits. -/
structure Addressable (text : List Char) : Prop where
  lines : (splitAt '\n' text).length < 4294967296
  columns : ∀ line ∈ splitAt '\n' text, unitLength line < 4294967296

instance (text : List Char) : Decidable (Addressable text) :=
  decidable_of_iff ((splitAt '\n' text).length < 4294967296 ∧
    ∀ line ∈ splitAt '\n' text, unitLength line < 4294967296) ⟨fun h => ⟨h.1, h.2⟩, fun h => ⟨h.lines, h.columns⟩⟩

end Text

namespace Position

/-- The text from a place on, found as an editor finds it. -/
def rest? (p : Position) (text : List Char) : Option (List Char) :=
  (Text.dropLines? p.line text).bind (Text.dropUnits? p.character)

/-- The byte offset of a place. -/
def offset? (p : Position) (text : List Char) : Option Nat :=
  (p.rest? text).map fun rest => Text.byteLength text - Text.byteLength rest

/-- Places are ordered by line, then by column. -/
instance : LT Position := ⟨fun p q => p.line < q.line ∨ p.line = q.line ∧ p.character < q.character⟩

end Position

/-- The text after an editor makes a change: what stands before the range, the new text, and what follows the range. -/
def RangeEdit.applied? (e : RangeEdit) (text : List Char) : Option (List Char) :=
  match e.range.start.rest? text, e.range.stop.rest? text with
  | some taken, some kept =>
    if kept.length ≤ taken.length then some (text.take (text.length - taken.length) ++ e.newText.toList ++ kept)
    else none
  | _, _ => none

/-! ### The line of a cut -/

namespace Text

/-- A text that is made of whole lines, each with its line feed. -/
def WholeLines (head : List Char) : Prop := head = [] ∨ ∃ init, head = init ++ ['\n']

/-- What stands before a cut is a number of whole lines and the start of one more. -/
theorem exists_wholeLines : ∀ front : List Char, ∃ head line, front = head ++ line ∧ WholeLines head ∧ '\n' ∉ line
  | [] => ⟨[], [], rfl, Or.inl rfl, List.not_mem_nil⟩
  | c :: cs => by
      obtain ⟨head, line, rfl, hwhole | ⟨init, rfl⟩, hline⟩ := exists_wholeLines cs
      · subst hwhole
        by_cases hc : c = '\n'
        · exact ⟨[c], line, rfl, Or.inr ⟨[], by rw [hc, List.nil_append]⟩, hline⟩
        · refine ⟨[], c :: line, rfl, Or.inl rfl, ?_⟩
          rw [List.mem_cons, not_or]
          exact ⟨fun heq => hc heq.symm, hline⟩
      · exact ⟨c :: (init ++ ['\n']), line, rfl, Or.inr ⟨c :: init, rfl⟩, hline⟩

theorem units_pos (c : Char) : 0 < units c := by
  unfold units
  split <;> omega

theorem unitLength_append : ∀ xs ys : List Char, unitLength (xs ++ ys) = unitLength xs + unitLength ys
  | [], ys => by rw [List.nil_append, unitLength, Nat.zero_add]
  | c :: cs, ys => by rw [List.cons_append, unitLength, unitLength, unitLength_append cs ys, Nat.add_assoc]

theorem unitLength_pos {cs : List Char} (h : cs ≠ []) : 0 < unitLength cs := by
  obtain ⟨c, cs, rfl⟩ := List.exists_cons_of_ne_nil h
  have hpos := units_pos c
  rw [unitLength]
  omega

/-- Counting the line feeds of whole lines leads to their end. -/
theorem dropLines?_count {head : List Char} (h : WholeLines head) (cs : List Char) :
    dropLines? (head.count '\n') (head ++ cs) = some cs := by
  rcases h with rfl | ⟨init, rfl⟩
  · rw [List.count_nil, List.nil_append, dropLines?]
  · rw [List.count_append, List.count_singleton_self, List.append_assoc, List.singleton_append]
    induction init with
    | nil => rw [List.count_nil, List.nil_append, dropLines?, if_pos rfl, dropLines?]
    | cons c init ih =>
      by_cases hc : c = '\n'
      · rw [hc, List.count_cons_self, List.cons_append, dropLines?, if_pos rfl, ih]
      · rw [List.count_cons_of_ne hc, List.cons_append, dropLines?, if_neg hc, ih]

/-- Counting the code units of a part of a line leads to its end. -/
theorem dropUnits?_unitLength (rest : List Char) : ∀ {line : List Char}, '\n' ∉ line →
    dropUnits? (unitLength line) (line ++ rest) = some rest
  | [], _ => by rw [unitLength, List.nil_append, dropUnits?]
  | c :: cs, h => by
      rw [List.mem_cons, not_or] at h
      have hpos := units_pos c
      obtain ⟨n, hn⟩ : ∃ n, unitLength (c :: cs) = n + 1 :=
        Nat.exists_eq_succ_of_ne_zero (Nat.ne_of_gt (unitLength_pos (List.cons_ne_nil c cs)))
      have hsum : units c + unitLength cs = n + 1 := hn
      rw [hn, List.cons_append, dropUnits?, if_pos ⟨fun heq => h.1 heq.symm, by omega⟩,
        show n + 1 - units c = unitLength cs by omega]
      exact dropUnits?_unitLength rest h.2

theorem exists_splitAt_eq_cons (text : List Char) : ∃ piece pieces, splitAt '\n' text = piece :: pieces := by
  cases text with
  | nil => exact ⟨[], [], rfl⟩
  | cons c cs =>
    rw [splitAt]
    split
    · exact ⟨_, _, rfl⟩
    · split <;> exact ⟨_, _, rfl⟩

theorem splitAt_cons_of_ne {c : Char} {cs piece : List Char} {pieces : List (List Char)} (hc : c ≠ '\n')
    (h : splitAt '\n' cs = piece :: pieces) : splitAt '\n' (c :: cs) = (c :: piece) :: pieces := by
  rw [splitAt, if_neg hc, h]

/-- There is one line more than line feeds. -/
theorem length_splitAt (text : List Char) : (splitAt '\n' text).length = text.count '\n' + 1 := by
  induction text with
  | nil => rfl
  | cons c cs ih =>
    by_cases hc : c = '\n'
    · rw [splitAt, if_pos hc, hc, List.count_cons_self, List.length_cons, ih]
    · obtain ⟨piece, pieces, hcs⟩ := exists_splitAt_eq_cons cs
      rw [hcs] at ih
      rw [splitAt_cons_of_ne hc hcs, List.count_cons_of_ne hc]
      exact ih

theorem splitAt_eq_splitOn (separator : Char) (text : List Char) : splitAt separator text = text.splitOn separator := by
  induction text with
  | nil => rfl
  | cons c cs ih =>
    rw [splitAt, List.splitOn_cons_eq_if_modifyHead, ih]
    by_cases hc : c = separator
    · rw [if_pos hc, if_pos (beq_iff_eq.mpr hc)]
    · rw [if_neg hc, if_neg fun h => hc (beq_iff_eq.mp h)]
      cases hparts : cs.splitOn separator with
      | nil => exact absurd hparts (List.splitOn_ne_nil separator cs)
      | cons part parts => rfl

/-- A part of a text without a line feed is part of a line. -/
theorem exists_mem_splitAt {line : List Char} (rest : List Char) (h : '\n' ∉ line) : ∀ head : List Char,
    ∃ before after, before ++ line ++ after ∈ splitAt '\n' (head ++ line ++ rest)
  | [] => by
      suffices ∃ after pieces, splitAt '\n' (line ++ rest) = (line ++ after) :: pieces by
        obtain ⟨after, pieces, heq⟩ := this
        exact ⟨[], after, by rw [List.nil_append, heq]; exact List.mem_cons_self⟩
      induction line with
      | nil => exact exists_splitAt_eq_cons rest
      | cons c line ih =>
        rw [List.mem_cons, not_or] at h
        obtain ⟨after, pieces, heq⟩ := ih h.2
        exact ⟨after, pieces, splitAt_cons_of_ne (fun hc => h.1 hc.symm) heq⟩
  | c :: head => by
      obtain ⟨before, after, hmem⟩ := exists_mem_splitAt rest h head
      by_cases hc : c = '\n'
      · refine ⟨before, after, ?_⟩
        rw [List.cons_append, List.cons_append, splitAt, if_pos hc]
        exact List.mem_cons_of_mem [] hmem
      · obtain ⟨piece, pieces, heq⟩ := exists_splitAt_eq_cons (head ++ line ++ rest)
        have hcons := splitAt_cons_of_ne hc heq
        rw [heq] at hmem
        rw [List.cons_append, List.cons_append, hcons]
        rcases List.mem_cons.mp hmem with rfl | hmem
        · exact ⟨c :: before, after, List.mem_cons_self⟩
        · exact ⟨before, after, List.mem_cons_of_mem _ hmem⟩

/-- The numbers of the place of a cut fit in a word. -/
theorem Addressable.word_eq {head line rest : List Char} (h : Addressable (head ++ line ++ rest)) (hline : '\n' ∉ line) :
    Position.word (head.count '\n') = head.count '\n' ∧ Position.word (unitLength line) = unitLength line := by
  constructor
  · have hlines := h.lines
    rw [length_splitAt, List.count_append, List.count_append] at hlines
    exact Nat.mod_eq_of_lt (by omega)
  · obtain ⟨before, after, hmem⟩ := exists_mem_splitAt rest hline head
    have hcolumns := h.columns _ hmem
    rw [unitLength_append, unitLength_append] at hcolumns
    exact Nat.mod_eq_of_lt (by omega)

end Text

/-! ### The place of a cut -/

namespace Lines

theorem startsAfter_append (xs ys : List Char) : ∀ offset, startsAfter offset (xs ++ ys) =
    startsAfter offset xs ++ startsAfter (offset + Text.byteLength xs) ys := by
  induction xs with
  | nil =>
    intro offset
    rw [Text.byteLength, startsAfter, List.nil_append, List.nil_append, Nat.add_zero]
  | cons c cs ih =>
    intro offset
    rw [List.cons_append, startsAfter, startsAfter, Text.byteLength, ← Nat.add_assoc]
    split
    · next hc =>
      have hsize : c.utf8Size = 1 := by rw [hc]; rfl
      rw [ih, hsize, List.cons_append]
    · rw [ih]

/-- The lines that start behind the start of a text start in it or at its end. -/
theorem startsAfter_bounds {start : Nat} : ∀ {offset : Nat} {text : List Char}, start ∈ startsAfter offset text →
    offset < start ∧ start ≤ offset + Text.byteLength text
  | offset, c :: cs, h => by
      have hpos := c.utf8Size_pos
      rw [startsAfter] at h
      rw [Text.byteLength]
      split at h
      · rcases List.mem_cons.mp h with rfl | h
        · omega
        · have := startsAfter_bounds h
          next hc _ =>
          have hsize : c.utf8Size = 1 := by rw [hc]; rfl
          omega
      · have := startsAfter_bounds h
        omega

theorem length_startsAfter (text : List Char) : ∀ offset, (startsAfter offset text).length = text.count '\n' := by
  induction text with
  | nil => exact fun _ => rfl
  | cons c cs ih =>
    intro offset
    rw [startsAfter]
    split
    · next hc => rw [hc, List.count_cons_self, List.length_cons, ih]
    · next hc => rw [List.count_cons_of_ne hc, ih]

/-- The lines that start up to a cut are those of the text before it. -/
theorem upTo_ofText (front rest : List Char) :
    (ofText (front ++ rest)).upTo (Text.byteLength front) = 0 :: startsAfter 0 front := by
  have hfront : ∀ start ∈ 0 :: startsAfter 0 front, decide (start ≤ Text.byteLength front) = true := by
    intro start hstart
    rcases List.mem_cons.mp hstart with rfl | hstart
    · exact decide_eq_true (Nat.zero_le _)
    · have := startsAfter_bounds hstart
      exact decide_eq_true (by omega)
  have hrest : (startsAfter (0 + Text.byteLength front) rest).takeWhile (· ≤ Text.byteLength front) = [] := by
    cases hstarts : startsAfter (0 + Text.byteLength front) rest with
    | nil => rfl
    | cons start starts =>
      have hlt := startsAfter_bounds (hstarts ▸ List.mem_cons_self)
      exact List.takeWhile_cons_of_neg (by rw [decide_eq_true_eq]; omega)
  rw [upTo, ofText, startsAfter_append, ← List.cons_append, List.takeWhile_append_of_pos hfront, hrest,
    List.append_nil]

/-- The line of a cut starts behind the whole lines before the cut. -/
theorem startOf_ofText {head line : List Char} (hhead : Text.WholeLines head) (hline : '\n' ∉ line) (rest : List Char) :
    (ofText (head ++ line ++ rest)).startOf (Text.byteLength (head ++ line)) = Text.byteLength head := by
  have hnone : startsAfter (0 + Text.byteLength head) line = [] := by
    rw [← List.length_eq_zero_iff, length_startsAfter]
    exact List.count_eq_zero_of_not_mem hline
  rw [startOf, upTo_ofText, startsAfter_append, hnone, List.append_nil]
  rcases hhead with rfl | ⟨init, rfl⟩
  · rfl
  · rw [startsAfter_append, ← List.cons_append, startsAfter, if_pos rfl, startsAfter, List.getLastD_concat,
      Text.byteLength_append, Nat.zero_add]
    rfl

end Lines

namespace Position

/-- The place of a cut: the number of whole lines before it, and the code units before it on its line. -/
theorem ofOffset_ofText {head line rest : List Char} (h : Text.Addressable (head ++ line ++ rest))
    (hhead : Text.WholeLines head) (hline : '\n' ∉ line) :
    ofOffset (Lines.ofText (head ++ line ++ rest)) (head ++ line ++ rest) (Text.byteLength (head ++ line)) =
      ⟨head.count '\n', Text.unitLength line⟩ := by
  have hslice : Text.slice? (head ++ line ++ rest) ⟨Text.byteLength head,
      min (Text.byteLength (head ++ line)) (Text.byteLength (head ++ line ++ rest))⟩ = some line := by
    refine Text.slice?_eq_some_iff.mpr ⟨head, rest, rfl, rfl, ?_⟩
    rw [Text.byteLength_append (head ++ line) rest]
    exact (Nat.min_eq_left (Nat.le_add_right _ _)).symm
  have hcount : (head ++ line).count '\n' = head.count '\n' := by
    rw [List.count_append, List.count_eq_zero_of_not_mem hline, Nat.add_zero]
  obtain ⟨hlines, hcolumn⟩ := h.word_eq hline
  simp only [ofOffset, Lines.lineCol, Lines.startOf_ofText hhead hline, hslice, Lines.upTo_ofText, List.length_cons,
    Lines.length_startsAfter, hcount, Nat.add_sub_cancel, Option.map_some, Option.getD_some, hlines, hcolumn]

/-- The place of a cut leads back to the cut. -/
theorem rest?_ofOffset {front rest : List Char} (h : Text.Addressable (front ++ rest)) :
    (ofOffset (Lines.ofText (front ++ rest)) (front ++ rest) (Text.byteLength front)).rest? (front ++ rest) =
      some rest := by
  obtain ⟨head, line, rfl, hhead, hline⟩ := Text.exists_wholeLines front
  rw [ofOffset_ofText h hhead hline, rest?, List.append_assoc, Text.dropLines?_count hhead, Option.bind_some,
    Text.dropUnits?_unitLength rest hline]

theorem offset?_ofOffset {text : List Char} {n : Nat} (h : Text.Addressable text) (hn : Text.IsBoundary text n) :
    (ofOffset (Lines.ofText text) text n).offset? text = some n := by
  obtain ⟨front, rest, rfl, rfl⟩ := hn
  rw [offset?, rest?_ofOffset h, Option.map_some, Text.byteLength_append, Nat.add_sub_cancel]

/-- A cut behind another is on a later line, or on the same line in a later column. -/
theorem ofOffset_lt_ofOffset {before middle after : List Char} (h : Text.Addressable (before ++ middle ++ after))
    (hne : middle ≠ []) :
    ofOffset (Lines.ofText (before ++ middle ++ after)) (before ++ middle ++ after) (Text.byteLength before) <
      ofOffset (Lines.ofText (before ++ middle ++ after)) (before ++ middle ++ after)
        (Text.byteLength (before ++ middle)) := by
  obtain ⟨head, line, rfl, hhead, hline⟩ := Text.exists_wholeLines before
  have hstart : ofOffset (Lines.ofText (head ++ line ++ middle ++ after)) (head ++ line ++ middle ++ after)
      (Text.byteLength (head ++ line)) = ⟨head.count '\n', Text.unitLength line⟩ := by
    rw [List.append_assoc (head ++ line)] at h ⊢
    exact ofOffset_ofText h hhead hline
  rw [hstart]
  by_cases hmiddle : '\n' ∈ middle
  · -- the later cut has the line feeds of the middle before it
    obtain ⟨head', line', heq, hhead', hline'⟩ := Text.exists_wholeLines (head ++ line ++ middle)
    have hcount := congrArg (List.count '\n') heq
    have hpos := List.count_pos_iff.mpr hmiddle
    simp only [List.count_append, List.count_eq_zero_of_not_mem hline'] at hcount
    rw [heq] at h ⊢
    rw [ofOffset_ofText h hhead' hline']
    exact Or.inl (show head.count '\n' < head'.count '\n' by omega)
  · -- both cuts are on one line
    have hlong : '\n' ∉ line ++ middle := by
      rw [List.mem_append, not_or]
      exact ⟨hline, hmiddle⟩
    have hpos := Text.unitLength_pos hne
    rw [List.append_assoc head] at h ⊢
    rw [ofOffset_ofText h hhead hlong, Text.unitLength_append]
    exact Or.inr ⟨rfl, Nat.lt_add_of_pos_right hpos⟩

end Position

/-- Two places in order cut a text in three. -/
theorem Text.IsBoundary.exists_between {text : List Char} {a b : Nat} (ha : IsBoundary text a) (hb : IsBoundary text b)
    (h : a ≤ b) : ∃ before middle after, text = before ++ middle ++ after ∧ byteLength before = a ∧
      byteLength (before ++ middle) = b := by
  obtain ⟨front, rest, rfl, rfl⟩ := ha
  obtain ⟨front', rest', heq, rfl⟩ := hb
  rcases List.append_eq_append_iff.mp heq with ⟨middle, rfl, rfl⟩ | ⟨middle, rfl, rfl⟩
  · exact ⟨front, middle, rest', (List.append_assoc ..).symm, rfl, rfl⟩
  · have hzero : middle = [] := eq_nil_of_byteLength (by rw [byteLength_append] at h; omega)
    subst hzero
    exact ⟨front', [], rest, by simp, by simp, by simp⟩

/-- An editor that makes a change of the middle of a text keeps both ends. -/
theorem RangeEdit.applied?_eq {e : RangeEdit} {before middle after : List Char}
    (hstart : e.range.start.rest? (before ++ middle ++ after) = some (middle ++ after))
    (hstop : e.range.stop.rest? (before ++ middle ++ after) = some after) :
    e.applied? (before ++ middle ++ after) = some (before ++ e.newText.toList ++ after) := by
  have hle : after.length ≤ (middle ++ after).length := by
    rw [List.length_append]
    omega
  have htake : (before ++ middle ++ after).take ((before ++ middle ++ after).length - (middle ++ after).length) =
      before := by
    rw [List.append_assoc, List.length_append, Nat.add_sub_cancel, List.take_left]
  simp only [RangeEdit.applied?, hstart, hstop, hle, if_true, htake]

/-- Nothing is lost when an offer is sent to an editor. The places of its range lead back to the bytes of the edit, the
change that the editor makes is the edit, and places are in the order of the bytes they stand for. -/
theorem Offer.applied?_ofSuggestion {text : List Char} (h : Text.Addressable text) :
    (∀ s : Suggestion, Text.IsBoundary text s.edit.range.start → Text.IsBoundary text s.edit.range.stop →
      s.edit.range.start ≤ s.edit.range.stop →
        (ofSuggestion (Lines.ofText text) text s).edit.range.start.offset? text = some s.edit.range.start ∧
        (ofSuggestion (Lines.ofText text) text s).edit.range.stop.offset? text = some s.edit.range.stop ∧
        (ofSuggestion (Lines.ofText text) text s).edit.applied? text = some (s.edit.apply text)) ∧
    ∀ a b, Text.IsBoundary text a → Text.IsBoundary text b → a < b →
      Position.ofOffset (Lines.ofText text) text a < Position.ofOffset (Lines.ofText text) text b := by
  constructor
  · intro s hstart hstop hle
    refine ⟨Position.offset?_ofOffset h hstart, Position.offset?_ofOffset h hstop, ?_⟩
    obtain ⟨before, middle, after, rfl, hbefore, hmiddle⟩ := hstart.exists_between hstop hle
    rw [s.edit.apply_eq after hbefore hmiddle]
    refine RangeEdit.applied?_eq ?_ ?_
    · show (Position.ofOffset _ _ s.edit.range.start).rest? _ = _
      rw [← hbefore, List.append_assoc]
      exact Position.rest?_ofOffset (List.append_assoc before middle after ▸ h)
    · show (Position.ofOffset _ _ s.edit.range.stop).rest? _ = _
      rw [← hmiddle]
      exact Position.rest?_ofOffset h
  · intro a b ha hb hlt
    obtain ⟨before, middle, after, rfl, rfl, rfl⟩ := ha.exists_between hb (Nat.le_of_lt hlt)
    refine Position.ofOffset_lt_ofOffset h fun hnil => ?_
    rw [hnil, List.append_nil] at hlt
    exact Nat.lt_irrefl _ hlt

/-- Two lines, the first of which ends in a carriage return too, with characters of one, two and four bytes. -/
def mixedText : List Char := "a\r\n😀é[`set`]".toList

/-- The key of its second line as an update. -/
def mixedSuggestion : Suggestion := ⟨.changeToUpdate, .replace ⟨.template, "`set`", ⟨10, 15⟩⟩ "`update`"⟩

/-- The key stands behind ten bytes, which are a line and four code units. -/
theorem Offer.applied?_ofSuggestion_mixedText :
    (ofSuggestion (Lines.ofText mixedText) mixedText mixedSuggestion).edit.range = ⟨⟨1, 4⟩, ⟨1, 9⟩⟩ ∧
    Position.offset? ⟨1, 4⟩ mixedText = some 10 ∧
    (ofSuggestion (Lines.ofText mixedText) mixedText mixedSuggestion).edit.applied? mixedText =
      some "a\r\n😀é[`update`]".toList ∧
    Position.ofOffset (Lines.ofText mixedText) mixedText 2 < Position.ofOffset (Lines.ofText mixedText) mixedText 7 := by
  have hrange : (ofSuggestion (Lines.ofText mixedText) mixedText mixedSuggestion).edit.range = ⟨⟨1, 4⟩, ⟨1, 9⟩⟩ := by
    decide +kernel
  obtain ⟨hedit, horder⟩ := applied?_ofSuggestion (show Text.Addressable mixedText by decide +kernel)
  obtain ⟨hstart, -, happly⟩ := hedit mixedSuggestion
    ⟨"a\r\n😀é[".toList, "`set`]".toList, by decide +kernel, by decide +kernel⟩
    ⟨"a\r\n😀é[`set`".toList, "]".toList, by decide +kernel, by decide +kernel⟩ (by decide)
  rw [hrange] at hstart
  refine ⟨hrange, hstart, happly.trans (by decide +kernel), horder 2 7 ?_ ?_ (by decide)⟩
  · exact ⟨"a\r".toList, "\n😀é[`set`]".toList, by decide +kernel, by decide +kernel⟩
  · exact ⟨"a\r\n😀".toList, "é[`set`]".toList, by decide +kernel, by decide +kernel⟩

end WriteGuard
