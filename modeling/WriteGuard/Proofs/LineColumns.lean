import WriteGuard.Proofs.EditorPositions

/-!
Lines and columns of byte offsets. The lines of a text start at its front and behind each byte that is a line feed. The
line of an offset is the last that starts up to it, so there is one place for each offset, also inside a character and
behind the end of the text: its line is the number of line feeds before it and one, its column is how far it is behind the
last of them, and places are in the order of the offsets.
-/

namespace WriteGuard

namespace Text

/-- The bytes of a text. -/
def bytes (text : List Char) : List UInt8 := text.flatMap String.utf8EncodeChar

theorem bytes_cons (c : Char) (cs : List Char) : bytes (c :: cs) = String.utf8EncodeChar c ++ bytes cs := rfl

/-- The byte of a line feed is part of no other character: it begins a character, and what begins with it is decoded as a
line feed. -/
theorem lineFeed_not_mem {c : Char} (h : c ≠ '\n') : 10 ∉ String.utf8EncodeChar c := by
  intro hmem
  obtain ⟨i, hi, hbyte⟩ := List.mem_iff_getElem.mp hmem
  have hfirst : (String.utf8EncodeChar c)[i].IsUTF8FirstByte := by
    rw [hbyte]
    decide
  obtain rfl := UInt8.isUTF8FirstByte_getElem_utf8EncodeChar.mp hfirst
  obtain ⟨rest, hrest⟩ : ∃ rest, String.utf8EncodeChar c = String.utf8EncodeChar '\n' ++ rest := by
    obtain ⟨b, rest, henc⟩ := List.exists_cons_of_ne_nil (List.ne_nil_of_mem hmem)
    simp only [henc, List.getElem_cons_zero] at hbyte
    exact ⟨rest, by rw [henc, hbyte]; rfl⟩
  have hdecode : ((String.utf8EncodeChar c).toByteArray ++ ByteArray.empty).utf8DecodeChar? 0 = some c :=
    ByteArray.utf8DecodeChar?_utf8EncodeChar_append
  rw [ByteArray.append_empty, hrest, List.toByteArray_append, ByteArray.utf8DecodeChar?_utf8EncodeChar_append] at hdecode
  exact h (Option.some.inj hdecode).symm

end Text

namespace Lines

/-! ### The starts of lines -/

/-- Offsets just past each line feed of some bytes that begin at `offset`. -/
def startsIn (offset : Nat) (bytes : List UInt8) : List Nat :=
  ((bytes.zipIdx offset).filter fun b => b.1 = 10).map fun b => b.2 + 1

theorem startsIn_cons (offset : Nat) (b : UInt8) (bs : List UInt8) :
    startsIn offset (b :: bs) =
      if b = 10 then (offset + 1) :: startsIn (offset + 1) bs else startsIn (offset + 1) bs := by
  by_cases hb : b = 10 <;> simp [startsIn, List.zipIdx_cons, hb]

theorem startsIn_append_of_not_mem {front : List UInt8} (h : 10 ∉ front) (bs : List UInt8) : ∀ offset,
    startsIn offset (front ++ bs) = startsIn (offset + front.length) bs := by
  induction front with
  | nil => exact fun offset => rfl
  | cons b front ih =>
    intro offset
    rw [List.mem_cons, not_or] at h
    rw [List.cons_append, startsIn_cons, if_neg fun hb => h.1 hb.symm, ih h.2, List.length_cons, Nat.add_assoc,
      Nat.add_comm 1]

/-- The starts of lines can be read off the characters or off the bytes. -/
theorem startsAfter_eq_startsIn (text : List Char) : ∀ offset,
    startsAfter offset text = startsIn offset (Text.bytes text) := by
  induction text with
  | nil => exact fun offset => rfl
  | cons c cs ih =>
    intro offset
    rw [startsAfter, Text.bytes_cons, ih, ih]
    split
    · next hc =>
      rw [hc, show String.utf8EncodeChar '\n' = [10] from rfl, List.singleton_append, startsIn_cons, if_pos rfl]
    · next hc => rw [startsIn_append_of_not_mem (Text.lineFeed_not_mem hc), String.length_utf8EncodeChar]

theorem starts_ofText (text : List Char) : (ofText text).starts = 0 :: startsIn 0 (Text.bytes text) := by
  rw [ofText, startsAfter_eq_startsIn]

theorem mem_startsIn_iff {start : Nat} {bs : List UInt8} :
    start ∈ startsIn 0 bs ↔ ∃ i, bs[i]? = some 10 ∧ i + 1 = start := by
  simp only [startsIn, List.mem_map, List.mem_filter, List.mem_zipIdx_iff_getElem?, decide_eq_true_eq]
  constructor
  · rintro ⟨⟨b, i⟩, ⟨hbyte, rfl⟩, rfl⟩
    exact ⟨i, hbyte, rfl⟩
  · rintro ⟨i, hbyte, rfl⟩
    exact ⟨(10, i), ⟨hbyte, rfl⟩, rfl⟩

theorem lt_of_mem_startsIn {start offset : Nat} {bs : List UInt8} (h : start ∈ startsIn offset bs) : offset < start := by
  obtain ⟨⟨b, i⟩, hmem, rfl⟩ := List.mem_map.mp h
  exact Nat.lt_succ_of_le (List.le_snd_of_mem_zipIdx (List.mem_filter.mp hmem).1)

theorem pairwise_startsIn (bs : List UInt8) : ∀ offset, (startsIn offset bs).Pairwise (· < ·) := by
  induction bs with
  | nil => exact fun offset => List.Pairwise.nil
  | cons b bs ih =>
    intro offset
    rw [startsIn_cons]
    split
    · exact List.pairwise_cons.mpr ⟨fun start hstart => lt_of_mem_startsIn hstart, ih (offset + 1)⟩
    · exact ih (offset + 1)

theorem pairwise_starts (text : List Char) : (ofText text).starts.Pairwise (· < ·) := by
  rw [starts_ofText, List.pairwise_cons]
  exact ⟨fun start hstart => lt_of_mem_startsIn hstart, pairwise_startsIn _ 0⟩

/-- The lines that start up to an offset are as many as the line feeds before it, apart from the first line. -/
theorem length_takeWhile_startsIn (bs : List UInt8) : ∀ offset n,
    ((startsIn offset bs).takeWhile (· ≤ offset + n)).length = (bs.take n).count 10 := by
  induction bs with
  | nil => simp [startsIn]
  | cons b bs ih =>
    intro offset n
    cases n with
    | zero =>
      cases hstarts : startsIn offset (b :: bs) with
      | nil => rfl
      | cons start starts =>
        have hlt := lt_of_mem_startsIn (hstarts ▸ List.mem_cons_self)
        rw [List.takeWhile_cons_of_neg (by simpa using hlt)]
        rfl
    | succ n =>
      rw [startsIn_cons, List.take_succ_cons, List.count_cons, ← Nat.add_assoc, Nat.add_right_comm, ← ih (offset + 1) n]
      split
      · next hb => simp [hb]
      · next hb => simp [hb]

/-! ### The place of an offset -/

/-- In an increasing list the entries up to a bound come first. -/
theorem lt_length_takeWhile_iff {starts : List Nat} (h : starts.Pairwise (· < ·)) (offset : Nat) : ∀ {i start : Nat},
    starts[i]? = some start → (i < (starts.takeWhile (· ≤ offset)).length ↔ start ≤ offset) := by
  induction starts with
  | nil => intro i start hi; cases hi
  | cons first starts ih =>
    intro i start hi
    rw [List.pairwise_cons] at h
    by_cases hfirst : first ≤ offset
    · rw [List.takeWhile_cons_of_pos (by simpa using hfirst), List.length_cons]
      cases i with
      | zero =>
        obtain rfl := Option.some.inj hi
        simp [hfirst]
      | succ i => rw [Nat.succ_lt_succ_iff, ih h.2 hi]
    · rw [List.takeWhile_cons_of_neg (by simpa using hfirst)]
      have hlarge : first ≤ start := by
        rcases List.mem_cons.mp (List.mem_of_getElem? hi) with rfl | hmem
        · exact Nat.le_refl _
        · exact Nat.le_of_lt (h.1 start hmem)
      simp only [List.length_nil, Nat.not_lt_zero, false_iff]
      omega

/-- A line and a column are those of an offset: the column leads from the start of the line to the offset, and the next
line, if there is one, starts behind the offset. -/
structure Places (lines : Lines) (offset : Nat) (place : Nat × Nat) : Prop where
  first : 1 ≤ place.1
  last : place.1 ≤ lines.starts.length
  column : ∃ start, lines.starts[place.1 - 1]? = some start ∧ start + place.2 = offset
  next : ∀ next, lines.starts[place.1]? = some next → offset < next

variable {text : List Char} {offset : Nat} {place : Nat × Nat}

theorem lt_length_upTo_iff {i start : Nat} (h : (ofText text).starts[i]? = some start) :
    i < ((ofText text).upTo offset).length ↔ start ≤ offset :=
  lt_length_takeWhile_iff (pairwise_starts text) offset h

/-- The line of an offset is the last that starts up to it. -/
theorem getElem?_startOf (text : List Char) (offset : Nat) :
    (ofText text).starts[((ofText text).upTo offset).length - 1]? = some ((ofText text).startOf offset) := by
  have hpos : 0 < ((ofText text).upTo offset).length := (lt_length_upTo_iff rfl).mpr (Nat.zero_le offset)
  obtain ⟨more, hstarts⟩ : (ofText text).upTo offset <+: (ofText text).starts := List.takeWhile_prefix _
  rw [startOf, List.getLastD_eq_getLast?, List.getLast?_eq_getElem?, ← hstarts, List.getElem?_append_left (by omega),
    List.getElem?_eq_getElem (by omega), Option.getD_some]

theorem places_lineCol (text : List Char) (offset : Nat) :
    Places (ofText text) offset ((ofText text).lineCol offset) := by
  have hstart := getElem?_startOf text offset
  have hpos : 0 < ((ofText text).upTo offset).length := (lt_length_upTo_iff rfl).mpr (Nat.zero_le offset)
  have hle : (ofText text).startOf offset ≤ offset := (lt_length_upTo_iff hstart).mp (by omega)
  refine ⟨hpos, (List.takeWhile_sublist _).length_le, ⟨_, hstart, Nat.add_sub_of_le hle⟩, fun next hnext => ?_⟩
  exact Nat.lt_of_not_le fun hbelow => Nat.lt_irrefl _ ((lt_length_upTo_iff hnext).mpr hbelow)

theorem Places.line_eq (h : Places (ofText text) offset place) : place.1 = ((ofText text).upTo offset).length := by
  obtain ⟨start, hstart, hcolumn⟩ := h.column
  have hfirst := h.first
  have hbelow := (lt_length_upTo_iff hstart).mpr (show start ≤ offset by omega)
  have hbound : ((ofText text).upTo offset).length ≤ (ofText text).starts.length := (List.takeWhile_sublist _).length_le
  have habove : ¬ place.1 < ((ofText text).upTo offset).length := by
    intro hlt
    have hnext : (ofText text).starts[place.1]? = some (ofText text).starts[place.1] :=
      List.getElem?_eq_getElem (by omega)
    exact absurd (h.next _ hnext) (Nat.not_lt.mpr ((lt_length_upTo_iff hnext).mp hlt))
  omega

/-- An offset has one place only. -/
theorem Places.eq_lineCol (h : Places (ofText text) offset place) : place = (ofText text).lineCol offset := by
  obtain ⟨start, hstart, hcolumn⟩ := h.column
  rw [h.line_eq, getElem?_startOf] at hstart
  refine Prod.ext h.line_eq ?_
  show place.2 = offset - (ofText text).startOf offset
  rw [Option.some.inj hstart]
  omega

/-- Places are in the order of the offsets, by line first and then by column. -/
theorem Places.lex {offset' : Nat} {place' : Nat × Nat} (h : Places (ofText text) offset place)
    (h' : Places (ofText text) offset' place') (hlt : offset < offset') :
    Prod.Lex (· < ·) (· < ·) place place' := by
  obtain ⟨start, hstart, hcolumn⟩ := h.column
  obtain ⟨start', hstart', hcolumn'⟩ := h'.column
  have hfirst := h.first
  have hbelow := (lt_length_upTo_iff hstart).mpr (show start ≤ offset' by omega)
  rw [← h'.line_eq] at hbelow
  rcases Nat.lt_or_eq_of_le (show place.1 ≤ place'.1 by omega) with hline | hline
  · exact Prod.lex_def.mpr (Or.inl hline)
  · rw [hline, hstart'] at hstart
    obtain rfl := Option.some.inj hstart
    exact Prod.lex_def.mpr (Or.inr ⟨hline, by omega⟩)

/-! ### Counting line feeds -/

theorem length_upTo (text : List Char) (offset : Nat) :
    ((ofText text).upTo offset).length = ((Text.bytes text).take offset).count 10 + 1 := by
  have hcount := length_takeWhile_startsIn (Text.bytes text) 0 offset
  rw [Nat.zero_add] at hcount
  rw [upTo, starts_ofText, List.takeWhile_cons_of_pos (by simp), List.length_cons, hcount]

/-- The line of an offset starts at the front of the text or behind a line feed. -/
theorem startOf_eq_zero_or (text : List Char) (offset : Nat) : (ofText text).startOf offset = 0 ∨
    (Text.bytes text)[(ofText text).startOf offset - 1]? = some 10 := by
  have hmem := List.mem_of_getElem? (getElem?_startOf text offset)
  rw [starts_ofText, List.mem_cons, mem_startsIn_iff] at hmem
  rcases hmem with hzero | ⟨i, hbyte, hi⟩
  · exact Or.inl hzero
  · exact Or.inr (by rw [← hi, Nat.add_sub_cancel, hbyte])

/-- No line feed stands between the start of the line of an offset and the offset. -/
theorem lineFeed_not_mem_drop (text : List Char) (offset : Nat) :
    10 ∉ ((Text.bytes text).take offset).drop ((ofText text).startOf offset) := by
  intro hmem
  obtain ⟨i, hi⟩ := List.mem_iff_getElem?.mp hmem
  rw [List.getElem?_drop, List.getElem?_take] at hi
  split at hi
  · next hlt =>
    -- the line behind it would start up to the offset, and later than the last line that does
    have hstart : (ofText text).startOf offset + i + 1 ∈ (ofText text).starts := by
      rw [starts_ofText, List.mem_cons, mem_startsIn_iff]
      exact Or.inr ⟨_, hi, rfl⟩
    obtain ⟨k, hk⟩ := List.mem_iff_getElem?.mp hstart
    have hbelow := (lt_length_upTo_iff hk).mpr hlt
    have hlater := mt (lt_length_upTo_iff hk).mp (show ¬ _ ≤ (ofText text).startOf offset by omega)
    have hlast := (lt_length_upTo_iff (getElem?_startOf text offset)).mpr (Nat.le_refl _)
    omega
  · cases hi

/-- Every offset has one place in the lines of a text. Its line is one more than the line feeds before the offset, and its
column counts the bytes behind the last of them. No two offsets share a place, and a later offset has a later place. -/
theorem lineCol_place (text : List Char) :
    (∀ offset, Places (ofText text) offset ((ofText text).lineCol offset) ∧
      (∀ place, Places (ofText text) offset place → place = (ofText text).lineCol offset) ∧
      ((ofText text).lineCol offset).1 = ((Text.bytes text).take offset).count 10 + 1 ∧
      ∃ start, start + ((ofText text).lineCol offset).2 = offset ∧
        (start = 0 ∨ (Text.bytes text)[start - 1]? = some 10) ∧ 10 ∉ ((Text.bytes text).take offset).drop start) ∧
    Function.Injective (ofText text).lineCol ∧
    ∀ offset offset', offset < offset' →
      Prod.Lex (· < ·) (· < ·) ((ofText text).lineCol offset) ((ofText text).lineCol offset') := by
  have hplaces := places_lineCol text
  have hlex : ∀ offset offset', offset < offset' →
      Prod.Lex (· < ·) (· < ·) ((ofText text).lineCol offset) ((ofText text).lineCol offset') :=
    fun offset offset' hlt => (hplaces offset).lex (hplaces offset') hlt
  refine ⟨fun offset => ⟨hplaces offset, fun place h => h.eq_lineCol, length_upTo text offset,
    (ofText text).startOf offset, ?_, startOf_eq_zero_or text offset, lineFeed_not_mem_drop text offset⟩, ?_, hlex⟩
  · obtain ⟨start, hstart, hcolumn⟩ := (hplaces offset).column
    rw [(hplaces offset).line_eq, getElem?_startOf] at hstart
    rwa [Option.some.inj hstart]
  · intro offset offset' heq
    obtain ⟨start, hstart, hcolumn⟩ := (hplaces offset).column
    obtain ⟨start', hstart', hcolumn'⟩ := (hplaces offset').column
    rw [heq, hstart'] at hstart
    rw [← hcolumn, ← hcolumn', Option.some.inj hstart, heq]

/-- Three lines, of which the second is empty, with characters of two and four bytes. -/
def accentText : List Char := "é\r\n\n😀".toList

/-- An offset behind the end of the text is on its last line; one inside a character comes before all of the next line. -/
theorem lineCol_place_accentText :
    Places (ofText accentText) 12 (3, 7) ∧ (3, 7) = (ofText accentText).lineCol 12 ∧
    Prod.Lex (· < ·) (· < ·) ((ofText accentText).lineCol 1) ((ofText accentText).lineCol 4) := by
  have hplace : Places (ofText accentText) 12 (3, 7) := by
    have hend : (ofText accentText).starts[3]? = none := by decide +kernel
    refine ⟨by decide, by decide +kernel, ⟨5, by decide +kernel, rfl⟩, fun next hnext => ?_⟩
    rw [hend] at hnext
    cases hnext
  exact ⟨hplace, ((lineCol_place accentText).1 12).2.1 (3, 7) hplace, (lineCol_place accentText).2.2 1 4 (by decide)⟩

end Lines

end WriteGuard
