import WriteGuard.Source.Edit

/-!
Cuts of a text at byte offsets. A cut exists exactly where the text is two texts one after the other, the first of that
many bytes; so a piece between two offsets splits the text in three, and an edit keeps what stands on both sides.
-/

namespace WriteGuard

namespace Text

theorem byteLength_append : ∀ xs ys : List Char, byteLength (xs ++ ys) = byteLength xs + byteLength ys
  | [], ys => by rw [List.nil_append, byteLength, Nat.zero_add]
  | c :: cs, ys => by rw [List.cons_append, byteLength, byteLength, byteLength_append cs ys, Nat.add_assoc]

theorem eq_nil_of_byteLength {cs : List Char} (h : byteLength cs = 0) : cs = [] := by
  cases cs with
  | nil => rfl
  | cons c cs =>
    have hpos := c.utf8Size_pos
    rw [byteLength] at h
    omega

theorem dropBytes?_byteLength (rest : List Char) : ∀ front : List Char,
    dropBytes? (byteLength front) (front ++ rest) = some rest
  | [] => by rw [byteLength, List.nil_append, dropBytes?]
  | c :: cs => by
      obtain ⟨n, hn⟩ : ∃ n, byteLength (c :: cs) = n + 1 :=
        Nat.exists_eq_succ_of_ne_zero fun h => List.cons_ne_nil c cs (eq_nil_of_byteLength h)
      have hsum : c.utf8Size + byteLength cs = n + 1 := hn
      rw [hn, List.cons_append, dropBytes?, if_pos (by omega), show n + 1 - c.utf8Size = byteLength cs by omega]
      exact dropBytes?_byteLength rest cs

theorem takeBytes?_byteLength (rest : List Char) : ∀ front : List Char,
    takeBytes? (byteLength front) (front ++ rest) = some front
  | [] => by rw [byteLength, List.nil_append, takeBytes?]
  | c :: cs => by
      obtain ⟨n, hn⟩ : ∃ n, byteLength (c :: cs) = n + 1 :=
        Nat.exists_eq_succ_of_ne_zero fun h => List.cons_ne_nil c cs (eq_nil_of_byteLength h)
      have hsum : c.utf8Size + byteLength cs = n + 1 := hn
      rw [hn, List.cons_append, takeBytes?, if_pos (by omega), show n + 1 - c.utf8Size = byteLength cs by omega,
        takeBytes?_byteLength rest cs, Option.map_some]

/-- The text after a cut is what is left of the text behind a first part of that many bytes. -/
theorem dropBytes?_eq_some_iff {n : Nat} {cs rest : List Char} :
    dropBytes? n cs = some rest ↔ ∃ front, cs = front ++ rest ∧ byteLength front = n := by
  constructor
  · intro h
    induction n, cs using dropBytes?.induct with
    | case1 cs =>
      rw [dropBytes?] at h
      exact ⟨[], Option.some.inj h, rfl⟩
    | case2 n => cases h
    | case3 n c cs hle ih =>
      rw [dropBytes?, if_pos hle] at h
      obtain ⟨front, rfl, hlen⟩ := ih h
      exact ⟨c :: front, rfl, by rw [byteLength, hlen]; omega⟩
    | case4 n c cs hle =>
      rw [dropBytes?, if_neg hle] at h
      cases h
  · rintro ⟨front, rfl, rfl⟩
    exact dropBytes?_byteLength rest front

/-- The text before a cut is the first part of the text of that many bytes. -/
theorem takeBytes?_eq_some_iff {n : Nat} {cs front : List Char} :
    takeBytes? n cs = some front ↔ ∃ rest, cs = front ++ rest ∧ byteLength front = n := by
  constructor
  · intro h
    induction n, cs using takeBytes?.induct generalizing front with
    | case1 cs =>
      rw [takeBytes?] at h
      cases Option.some.inj h
      exact ⟨cs, rfl, rfl⟩
    | case2 n => cases h
    | case3 n c cs hle ih =>
      rw [takeBytes?, if_pos hle] at h
      obtain ⟨front', hfront, rfl⟩ := Option.map_eq_some_iff.mp h
      obtain ⟨rest, rfl, hlen⟩ := ih hfront
      exact ⟨rest, rfl, by rw [byteLength, hlen]; omega⟩
    | case4 n c cs hle =>
      rw [takeBytes?, if_neg hle] at h
      cases h
  · rintro ⟨rest, rfl, rfl⟩
    exact takeBytes?_byteLength rest front

/-- The piece of a text at a range is what stands between the texts before and after it. -/
theorem slice?_eq_some_iff {cs piece : List Char} {s : Span} :
    slice? cs s = some piece ↔ ∃ before after, cs = before ++ piece ++ after ∧ byteLength before = s.start ∧
      byteLength (before ++ piece) = s.stop := by
  rw [slice?]
  constructor
  · intro h
    split at h
    · obtain ⟨rest, hdrop, htake⟩ := Option.bind_eq_some_iff.mp h
      obtain ⟨before, rfl, hbefore⟩ := dropBytes?_eq_some_iff.mp hdrop
      obtain ⟨after, rfl, hpiece⟩ := takeBytes?_eq_some_iff.mp htake
      exact ⟨before, after, by rw [List.append_assoc], hbefore, by rw [byteLength_append]; omega⟩
    · cases h
  · rintro ⟨before, after, rfl, hbefore, hstop⟩
    rw [byteLength_append] at hstop
    rw [if_pos (by omega), List.append_assoc, ← hbefore, dropBytes?_byteLength, Option.bind_some,
      show s.stop - byteLength before = byteLength piece by omega, takeBytes?_byteLength]

theorem slice?_of_sliceD {cs piece : List Char} {s : Span} (h : sliceD cs s = piece) (hne : piece ≠ []) :
    slice? cs s = some piece := by
  rw [sliceD] at h
  cases hs : slice? cs s with
  | none => exact absurd (by rw [← h, hs]; rfl) hne
  | some p => rw [← h, hs, Option.getD_some]

theorem start_lt_stop_of_sliceD {cs : List Char} {s : Span} (h : sliceD cs s ≠ []) : s.start < s.stop := by
  obtain ⟨before, after, -, hstart, hstop⟩ := slice?_eq_some_iff.mp (slice?_of_sliceD rfl h)
  have hpiece : byteLength (sliceD cs s) ≠ 0 := fun hzero => h (eq_nil_of_byteLength hzero)
  rw [byteLength_append] at hstop
  omega

end Text

/-- An edit of the middle of a text keeps both ends. -/
theorem TextEdit.apply_eq (e : TextEdit) {before middle : List Char} (after : List Char)
    (hstart : Text.byteLength before = e.range.start) (hstop : Text.byteLength (before ++ middle) = e.range.stop) :
    e.apply (before ++ middle ++ after) = before ++ e.newText.toList ++ after := by
  have htake : Text.takeBytes? e.range.start (before ++ middle ++ after) = some before := by
    rw [← hstart, List.append_assoc, Text.takeBytes?_byteLength]
  have hdrop : Text.dropBytes? e.range.stop (before ++ middle ++ after) = some after := by
    rw [← hstop, Text.dropBytes?_byteLength]
  have hle : e.range.start ≤ e.range.stop := by
    rw [← hstart, ← hstop, Text.byteLength_append]
    omega
  simp only [TextEdit.apply, htake, hdrop, hle, if_true]

/-- An insertion in front of a token leaves the text before and after its start as it was. -/
theorem TextEdit.apply_insertBefore {token : Token} (text : String) {before after : List Char}
    (h : Text.byteLength before = token.span.start) :
    (TextEdit.insertBefore token text).apply (before ++ after) = before ++ text.toList ++ after := by
  have hstop : Text.byteLength (before ++ []) = token.span.start := by rw [List.append_nil, h]
  have happly := apply_eq (.insertBefore token text) after h hstop
  rw [List.append_nil] at happly
  exact happly

end WriteGuard
