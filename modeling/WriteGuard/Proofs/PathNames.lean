import WriteGuard.Files.Path

/-!
Paths and the names in them. The text of a path says which names it goes through; its parent goes through all but the
last of them, and a name joined to it through one more. Slashes and single dots between the names do not count.
-/

namespace WriteGuard.Path

/-- Whether a text between slashes is more than nothing or a dot. -/
def isName (name : List Char) : Bool := name ≠ [] && name ≠ ['.']

/-- The names of a path, without the dots that say nothing. -/
def names (path : List Char) : List (List Char) := ((split [] 0 path).map Piece.name).filter isName

theorem isName_eq (name : List Char) : (name = [] || name = ['.']) = !isName name := by
  by_cases hempty : name = [] <;> by_cases hdot : name = ['.'] <;> simp [isName, hempty, hdot]

/-! ### Texts between slashes -/

theorem split_ne_nil (taken : List Char) (offset : Nat) (text : List Char) : split taken offset text ≠ [] := by
  induction text generalizing taken offset with
  | nil => simp [split]
  | cons c cs ih =>
    rw [split]
    split
    · simp
    · exact ih (c :: taken) (offset + 1)

/-- The front of a text up to the end of a piece has the pieces up to that one. -/
theorem split_take {text taken : List Char} {offset : Nat} {xs ys : List Piece} {p : Piece}
    (h : split taken offset text = xs ++ p :: ys) :
    offset ≤ p.stop ∧ split taken offset (text.take (p.stop - offset)) = xs ++ [p] := by
  induction text generalizing taken offset xs with
  | nil =>
    rw [split] at h
    cases xs with
    | nil =>
      obtain ⟨rfl, -⟩ := List.cons.inj h
      simp [split]
    | cons x xs => simp at h
  | cons c cs ih =>
    rw [split] at h
    split at h
    · next hc =>
      cases xs with
      | nil =>
        obtain ⟨rfl, -⟩ := List.cons.inj h
        simp [split]
      | cons x xs =>
        obtain ⟨rfl, hrest⟩ := List.cons.inj h
        obtain ⟨hle, hsplit⟩ := ih hrest
        refine ⟨by omega, ?_⟩
        rw [show p.stop - offset = (p.stop - (offset + 1)) + 1 by omega, List.take_succ_cons, split, if_pos hc, hsplit,
          List.cons_append]
    · next hc =>
      obtain ⟨hle, hsplit⟩ := ih h
      refine ⟨by omega, ?_⟩
      rw [show p.stop - offset = (p.stop - (offset + 1)) + 1 by omega, List.take_succ_cons, split, if_neg hc, hsplit]

/-- A piece ends at least as far from the start as it is long. -/
theorem length_name_le {text taken : List Char} {offset : Nat} {p : Piece} (h : p ∈ split taken offset text) :
    p.name.length + offset ≤ p.stop + taken.length := by
  induction text generalizing taken offset with
  | nil =>
    rw [split, List.mem_singleton] at h
    simp [h, Nat.add_comm]
  | cons c cs ih =>
    rw [split] at h
    split at h
    · rcases List.mem_cons.mp h with rfl | h
      · simp [Nat.add_comm]
      · have := ih h
        simp only [List.length_nil] at this
        omega
    · have := ih h
      simp only [List.length_cons] at this
      omega

/-- A slash ends one piece and begins another. -/
theorem split_append_slash (taken : List Char) (offset : Nat) (text more : List Char) :
    split taken offset (text ++ '/' :: more) = split taken offset text ++ split [] (offset + text.length + 1) more := by
  induction text generalizing taken offset with
  | nil => simp [split]
  | cons c cs ih =>
    rw [List.cons_append, split, split]
    split
    · rw [ih, List.cons_append, List.length_cons, show offset + 1 + cs.length + 1 = offset + (cs.length + 1) + 1 by omega]
    · rw [ih, List.length_cons, show offset + 1 + cs.length + 1 = offset + (cs.length + 1) + 1 by omega]

/-- A text without slashes is one piece. -/
theorem split_of_not_mem {name : List Char} (h : '/' ∉ name) (taken : List Char) (offset : Nat) :
    split taken offset name = [⟨taken.reverse ++ name, offset + name.length⟩] := by
  induction name generalizing taken offset with
  | nil => simp [split]
  | cons c cs ih =>
    rw [List.mem_cons, not_or] at h
    rw [split, if_neg (Ne.symm h.1), ih h.2]
    simp only [List.reverse_cons, List.append_assoc, List.singleton_append, List.length_cons, Nat.add_comm 1,
      Nat.add_assoc]

/-! ### Parents -/

/-- The names of a path are those of its pieces, without a dot in front. -/
theorem names_eq_pieces (path : List Char) : names path = ((pieces path).map Piece.name).filter isName := by
  rw [names, pieces]
  cases hsplit : split [] 0 path with
  | nil => rfl
  | cons first rest =>
    have hrest : (rest.map Piece.name).filter isName =
        ((rest.filter fun p => p.name ≠ [] && p.name ≠ ['.']).map Piece.name).filter isName := by
      rw [List.filter_map, List.filter_map, List.filter_filter]
      congr 1
      refine List.filter_congr fun p _ => ?_
      simp [isName, Function.comp]
    by_cases hfirst : first.name = []
    · simp only [hfirst, List.map_cons, if_true]
      rw [List.filter_cons, hrest]
      simp [isName]
    · simp only [hfirst, List.map_cons, if_false, List.filter_cons]
      rw [hrest]

/-- The front of a path up to the end of a piece goes through the pieces up to that one. -/
theorem pieces_take {path : List Char} {xs ys : List Piece} {p : Piece} (h : pieces path = xs ++ p :: ys) :
    pieces (path.take p.stop) = xs ++ [p] := by
  obtain ⟨first, rest, hsplit⟩ := List.exists_cons_of_ne_nil (split_ne_nil [] 0 path)
  -- wherever the piece stands among all texts between slashes, the pieces behind it are cut off
  have htail : ∀ {zs : List Piece}, (rest.filter fun q => q.name ≠ [] && q.name ≠ ['.']) = zs ++ p :: ys →
      ∃ us, split [] 0 (path.take p.stop) = first :: us ∧
        (us.filter fun q => q.name ≠ [] && q.name ≠ ['.']) = zs ++ [p] := by
    intro zs hzs
    obtain ⟨us, vs, rfl, hus, hvs⟩ := List.filter_eq_append_iff.mp hzs
    obtain ⟨ws, ws', rfl, hws, hp, -⟩ := List.filter_eq_cons_iff.mp hvs
    have hall : split [] 0 path = (first :: (us ++ ws)) ++ p :: ws' := by
      rw [hsplit]
      simp
    refine ⟨us ++ ws ++ [p], ?_, ?_⟩
    · simpa using (split_take hall).2
    · rw [List.filter_append, List.filter_append, hus, List.filter_eq_nil_iff.mpr hws, List.append_nil]
      simp only [List.filter_cons, hp, if_true, List.filter_nil]
  rw [pieces, hsplit] at h
  by_cases hfirst : first.name = []
  · simp only [hfirst, if_true] at h
    obtain ⟨us, hcut, hus⟩ := htail h
    simp only [pieces, hcut, hfirst, if_true]
    exact hus
  · simp only [hfirst, if_false] at h
    cases xs with
    | nil =>
      obtain ⟨rfl, -⟩ := List.cons.inj h
      have hall : split [] 0 path = [] ++ first :: rest := hsplit
      have hcut := (split_take hall).2
      rw [Nat.sub_zero, List.nil_append] at hcut
      simp [pieces, hcut, hfirst]
    | cons x xs =>
      obtain ⟨rfl, hrest⟩ := List.cons.inj h
      obtain ⟨us, hcut, hus⟩ := htail hrest
      simp only [pieces, hcut, hfirst, if_false]
      rw [hus]
      rfl

theorem isAbsolute_take {path : List Char} {n : Nat} (h : 0 < n) : isAbsolute (path.take n) = isAbsolute path := by
  obtain ⟨m, rfl⟩ := Nat.exists_eq_succ_of_ne_zero (Nat.ne_of_gt h)
  cases path <;> simp [isAbsolute]

theorem stop_pos {path : List Char} {p : Piece} (h : p ∈ pieces path) : 0 < p.stop := by
  obtain ⟨first, rest, hsplit⟩ := List.exists_cons_of_ne_nil (split_ne_nil [] 0 path)
  have hmem : p ∈ split [] 0 path ∧ p.name ≠ [] := by
    rw [pieces, hsplit] at h
    rw [hsplit]
    by_cases hfirst : first.name = []
    · simp only [hfirst, if_true, List.mem_filter, Bool.and_eq_true, decide_eq_true_eq] at h
      exact ⟨List.mem_cons_of_mem first h.1, h.2.1⟩
    · simp only [hfirst, if_false, List.mem_cons, List.mem_filter, Bool.and_eq_true, decide_eq_true_eq] at h
      rcases h with rfl | h
      · exact ⟨List.mem_cons_self, hfirst⟩
      · exact ⟨List.mem_cons_of_mem first h.1, h.2.1⟩
  have hle := length_name_le hmem.1
  have hpos := List.length_pos_iff.mpr hmem.2
  simp only [List.length_nil] at hle
  omega

theorem parent?_eq_none {path : List Char} (h : parent? path = none) : pieces path = [] := by
  rw [parent?] at h
  split at h
  · next hrev => exact List.reverse_eq_nil_iff.mp hrev
  · split at h <;> cases h

/-- The parent of a path goes through all of its pieces but the last, and starts where the path starts. -/
theorem parent?_eq_some {path parent : List Char} (h : parent? path = some parent) :
    (∃ last, pieces path = pieces parent ++ [last]) ∧ isAbsolute parent = isAbsolute path := by
  rw [parent?] at h
  split at h
  · cases h
  · next last front hrev =>
    have hpieces : pieces path = front.reverse ++ [last] := by
      rw [← List.reverse_reverse (pieces path), hrev, List.reverse_cons]
    split at h
    · next p more =>
      obtain rfl := Option.some.inj h
      have hsplit : pieces path = more.reverse ++ p :: [last] := by rw [hpieces]; simp
      have hmem : p ∈ pieces path := by rw [hsplit]; simp
      exact ⟨⟨last, by rw [pieces_take hsplit, hpieces, List.reverse_cons]⟩, isAbsolute_take (stop_pos hmem)⟩
    · obtain rfl := Option.some.inj h
      refine ⟨⟨last, ?_⟩, ?_⟩
      · rw [hpieces]
        cases isAbsolute path <;> rfl
      · cases isAbsolute path <;> rfl

/-- Only the first piece of a path can be a dot. -/
theorem isName_of_pieces {path : List Char} {xs : List Piece} {p : Piece} (h : pieces path = xs ++ [p]) (hne : xs ≠ []) :
    isName p.name = true := by
  obtain ⟨first, rest, hsplit⟩ := List.exists_cons_of_ne_nil (split_ne_nil [] 0 path)
  rw [pieces, hsplit] at h
  have hkept : p ∈ rest.filter fun q => q.name ≠ [] && q.name ≠ ['.'] := by
    by_cases hfirst : first.name = []
    · simp only [hfirst, if_true] at h
      rw [h]
      simp
    · simp only [hfirst, if_false] at h
      obtain ⟨x, xs, rfl⟩ := List.exists_cons_of_ne_nil hne
      rw [(List.cons.inj h).2]
      simp
  exact (List.mem_filter.mp hkept).2

theorem countP_split_le (taken : List Char) (offset : Nat) (text : List Char) :
    (split taken offset text).countP (fun p => !p.name.isEmpty) ≤ taken.length + text.length := by
  induction text generalizing taken offset with
  | nil => cases taken <;> simp [split]
  | cons c cs ih =>
    rw [split]
    split
    · have hrest := ih [] (offset + 1)
      simp only [List.length_nil] at hrest
      rw [List.countP_cons, List.length_cons]
      cases taken with
      | nil => simp only [List.reverse_nil, List.isEmpty_nil, Bool.not_true, Bool.false_eq_true, if_false]; omega
      | cons d ds => rw [List.length_cons]; split <;> omega
    · have hrest := ih (c :: taken) (offset + 1)
      simp only [List.length_cons] at hrest ⊢
      omega

/-- A path has no more pieces than characters. -/
theorem length_pieces_le (path : List Char) : (pieces path).length ≤ path.length := by
  have hcount := countP_split_le [] 0 path
  rw [List.length_nil, Nat.zero_add] at hcount
  refine Nat.le_trans ?_ hcount
  rw [pieces]
  cases split [] 0 path with
  | nil => exact Nat.zero_le _
  | cons first rest =>
    have hrest : (rest.filter fun p => p.name ≠ [] && p.name ≠ ['.']).length ≤
        rest.countP fun p => !p.name.isEmpty := by
      rw [← List.countP_eq_length_filter]
      refine List.countP_mono_left ?_
      intro p _ hp
      simp only [Bool.and_eq_true, decide_eq_true_eq] at hp
      simpa using hp.1
    rw [List.countP_cons]
    by_cases hfirst : first.name = []
    · simp only [hfirst, if_true]
      omega
    · have hkept : (!first.name.isEmpty) = true := by simpa using hfirst
      simp only [hfirst, if_false, hkept, if_true, List.length_cons]
      omega

/-! ### Joins -/

/-- A name joined to a path comes after its names, and the path starts where it did. -/
theorem join_name {name : List Char} (hname : isName name = true) (hslash : '/' ∉ name) (path : List Char) :
    (∃ front, (split [] 0 (join path name)).map Piece.name = front ++ [name] ∧ front.filter isName = names path) ∧
      isAbsolute (join path name) = isAbsolute path ∧ join path name ≠ [] := by
  have hrelative : isAbsolute name = false := by
    cases name with
    | nil => rfl
    | cons c cs =>
      rw [List.mem_cons, not_or] at hslash
      simp [isAbsolute, Ne.symm hslash.1]
  have hne : name ≠ [] := by
    rintro rfl
    cases hname
  rw [join, hrelative, if_neg Bool.false_ne_true]
  by_cases hempty : path = []
  · refine ⟨⟨[], ?_, ?_⟩, ?_, ?_⟩
    · simp [hempty, split_of_not_mem hslash]
    · simp [hempty, names, split, isName]
    · rw [if_pos hempty, hrelative, hempty]
      rfl
    · rw [if_pos hempty]
      exact hne
  · rw [if_neg hempty]
    obtain ⟨c, cs, rfl⟩ := List.exists_cons_of_ne_nil hempty
    by_cases hlast : (c :: cs).getLast? = some '/'
    · obtain ⟨front, hfront⟩ := List.getLast?_eq_some_iff.mp hlast
      rw [if_pos hlast, hfront, List.append_assoc, List.singleton_append]
      refine ⟨⟨(split [] 0 front).map Piece.name, ?_, ?_⟩, ?_, by simp⟩
      · rw [split_append_slash, split_of_not_mem hslash]
        simp
      · rw [names, split_append_slash]
        simp [split, isName]
      · cases front <;> rfl
    · rw [if_neg hlast]
      refine ⟨⟨(split [] 0 (c :: cs)).map Piece.name, ?_, rfl⟩, rfl, by simp⟩
      rw [split_append_slash, split_of_not_mem hslash]
      simp

end WriteGuard.Path
