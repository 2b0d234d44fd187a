import Mathlib.Data.List.DropRight
import WriteGuard.Proofs.LineColumns

/-!
The lines of a text and what they say. The pieces of a text between line feeds are its lines: the bytes of each line are
found from the starts of the lines, no cut goes through a character, and a line says its piece without the carriage
returns at the end. A line with another number, zero among them, says nothing.
-/

namespace WriteGuard

namespace Text

/-- A line of a text, between the whole lines before it and what follows it: nothing, or a line feed. -/
structure HasLine (text head line tail : List Char) : Prop where
  text_eq : text = head ++ line ++ tail
  whole : WholeLines head
  unbroken : '\n' ∉ line
  ended : ∀ c ∈ tail.head?, c = '\n'

variable {text head line tail : List Char}

theorem WholeLines.cons (h : WholeLines head) (c : Char) (hc : head ≠ [] ∨ c = '\n') : WholeLines (c :: head) := by
  rcases h with rfl | ⟨init, rfl⟩
  · obtain rfl := hc.resolve_left fun hne => hne rfl
    exact Or.inr ⟨[], rfl⟩
  · exact Or.inr ⟨c :: init, rfl⟩

/-- A text has a line behind any number of its line feeds. -/
theorem exists_hasLine (text : List Char) : ∀ {n : Nat}, n ≤ text.count '\n' →
    ∃ head line tail, HasLine text head line tail ∧ head.count '\n' = n := by
  induction text with
  | nil =>
    intro n hn
    exact ⟨[], [], [], ⟨rfl, Or.inl rfl, List.not_mem_nil, nofun⟩, (Nat.le_zero.mp hn).symm⟩
  | cons c cs ih =>
    intro n hn
    by_cases hc : c = '\n'
    · subst hc
      cases n with
      | zero =>
        exact ⟨[], [], '\n' :: cs, ⟨rfl, Or.inl rfl, List.not_mem_nil, fun d hd => (Option.some.inj hd).symm⟩, rfl⟩
      | succ n =>
        rw [List.count_cons_self] at hn
        obtain ⟨head, line, tail, h, hcount⟩ := ih (Nat.le_of_succ_le_succ hn)
        exact ⟨'\n' :: head, line, tail,
          ⟨congrArg ('\n' :: ·) h.text_eq, h.whole.cons '\n' (Or.inr rfl), h.unbroken, h.ended⟩,
          by rw [List.count_cons_self, hcount]⟩
    · rw [List.count_cons_of_ne hc] at hn
      obtain ⟨head, line, tail, h, hcount⟩ := ih hn
      by_cases hhead : head = []
      · -- the character is on the line that was found
        subst hhead
        refine ⟨[], c :: line, tail, ⟨congrArg (c :: ·) h.text_eq, Or.inl rfl, ?_, h.ended⟩, hcount⟩
        rw [List.mem_cons, not_or]
        exact ⟨fun heq => hc heq.symm, h.unbroken⟩
      · exact ⟨c :: head, line, tail,
          ⟨congrArg (c :: ·) h.text_eq, h.whole.cons c (Or.inl hhead), h.unbroken, h.ended⟩,
          by rw [List.count_cons_of_ne hc, hcount]⟩

theorem length_splitOn (text : List Char) : (text.splitOn '\n').length = text.count '\n' + 1 := by
  rw [← splitAt_eq_splitOn, length_splitAt]

/-- A line is the piece behind as many line feeds. -/
theorem HasLine.getElem?_splitOn (h : HasLine text head line tail) :
    (text.splitOn '\n')[head.count '\n']? = some line := by
  have hfirst : ((line ++ tail).splitOn '\n')[0]? = some line := by
    cases tail with
    | nil => rw [List.append_nil, List.splitOn_eq_singleton h.unbroken]; rfl
    | cons c tail =>
      obtain rfl := h.ended c rfl
      rw [List.splitOn_append_cons_self_of_not_mem h.unbroken]
      rfl
  rcases h.whole with rfl | ⟨init, rfl⟩
  · rw [h.text_eq]
    exact hfirst
  · have htext : text = init ++ '\n' :: (line ++ tail) := by
      rw [h.text_eq]
      simp
    have hcount : (init ++ ['\n']).count '\n' = (init.splitOn '\n').length := by
      rw [length_splitOn, List.count_append, List.count_singleton_self]
    rw [htext, List.splitOn_append_cons_self, hcount, List.getElem?_append_right (Nat.le_refl _), Nat.sub_self]
    exact hfirst

end Text

namespace Lines

open Text (HasLine)

variable {text head line tail : List Char}

/-! ### The bytes of a line -/

theorem starts_of_hasLine (h : HasLine text head line tail) : (ofText text).starts =
    (0 :: startsAfter 0 head) ++ startsAfter (Text.byteLength (head ++ line)) tail := by
  have hnone : startsAfter (Text.byteLength head) line = [] := by
    rw [← List.length_eq_zero_iff, length_startsAfter]
    exact List.count_eq_zero_of_not_mem h.unbroken
  rw [ofText, h.text_eq, startsAfter_append, startsAfter_append, Nat.zero_add, Nat.zero_add, hnone, List.append_nil,
    List.cons_append]

theorem length_starts_head (head : List Char) : (0 :: startsAfter 0 head).length = head.count '\n' + 1 := by
  rw [List.length_cons, length_startsAfter]

/-- A line starts behind the whole lines before it. -/
theorem getElem?_starts (h : HasLine text head line tail) :
    (ofText text).starts[head.count '\n']? = some (Text.byteLength head) := by
  have hlength := length_starts_head head
  rw [starts_of_hasLine h, List.getElem?_append_left (by omega)]
  rcases h.whole with rfl | ⟨init, rfl⟩
  · rfl
  · have hlast : 0 :: startsAfter 0 (init ++ ['\n']) =
        (0 :: startsAfter 0 init) ++ [Text.byteLength (init ++ ['\n'])] := by
      rw [startsAfter_append, startsAfter, if_pos rfl, startsAfter, Text.byteLength_append, Nat.zero_add]
      rfl
    have hcount : (init ++ ['\n']).count '\n' = (0 :: startsAfter 0 init).length := by
      rw [length_starts_head, List.count_append, List.count_singleton_self]
    rw [hlast, hcount, List.getElem?_concat_length]

/-- The next line starts behind the line feed that ends a line. -/
theorem getElem?_starts_succ (h : HasLine text head line tail) :
    (ofText text).starts[head.count '\n' + 1]? =
      if tail = [] then none else some (Text.byteLength (head ++ line) + 1) := by
  rw [starts_of_hasLine h, ← length_starts_head, List.getElem?_append_right (Nat.le_refl _), Nat.sub_self]
  cases tail with
  | nil => rfl
  | cons c tail =>
    obtain rfl := h.ended c rfl
    rfl

theorem lineSpan?_of_hasLine (h : HasLine text head line tail) : (ofText text).lineSpan? text (head.count '\n' + 1) =
    some ⟨Text.byteLength head, Text.byteLength (head ++ line)⟩ := by
  have hle : Text.byteLength head ≤ Text.byteLength (head ++ line) := by
    rw [Text.byteLength_append]
    omega
  rw [lineSpan?, getElem?_starts h, Option.map_some, getElem?_starts_succ h]
  cases tail with
  | nil =>
    have htext : Text.byteLength text = Text.byteLength (head ++ line) := by rw [h.text_eq, List.append_nil]
    rw [if_pos rfl]
    simp only [htext, Nat.max_eq_right hle]
  | cons c tail =>
    rw [if_neg (List.cons_ne_nil c tail)]
    simp only [Nat.add_sub_cancel, Nat.max_eq_right hle]

theorem slice?_of_hasLine (h : HasLine text head line tail) :
    Text.slice? text ⟨Text.byteLength head, Text.byteLength (head ++ line)⟩ = some line :=
  Text.slice?_eq_some_iff.mpr ⟨head, tail, h.text_eq, rfl, rfl⟩

theorem lineText_of_hasLine (h : HasLine text head line tail) :
    (ofText text).lineText text (head.count '\n' + 1) = withoutReturns line := by
  simp only [lineText, lineSpan?_of_hasLine h, Text.sliceD, slice?_of_hasLine h, Option.getD_some]

/-! ### Carriage returns at the end -/

theorem withoutReturns_append {core : List Char} (h : core.getLast? ≠ some '\r') (n : Nat) :
    withoutReturns (core ++ List.replicate n '\r') = core := by
  show (core ++ List.replicate n '\r').rdropWhile (· = '\r') = core
  induction n with
  | zero =>
    rw [List.replicate_zero, List.append_nil]
    refine List.rdropWhile_eq_self_iff.mpr fun hne hlast => h ?_
    rw [List.getLast?_eq_getLast_of_ne_nil hne, of_decide_eq_true hlast]
  | succ n ih => rw [List.replicate_succ', ← List.append_assoc, List.rdropWhile_concat_pos _ _ _ rfl, ih]

/-- All carriage returns at the end of a line are left out, and nothing else. -/
theorem withoutReturns_spec (line : List Char) :
    (∃ n, line = withoutReturns line ++ List.replicate n '\r') ∧ (withoutReturns line).getLast? ≠ some '\r' := by
  show (∃ n, line = line.rdropWhile (· = '\r') ++ _) ∧ (line.rdropWhile (· = '\r')).getLast? ≠ _
  constructor
  · have hreturns : line.rtakeWhile (· = '\r') = List.replicate (line.rtakeWhile (· = '\r')).length '\r' :=
      List.eq_replicate_of_mem fun c hc => by simpa using List.mem_rtakeWhile_imp hc
    exact ⟨_, by rw [← hreturns, List.rdropWhile_append_rtakeWhile]⟩
  · intro hlast
    obtain ⟨hne, hr⟩ := List.mem_getLast?_eq_getLast hlast
    exact List.rdropWhile_last_not _ _ hne (decide_eq_true hr.symm)

/-! ### The lines of a text -/

theorem lineText_of_lt {n : Nat} (h : text.count '\n' + 1 < n) : (ofText text).lineText text n = [] := by
  obtain ⟨n, rfl⟩ : ∃ k, n = k + 1 := ⟨n - 1, by omega⟩
  have hnone : (ofText text).starts[n]? = none := by
    rw [List.getElem?_eq_none_iff, ofText, length_starts_head]
    omega
  simp only [lineText, lineSpan?, hnone, Option.map_none]

/-- A number that is counted down from zero is the last word of 64 bits, and no line has this number. -/
theorem getElem?_starts_pred {n : UInt64} (h : (ofText text).starts.length < UInt64.size) :
    (ofText text).starts[(n - 1).toNat]? = ((ofText text).lineSpan? text n.toNat).map Span.start := by
  by_cases hn : n = 0
  · subst hn
    have hlast : ((0 : UInt64) - 1).toNat = UInt64.size - 1 := rfl
    rw [hlast, List.getElem?_eq_none (by omega)]
    rfl
  · have hpos : 0 < n.toNat := Nat.pos_of_ne_zero fun hzero => hn (UInt64.toNat_inj.mp hzero)
    obtain ⟨k, hk⟩ : ∃ k, n.toNat = k + 1 := ⟨n.toNat - 1, by omega⟩
    have hpred : (n - 1).toNat = k := by
      rw [UInt64.toNat_sub_of_le n 1 (UInt64.le_iff_toNat_le.mpr hpos), hk]
      rfl
    rw [hpred, hk, lineSpan?, Option.map_map]
    cases (ofText text).starts[k]? <;> rfl

/-- The pieces of a text between line feeds are its lines. They make up the text; the bytes of each are cut between
characters and end in front of the next line; and a line says its piece without the carriage returns at the end. A number
of no line says nothing, whether it is zero, which a word of 64 bits counts down to the last number, or too large. -/
theorem lineText_pieces (text : List Char) :
    ['\n'].intercalate (text.splitOn '\n') = text ∧
    (∀ n piece, (text.splitOn '\n')[n]? = some piece →
      ∃ span, (ofText text).lineSpan? text (n + 1) = some span ∧ Text.slice? text span = some piece ∧
        (∀ next, (ofText text).starts[n + 1]? = some next → span.stop + 1 = next) ∧
        (∃ returns, piece = (ofText text).lineText text (n + 1) ++ List.replicate returns '\r') ∧
        ((ofText text).lineText text (n + 1)).getLast? ≠ some '\r') ∧
    (∀ n, n = 0 ∨ (text.splitOn '\n').length < n → (ofText text).lineText text n = []) ∧
    ((ofText text).starts.length < UInt64.size → ∀ n : UInt64,
      (ofText text).starts[(n - 1).toNat]? = ((ofText text).lineSpan? text n.toNat).map Span.start) := by
  refine ⟨List.intercalate_splitOn '\n', ?_, ?_, fun h n => getElem?_starts_pred h⟩
  · intro n piece hpiece
    have hn : n ≤ text.count '\n' := by
      have hlt := (List.getElem?_eq_some_iff.mp hpiece).1
      rw [Text.length_splitOn] at hlt
      omega
    obtain ⟨head, line, tail, h, rfl⟩ := Text.exists_hasLine text hn
    obtain rfl := Option.some.inj (h.getElem?_splitOn.symm.trans hpiece)
    obtain ⟨hreturns, hlast⟩ := withoutReturns_spec line
    refine ⟨_, lineSpan?_of_hasLine h, slice?_of_hasLine h, ?_, ?_, ?_⟩
    · intro next hnext
      rw [getElem?_starts_succ h] at hnext
      split at hnext
      · cases hnext
      · exact Option.some.inj hnext
    · rwa [lineText_of_hasLine h]
    · rwa [lineText_of_hasLine h]
  · rintro n (rfl | hn)
    · rfl
    · rw [Text.length_splitOn] at hn
      exact lineText_of_lt hn

/-- Three lines: one that ends in carriage returns, an empty one, and one that ends with the text. -/
def returnsText : List Char := "é\r\r\n\na".toList

/-- The first line says its piece without the two carriage returns, and the least and the largest number no line. -/
theorem lineText_pieces_returnsText :
    (∃ span, (ofText returnsText).lineSpan? returnsText 1 = some span ∧
      Text.slice? returnsText span = some "é\r\r".toList ∧
      ∃ returns, "é\r\r".toList = (ofText returnsText).lineText returnsText 1 ++ List.replicate returns '\r') ∧
    (ofText returnsText).lineText returnsText (UInt64.size - 1) = [] ∧
    (ofText returnsText).starts[((0 : UInt64) - 1).toNat]? = none := by
  obtain ⟨-, hpieces, hnone, hword⟩ := lineText_pieces returnsText
  obtain ⟨span, hspan, hslice, -, hreturns, -⟩ := hpieces 0 "é\r\r".toList (by decide +kernel)
  exact ⟨⟨span, hspan, hslice, hreturns⟩, hnone (UInt64.size - 1) (Or.inr (by decide +kernel)), hword (by decide +kernel) 0⟩

end Lines

end WriteGuard
