import WriteGuard.Source.Grammar.Expression

/-!
Slashes in lexemes. Names, numbers, words and most signs hold no slash at all, and an operator holds one only as its
first character. So a comment cannot begin inside such a lexeme.
-/

namespace WriteGuard.Source.Scanner

/-- The first `n` characters of a text hold no slash. -/
def NoSlash (n : Nat) (text : List Char) : Prop := '/' ∉ text.take n

/-- No lexeme of the scanner holds a slash. -/
def Slashless (scan : Scanner) : Prop := ∀ text n, scan text = some n → NoSlash n text

/-- A lexeme of the scanner holds a slash at most as its first character. -/
def SlashFirst (scan : Scanner) : Prop := ∀ text n, scan text = some n → '/' ∉ (text.take n).tail

theorem Slashless.slashFirst {scan : Scanner} (h : Slashless scan) : SlashFirst scan :=
  fun text n hscan hmem => h text n hscan (List.mem_of_mem_tail hmem)

/-! ### Counted characters -/

namespace NoSlash

theorem zero (text : List Char) : NoSlash 0 text := by simp [NoSlash]

theorem nil (n : Nat) : NoSlash n [] := by simp [NoSlash]

theorem cons {c : Char} {n : Nat} {cs : List Char} (hc : c ≠ '/') (h : NoSlash n cs) : NoSlash (n + 1) (c :: cs) := by
  rw [NoSlash, List.take_succ_cons, List.mem_cons, not_or]
  exact ⟨hc.symm, h⟩

theorem add {m n : Nat} {text : List Char} (hm : NoSlash m text) (hn : NoSlash n (text.drop m)) :
    NoSlash (m + n) text := by
  rw [NoSlash, List.take_add, List.mem_append, not_or]
  exact ⟨hm, hn⟩

theorem mono {m n : Nat} {text : List Char} (hle : m ≤ n) (h : NoSlash n text) : NoSlash m text := by
  rw [NoSlash, ← Nat.min_eq_left hle, ← List.take_take]
  exact fun hmem => h (List.mem_of_mem_take hmem)

theorem sup {m n : Nat} {text : List Char} (hm : NoSlash m text) (hn : NoSlash n text) :
    NoSlash (max m n) text := by
  rcases Nat.le_total m n with hle | hle
  · rwa [Nat.max_eq_right hle]
  · rwa [Nat.max_eq_left hle]

/-- A character that the text has next. -/
theorem head (c : Char) {text : List Char} (hc : c ≠ '/') (h : text.head? = some c) : NoSlash 1 text := by
  obtain ⟨cs, rfl⟩ := List.head?_eq_some_iff.mp h
  exact cons hc (zero cs)

/-- A run of characters of a kind that slashes are not of. -/
theorem runLength {p : Char → Bool} (hp : p '/' = false) : ∀ text : List Char, NoSlash (runLength p text) text
  | [] => nil _
  | c :: cs => by
      rw [Scanner.runLength]
      split
      · next hc =>
        refine cons ?_ (runLength hp cs)
        rintro rfl
        rw [hp] at hc
        cases hc
      · exact zero _

/-- A fixed text without slashes. -/
theorem of_isPrefixOf {s : String} {text : List Char} (hs : '/' ∉ s.toList) (h : s.toList.isPrefixOf text = true) :
    NoSlash s.length text := by
  obtain ⟨rest, rfl⟩ := List.isPrefixOf_iff_prefix.mp h
  rw [NoSlash, ← String.length_toList, List.take_left]
  exact hs

end NoSlash

/-! ### Fixed texts -/

theorem slashless_exactly {s : String} (hs : '/' ∉ s.toList) : Slashless (exactly s) := by
  intro text n h
  rw [exactly] at h
  split at h
  · next hpre =>
    rw [← Option.some.inj h]
    exact .of_isPrefixOf hs hpre
  · cases h

theorem slashFirst_exactly {s : String} (hs : '/' ∉ s.toList.tail) : SlashFirst (exactly s) := by
  intro text n h
  rw [exactly] at h
  split at h
  · next hpre =>
    obtain ⟨rest, rfl⟩ := List.isPrefixOf_iff_prefix.mp hpre
    rw [← Option.some.inj h, ← String.length_toList, List.take_left]
    exact hs
  · cases h

theorem slashless_word {s : String} (hs : '/' ∉ s.toList) : Slashless (word s) := by
  intro text n h
  rw [word] at h
  split at h
  · next hpre =>
    split at h
    · rw [← Option.some.inj h]
      exact .of_isPrefixOf hs hpre
    · split at h
      · cases h
      · rw [← Option.some.inj h]
        exact .of_isPrefixOf hs hpre
  · cases h

/-- Of the operators only division and the assignment made from it have a slash, as their first character. -/
theorem slashFirst_operator (s : String) : SlashFirst (operator s) := by
  intro text n h
  rw [operator] at h
  split at h
  · next hat =>
    have hs : ∀ t ∈ operators, '/' ∉ t.toList.tail := by decide
    refine slashFirst_exactly (hs s (List.mem_of_find?_eq_some hat)) text n ?_
    rw [exactly, if_pos (List.find?_some hat), h]
  · cases h

theorem SlashFirst.oneOf {scanners : List Scanner} (h : ∀ scan ∈ scanners, SlashFirst scan) :
    SlashFirst (oneOf scanners) := by
  intro text n hscan
  obtain ⟨scan, hmem, hfound⟩ := List.exists_of_findSome?_eq_some hscan
  exact h scan hmem text n hfound

/-! ### Names -/

theorem slashless_nameEscape : Slashless nameEscape := by
  intro text n h
  rw [nameEscape.eq_def] at h
  split at h
  · next rest =>
    dsimp only at h
    split at h
    · next hclosed =>
      have hbrace : (rest.drop (runLength isHex rest)).head? = some '\x7d' := (by simpa using hclosed : _ ∧ _).2
      rw [← Option.some.inj h]
      have hdigits : NoSlash (runLength isHex rest + 1) rest := .add (.runLength (by decide) rest) (.head '\x7d' (by decide) hbrace)
      exact .cons (by decide) (.cons (by decide) (.cons (by decide) hdigits))
    · cases h
  · next a b c d _ _ =>
    split at h
    · next hhex =>
      simp only [Bool.and_eq_true] at hhex
      rw [← Option.some.inj h]
      have hne : ∀ x : Char, isHex x = true → x ≠ '/' := by
        rintro x hx rfl
        revert hx
        decide
      exact .cons (by decide) (.cons (by decide) (.cons (hne a hhex.1.1.1) (.cons (hne b hhex.1.1.2)
        (.cons (hne c hhex.1.2) (.cons (hne d hhex.2) (.zero _))))))
    · cases h
  · cases h

theorem noSlash_nameRest : ∀ (fuel : Nat) (text : List Char), NoSlash (nameRest fuel text) text
  | 0, text => .zero text
  | _ + 1, [] => .nil _
  | fuel + 1, c :: cs => by
      rw [nameRest]
      split
      · next hc =>
        refine .cons ?_ (noSlash_nameRest fuel cs)
        rintro rfl
        revert hc
        decide
      · split
        · next n hescape =>
          rw [Nat.add_comm]
          exact .add (slashless_nameEscape _ n hescape) (noSlash_nameRest fuel _)
        · exact .zero _

theorem slashless_name : Slashless name := by
  intro text n h
  rw [name.eq_def] at h
  split at h
  · cases h
  · next c cs =>
    split at h
    · next hc =>
      rw [← Option.some.inj h]
      refine .cons ?_ (noSlash_nameRest _ cs)
      rintro rfl
      revert hc
      decide
    · obtain ⟨m, hescape, rfl⟩ := Option.map_eq_some_iff.mp h
      rw [Nat.add_comm]
      exact .add (slashless_nameEscape _ m hescape) (noSlash_nameRest _ _)

theorem Slashless.butNot {scan : Scanner} (words : List String) (h : Slashless scan) : Slashless (butNot words scan) := by
  intro text n hscan
  rw [Scanner.butNot] at hscan
  split at hscan
  · cases hscan
  · next m hm =>
    split at hscan
    · cases hscan
    · rw [← Option.some.inj hscan]
      exact h text m hm

theorem slashless_identifier : Slashless identifier := slashless_name.butNot reserved

theorem slashless_privateName : Slashless privateName := by
  intro text n h
  rw [privateName.eq_def] at h
  split at h
  · next rest =>
    obtain ⟨m, hm, rfl⟩ := Option.map_eq_some_iff.mp h
    exact .cons (by decide) (slashless_name rest m hm)
  · cases h

theorem lastLineEnd_le {text : List Char} {k : Nat} (h : lastLineEnd text = some k) : k ≤ runLength isSpace text := by
  rw [lastLineEnd] at h
  split at h
  · cases h
  · rw [← Option.some.inj h]
    calc _ ≤ (text.take (runLength isSpace text)).reverse.length := (List.dropWhile_sublist _).length_le
      _ ≤ runLength isSpace text := by simp only [List.length_reverse, List.length_take, Nat.min_le_left]

theorem slashless_staticGetter : Slashless staticGetter := by
  intro text n h
  rw [staticGetter] at h
  split at h
  · next gap hstatic hgap =>
    dsimp only at h
    split at h
    · next hget =>
      obtain ⟨k, hk, rfl⟩ := Option.map_eq_some_iff.mp h
      have hspaces : NoSlash (gap + 1) (text.drop 6) := by
        rw [← Nat.succ_eq_add_one, ← hgap]
        exact .runLength (by decide) _
      have hlines : NoSlash k ((text.drop (6 + (gap + 1))).drop 3) :=
        .mono (lastLineEnd_le hk) (.runLength (by decide) _)
      have hfront : NoSlash (6 + (gap + 1)) text := .add (.of_isPrefixOf (by decide) hstatic) hspaces
      have hboth : NoSlash (6 + (gap + 1) + 3) text := .add hfront (.of_isPrefixOf (by decide) hget)
      exact .add hboth (by rwa [← List.drop_drop])
    · cases h
  · cases h

/-! ### Numbers -/

section Numbers

variable {p : Char → Bool}

theorem noSlash_moreDigits (hp : p '/' = false) (text : List Char) : NoSlash (moreDigits p text) text := by
  have hne : ∀ c, p c = true → c ≠ '/' := by
    rintro c hc rfl
    rw [hp] at hc
    cases hc
  fun_induction moreDigits p text with
  | case1 d cs hd ih => exact .cons (by decide) (.cons (hne d hd) ih)
  | case2 => exact .zero _
  | case3 d cs _ hd ih => exact .cons (hne d hd) ih
  | case4 => exact .zero _
  | case5 => exact .zero _

theorem noSlash_digits (hp : p '/' = false) : ∀ text : List Char, NoSlash (digits p text) text
  | [] => .nil _
  | c :: cs => by
      rw [digits]
      split
      · next hc =>
        refine .cons ?_ (noSlash_moreDigits hp cs)
        rintro rfl
        rw [hp] at hc
        cases hc
      · exact .zero _

theorem noSlash_marked {low high : Char} (hlow : low ≠ '/') (hhigh : high ≠ '/') (hp : p '/' = false)
    (text : List Char) : NoSlash (marked low high p text) text := by
  rw [marked.eq_def]
  split
  · next x rest =>
    split
    · next hx =>
      have hne : x ≠ '/' := by
        rcases (by simpa using hx : x = low ∨ x = high) with rfl | rfl
        · exact hlow
        · exact hhigh
      split
      · exact .zero _
      · exact .cons (by decide) (.cons hne (noSlash_digits hp rest))
    · exact .zero _
  · exact .zero _

end Numbers

theorem noSlash_exponent : ∀ text : List Char, NoSlash (exponent text) text
  | [] => .nil _
  | e :: rest => by
      rw [exponent.eq_def]
      dsimp only
      split
      · next he =>
        have hne : e ≠ '/' := by
          rintro rfl
          revert he
          decide
        split
        · exact .zero _
        · refine .cons hne ?_
          rw [Nat.add_comm]
          refine .add ?_ (noSlash_digits (by decide) _)
          split
          · exact .head '+' (by decide) rfl
          · exact .head '-' (by decide) rfl
          · exact .zero _
      · exact .zero _

theorem noSlash_wholePart (text : List Char) : NoSlash (wholePart text) text := by
  rw [wholePart.eq_def]
  split
  · split
    · exact .cons (by decide) (noSlash_digits (by decide) _)
    · exact .head '0' (by decide) rfl
  · exact noSlash_digits (by decide) _

theorem noSlash_decimal {n : Nat} {text : List Char} (hn : NoSlash n text) : NoSlash (decimal n text) text := by
  rw [decimal]
  split
  · next rest hrest =>
    dsimp only
    split
    · exact .zero _
    · have hpoint : NoSlash (n + 1) text := .add hn (.head '.' (by decide) (by rw [hrest]; rfl))
      have hdrop : text.drop (n + 1) = rest := by rw [← List.drop_drop, hrest, List.drop_succ_cons, List.drop_zero]
      have hfraction : NoSlash (n + 1 + digits Char.isDigit rest) text :=
        .add hpoint (by rw [hdrop]; exact noSlash_digits (by decide) rest)
      refine .add hfraction ?_
      rw [← List.drop_drop, hdrop]
      exact noSlash_exponent _
  · split
    · exact .zero _
    · split
      · exact .zero _
      · exact .add hn (noSlash_exponent _)

theorem noSlash_big {n : Nat} {text : List Char} (hn : NoSlash n text) : NoSlash (big n text) text := by
  rw [big]
  split
  · next hmark => exact .add hn (.head 'n' (by decide) (by simpa using hmark : _ ∧ _).2)
  · exact hn

theorem slashless_number : Slashless number := by
  intro text n h
  have hreadings : NoSlash ([big (marked 'x' 'X' isHex text) text,
      big (marked 'b' 'B' (fun c => c = '0' || c = '1') text) text,
      big (marked 'o' 'O' (fun c => '0' ≤ c && c ≤ '7') text) text, big (digits Char.isDigit text) text,
      decimal (wholePart text) text].foldl max 0) text := by
    refine .sup (.sup (.sup (.sup (.sup (.zero text) ?_) ?_) ?_) ?_) ?_
    · exact noSlash_big (noSlash_marked (by decide) (by decide) (by decide) text)
    · exact noSlash_big (noSlash_marked (by decide) (by decide) (by decide) text)
    · exact noSlash_big (noSlash_marked (by decide) (by decide) (by decide) text)
    · exact noSlash_big (noSlash_digits (by decide) text)
    · exact noSlash_decimal (noSlash_wholePart text)
  rw [number] at h
  split at h
  · cases h
  · rw [← Option.some.inj h]
    exact hreadings

/-! ### Markup and the marks of expressions -/

theorem slashless_markupName : Slashless markupName := by
  intro text n h
  rw [markupName] at h
  split at h
  · cases h
  · next m hm =>
    have hname : NoSlash m text := slashless_identifier text m hm
    split at h
    · next rest hrest =>
      rw [← Option.some.inj h]
      have hhyphen : NoSlash (m + 1) text := .add hname (.head '-' (by decide) (by rw [hrest]; rfl))
      refine .add hhyphen ?_
      rw [← List.drop_drop, hrest]
      exact .runLength (by decide) rest
    · rw [← Option.some.inj h]
      exact hname

/-- A character by its number, after a mark for the kind of its digits. -/
theorem noSlash_numbered {p : Char → Bool} {mark most n : Nat} {rest : List Char} (hmark : NoSlash mark rest)
    (hp : p '/' = false) (h : (let m := runLength p (rest.drop mark)
      if 0 < m && m ≤ most && (rest.drop (mark + m)).head? = some ';' then some (m + mark + 3) else none) = some n) :
    NoSlash n ('&' :: '#' :: rest) := by
  dsimp only at h
  split at h
  · next hclosed =>
    have hsemicolon : (rest.drop (mark + runLength p (rest.drop mark))).head? = some ';' :=
      (by simpa using hclosed : _ ∧ _).2
    have hdigits : NoSlash (mark + runLength p (rest.drop mark)) rest := .add hmark (.runLength hp _)
    rw [← Option.some.inj h, Nat.add_comm _ mark]
    exact .cons (by decide) (.cons (by decide) (.add hdigits (.head ';' (by decide) hsemicolon)))
  · cases h

theorem slashless_entity : Slashless entity := by
  intro text n h
  rw [entity.eq_def] at h
  split at h
  · next rest =>
    split at h
    · next mark p most hform =>
      split at hform
      · obtain ⟨rfl, rfl, -⟩ := hform
        exact noSlash_numbered (.head 'x' (by decide) rfl) (by decide) h
      · obtain ⟨rfl, rfl, -⟩ := hform
        exact noSlash_numbered (.head 'X' (by decide) rfl) (by decide) h
      · obtain ⟨rfl, rfl, -⟩ := hform
        exact noSlash_numbered (.zero rest) (by decide) h
  · next rest _ =>
    dsimp only at h
    split at h
    · next hclosed =>
      have hsemicolon : (rest.drop (runLength Char.isAlpha rest)).head? = some ';' := (by simpa using hclosed : _ ∧ _).2
      rw [← Option.some.inj h]
      exact .cons (by decide) (.add (.runLength (by decide) rest) (.head ';' (by decide) hsemicolon))
    · cases h
  · cases h

theorem slashless_questionMark : Slashless Grammar.questionMark := by
  intro text n h
  rw [Grammar.questionMark.eq_def] at h
  split at h
  · cases h
  · split at h
    · rw [← Option.some.inj h]
      exact .head '?' (by decide) rfl
    · cases h
  · rw [← Option.some.inj h]
    exact .head '?' (by decide) rfl
  · cases h

theorem slashless_chainMark : Slashless Grammar.chainMark := by
  intro text n h
  rw [Grammar.chainMark.eq_def] at h
  split at h
  · split at h
    · cases h
    · rw [← Option.some.inj h]
      exact .cons (by decide) (.head '.' (by decide) rfl)
  · cases h

end WriteGuard.Source.Scanner
