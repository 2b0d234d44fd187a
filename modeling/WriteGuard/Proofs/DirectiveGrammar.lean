import Mathlib.Data.List.Sort
import WriteGuard.Proofs.DirectivePlaces

/-!
The grammar of directives. A directive is a piece of the text with one of three forms; of pieces that overlap, the one
that begins first counts. `Directive.ofText` gives one directive for each piece that counts, in the order of the text,
and the rules of each are the parts of its list.
-/

namespace WriteGuard

namespace Text

/-! ### Runs, parts and blanks -/

theorem after?_eq_some_iff {front : String} {text rest : List Char} :
    after? front text = some rest ↔ text = front.toList ++ rest := by
  refine ⟨after?_eq_some, ?_⟩
  rintro rfl
  rw [after?, if_pos (List.isPrefixOf_iff_prefix.mpr (List.prefix_append ..)), ← String.length_toList, List.drop_left]

/-- The front of a text that has only characters of a sort, up to the first other character. -/
theorem takeWhile_dropWhile_iff {sort : Char → Bool} {text run rest : List Char} :
    text.takeWhile sort = run ∧ text.dropWhile sort = rest ↔
      text = run ++ rest ∧ (∀ c ∈ run, sort c = true) ∧ ∀ c ∈ rest.head?, sort c = false := by
  constructor
  · rintro ⟨rfl, rfl⟩
    refine ⟨List.takeWhile_append_dropWhile.symm, List.all_eq_true.mp List.all_takeWhile, fun c hc => ?_⟩
    have hnot := List.head?_dropWhile_not sort text
    rwa [Option.mem_def.mp hc] at hnot
  · rintro ⟨rfl, hrun, hrest⟩
    rw [List.takeWhile_append_of_pos hrun, List.dropWhile_append_of_pos hrun]
    cases rest with
    | nil => simp
    | cons c cs => simp [hrest c rfl]

theorem exists_run {sort : Char → Bool} {text rest : List Char} (h : text.dropWhile sort = rest) :
    ∃ run, text = run ++ rest ∧ (∀ c ∈ run, sort c = true) ∧ ∀ c ∈ rest.head?, sort c = false :=
  ⟨_, takeWhile_dropWhile_iff.mp ⟨rfl, h⟩⟩

/-- The parts of a text between separators. -/
def Divides (separator : Char) (text : List Char) (parts : List (List Char)) : Prop :=
  parts ≠ [] ∧ (∀ part ∈ parts, separator ∉ part) ∧ [separator].intercalate parts = text

/-- A text has only white space. -/
def Blank (text : List Char) : Prop := ∀ c ∈ text, isWhite c = true

/-- One text is another without the white space around it. -/
def Trimmed (text core : List Char) : Prop :=
  ∃ before after, text = before ++ core ++ after ∧ Blank before ∧ Blank after ∧
    (∀ c ∈ core.head?, isWhite c = false) ∧ ∀ c ∈ core.getLast?, isWhite c = false

theorem divides_splitAt (separator : Char) : ∀ text : List Char, Divides separator text (splitAt separator text)
  | [] => by simp [Divides, splitAt]
  | c :: cs => by
      obtain ⟨hne, hparts, hjoin⟩ := divides_splitAt separator cs
      obtain ⟨part, parts, heq⟩ := List.exists_cons_of_ne_nil hne
      rw [heq] at hparts hjoin
      rw [splitAt, heq]
      split
      · next hc =>
        refine ⟨List.cons_ne_nil _ _, ?_, ?_⟩
        · simpa using hparts
        · rw [List.intercalate_cons_cons, hjoin, hc]
          rfl
      · next hc =>
        refine ⟨List.cons_ne_nil _ _, ?_, ?_⟩
        · rw [List.forall_mem_cons] at hparts ⊢
          exact ⟨by simp [Ne.symm hc, hparts.1], hparts.2⟩
        · rw [← hjoin]
          cases parts with
          | nil => simp
          | cons next parts => simp [List.intercalate_cons_cons]

theorem trimEnd_eq_iff {text core : List Char} : trimEnd text = core ↔
    ∃ after, text = core ++ after ∧ Blank after ∧ ∀ c ∈ core.getLast?, isWhite c = false := by
  constructor
  · rintro rfl
    obtain ⟨run, htext, hblank, hlast⟩ := exists_run (Eq.refl (text.reverse.dropWhile isWhite))
    refine ⟨run.reverse, ?_, fun c hc => hblank c (List.mem_reverse.mp hc), ?_⟩
    · rw [trimEnd, ← List.reverse_append, ← htext, List.reverse_reverse]
    · rwa [trimEnd, List.getLast?_reverse]
  · rintro ⟨after, rfl, hblank, hlast⟩
    have hrun : ((core ++ after).reverse.dropWhile isWhite) = core.reverse :=
      (takeWhile_dropWhile_iff.mpr ⟨List.reverse_append, fun c hc => hblank c (List.mem_reverse.mp hc),
        by rwa [List.head?_reverse]⟩).2
    rw [trimEnd, hrun, List.reverse_reverse]

theorem trim_eq_iff {text core : List Char} : trim text = core ↔ Trimmed text core := by
  constructor
  · intro h
    obtain ⟨run, htext, hblank, hfirst⟩ := exists_run (Eq.refl (text.dropWhile isWhite))
    obtain ⟨after, hbody, hafter, hlast⟩ := trimEnd_eq_iff.mp h
    refine ⟨run, after, ?_, hblank, hafter, fun c hc => hfirst c ?_, hlast⟩
    · rw [List.append_assoc, ← hbody, ← htext]
    · rw [hbody, List.head?_append, Option.mem_def.mp hc]
      rfl
  · rintro ⟨before, after, rfl, hbefore, hafter, hfirst, hlast⟩
    cases core with
    | nil =>
      -- then all of the text is white space
      have hall : (before ++ [] ++ after).dropWhile isWhite = [] := by
        rw [List.append_nil, List.dropWhile_append_of_pos hbefore]
        exact (takeWhile_dropWhile_iff.mpr ⟨(List.append_nil after).symm, hafter, nofun⟩).2
      rw [trim, hall]
      rfl
    | cons c cs =>
      have hfront : (before ++ (c :: cs) ++ after).dropWhile isWhite = c :: cs ++ after :=
        (takeWhile_dropWhile_iff.mpr ⟨List.append_assoc .., hbefore, fun d hd => hfirst d hd⟩).2
      rw [trim, hfront]
      exact trimEnd_eq_iff.mpr ⟨after, rfl, hafter, hlast⟩

theorem trim_eq_nil_iff {text : List Char} : trim text = [] ↔ Blank text := by
  rw [trim_eq_iff]
  constructor
  · rintro ⟨before, after, rfl, hbefore, hafter, -, -⟩
    simpa [Blank, or_imp, forall_and] using ⟨hbefore, hafter⟩
  · intro h
    exact ⟨text, [], by simp, h, nofun, nofun, nofun⟩

end Text

namespace Directive

/-! ### The form of a directive -/

/-- The words of a directive, by the lines it is about. -/
def words : DirectiveScope → String
  | .file => "firestore-lint-disable"
  | .line => "firestore-lint-disable-line"
  | .nextLine => "firestore-lint-disable-next-line"

/-- A piece of a text has the form of a directive, with what follows it. About one line it goes on to the end of the
line; about the file it ends with its comment. -/
inductive Form : List Char → Match → Prop
  | line {scope : DirectiveScope} {blanks list rest : List Char} (hscope : scope ≠ .file)
      (hblanks : ∀ c ∈ blanks, c = ' ' ∨ c = '\t') (hwords : ∀ c ∈ (list ++ rest).head?, Text.isWord c = false)
      (hlist : ∀ c ∈ list, c ≠ '\r' ∧ c ≠ '\n') (hrest : ∀ c ∈ rest.head?, c = '\r' ∨ c = '\n') :
      Form ("//".toList ++ blanks ++ (words scope).toList ++ list) ⟨scope, list, rest⟩
  | bare {blanks rest : List Char} (hblanks : Text.Blank blanks) :
      Form ("/*".toList ++ blanks ++ (words .file).toList ++ "*/".toList) ⟨.file, [], rest⟩
  | block {blanks list rest : List Char} {space : Char} (hblanks : Text.Blank blanks)
      (hspace : Text.isWhite space = true) (hlist : '*' ∉ list) :
      Form ("/*".toList ++ blanks ++ (words .file).toList ++ space :: list ++ "*/".toList) ⟨.file, list, rest⟩

theorem Form.ne_nil {piece : List Char} {m : Match} (h : Form piece m) : piece ≠ [] := by
  cases h <;> simp

theorem wordsEnd_iff {rest : List Char} : wordsEnd rest = true ↔ ∀ c ∈ rest.head?, Text.isWord c = false := by
  cases rest <;> simp [wordsEnd]

/-- The words of a directive come after some blanks, none of which they begin with. -/
theorem dropWhile_words {blank : Char → Bool} {blanks rest : List Char} (scope : DirectiveScope)
    (hblanks : ∀ c ∈ blanks, blank c = true) (hfirst : blank 'f' = false) :
    (blanks ++ ((words scope).toList ++ rest)).dropWhile blank = (words scope).toList ++ rest := by
  refine (Text.takeWhile_dropWhile_iff.mpr ⟨rfl, hblanks, fun c hc => ?_⟩).2
  have hc : c = 'f' := by cases scope <;> simpa [words, eq_comm] using hc
  rw [hc, hfirst]

theorem toList_words_line : (words .line).toList = "firestore-lint-".toList ++ "disable-line".toList := by
  simp [words]

theorem toList_words_nextLine : (words .nextLine).toList = "firestore-lint-".toList ++ "disable-next-line".toList := by
  simp [words]

/-- The words of a directive about one line, behind what all directives begin with. -/
theorem afterWords_eq_some_iff {text rest : List Char} {scope : DirectiveScope} :
    ((Text.after? "disable-next-line" text).map (DirectiveScope.nextLine, ·)).or
      ((Text.after? "disable-line" text).map (DirectiveScope.line, ·)) = some (scope, rest) ↔
    scope ≠ .file ∧ "firestore-lint-".toList ++ text = (words scope).toList ++ rest := by
  constructor
  · intro h
    rcases Option.or_eq_some_iff.mp h with hnext | ⟨-, hline⟩
    · obtain ⟨rest, hrest, ⟨⟩⟩ := Option.map_eq_some_iff.mp hnext
      exact ⟨nofun, by rw [Text.after?_eq_some hrest, toList_words_nextLine, List.append_assoc]⟩
    · obtain ⟨rest, hrest, ⟨⟩⟩ := Option.map_eq_some_iff.mp hline
      exact ⟨nofun, by rw [Text.after?_eq_some hrest, toList_words_line, List.append_assoc]⟩
  · rintro ⟨hscope, htext⟩
    cases scope with
    | file => exact absurd rfl hscope
    | line =>
      rw [toList_words_line, List.append_assoc] at htext
      have hline := List.append_cancel_left htext
      have hnext : Text.after? "disable-next-line" text = none := by
        rw [hline]
        simp [Text.after?]
      rw [hnext, Text.after?_eq_some_iff.mpr hline]
      rfl
    | nextLine =>
      rw [toList_words_nextLine, List.append_assoc] at htext
      rw [Text.after?_eq_some_iff.mpr (List.append_cancel_left htext)]
      rfl

theorem lineMatch?_eq_some_iff {text : List Char} {m : Match} :
    lineMatch? text = some m ↔ m.scope ≠ .file ∧ ∃ piece, text = piece ++ m.rest ∧ Form piece m := by
  constructor
  · intro h
    rw [lineMatch?] at h
    split at h
    · cases h
    · next body hmark =>
      split at h
      · cases h
      · next tail hlint =>
        dsimp only at h
        split at h
        · cases h
        · next scope behind hfound =>
          split at h
          · next hend =>
            obtain ⟨hscope, hwords⟩ := afterWords_eq_some_iff.mp hfound
            obtain ⟨blanks, rfl, hblanks, -⟩ := Text.exists_run (Text.after?_eq_some hlint)
            generalize hlist : behind.takeWhile _ = list at h
            generalize hrest : behind.dropWhile _ = rest at h
            obtain ⟨rfl, hlist, hrest⟩ := Text.takeWhile_dropWhile_iff.mp ⟨hlist, hrest⟩
            obtain rfl := Option.some.inj h
            refine ⟨hscope, _, ?_,
              .line hscope (by simpa using hblanks) (wordsEnd_iff.mp hend) (by simpa using hlist) ?_⟩
            · rw [Text.after?_eq_some hmark, hwords]
              simp only [List.append_assoc]
            · intro c hc
              simpa [Classical.or_iff_not_imp_left] using hrest c hc
          · cases h
  · rintro ⟨hscope, piece, rfl, hform⟩
    cases hform with
    | bare => exact absurd rfl hscope
    | block => exact absurd rfl hscope
    | @line scope blanks list rest _ hblanks hwords hlist hrest =>
      have hmark : Text.after? "//" ("//".toList ++ blanks ++ (words scope).toList ++ list ++ rest) =
          some (blanks ++ ((words scope).toList ++ (list ++ rest))) :=
        Text.after?_eq_some_iff.mpr (by simp only [List.append_assoc])
      obtain ⟨tail, htail⟩ : ∃ tail, (words scope).toList ++ (list ++ rest) = "firestore-lint-".toList ++ tail := by
        cases scope with
        | file => exact absurd rfl hscope
        | line => exact ⟨_, by rw [toList_words_line, List.append_assoc]⟩
        | nextLine => exact ⟨_, by rw [toList_words_nextLine, List.append_assoc]⟩
      have hskip : (blanks ++ ((words scope).toList ++ (list ++ rest))).dropWhile (fun c => c = ' ' || c = '\t') =
          (words scope).toList ++ (list ++ rest) := dropWhile_words scope (by simpa using hblanks) rfl
      have hfound := afterWords_eq_some_iff.mpr ⟨hscope, htail.symm⟩
      obtain ⟨hline, hbehind⟩ : (list ++ rest).takeWhile (fun c => c ≠ '\r' && c ≠ '\n') = list ∧
          (list ++ rest).dropWhile (fun c => c ≠ '\r' && c ≠ '\n') = rest :=
        Text.takeWhile_dropWhile_iff.mpr ⟨rfl, by simpa using hlist, fun c hc => by
          rcases hrest c hc with rfl | rfl <;> rfl⟩
      simp only [lineMatch?, hmark, hskip, Text.after?_eq_some_iff.mpr htail, hfound, wordsEnd_iff.mpr hwords, if_true,
        hline, hbehind]

/-- What a directive about the file goes on with behind its words. -/
theorem blockMatch?_words {blanks behind : List Char} (hblanks : Text.Blank blanks) :
    blockMatch? ("/*".toList ++ blanks ++ (words .file).toList ++ behind) =
      match behind with
      | [] => none
      | c :: cs =>
        if Text.isWhite c then (Text.after? "*/" (cs.dropWhile (· ≠ '*'))).map (⟨.file, cs.takeWhile (· ≠ '*'), ·⟩)
        else (Text.after? "*/" (c :: cs)).map (⟨.file, [], ·⟩) := by
  have hmark : Text.after? "/*" ("/*".toList ++ blanks ++ (words .file).toList ++ behind) =
      some (blanks ++ ((words .file).toList ++ behind)) :=
    Text.after?_eq_some_iff.mpr (by simp only [List.append_assoc])
  have hwords : Text.after? "firestore-lint-disable" ((words .file).toList ++ behind) = some behind :=
    Text.after?_eq_some_iff.mpr rfl
  simp only [blockMatch?, hmark, dropWhile_words .file hblanks rfl, hwords]
  cases behind <;> rfl

theorem blockMatch?_eq_some_iff {text : List Char} {m : Match} :
    blockMatch? text = some m ↔ m.scope = .file ∧ ∃ piece, text = piece ++ m.rest ∧ Form piece m := by
  constructor
  · intro h
    rw [blockMatch?] at h
    split at h
    · cases h
    · next body hmark =>
      split at h
      · cases h
      · next behind hwords =>
        obtain ⟨blanks, rfl, hblanks, -⟩ := Text.exists_run (Text.after?_eq_some hwords)
        have hfile : "firestore-lint-disable" = words .file := rfl
        rw [Text.after?_eq_some hmark, hfile]
        split at h
        · cases h
        · next space tail =>
          split at h
          · next hspace =>
            obtain ⟨rest, hrest, rfl⟩ := Option.map_eq_some_iff.mp h
            generalize hlist : tail.takeWhile _ = list
            obtain ⟨rfl, hlist, -⟩ := Text.takeWhile_dropWhile_iff.mp ⟨hlist, Text.after?_eq_some hrest⟩
            refine ⟨rfl, _, ?_, .block hblanks hspace fun hstar => by simpa using hlist '*' hstar⟩
            simp only [List.append_assoc, List.cons_append]
          · obtain ⟨rest, hrest, rfl⟩ := Option.map_eq_some_iff.mp h
            refine ⟨rfl, _, ?_, .bare hblanks⟩
            rw [Text.after?_eq_some hrest]
            simp only [List.append_assoc]
  · rintro ⟨hscope, piece, rfl, hform⟩
    cases hform with
    | line h => exact absurd hscope h
    | @bare blanks rest hblanks =>
      rw [List.append_assoc, blockMatch?_words hblanks]
      rfl
    | @block blanks list rest space hblanks hspace hlist =>
      obtain ⟨htake, hdrop⟩ : (list ++ ("*/".toList ++ rest)).takeWhile (· ≠ '*') = list ∧
          (list ++ ("*/".toList ++ rest)).dropWhile (· ≠ '*') = "*/".toList ++ rest :=
        Text.takeWhile_dropWhile_iff.mpr ⟨rfl, fun c hc => decide_eq_true fun h : c = '*' => hlist (h ▸ hc),
          fun c hc => by obtain rfl := Option.some.inj hc; rfl⟩
      rw [List.append_assoc, List.append_assoc, List.cons_append, blockMatch?_words hblanks]
      simp only [hspace, if_true, htake, hdrop, Text.after?_eq_some_iff.mpr rfl, Option.map_some]

theorem match?_eq_some_iff {text : List Char} {m : Match} :
    match? text = some m ↔ ∃ piece, text = piece ++ m.rest ∧ Form piece m := by
  rw [match?, Option.or_eq_some_iff, lineMatch?_eq_some_iff, blockMatch?_eq_some_iff]
  constructor
  · rintro (⟨-, h⟩ | ⟨-, -, h⟩) <;> exact h
  · intro h
    by_cases hscope : m.scope = .file
    · refine Or.inr ⟨?_, hscope, h⟩
      -- the mark of the comment tells the two forms apart
      obtain ⟨piece, rfl, hform⟩ := h
      cases hform with
      | line hne => exact absurd hscope hne
      | bare => rfl
      | block => rfl
    · exact Or.inl ⟨hscope, h⟩

/-! ### From left to right -/

/-- A piece of a text with what stands before it, and the directive it makes. -/
structure Occurrence extends Match where
  before : List Char
  piece : List Char

namespace Occurrence

/-- The number of characters up to the end of the piece. -/
def stop (o : Occurrence) : Nat := o.before.length + o.piece.length

/-- The piece stands in a text, and has the form of a directive there. -/
def In (o : Occurrence) (text : List Char) : Prop :=
  text = o.before ++ (o.piece ++ o.rest) ∧ Form o.piece o.toMatch

variable {o o' : Occurrence} {text : List Char}

theorem In.lt_stop (h : o.In text) : o.before.length < o.stop :=
  Nat.lt_add_of_pos_right (List.length_pos_iff.mpr h.2.ne_nil)

theorem In.stop_le (h : o.In text) : o.stop ≤ text.length := by
  rw [h.1, stop, List.length_append, List.length_append]
  omega

/-- One directive at most begins at a place. -/
theorem In.eq (h : o.In text) (h' : o'.In text) (hbegin : o.before.length = o'.before.length) : o = o' := by
  obtain ⟨m, before, piece⟩ := o
  obtain ⟨m', before', piece'⟩ := o'
  obtain ⟨rfl, hbehind⟩ := List.append_inj (h.1.symm.trans h'.1) hbegin
  have hm : match? (piece ++ m.rest) = some m := match?_eq_some_iff.mpr ⟨piece, rfl, h.2⟩
  have hm' : match? (piece ++ m.rest) = some m' := match?_eq_some_iff.mpr ⟨piece', hbehind, h'.2⟩
  obtain rfl : m = m' := Option.some.inj (hm.symm.trans hm')
  obtain rfl : piece = piece' := List.append_cancel_right hbehind
  rfl

/-- A directive is found at each place where one begins. -/
theorem In.match? {before behind : List Char} (h : o.In (before ++ behind)) (hbegin : o.before.length = before.length) :
    match? behind = some o.toMatch := by
  obtain ⟨-, rfl⟩ := List.append_inj h.1 hbegin.symm
  exact match?_eq_some_iff.mpr ⟨o.piece, rfl, h.2⟩

end Occurrence

/-- The directives of a text from a place on, of which none begins inside another: a piece with the form of a directive
is left out only where it begins inside one of them. -/
structure Leftmost (start : Nat) (text : List Char) (os : List Occurrence) : Prop where
  stands : ∀ o ∈ os, o.In text ∧ start ≤ o.before.length
  apart : os.Pairwise fun o o' => o.stop ≤ o'.before.length
  left_out : ∀ o, o.In text → start ≤ o.before.length → o ∉ os →
    ∃ o' ∈ os, o'.before.length < o.before.length ∧ o.before.length < o'.stop

namespace Leftmost

variable {start : Nat} {text : List Char} {os os' : List Occurrence}

theorem nil (h : text.length ≤ start) : Leftmost start text [] where
  stands := nofun
  apart := List.Pairwise.nil
  left_out o ho hstart := by
    have := ho.lt_stop
    have := ho.stop_le
    omega

theorem skip (h : Leftmost (start + 1) text os) (hnone : ∀ o : Occurrence, o.In text → o.before.length ≠ start) :
    Leftmost start text os where
  stands o ho := ⟨(h.stands o ho).1, Nat.le_of_succ_le (h.stands o ho).2⟩
  apart := h.apart
  left_out o ho hstart hout := h.left_out o ho (Nat.lt_of_le_of_ne hstart (hnone o ho).symm) hout

theorem cons {o : Occurrence} (ho : o.In text) (h : Leftmost o.stop text os) :
    Leftmost o.before.length text (o :: os) where
  stands o' ho' := by
    rcases List.mem_cons.mp ho' with rfl | ho'
    · exact ⟨ho, Nat.le_refl _⟩
    · have := ho.lt_stop
      have := (h.stands o' ho').2
      exact ⟨(h.stands o' ho').1, by omega⟩
  apart := List.pairwise_cons.mpr ⟨fun o' ho' => (h.stands o' ho').2, h.apart⟩
  left_out o' ho' hstart hout := by
    rw [List.mem_cons, not_or] at hout
    have hne : o.before.length ≠ o'.before.length := fun heq => hout.1 (ho.eq ho' heq).symm
    by_cases hstop : o'.before.length < o.stop
    · exact ⟨o, List.mem_cons_self, by omega, hstop⟩
    · obtain ⟨inner, hinner, hplace⟩ := h.left_out o' ho' (by omega) hout.2
      exact ⟨inner, List.mem_cons_of_mem o hinner, hplace⟩

/-- The directives that begin before a place decide whether one begins there. -/
theorem mem_iff (h : Leftmost start text os) {o : Occurrence} : o ∈ os ↔ o.In text ∧ start ≤ o.before.length ∧
    ∀ o' ∈ os, o'.before.length < o.before.length → o'.stop ≤ o.before.length := by
  constructor
  · intro ho
    refine ⟨(h.stands o ho).1, (h.stands o ho).2, fun o' ho' hlt => ?_⟩
    have hlast := (h.stands o ho).1.lt_stop
    obtain ⟨earlier, later, rfl⟩ := List.append_of_mem ho
    obtain ⟨-, hlater, hearlier⟩ := List.pairwise_append.mp h.apart
    rcases List.mem_append.mp ho' with ho' | ho'
    · exact hearlier o' ho' o List.mem_cons_self
    · rcases List.mem_cons.mp ho' with rfl | ho'
      · exact absurd hlt (Nat.lt_irrefl _)
      · have := (List.pairwise_cons.mp hlater).1 o' ho'
        omega
  · rintro ⟨hin, hstart, hapart⟩
    by_contra hout
    obtain ⟨o', ho', hlt, hstop⟩ := h.left_out o hin hstart hout
    have := hapart o' ho' hlt
    omega

theorem begins (h : Leftmost start text os) : os.Pairwise fun o o' => o.before.length < o'.before.length :=
  h.apart.imp_of_mem fun ho _ hstop => Nat.lt_of_lt_of_le (h.stands _ ho).1.lt_stop hstop

theorem unique (h : Leftmost start text os) (h' : Leftmost start text os') : os = os' := by
  have hmem : ∀ n, ∀ o : Occurrence, o.before.length = n → (o ∈ os ↔ o ∈ os') := by
    intro n
    induction n using Nat.strong_induction_on with
    | _ n ih =>
      intro o hn
      have hsame : ∀ o' : Occurrence, o'.before.length < o.before.length → (o' ∈ os ↔ o' ∈ os') :=
        fun o' hlt => ih _ (hn ▸ hlt) o' rfl
      rw [h.mem_iff, h'.mem_iff]
      refine and_congr_right fun _ => and_congr_right fun _ => ⟨fun hall o' ho' hlt => ?_, fun hall o' ho' hlt => ?_⟩
      · exact hall o' ((hsame o' hlt).mpr ho') hlt
      · exact hall o' ((hsame o' hlt).mp ho') hlt
  have hirrefl : Std.Irrefl fun o o' : Occurrence => o.before.length < o'.before.length := ⟨fun o => Nat.lt_irrefl _⟩
  have hantisymm : Std.Antisymm fun o o' : Occurrence => o.before.length < o'.before.length :=
    ⟨fun o o' hlt hgt => absurd hgt (Nat.lt_asymm hlt)⟩
  exact h.begins.eq_of_mem_iff h'.begins fun o => hmem _ o rfl

end Leftmost

/-! ### The rules of a list -/

/-- The text up to the first two hyphens, or all of it. -/
def WithoutRemark (text front : List Char) : Prop :=
  (front = text ∨ ∃ remark, text = front ++ "--".toList ++ remark) ∧
  ∀ front' remark', text = front' ++ "--".toList ++ remark' → front.length ≤ front'.length

/-- The rules that a list names, by the parts of what stands before the remark: those parts that are not blank, without
the white space around them, each once; or none, if all parts are blank. -/
def RuleSet (list : List Char) (rules : Option (List String)) : Prop :=
  ∃ front parts, WithoutRemark list front ∧ Text.Divides ',' front parts ∧
    match rules with
    | none => ∀ part ∈ parts, Text.Blank part
    | some names => (∃ part ∈ parts, ¬ Text.Blank part) ∧ names.Nodup ∧
        ∀ name, name ∈ names ↔ ∃ part ∈ parts, ¬ Text.Blank part ∧ Text.Trimmed part name.toList

theorem withoutRemark_beforeRemark (text : List Char) : WithoutRemark text (beforeRemark text) := by
  fun_induction beforeRemark text with
  | case1 => exact ⟨Or.inl rfl, fun _ _ _ => Nat.zero_le _⟩
  | case2 rest => exact ⟨Or.inr ⟨rest, rfl⟩, fun _ _ _ => Nat.zero_le _⟩
  | case3 c cs hfirst ih =>
    obtain ⟨hfront, hshortest⟩ := ih
    constructor
    · rcases hfront with hall | ⟨remark, hremark⟩
      · exact Or.inl (by rw [hall])
      · exact Or.inr ⟨remark, congrArg (c :: ·) hremark⟩
    · intro front' remark' htext
      cases front' with
      | nil =>
        obtain ⟨rfl, rfl⟩ := List.cons.inj htext
        exact absurd rfl (hfirst _ rfl)
      | cons d front' =>
        obtain ⟨-, htext⟩ := List.cons.inj htext
        exact Nat.succ_le_succ (hshortest front' remark' htext)

theorem nodup_eraseDups : ∀ names : List String, names.eraseDups.Nodup
  | [] => List.nodup_nil
  | name :: names => by
      rw [List.eraseDups_cons, List.nodup_cons, List.mem_eraseDups]
      exact ⟨by simp, nodup_eraseDups _⟩
termination_by names => names.length
decreasing_by exact Nat.lt_succ_of_le (List.length_filter_le ..)

theorem ruleSet_rulesOf (list : List Char) : RuleSet list (rulesOf list) := by
  refine ⟨beforeRemark list, _, withoutRemark_beforeRemark list, Text.divides_splitAt ',' _, ?_⟩
  rw [rulesOf]
  generalize Text.splitAt ',' (beforeRemark list) = parts
  have hnames : ∀ core, core ∈ (parts.map Text.trim).filter (· ≠ []) ↔
      ∃ part ∈ parts, ¬ Text.Blank part ∧ Text.Trimmed part core := by
    intro core
    simp only [List.mem_filter, List.mem_map, decide_eq_true_eq, ← Text.trim_eq_nil_iff, ← Text.trim_eq_iff]
    constructor
    · rintro ⟨⟨part, hpart, rfl⟩, hne⟩
      exact ⟨part, hpart, hne, rfl⟩
    · rintro ⟨part, hpart, hne, rfl⟩
      exact ⟨⟨part, hpart, rfl⟩, hne⟩
  generalize (parts.map Text.trim).filter (· ≠ []) = names at hnames
  cases names with
  | nil =>
    intro part hpart
    by_contra hblank
    exact List.not_mem_nil ((hnames _).mpr ⟨part, hpart, hblank, Text.trim_eq_iff.mp rfl⟩)
  | cons name names =>
    obtain ⟨part, hpart, hblank, -⟩ := (hnames name).mp List.mem_cons_self
    refine ⟨⟨part, hpart, hblank⟩, nodup_eraseDups _, fun rule => ?_⟩
    rw [List.mem_eraseDups, ← hnames, List.mem_map]
    constructor
    · rintro ⟨core, hcore, rfl⟩
      rwa [String.toList_ofList]
    · intro h
      exact ⟨rule.toList, h, String.ofList_toList⟩

/-! ### The directives of a text -/

/-- A directive says what a piece of a text says, on the line where the piece begins. -/
structure Says (o : Occurrence) (d : Directive) : Prop where
  line : d.line = o.before.count '\n' + 1
  scope : d.scope = o.scope
  rules : RuleSet o.list d.rules

theorem exists_leftmost_scan {text : List Char} : ∀ (skip : Nat) (before : List Char),
    ∃ os, Leftmost (before.length + skip) (before ++ text) os ∧
      List.Forall₂ Says os (scan skip (before.count '\n' + 1) text) := by
  induction text with
  | nil =>
    intro skip before
    refine ⟨[], Leftmost.nil (by simp), ?_⟩
    cases skip <;> exact List.Forall₂.nil
  | cons c cs ih =>
    intro skip before
    -- the search goes on behind the first character
    have hrest : ∀ k, ∃ os, Leftmost (before.length + 1 + k) (before ++ c :: cs) os ∧
        List.Forall₂ Says os (scan k (if c = '\n' then before.count '\n' + 1 + 1 else before.count '\n' + 1) cs) := by
      intro k
      obtain ⟨os, hleft, hsays⟩ := ih k (before ++ [c])
      rw [List.length_append, List.append_assoc] at hleft
      rw [List.count_append, Nat.add_right_comm, ← count_cons_line c [], List.count_nil, Nat.add_zero] at hsays
      exact ⟨os, hleft, hsays⟩
    cases skip with
    | succ n =>
      obtain ⟨os, hleft, hsays⟩ := hrest n
      exact ⟨os, by rwa [Nat.add_assoc, Nat.add_comm 1] at hleft, hsays⟩
    | zero =>
      rw [scan]
      split
      · next m hm =>
        obtain ⟨piece, htext, hform⟩ := match?_eq_some_iff.mp hm
        have ho : Occurrence.In ⟨m, before, piece⟩ (before ++ c :: cs) := ⟨by rw [htext], hform⟩
        obtain ⟨os, hleft, hsays⟩ := hrest (cs.length - m.rest.length)
        have hstop : before.length + 1 + (cs.length - m.rest.length) = before.length + piece.length := by
          have hlength := congrArg List.length htext
          have hpos := List.length_pos_iff.mpr hform.ne_nil
          simp only [List.length_cons, List.length_append] at hlength
          omega
        rw [hstop] at hleft
        exact ⟨⟨m, before, piece⟩ :: os, Leftmost.cons ho hleft, .cons ⟨rfl, rfl, ruleSet_rulesOf m.list⟩ hsays⟩
      · next hnone =>
        obtain ⟨os, hleft, hsays⟩ := hrest 0
        refine ⟨os, Leftmost.skip hleft fun o ho hbegin => ?_, hsays⟩
        rw [ho.match? hbegin] at hnone
        cases hnone

/-- The directives of a text, in order, are those of the pieces with the form of a directive that do not begin inside an
earlier one. There is one way only to choose these pieces. -/
theorem ofText_leftmost (text : List Char) : ∃ os, Leftmost 0 text os ∧ (∀ os', Leftmost 0 text os' → os' = os) ∧
    List.Forall₂ Says os (ofText text) := by
  obtain ⟨os, hleft, hsays⟩ := @exists_leftmost_scan text 0 []
  exact ⟨os, hleft, fun os' h => h.unique hleft, hsays⟩

/-- What looks like a directive is none in the list of another one, in the wrong sort of comment, or if its words go
on. -/
example :
    ofText "// firestore-lint-disable-line a -- /* firestore-lint-disable */".toList = [⟨1, .line, some ["a"]⟩] ∧
    ofText "/* firestore-lint-disable-line *///firestore-lint-disable-lines".toList = [] := by
  decide +kernel

end Directive

end WriteGuard
