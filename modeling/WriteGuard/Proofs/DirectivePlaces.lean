import WriteGuard.Lint.Diagnostic
import WriteGuard.Proofs.PlainGrammar
import WriteGuard.Source.File

/-!
Where directives take effect. A directive is found by the characters of the text alone: it silences rules in a comment
just as in the text of a string, a template, a regular expression or of markup. In a text that follows the grammar it
stands nowhere else, because it looks like a comment where it begins.
-/

namespace WriteGuard

theorem Text.after?_eq_some {front : String} {text rest : List Char} (h : after? front text = some rest) :
    text = front.toList ++ rest := by
  rw [after?] at h
  split at h
  · next hpre =>
    obtain ⟨back, rfl⟩ := List.isPrefixOf_iff_prefix.mp hpre
    rw [← Option.some.inj h, ← String.length_toList, List.drop_left]
  · cases h

namespace Directive

/-! ### Directives look like comments -/

theorem blockLength_isSome (rest : List Char) : ∀ front : List Char,
    (Source.Scanner.blockLength (front ++ '*' :: '/' :: rest)).isSome = true
  | [] => rfl
  | c :: front => by
      rw [List.cons_append, Source.Scanner.blockLength.eq_def]
      split
      · next heq => cases heq
      · rfl
      · next heq =>
        obtain ⟨-, rfl⟩ := List.cons.inj heq
        rw [Option.isSome_map, blockLength_isSome rest front]

/-- The words of a directive come after its mark and some blanks, so that neither a slash nor a star follows the mark. -/
theorem opensRemark_of_words {mark : Char} {blank : Char → Bool} {words : String} {text rest : List Char}
    (hcomment : (Source.Scanner.comment ('/' :: mark :: text)).isSome = true)
    (hwords : Text.after? words (text.dropWhile blank) = some rest) (hfirst : words.toList.head? = some 'f')
    (hslash : blank '/' = false) (hstar : blank '*' = false) : Source.opensRemark ('/' :: mark :: text) = true := by
  rw [Source.opensRemark, hcomment, Bool.true_and]
  obtain ⟨ws, hws⟩ := List.head?_eq_some_iff.mp hfirst
  have hrest := Text.after?_eq_some hwords
  rw [hws, List.cons_append] at hrest
  cases text with
  | nil => cases hrest
  | cons c cs =>
    have hc : c ≠ '/' ∧ c ≠ '*' := by
      rw [List.dropWhile_cons] at hrest
      split at hrest
      · next hblank =>
        constructor
        · rintro rfl
          rw [hslash] at hblank
          cases hblank
        · rintro rfl
          rw [hstar] at hblank
          cases hblank
      · obtain ⟨rfl, -⟩ := List.cons.inj hrest
        decide
    simpa using hc

theorem opensRemark_of_lineMatch? {text : List Char} {m : Match} (h : lineMatch? text = some m) :
    Source.opensRemark text = true := by
  rw [lineMatch?] at h
  split at h
  · cases h
  · next body hmark =>
    split at h
    · cases h
    · next hwords =>
      rw [Text.after?_eq_some hmark]
      exact opensRemark_of_words rfl hwords rfl (by decide) (by decide)

theorem opensRemark_of_blockMatch? {text : List Char} {m : Match} (h : blockMatch? text = some m) :
    Source.opensRemark text = true := by
  rw [blockMatch?] at h
  split at h
  · cases h
  · next body hmark =>
    split at h
    · cases h
    · next rest hwords =>
      -- the directive ends with the mark that closes the comment
      have hclosed : ∃ front back, rest = front ++ '*' :: '/' :: back := by
        split at h
        · cases h
        · next c cs =>
          split at h
          · obtain ⟨back, hback, -⟩ := Option.map_eq_some_iff.mp h
            refine ⟨c :: cs.takeWhile (· ≠ '*'), back, ?_⟩
            rw [List.cons_append, show '*' :: '/' :: back = cs.dropWhile (· ≠ '*') from (Text.after?_eq_some hback).symm,
              List.takeWhile_append_dropWhile]
          · obtain ⟨back, hback, -⟩ := Option.map_eq_some_iff.mp h
            exact ⟨[], back, Text.after?_eq_some hback⟩
      obtain ⟨front, back, hrest⟩ := hclosed
      have hbody : body = body.takeWhile Text.isWhite ++ "firestore-lint-disable".toList ++ front ++ '*' :: '/' :: back := by
        have := Text.after?_eq_some hwords
        rw [List.append_assoc, ← hrest, List.append_assoc, ← this, List.takeWhile_append_dropWhile]
      rw [Text.after?_eq_some hmark]
      refine opensRemark_of_words ?_ hwords rfl (by decide) (by decide)
      show ((Source.Scanner.blockLength body).map (· + 2)).isSome = true
      rw [Option.isSome_map, hbody]
      exact blockLength_isSome back _

theorem opensRemark_of_match? {text : List Char} {m : Match} (h : match? text = some m) :
    Source.opensRemark text = true := by
  rcases Option.or_eq_some_iff.mp h with hline | ⟨-, hblock⟩
  · exact opensRemark_of_lineMatch? hline
  · exact opensRemark_of_blockMatch? hblock

/-! ### The directives of a text -/

/-- A directive stands in a text behind `front`. -/
def Stands (content front : List Char) (m : Match) : Prop := ∃ rest, content = front ++ rest ∧ match? rest = some m

/-- The directive behind `front`, on the line where `front` ends. -/
def behind (front : List Char) (m : Match) : Directive := ⟨front.count '\n' + 1, m.scope, rulesOf m.list⟩

/-- No directive that begins before the end of `front` reaches past it. -/
def Apart (content front : List Char) : Prop :=
  ∀ front' m', Stands content front' m' → front'.length < front.length →
    content.length ≤ front.length + m'.rest.length

theorem count_cons_line (c : Char) (front : List Char) (line : Nat) :
    (if c = '\n' then line + 1 else line) + front.count '\n' = line + (c :: front).count '\n' := by
  rw [List.count_cons]
  by_cases hc : c = '\n'
  · rw [if_pos hc, if_pos (beq_iff_eq.mpr hc)]
    omega
  · rw [if_neg hc, if_neg fun h => hc (beq_iff_eq.mp h)]
    omega

theorem stands_of_mem_scan {d : Directive} {text : List Char} : ∀ {skip line : Nat}, d ∈ scan skip line text →
    ∃ front m, Stands text front m ∧ d = ⟨line + front.count '\n', m.scope, rulesOf m.list⟩ := by
  induction text with
  | nil => intro skip line h; cases skip <;> cases h
  | cons c cs ih =>
    intro skip line h
    have hrest : ∀ {k : Nat}, d ∈ scan k (if c = '\n' then line + 1 else line) cs →
        ∃ front m, Stands (c :: cs) front m ∧ d = ⟨line + front.count '\n', m.scope, rulesOf m.list⟩ := by
      intro k hk
      obtain ⟨front, m, ⟨rest, rfl, hm⟩, rfl⟩ := ih hk
      exact ⟨c :: front, m, ⟨rest, rfl, hm⟩, by rw [count_cons_line]⟩
    cases skip with
    | succ n => exact hrest h
    | zero =>
      rw [scan] at h
      split at h
      · next m hm =>
        rcases List.mem_cons.mp h with rfl | h
        · exact ⟨[], m, ⟨c :: cs, rfl, hm⟩, rfl⟩
        · exact hrest h
      · exact hrest h

theorem stands_of_mem_ofText {d : Directive} {content : List Char} (h : d ∈ ofText content) :
    ∃ front m, Stands content front m ∧ d = behind front m := by
  obtain ⟨front, m, hstands, rfl⟩ := stands_of_mem_scan h
  exact ⟨front, m, hstands, by rw [behind, Nat.add_comm]⟩

theorem mem_scan_of_stands {m : Match} {text : List Char} : ∀ {front : List Char} {skip line : Nat},
    Stands text front m → Apart text front → skip ≤ front.length →
    (⟨line + front.count '\n', m.scope, rulesOf m.list⟩ : Directive) ∈ scan skip line text := by
  induction text with
  | nil =>
    rintro front skip line ⟨rest, htext, hm⟩
    rw [(List.append_eq_nil_iff.mp htext.symm).2] at hm
    cases hm
  | cons c cs ih =>
    rintro front skip line ⟨rest, htext, hm⟩ hapart hskip
    cases front with
    | nil =>
      obtain rfl : c :: cs = rest := htext
      obtain rfl : skip = 0 := Nat.le_zero.mp hskip
      rw [scan, hm]
      exact List.mem_cons_self
    | cons c' front =>
      obtain ⟨rfl, hcs⟩ := List.cons.inj htext
      have hapart' : Apart cs front := by
        rintro front' m' ⟨rest', rfl, hm'⟩ hlt
        have := hapart (c :: front') m' ⟨rest', rfl, hm'⟩ (Nat.succ_lt_succ hlt)
        simp only [List.length_cons] at this
        omega
      have hrest : ∀ {k : Nat}, k ≤ front.length →
          (⟨line + (c :: front).count '\n', m.scope, rulesOf m.list⟩ : Directive) ∈
            scan k (if c = '\n' then line + 1 else line) cs := by
        intro k hk
        rw [← count_cons_line]
        exact ih ⟨rest, hcs, hm⟩ hapart' hk
      cases skip with
      | succ n => exact hrest (Nat.le_of_succ_le_succ hskip)
      | zero =>
        rw [scan]
        split
        · next m' hm' =>
          have hends := hapart [] m' ⟨c :: cs, rfl, hm'⟩ (Nat.succ_pos _)
          simp only [List.length_cons] at hends
          exact List.mem_cons_of_mem _ (hrest (by omega))
        · exact hrest (Nat.zero_le _)

theorem mem_ofText_of_stands {m : Match} {content front : List Char} (h : Stands content front m)
    (hapart : Apart content front) : behind front m ∈ ofText content := by
  rw [behind, Nat.add_comm]
  exact mem_scan_of_stands h hapart (Nat.zero_le _)

theorem silences_split {before after : List Directive} {d : Directive} {line : Nat} {rule : String} :
    silences (before ++ d :: after) line rule = (silences (before ++ after) line rule || silences [d] line rule) := by
  simp only [silences, List.any_append, List.any_cons, List.any_nil, Bool.or_false]
  cases before.any _ <;> cases (d.covers line && d.allows rule) <;> simp

end Directive

namespace Diagnostic

/-- The reports about a file that none of the given directives silences. -/
def under (objects : List String) (file : SourceFile) (directives : List Directive) : List Diagnostic :=
  ((Finding.ofFile objects file).map (ofFinding file.content)).filter fun d =>
    !Directive.silences directives d.line d.ruleId

theorem ofFile_eq_under (objects : List String) (file : SourceFile) :
    ofFile objects file = under objects file (Directive.ofText file.content) := rfl

theorem under_split (objects : List String) (file : SourceFile) (before after : List Directive) (d : Directive) :
    under objects file (before ++ d :: after) =
      (under objects file (before ++ after)).filter fun r => !Directive.silences [d] r.line r.ruleId := by
  rw [under, under, List.filter_filter]
  refine List.filter_congr fun r _ => ?_
  rw [Directive.silences_split, Bool.not_or, Bool.and_comm]

/-- A directive that changes the reports silences one of them. -/
theorem exists_silenced {objects : List String} {file : SourceFile} {before after : List Directive} {d : Directive}
    (h : under objects file (before ++ d :: after) ≠ under objects file (before ++ after)) :
    ∃ r ∈ under objects file (before ++ after), Directive.silences [d] r.line r.ruleId = true := by
  rw [under_split] at h
  simpa using fun hall => h (List.filter_eq_self.mpr hall)

/-- A directive changes the reports about a text only by silencing one of them. It is a piece of the text, and where the
text follows the grammar this piece begins in a comment, in the line that names an interpreter, or in the text of a
string, a template, a regular expression or of markup. In each of these places it counts: a piece of text with the form of
a directive leaves no report that it silences, unless an earlier such piece goes on into it. -/
theorem ofFile_directive_places (objects : List String) (dialect : Source.Dialect) (content : List Char) :
    (∀ before d after, Directive.ofText content = before ++ d :: after →
      ofFile objects (.ofText dialect content) ≠ under objects (.ofText dialect content) (before ++ after) →
      (∃ r ∈ under objects (.ofText dialect content) (before ++ after),
        Directive.silences [d] r.line r.ruleId = true) ∧
      ∃ front m, Directive.Stands content front m ∧ d = Directive.behind front m ∧
        ((SourceFile.ofText dialect content).broken = false →
          ∃ n ∈ (SourceFile.ofText dialect content).tree.preorder, n.kind.holdsText = true ∧
            n.span.start ≤ Text.byteLength front ∧ Text.byteLength front < n.span.stop)) ∧
    (∀ front m, Directive.Stands content front m → Directive.Apart content front →
      ∀ r ∈ ofFile objects (.ofText dialect content),
        Directive.silences [Directive.behind front m] r.line r.ruleId = false) := by
  constructor
  · intro before d after hdirectives hchange
    rw [ofFile_eq_under, show (SourceFile.ofText dialect content).content = content from rfl, hdirectives] at hchange
    have hd : d ∈ Directive.ofText content := hdirectives ▸ List.mem_append_right before List.mem_cons_self
    obtain ⟨front, m, hstands, rfl⟩ := Directive.stands_of_mem_ofText hd
    refine ⟨exists_silenced hchange, front, m, hstands, rfl, fun hbroken => ?_⟩
    obtain ⟨rest, rfl, hm⟩ := hstands
    obtain ⟨t, ht, n, hn, hquotes⟩ := Source.parse_quotes hbroken (Directive.opensRemark_of_match? hm)
    rw [List.mem_singleton.mp ht] at hn
    exact ⟨n, hn, hquotes⟩
  · intro front m hstands hapart r hr
    obtain ⟨before, after, hsplit⟩ := List.append_of_mem (Directive.mem_ofText_of_stands hstands hapart)
    rw [ofFile_eq_under, show (SourceFile.ofText dialect content).content = content from rfl, hsplit,
      under_split, List.mem_filter] at hr
    simpa using hr.2

/-- A set that would be reported, after a directive in a string. -/
def quotedText : List Char := "'/*firestore-lint-disable*/';doc().set({})".toList

set_option maxRecDepth 100000 in
/-- The directive in the string silences the report on the set, and the place it has is the text of the string. -/
theorem ofFile_directive_places_string :
    Directive.ofText quotedText = [⟨1, .file, none⟩] ∧ (SourceFile.ofText .javaScript quotedText).broken = false ∧
    (∃ r ∈ under [] (.ofText .javaScript quotedText) [],
      Directive.silences [⟨1, .file, none⟩] r.line r.ruleId = true) ∧
    ∃ front m, Directive.Stands quotedText front m ∧ ⟨1, .file, none⟩ = Directive.behind front m ∧
      ∃ n ∈ (SourceFile.ofText .javaScript quotedText).tree.preorder, n.kind.holdsText = true ∧
        n.span.start ≤ Text.byteLength front ∧ Text.byteLength front < n.span.stop := by
  obtain ⟨hdirectives, hbroken, hchange⟩ : Directive.ofText quotedText = [] ++ ⟨1, .file, none⟩ :: [] ∧
      (SourceFile.ofText .javaScript quotedText).broken = false ∧
      ofFile [] (.ofText .javaScript quotedText) ≠ under [] (.ofText .javaScript quotedText) ([] ++ []) := by
    decide +kernel
  obtain ⟨hsilenced, front, m, hstands, hd, hplace⟩ :=
    (ofFile_directive_places [] .javaScript quotedText).1 [] _ [] hdirectives hchange
  exact ⟨hdirectives, hbroken, hsilenced, front, m, hstands, hd, hplace hbroken⟩

/-- The same set after a directive in a string, in a template and in a regular expression. -/
def quotedTexts : List (List Char) :=
  [quotedText, "`/*firestore-lint-disable*/`;doc().set({})".toList, "/[/*firestore-lint-disable*/]/;doc().set({})".toList]

set_option maxRecDepth 100000 in
/-- These texts follow the grammar and have no comments, and yet the report on the set is silenced in all of them. -/
theorem ofFile_silenced_outside_comments :
    (quotedTexts.map fun text => (SourceFile.ofText .javaScript text).broken) = [false, false, false] ∧
    (quotedTexts.flatMap fun text =>
      (SourceFile.ofText .javaScript text).tree.preorder.filter Source.Tree.isComment) = [] ∧
    (quotedTexts.map fun text => (under [] (.ofText .javaScript text) []).length) = [1, 1, 1] ∧
    (quotedTexts.map fun text => (ofFile [] (.ofText .javaScript text)).length) = [0, 0, 0] := by
  decide +kernel

set_option maxRecDepth 100000 in
/-- In a text that breaks the grammar a directive can also stand where the tree has no piece of text: here in a regular
expression that is never closed. -/
example : ∀ text ∈ ["doc().set({});/[/*firestore-lint-disable*/".toList],
    (SourceFile.ofText .javaScript text).broken = true ∧
    (∀ n ∈ (SourceFile.ofText .javaScript text).tree.preorder, n.kind.holdsText = false) ∧
    ofFile [] (.ofText .javaScript text) = [] ∧ under [] (.ofText .javaScript text) [] ≠ [] := by
  decide +kernel

end Diagnostic

end WriteGuard
