import Mathlib.Data.List.Infix
import WriteGuard.Proofs.DirectiveGrammar
import WriteGuard.Proofs.EditorPositions

/-!
Directives as they are written. A directive is written as a comment with its words, the names of the rules with a comma
and a blank between them, and a remark behind two hyphens. In a text with no other slash such a comment is read back as
one directive: about the lines it was written for, on the line it stands on, and with the names that were written.
-/

namespace WriteGuard

namespace Text

theorem blank_replicate (n : Nat) : Blank (List.replicate n ' ') := by
  intro c hc
  rw [List.eq_of_mem_replicate hc]
  rfl

/-- A text that trimming leaves as it is comes out of white space around it. -/
theorem trim_between {core before after : List Char} (h : trim core = core) (hbefore : Blank before)
    (hafter : Blank after) : trim (before ++ core ++ after) = core := by
  obtain ⟨-, -, -, -, -, hfirst, hlast⟩ := trim_eq_iff.mp h
  exact trim_eq_iff.mpr ⟨before, after, rfl, hbefore, hafter, hfirst, hlast⟩

/-- Two hyphens at the front of a text end before any other character. -/
theorem hyphens_of_append {xs ys : List Char} {c : Char} (h : ['-', '-'] <+: xs ++ c :: ys) (hc : c ≠ '-') :
    ['-', '-'] <+: xs := by
  rcases xs with _ | ⟨x, _ | ⟨x', xs⟩⟩
  · exact absurd (List.cons_prefix_cons.mp h).1.symm hc
  · exact absurd (List.cons_prefix_cons.mp (List.cons_prefix_cons.mp h).2).1.symm hc
  · obtain ⟨rfl, htail⟩ := List.cons_prefix_cons.mp h
    obtain ⟨rfl, -⟩ := List.cons_prefix_cons.mp htail
    exact ⟨xs, rfl⟩

/-- A text without two hyphens in a row stays so where another character joins it to one of the same sort. -/
theorem hyphens_not_infix {xs ys : List Char} {c : Char} (hxs : ¬ ['-', '-'] <:+: xs) (hys : ¬ ['-', '-'] <:+: ys)
    (hc : c ≠ '-') : ¬ ['-', '-'] <:+: xs ++ c :: ys := by
  induction xs with
  | nil =>
    rw [List.nil_append, List.infix_cons_iff, not_or]
    exact ⟨fun h => hc (List.cons_prefix_cons.mp h).1.symm, hys⟩
  | cons x xs ih =>
    rw [List.infix_cons_iff, not_or] at hxs
    rw [List.cons_append, List.infix_cons_iff, not_or]
    exact ⟨fun h => hxs.1 (hyphens_of_append h hc), ih hxs.2⟩

theorem hyphens_not_infix_replicate (n : Nat) {xs : List Char} (h : ¬ ['-', '-'] <:+: xs) :
    ¬ ['-', '-'] <:+: List.replicate n ' ' ++ xs := by
  induction n with
  | zero => exact h
  | succ n ih =>
    have hblank : ¬ ['-', '-'] <:+: [] ++ ' ' :: (List.replicate n ' ' ++ xs) :=
      hyphens_not_infix (by simp) ih (by decide)
    exact hblank

end Text

namespace Directive

/-- A text with no mark that ends a line or the comment of a directive. -/
def Unmarked (text : List Char) : Prop := '\r' ∉ text ∧ '\n' ∉ text ∧ '*' ∉ text

instance (text : List Char) : Decidable (Unmarked text) := inferInstanceAs (Decidable (_ ∧ _))

theorem unmarked_append {xs ys : List Char} : Unmarked (xs ++ ys) ↔ Unmarked xs ∧ Unmarked ys := by
  simp only [Unmarked, List.mem_append, not_or]
  tauto

/-- A name that can be written in a directive: it is not empty, has no white space around it, and has no mark that ends a
name, a list or a comment. -/
structure Writable (name : String) : Prop where
  ne_empty : name ≠ ""
  trimmed : Text.trim name.toList = name.toList
  plain : ¬ ['-', '-'] <:+: name.toList
  comma : ',' ∉ name.toList
  unmarked : Unmarked name.toList

instance (name : String) : Decidable (Writable name) :=
  decidable_of_iff (name ≠ "" ∧ Text.trim name.toList = name.toList ∧ ¬ ['-', '-'] <:+: name.toList ∧
      ',' ∉ name.toList ∧ Unmarked name.toList)
    ⟨fun h => ⟨h.1, h.2.1, h.2.2.1, h.2.2.2.1, h.2.2.2.2⟩,
      fun h => ⟨h.ne_empty, h.trimmed, h.plain, h.comma, h.unmarked⟩⟩

/-- The names of a directive with a comma and a blank between them. -/
def joined (names : List String) : List Char := ", ".toList.intercalate (names.map String.toList)

/-- The remark of a directive, behind two hyphens. -/
def remarkText : Option String → List Char
  | none => []
  | some remark => ' ' :: '-' :: '-' :: ' ' :: remark.toList

/-- What is written behind the words of a directive: some blanks, the names and the remark. -/
def listText (blanks : Nat) (names : List String) (remark : Option String) : List Char :=
  List.replicate blanks ' ' ++ joined names ++ remarkText remark

/-- A directive as a comment. -/
def comment (scope : DirectiveScope) (blanks : Nat) (names : List String) (remark : Option String) : List Char :=
  match scope with
  | .file => "/*".toList ++ [' '] ++ (words .file).toList ++ (listText blanks names remark ++ [' ']) ++ "*/".toList
  | scope => "//".toList ++ [' '] ++ (words scope).toList ++ listText blanks names remark

/-! ### The names of a list -/

theorem joined_cons_cons (name next : String) (names : List String) :
    joined (name :: next :: names) = name.toList ++ ',' :: ' ' :: joined (next :: names) := by
  simp [joined]

theorem joined_singleton (name : String) : joined [name] = name.toList := by
  simp [joined]

theorem plain_joined {names : List String} (h : ∀ name ∈ names, Writable name) : ¬ ['-', '-'] <:+: joined names := by
  induction names with
  | nil => simp [joined]
  | cons name names ih =>
    rw [List.forall_mem_cons] at h
    cases names with
    | nil => exact joined_singleton name ▸ h.1.plain
    | cons next names =>
      have hblank : ¬ ['-', '-'] <:+: [] ++ ' ' :: joined (next :: names) :=
        Text.hyphens_not_infix (by simp) (ih h.2) (by decide)
      rw [joined_cons_cons]
      exact Text.hyphens_not_infix h.1.plain hblank (by decide)

theorem Writable.toList_ne_nil {name : String} (h : Writable name) : name.toList ≠ [] :=
  fun hnil => h.ne_empty (String.toList_eq_nil_iff.mp hnil)

/-- The parts of a list of names are these names, with white space around them. -/
theorem names_of_parts {names : List String} (h : ∀ name ∈ names, Writable name) {after : List Char}
    (hafter : Text.Blank after) : ∀ {before : List Char}, Text.Blank before →
    ((Text.splitAt ',' (before ++ joined names ++ after)).map Text.trim).filter (· ≠ []) = names.map String.toList := by
  have hcomma : ∀ {blanks : List Char}, Text.Blank blanks → ',' ∉ blanks := fun hblanks hmem =>
    absurd (hblanks ',' hmem) (by decide)
  simp only [Text.splitAt_eq_splitOn]
  induction names with
  | nil =>
    intro before hbefore
    have hblank : Text.Blank (before ++ joined [] ++ after) := by
      simpa [joined, Text.Blank, or_imp, forall_and] using ⟨hbefore, hafter⟩
    rw [List.splitOn_eq_singleton (hcomma hblank), List.map_singleton, Text.trim_eq_nil_iff.mpr hblank]
    rfl
  | cons name names ih =>
    intro before hbefore
    rw [List.forall_mem_cons] at h
    cases names with
    | nil =>
      have hone : ',' ∉ before ++ name.toList ++ after := by
        simpa [not_or] using ⟨hcomma hbefore, h.1.comma, hcomma hafter⟩
      rw [joined_singleton, List.splitOn_eq_singleton hone, List.map_singleton,
        Text.trim_between h.1.trimmed hbefore hafter]
      simp [h.1.toList_ne_nil]
    | cons next names =>
      have hfirst : ',' ∉ before ++ name.toList := by
        simpa [not_or] using ⟨hcomma hbefore, h.1.comma⟩
      have htrim : Text.trim (before ++ name.toList ++ []) = name.toList :=
        Text.trim_between h.1.trimmed hbefore (Text.blank_replicate 0)
      have hlist : before ++ joined (name :: next :: names) ++ after =
          (before ++ name.toList) ++ ',' :: ([' '] ++ joined (next :: names) ++ after) := by
        simp [joined_cons_cons]
      have hrest := ih h.2 (show Text.Blank [' '] from Text.blank_replicate 1)
      rw [List.append_nil] at htrim
      rw [hlist, List.splitOn_append_cons_self_of_not_mem hfirst, List.map_cons, htrim,
        List.filter_cons_of_pos (by simpa using h.1.toList_ne_nil), hrest]
      rfl

/-- The rules that a list of names is read as. -/
def namedRules (names : List String) : Option (List String) := if names = [] then none else some names.eraseDups

theorem rulesOf_of_beforeRemark {names : List String} (h : ∀ name ∈ names, Writable name) {list before after : List Char}
    (hlist : beforeRemark list = before ++ joined names ++ after) (hbefore : Text.Blank before)
    (hafter : Text.Blank after) : rulesOf list = namedRules names := by
  have hback : (names.map String.toList).map String.ofList = names := by
    simp
  rw [rulesOf, hlist]
  simp only [names_of_parts h hafter hbefore, hback, List.isEmpty_map, List.isEmpty_iff, namedRules]

/-! ### The remark -/

theorem beforeRemark_cons {c : Char} {cs : List Char} (h : ¬ ['-', '-'] <+: c :: cs) :
    beforeRemark (c :: cs) = c :: beforeRemark cs := by
  rw [beforeRemark.eq_def]
  split
  · next heq => cases heq
  · next rest heq => exact absurd ⟨rest, heq.symm⟩ h
  · next heq =>
    obtain ⟨rfl, rfl⟩ := List.cons.inj heq
    rfl

theorem beforeRemark_of_plain {text : List Char} (h : ¬ ['-', '-'] <:+: text) : beforeRemark text = text := by
  induction text with
  | nil => rfl
  | cons c cs ih =>
    rw [List.infix_cons_iff, not_or] at h
    rw [beforeRemark_cons h.1, ih h.2]

/-- A remark begins with the first two hyphens of a list. -/
theorem beforeRemark_append {front : List Char} (remark : List Char) (h : ¬ ['-', '-'] <:+: front) :
    beforeRemark (front ++ ' ' :: '-' :: '-' :: remark) = front ++ [' '] := by
  induction front with
  | nil => rfl
  | cons c cs ih =>
    rw [List.infix_cons_iff, not_or] at h
    have hfirst : ¬ ['-', '-'] <+: c :: cs ++ ' ' :: '-' :: '-' :: remark := fun hpre =>
      h.1 (Text.hyphens_of_append hpre (by decide))
    rw [List.cons_append] at hfirst ⊢
    rw [beforeRemark_cons hfirst, ih h.2, List.cons_append]

/-- A blank in front of a list changes none of its rules. -/
theorem rulesOf_cons_blank (list : List Char) : rulesOf (' ' :: list) = rulesOf list := by
  have hfront : beforeRemark (' ' :: list) = ' ' :: beforeRemark list :=
    beforeRemark_cons fun hpre => absurd (List.cons_prefix_cons.mp hpre).1 (by decide)
  rw [rulesOf, rulesOf, hfront, Text.splitAt]
  rcases Text.splitAt ',' (beforeRemark list) with _ | ⟨part, parts⟩ <;> rfl

/-- Of what is written behind the words of a directive only the names are rules. -/
theorem rulesOf_listText {names : List String} (h : ∀ name ∈ names, Writable name) (blanks : Nat)
    (remark : Option String) (more : Nat) :
    rulesOf (listText blanks names remark ++ List.replicate more ' ') = namedRules names := by
  have hfront := Text.hyphens_not_infix_replicate blanks (plain_joined h)
  cases remark with
  | none =>
    have htext : listText blanks names none = List.replicate blanks ' ' ++ joined names := List.append_nil _
    rw [htext]
    refine rulesOf_of_beforeRemark h (beforeRemark_of_plain ?_) (Text.blank_replicate blanks) (Text.blank_replicate more)
    cases more with
    | zero => rwa [List.replicate_zero, List.append_nil]
    | succ more =>
      have hmore : ¬ ['-', '-'] <:+: List.replicate more ' ' ++ [] := Text.hyphens_not_infix_replicate more (by simp)
      rw [List.append_nil] at hmore
      exact Text.hyphens_not_infix hfront hmore (by decide)
  | some remark =>
    refine rulesOf_of_beforeRemark h ?_ (Text.blank_replicate blanks) (Text.blank_replicate 1)
    have hremark := beforeRemark_append (' ' :: remark.toList ++ List.replicate more ' ') hfront
    simpa [listText, remarkText] using hremark

/-! ### The comment is found -/

theorem unmarked_joined {names : List String} (h : ∀ name ∈ names, Writable name) : Unmarked (joined names) := by
  induction names with
  | nil => decide
  | cons name names ih =>
    rw [List.forall_mem_cons] at h
    cases names with
    | nil => exact joined_singleton name ▸ h.1.unmarked
    | cons next names =>
      have hmarks : joined (name :: next :: names) = name.toList ++ ([',', ' '] ++ joined (next :: names)) :=
        joined_cons_cons name next names
      rw [hmarks, unmarked_append, unmarked_append]
      exact ⟨h.1.unmarked, by decide, ih h.2⟩

/-- What is written behind the words of a directive ends neither the line nor the comment. -/
theorem unmarked_listText {names : List String} {remark : Option String} (blanks : Nat)
    (hnames : ∀ name ∈ names, Writable name) (hremark : ∀ r ∈ remark, Unmarked r.toList) :
    Unmarked (listText blanks names remark) := by
  rw [listText, unmarked_append, unmarked_append]
  refine ⟨⟨?_, unmarked_joined hnames⟩, ?_⟩
  · simp [Unmarked, List.mem_replicate]
  · cases remark with
    | none => decide
    | some remark =>
      have hmark : remarkText (some remark) = [' ', '-', '-', ' '] ++ remark.toList := rfl
      rw [hmark, unmarked_append]
      exact ⟨by decide, hremark remark rfl⟩

theorem head?_listText {names : List String} {blanks : Nat} (hblanks : names ≠ [] → 0 < blanks)
    (remark : Option String) : ∀ c ∈ (listText blanks names remark).head?, c = ' ' := by
  intro c hc
  cases blanks with
  | succ n => exact (Option.some.inj hc).symm
  | zero =>
    have hnil : names = [] := by
      by_contra hne
      exact absurd (hblanks hne) (Nat.lt_irrefl 0)
    subst hnil
    cases remark with
    | none => cases hc
    | some remark => simpa [listText, joined, remarkText, eq_comm] using hc

/-- A comment to the end of the line has the form of a directive. -/
theorem form_lineComment {scope : DirectiveScope} {list after : List Char} (hscope : scope ≠ .file)
    (hfirst : ∀ c ∈ list.head?, c = ' ') (hreturn : '\r' ∉ list) (hfeed : '\n' ∉ list)
    (hend : ∀ c ∈ after.head?, c = '\r' ∨ c = '\n') :
    Form ("//".toList ++ [' '] ++ (words scope).toList ++ list) ⟨scope, list, after⟩ := by
  refine .line hscope (by simp) (fun c hc => ?_) (fun c hc => ⟨ne_of_mem_of_not_mem hc hreturn,
    ne_of_mem_of_not_mem hc hfeed⟩) hend
  rw [List.head?_append, Option.mem_def, Option.or_eq_some_iff] at hc
  rcases hc with hc | ⟨-, hc⟩
  · rw [hfirst c hc]
    decide +kernel
  · rcases hend c hc with rfl | rfl <;> decide +kernel

/-- A comment between marks has the form of a directive. The first blank behind its words belongs to the form, and the
one in front of the closing mark to the list. -/
theorem exists_form_blockComment {text : List Char} (after : List Char) (hfirst : ∀ c ∈ text.head?, c = ' ')
    (hstar : '*' ∉ text) : ∃ list, ' ' :: list = text ++ [' '] ∧
      Form ("/*".toList ++ [' '] ++ (words .file).toList ++ (text ++ [' ']) ++ "*/".toList) ⟨.file, list, after⟩ := by
  obtain ⟨list, hlist⟩ : ∃ list, ' ' :: list = text ++ [' '] := by
    cases text with
    | nil => exact ⟨[], rfl⟩
    | cons c cs => exact ⟨cs ++ [' '], by rw [hfirst c rfl, List.cons_append]⟩
  have hmem : '*' ∉ ' ' :: list := by
    rw [hlist, List.mem_append, not_or]
    exact ⟨hstar, by decide⟩
  refine ⟨list, hlist, ?_⟩
  rw [← hlist]
  exact .block (Text.blank_replicate 1) rfl fun h => hmem (List.mem_cons_of_mem _ h)

/-- A written comment has the form of a directive, with a list that is read as the names. -/
theorem exists_form_comment {scope : DirectiveScope} {blanks : Nat} {names : List String} {remark : Option String}
    {after : List Char} (hnames : ∀ name ∈ names, Writable name)
    (hremark : ∀ r ∈ remark, Unmarked r.toList) (hblanks : names ≠ [] → 0 < blanks)
    (hend : scope ≠ .file → ∀ c ∈ after.head?, c = '\r' ∨ c = '\n') :
    ∃ list, Form (comment scope blanks names remark) ⟨scope, list, after⟩ ∧ rulesOf list = namedRules names := by
  obtain ⟨hreturn, hfeed, hstar⟩ := unmarked_listText blanks hnames hremark
  have hfirst := head?_listText hblanks remark
  have hrules := rulesOf_listText hnames blanks remark
  have hline := fun hscope : scope ≠ .file =>
    form_lineComment hscope hfirst hreturn hfeed (hend hscope)
  have hwhole : rulesOf (listText blanks names remark) = namedRules names := by
    simpa using hrules 0
  cases scope with
  | line => exact ⟨_, hline nofun, hwhole⟩
  | nextLine => exact ⟨_, hline nofun, hwhole⟩
  | file =>
    obtain ⟨list, hlist, hform⟩ := exists_form_blockComment after hfirst hstar
    refine ⟨list, hform, ?_⟩
    rw [← rulesOf_cons_blank, hlist]
    exact hrules 1

/-! ### The text around the comment -/

theorem Form.head?_eq {piece : List Char} {m : Match} (h : Form piece m) : piece.head? = some '/' := by
  cases h <;> simp

theorem match?_eq_none {text : List Char} (h : text.head? ≠ some '/') : match? text = none := by
  by_contra hsome
  obtain ⟨m, hm⟩ := Option.ne_none_iff_exists'.mp hsome
  obtain ⟨piece, rfl, hform⟩ := match?_eq_some_iff.mp hm
  exact h (by rw [List.head?_append, hform.head?_eq]; rfl)

/-- The search passes over a text without slashes. -/
theorem scan_append_of_not_mem {before : List Char} (h : '/' ∉ before) (rest : List Char) : ∀ line,
    scan 0 line (before ++ rest) = scan 0 (line + before.count '\n') rest := by
  induction before with
  | nil => exact fun line => rfl
  | cons c cs ih =>
    intro line
    rw [List.mem_cons, not_or] at h
    have hnone : match? (c :: (cs ++ rest)) = none := match?_eq_none fun hc => h.1 (Option.some.inj hc).symm
    rw [List.cons_append, scan, hnone]
    dsimp only
    rw [ih h.2, count_cons_line]

theorem scan_eq_nil {text : List Char} (h : '/' ∉ text) (line : Nat) : scan 0 line text = [] := by
  have hall := scan_append_of_not_mem h [] line
  rwa [List.append_nil] at hall

theorem scan_length_append (front rest : List Char) : ∀ line,
    scan front.length line (front ++ rest) = scan 0 (line + front.count '\n') rest := by
  induction front with
  | nil => exact fun line => rfl
  | cons c cs ih =>
    intro line
    rw [List.length_cons, List.cons_append, scan, ih, count_cons_line]

/-- The search makes one directive of a piece with the form of one, and goes on behind it. -/
theorem scan_form {piece : List Char} {m : Match} (h : Form piece m) (line : Nat) : scan 0 line (piece ++ m.rest) =
    ⟨line, m.scope, rulesOf m.list⟩ :: scan 0 (line + piece.count '\n') m.rest := by
  have hm : match? (piece ++ m.rest) = some m := match?_eq_some_iff.mpr ⟨piece, rfl, h⟩
  obtain ⟨c, cs, rfl⟩ := List.exists_cons_of_ne_nil h.ne_nil
  rw [List.cons_append] at hm ⊢
  rw [scan, hm]
  dsimp only
  rw [List.length_append, Nat.add_sub_cancel, scan_length_append, count_cons_line]

/-- A directive is read back as it was written. In a text without other slashes its comment gives one directive, about
the lines it was written for, on the line where it begins and with the names that were written, or with all rules if no
name was; a comment to the end of the line has to end the line. -/
theorem ofText_comment {scope : DirectiveScope} {blanks : Nat} {names : List String} {remark : Option String}
    {before after : List Char} (hnames : ∀ name ∈ names, Writable name)
    (hremark : ∀ r ∈ remark, Unmarked r.toList) (hblanks : names ≠ [] → 0 < blanks)
    (hbefore : '/' ∉ before) (hafter : '/' ∉ after)
    (hend : scope ≠ .file → ∀ c ∈ after.head?, c = '\r' ∨ c = '\n') :
    ∃ d, ofText (before ++ comment scope blanks names remark ++ after) = [d] ∧ d.scope = scope ∧
      d.line = before.count '\n' + 1 ∧ d.rules = (if names = [] then none else some names.eraseDups) ∧
      ∀ rule, d.allows rule = true ↔ names = [] ∨ rule ∈ names := by
  obtain ⟨list, hform, hrules⟩ := exists_form_comment hnames hremark hblanks hend
  refine ⟨⟨1 + before.count '\n', scope, namedRules names⟩, ?_, rfl, Nat.add_comm .., rfl, fun rule => ?_⟩
  · rw [ofText, List.append_assoc, scan_append_of_not_mem hbefore, scan_form hform, scan_eq_nil hafter, hrules]
  · by_cases hnil : names = []
    · simp [allows, namedRules, hnil]
    · simp [allows, namedRules, hnil]

/-- Names with hyphens at their ends, one of them twice, and a remark that itself looks like a directive. -/
theorem ofText_comment_hyphens :
    comment .file 1 ["set-require-merge", "-a-", "-a-"] (some "- // firestore-lint-disable-line") =
      "/* firestore-lint-disable set-require-merge, -a-, -a- -- - // firestore-lint-disable-line */".toList ∧
    ∃ d, ofText ("a;\r\n".toList ++
        comment .file 1 ["set-require-merge", "-a-", "-a-"] (some "- // firestore-lint-disable-line") ++
        "\ndoc().set(v)".toList) = [d] ∧
      d.scope = .file ∧ d.line = 2 ∧ d.rules = some ["set-require-merge", "-a-"] ∧
      d.allows "-a-" = true ∧ ¬ d.allows "a" = true := by
  refine ⟨by decide +kernel, ?_⟩
  obtain ⟨d, htext, hscope, hline, hrules, hallows⟩ := ofText_comment
    (show ∀ name ∈ ["set-require-merge", "-a-", "-a-"], Writable name by decide +kernel)
    (show ∀ r ∈ some "- // firestore-lint-disable-line", Unmarked r.toList from
      fun r hr => Option.some.inj hr ▸ (by decide +kernel))
    (fun _ => Nat.one_pos) (show '/' ∉ "a;\r\n".toList by decide) (show '/' ∉ "\ndoc().set(v)".toList by decide)
    (show DirectiveScope.file ≠ .file → _ from fun h => absurd rfl h)
  refine ⟨d, htext, hscope, hline.trans (by decide), hrules.trans (by decide +kernel), ?_, ?_⟩
  · exact (hallows "-a-").mpr (by decide)
  · exact fun h => absurd ((hallows "a").mp h) (by decide)

end Directive

end WriteGuard
