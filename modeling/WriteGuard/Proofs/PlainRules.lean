import WriteGuard.Proofs.QuotedPlaces
import WriteGuard.Source.Grammar.Markup

/-!
Plain rules. Each lexeme of such a rule is a piece of text by its kind, or has a slash at most as its first character;
regular expressions and closing tags are the exceptions, and are looked at as a whole. What plain rules read covers the
text it was read from.
-/

namespace WriteGuard.Source

/-! ### Rules -/

namespace Grammar

/-- The end of an element: its closing tag. -/
def closingTag : List Rule := [mark "</", .opt tagName, mark ">"]

end Grammar

namespace Rule

/-- Each lexeme of the rule is a piece of text by its kind, or has a slash at most as its first character. Regular
expressions and closing tags are read by rules of their own. -/
inductive Plain : Rule → Prop
  | leaf {kind : Kind} {scan : Scanner} : kind.holdsText = true ∨ scan.SlashFirst → Plain (.leaf kind scan)
  | sign {scan : Scanner} : scan.SlashFirst → Plain (.sign scan)
  | glued {kind : Kind} {scan : Scanner} : kind.holdsText = true ∨ scan.Slashless → Plain (.glued kind scan)
  | remark : Plain .remark
  | look {test : Context → List Char → Bool} : Plain (.look test)
  | seqNil : Plain (.seq [])
  | seqCons {r : Rule} {rs : List Rule} : Plain r → Plain (.seq rs) → Plain (.seq (r :: rs))
  | closingTag : Plain (.seq Grammar.closingTag)
  | first {rs : List Rule} : (∀ r ∈ rs, Plain r) → Plain (.first rs)
  | many {r : Rule} : Plain r → Plain (.many r)
  | opt {r : Rule} : Plain r → Plain (.opt r)
  | node {kind : Kind} {r : Rule} : Plain r → Plain (.node kind r)
  | regex : Plain Grammar.regex
  | joined {kind : Kind} {r : Rule} : Plain r → Plain (.joined kind r)
  | part {role : Role} {r : Rule} : Plain r → Plain (.part role r)
  | grow {r : Rule} {tails : List (Kind × Role × Rule)} : Plain r → (∀ t ∈ tails, Plain t.2.2) → Plain (.grow r tails)
  | within {change : Context → Context} {r : Rule} : Plain r → Plain (.within change r)
  | phrase {name : Phrase} : Plain (.phrase name)

namespace Plain

@[simp]
theorem leaf_iff {kind : Kind} {scan : Scanner} :
    Plain (.leaf kind scan) ↔ kind.holdsText = true ∨ scan.SlashFirst :=
  ⟨fun h => by cases h with | leaf h => exact h, leaf⟩

@[simp]
theorem sign_iff {scan : Scanner} : Plain (.sign scan) ↔ scan.SlashFirst :=
  ⟨fun h => by cases h with | sign h => exact h, sign⟩

@[simp]
theorem glued_iff {kind : Kind} {scan : Scanner} :
    Plain (.glued kind scan) ↔ kind.holdsText = true ∨ scan.Slashless :=
  ⟨fun h => by cases h with | glued h => exact h, glued⟩

@[simp]
theorem seqCons_iff {r : Rule} {rs : List Rule} :
    Plain (.seq (r :: rs)) ↔ r :: rs = Grammar.closingTag ∨ Plain r ∧ Plain (.seq rs) := by
  constructor
  · intro h
    generalize hrs : r :: rs = rules at h
    cases h with
    | seqNil => cases hrs
    | seqCons hr hrest =>
      obtain ⟨rfl, rfl⟩ := List.cons.inj hrs
      exact Or.inr ⟨hr, hrest⟩
    | closingTag => exact Or.inl rfl
  · rintro (h | ⟨hr, hrest⟩)
    · rw [h]
      exact closingTag
    · exact seqCons hr hrest

@[simp]
theorem first_iff {rs : List Rule} : Plain (.first rs) ↔ ∀ r ∈ rs, Plain r :=
  ⟨fun h => by cases h with | first h => exact h, first⟩

@[simp]
theorem many_iff {r : Rule} : Plain (.many r) ↔ Plain r := ⟨fun h => by cases h with | many h => exact h, many⟩

@[simp]
theorem opt_iff {r : Rule} : Plain (.opt r) ↔ Plain r := ⟨fun h => by cases h with | opt h => exact h, opt⟩

@[simp]
theorem node_iff {kind : Kind} {r : Rule} : Plain (.node kind r) ↔ .node kind r = Grammar.regex ∨ Plain r := by
  constructor
  · intro h
    generalize hrule : Rule.node kind r = rule at h
    cases h with
    | node hr =>
      obtain ⟨rfl, rfl⟩ := Rule.node.inj hrule
      exact Or.inr hr
    | regex => exact Or.inl rfl
    | _ => cases hrule
  · rintro (h | hr)
    · rw [h]
      exact regex
    · exact node hr

@[simp]
theorem joined_iff {kind : Kind} {r : Rule} : Plain (.joined kind r) ↔ Plain r :=
  ⟨fun h => by cases h with | joined h => exact h, joined⟩

@[simp]
theorem part_iff {role : Role} {r : Rule} : Plain (.part role r) ↔ Plain r :=
  ⟨fun h => by cases h with | part h => exact h, part⟩

@[simp]
theorem grow_iff {r : Rule} {tails : List (Kind × Role × Rule)} :
    Plain (.grow r tails) ↔ Plain r ∧ ∀ t ∈ tails, Plain t.2.2 :=
  ⟨fun h => by cases h with | grow hr htails => exact ⟨hr, htails⟩, fun h => grow h.1 h.2⟩

@[simp]
theorem within_iff {change : Context → Context} {r : Rule} : Plain (.within change r) ↔ Plain r :=
  ⟨fun h => by cases h with | within h => exact h, within⟩

attribute [simp] remark look phrase seqNil

end Plain

/-! ### The small rules of the grammar -/

section Small

open Grammar Scanner

variable {s : String} {words : List String} {r : Rule}

@[simp]
theorem plain_mark (hs : '/' ∉ s.toList.tail) : Plain (mark s) := .sign (slashFirst_exactly hs)

@[simp]
theorem plain_word (hs : '/' ∉ s.toList) : Plain (word s) := .sign (slashless_word hs).slashFirst

@[simp]
theorem plain_oneWord (hs : ∀ s ∈ words, '/' ∉ s.toList) : Plain (oneWord words) := by
  refine .sign (.oneOf fun scan hscan => ?_)
  obtain ⟨s, hmem, rfl⟩ := List.mem_map.mp hscan
  exact (slashless_word (hs s hmem)).slashFirst

@[simp]
theorem plain_operator : Plain (operator s) := .sign (slashFirst_operator s)

@[simp]
theorem plain_oneOperator : Plain (oneOperator words) := by
  refine .sign (.oneOf fun scan hscan => ?_)
  obtain ⟨s, -, rfl⟩ := List.mem_map.mp hscan
  exact slashFirst_operator s

@[simp]
theorem enclosed_iff : Plain (enclosed r) ↔ Plain r := Plain.within_iff

@[simp]
theorem opened_iff : Plain (opened r) ↔ Plain r := Plain.within_iff

@[simp]
theorem typed_iff : Plain (typed r) ↔ Plain r := by simp [typed, closingTag]

@[simp]
theorem untyped_iff : Plain (untyped r) ↔ Plain r := by simp [untyped, closingTag]

attribute [simp] Kind.holdsText slashless_exactly

@[simp]
theorem slashFirst_word (hs : '/' ∉ s.toList) : SlashFirst (Scanner.word s) := (slashless_word hs).slashFirst

@[simp]
theorem slashFirst_identifier : SlashFirst Scanner.identifier := slashless_identifier.slashFirst

@[simp]
theorem slashFirst_name : SlashFirst Scanner.name := slashless_name.slashFirst

@[simp]
theorem slashFirst_privateName : SlashFirst Scanner.privateName := slashless_privateName.slashFirst

@[simp]
theorem slashFirst_number : SlashFirst Scanner.number := slashless_number.slashFirst

@[simp]
theorem slashFirst_chainMark : SlashFirst chainMark := slashless_chainMark.slashFirst

@[simp]
theorem slashFirst_questionMark : SlashFirst questionMark := slashless_questionMark.slashFirst

@[simp]
theorem commaList_iff : Plain (commaList r) ↔ Plain r := by simp (disch := decide) [commaList, closingTag]

@[simp]
theorem commaList1_iff : Plain (commaList1 r) ↔ Plain r := by simp (disch := decide) [commaList1, closingTag]

@[simp]
theorem plain_propertyName : Plain propertyName := by simp [propertyName]

@[simp]
theorem plain_tagName : Plain tagName := by
  have hname : SlashFirst markupName := slashless_markupName.slashFirst
  simp (disch := decide) [tagName, hname]

end Small

/-! ### What plain rules read -/

variable {grammar : Phrase → Rule} {c start next : Cursor} {before ts : List Tree}

/-- A lexeme after the comments before it. -/
theorem covers_leaf {kind : Kind} {scan : Scanner} {n : Nat} (gap : remarks c = (before, start))
    (found : scan start.rest = some n) (h : kind.holdsText = true ∨ scan.SlashFirst) :
    Covers (before ++ [.node kind none ⟨start.offset, (start.advance n).offset⟩ []]) c (start.advance n) := by
  have hbefore : Covers before c start := by simpa only [gap] using covers_remarks c
  have hnone : Scanner.comment start.rest = none := by simpa only [gap] using comment_remarks c
  refine hbefore.trans ?_
  rcases h with hkind | hscan
  · exact .of_holdsText (between_advance n start) hkind
  · exact .of_slashFirst hscan found hnone

theorem reads_mark {s : String} (h : Reads grammar (Grammar.mark s) c ts next) :
    ∃ before start name, remarks c = (before, start) ∧ Scanner.exactly s start.rest = some s.length ∧
      next = start.advance s.length ∧
      ts = before ++ [.node (.symbol name) none ⟨start.offset, (start.advance s.length).offset⟩ []] := by
  rw [Grammar.mark] at h
  cases h with
  | @sign name _ _ start before n gap found =>
    have hlength : s.length = n := by
      rw [Scanner.exactly] at found
      split at found
      · exact Option.some.inj found
      · cases found
    subst hlength
    exact ⟨before, start, name, gap, found, rfl, rfl⟩

/-- Comments before a construct stay outside of it. -/
theorem enclose_remarks {kind : Kind} {at_ : Nat} {t : Tree} {rest : List Tree} (gap : remarks c = (before, start))
    (ht : t.isComment = false) : Tree.enclose kind at_ (before ++ t :: rest) =
      before ++ [.node kind none ⟨t.span.start, ((t :: rest).getLastD t).span.stop⟩ (t :: rest)] := by
  have hbefore : ∀ b ∈ before, b.isComment = true := fun b hb => isComment_remarks (c := c) (by rwa [gap])
  have hfalse : ¬t.isComment = true := by rw [ht]; exact Bool.false_ne_true
  rw [Tree.enclose, List.takeWhile_append_of_pos hbefore, List.dropWhile_append_of_pos hbefore,
    List.takeWhile_cons_of_neg hfalse, List.dropWhile_cons_of_neg hfalse, List.append_nil]
  rfl

/-- A regular expression is one piece of text from its first slash to its flags. -/
theorem covers_regex (h : Reads grammar Grammar.regex c ts next) : Covers ts c next := by
  rw [Grammar.regex] at h
  cases h with | node inner =>
  cases inner with | seqCons slash inner =>
  obtain ⟨before, start, name, gap, -, rfl, rfl⟩ := reads_mark slash
  cases inner with | seqCons body inner =>
  cases body with | @glued _ _ _ m _ =>
  cases inner with | seqCons closing inner =>
  cases closing with | @glued _ _ _ n _ =>
  cases inner with | seqCons flags inner =>
  cases inner
  have hbefore : Covers before c start := by simpa only [gap] using covers_remarks c
  have hslashes := ((between_advance "/".length start).trans (between_advance m _)).trans (between_advance n _)
  rw [List.append_assoc, List.singleton_append, enclose_remarks gap rfl]
  refine hbefore.trans ?_
  cases flags with
  | optStop => exact .of_holdsText hslashes rfl
  | optStep inner =>
    cases inner with | @glued _ _ _ k _ =>
    exact .of_holdsText (hslashes.trans (between_advance k _)) rfl

theorem name_eq_none {d : Char} {ds : List Char} (hd : Scanner.isNameStart d = false) (hescape : d ≠ '\\') :
    Scanner.name (d :: ds) = none := by
  rw [Scanner.name, hd, if_neg Bool.false_ne_true, Scanner.nameEscape.eq_def]
  split
  · next heq => exact absurd (List.cons.inj heq).1 hescape
  · next heq => exact absurd (List.cons.inj heq).1 hescape
  · rfl

/-- What follows the mark of a closing tag is a name or its end, and so the slash of the mark opens no comment. -/
theorem not_opensRemark_of_closingTag (h : Reads grammar (.seq [.opt Grammar.tagName, Grammar.mark ">"]) c ts next) :
    opensRemark ('/' :: c.rest) = false := by
  rw [Bool.eq_false_iff]
  intro hopens
  obtain ⟨hnone, hhead⟩ := not_comment_of_opensRemark hopens
  obtain ⟨d, hd, hmark⟩ : ∃ d, c.rest.head? = some d ∧ (d = '/' ∨ d = '*') := by
    rcases hhead with hd | hd
    · exact ⟨_, hd, Or.inl rfl⟩
    · exact ⟨_, hd, Or.inr rfl⟩
  have hblank : Scanner.isBlank d = false := by rcases hmark with rfl | rfl <;> decide
  have hgap : remarks c = ([], c) := remarks_of_none hd hblank hnone
  obtain ⟨ds, hrest⟩ := List.head?_eq_some_iff.mp hd
  cases h with | seqCons name inner =>
  cases name with
  | optStop =>
    cases inner with | seqCons closing inner =>
    obtain ⟨before, start, _, gap, found, -⟩ := reads_mark closing
    rw [hgap] at gap
    obtain ⟨-, rfl⟩ := Prod.mk.inj gap
    rw [hrest] at found
    rcases hmark with rfl | rfl <;> cases found
  | optStep name =>
    rw [Grammar.tagName] at name
    cases name with | joined name =>
    cases name with | seqCons first _ =>
    cases first with | leaf gap found =>
    rw [hgap] at gap
    obtain ⟨-, rfl⟩ := Prod.mk.inj gap
    have hname : Scanner.name c.rest = none := by
      rw [hrest]
      rcases hmark with rfl | rfl <;> exact name_eq_none (by decide) (by decide)
    rw [Scanner.markupName, Scanner.identifier, Scanner.butNot, hname] at found
    cases found

/-- The mark of a closing tag: a comment could begin only at its slash. -/
theorem covers_closingMark (h : Reads grammar (Grammar.mark "</") c ts next)
    (hslash : opensRemark ('/' :: next.rest) = false) : Covers ts c next := by
  obtain ⟨before, start, name, gap, found, rfl, rfl⟩ := reads_mark h
  have hbefore : Covers before c start := by simpa only [gap] using covers_remarks c
  have hfront : start.rest.take 2 = ['<', '/'] := by
    rw [Scanner.exactly] at found
    split at found
    · next hpre =>
      obtain ⟨rest, hrest⟩ := List.isPrefixOf_iff_prefix.mp hpre
      rw [← hrest]
      rfl
    · cases found
  refine hbefore.trans ⟨['<', '/'], hfront ▸ between_advance 2 start, ?_⟩
  intro u v huv hv hopens
  have hv' : v = ['<', '/'] ∨ v = ['/'] := by
    rcases u with _ | ⟨_, _ | ⟨_, u⟩⟩
    · exact Or.inl huv.symm
    · exact Or.inr (List.cons.inj huv).2.symm
    · have hnil := (List.cons.inj (List.cons.inj huv).2).2
      exact absurd (List.append_eq_nil_iff.mp hnil.symm).2 hv
  rcases hv' with rfl | rfl
  · have := head?_of_comment (comment_of_opensRemark hopens)
    cases this
  · rw [List.singleton_append, show opensRemark ('/' :: _) = false from hslash] at hopens
    cases hopens

/-- What is read by plain rules covers the text it was read from. -/
theorem Reads.covers {rule : Rule} (hgrammar : ∀ name, Plain (grammar name)) (h : Reads grammar rule c ts next)
    (hrule : Plain rule) : Covers ts c next := by
  induction h with
  | leaf gap found =>
    cases hrule with | leaf hlexeme =>
    exact covers_leaf gap found hlexeme
  | sign gap found =>
    cases hrule with | sign hlexeme =>
    exact covers_leaf gap found (Or.inr hlexeme)
  | @glued kind scan c n found =>
    cases hrule with | glued hlexeme =>
    rcases hlexeme with hkind | hscan
    · exact .of_holdsText (between_advance n c) hkind
    · exact .of_noSlash (between_advance n c) (hscan c.rest n found)
  | @remark c n found => exact (Covers.skipBlanks c).trans (.of_holdsText (between_advance n _) rfl)
  | look => exact .refl _
  | seqNil => exact .refl _
  | seqCons head tail ihhead ihtail =>
    cases hrule with
    | seqCons hr hrs => exact (ihhead hr).trans (ihtail hrs)
    | closingTag =>
      have htail : Plain (.seq [.opt Grammar.tagName, Grammar.mark ">"]) := by simp (disch := decide)
      exact (covers_closingMark head (not_opensRemark_of_closingTag tail)).trans (ihtail htail)
  | first chosen inner ih =>
    cases hrule with | first hrs =>
    exact ih (hrs _ chosen)
  | manyStop => exact .refl _
  | manyStep head tail ihhead ihtail =>
    cases hrule with | many hr =>
    exact (ihhead hr).trans (ihtail (.many hr))
  | optStop => exact .refl _
  | optStep inner ih =>
    cases hrule with | opt hr =>
    exact ih hr
  | @node kind r c next ts inner ih =>
    cases hrule with
    | node hr => exact (ih hr).imp fun _ hquotes => hquotes.enclose kind c.offset
    | regex => exact covers_regex (.node inner)
  | @joined kind r c next ts inner ih =>
    cases hrule with | joined hr =>
    exact (ih hr).imp fun _ hquotes => hquotes.join kind c.offset
  | @part role r c next ts inner ih =>
    cases hrule with | part hr =>
    exact (ih hr).imp fun _ hquotes => hquotes.map_withRole role
  | growStop inner ih =>
    cases hrule with | grow hr htails =>
    exact ih hr
  | @growStep r tail tails kind role c middle next ts ts' inner chosen more ih ihmore =>
    cases hrule with | grow hr htails =>
    have hfirst := (ih (.grow hr htails)).imp fun _ hquotes => hquotes.map_withRole role
    exact (hfirst.trans (ihmore (htails _ chosen))).imp fun _ hquotes => hquotes.enclose _ _
  | within inner ih =>
    cases hrule with | within hr =>
    exact ih hr
  | @phrase name c next ts inner ih => exact ih (hgrammar name)

end Rule

end WriteGuard.Source
