import WriteGuard.Proofs.Declarations
import WriteGuard.Proofs.Nesting
import WriteGuard.Source.File

/-!
Which constructs bind a name by the rules of the language, and which of these bindings the search for a declaration
misses. A value is taken from the innermost scope that the search sees to declare the name; the value is the right one
exactly if nothing further inside binds the name in a way the search does not see.
-/

namespace WriteGuard.Scope

open Source Source.Tree

/-! ### The rules of the language -/

/-- The statements, and parts of statements, whose inner statements are run as a part of them. -/
def isCompound : Kind → Bool
  | .block | .ifStatement | .elseClause | .forStatement | .whileStatement | .doStatement | .withStatement
  | .labeledStatement | .tryStatement | .catchClause | .finallyClause | .switchStatement | .switchBody | .switchCase
  | .switchDefault => true
  | _ => false

section Rules

variable (word : Kind → Bool) (content : List Char) (name : String)

/-- One of the declarators of a declaration has a target that binds the name. -/
def DeclaratorBinds (t : Tree) : Prop :=
  ∃ d ∈ t.namedChildren, d.kind = .declarator ∧
    ∃ target, d.child? .name = some target ∧ BoundName word content name target

/-- A statement declares the name in the block that it stands in. -/
inductive Lexical : Tree → Prop
  | declared {t : Tree} (hk : t.kind = .lexicalDeclaration) (h : DeclaratorBinds word content name t) : Lexical t
  | named {t own : Tree} (hk : t.kind = .functionDeclaration ∨ t.kind = .classDeclaration)
      (ho : t.child? .name = some own) (hn : own.text content = name) : Lexical t
  | exported {t d : Tree} (hk : t.kind = .exportStatement) (hd : t.child? .declaration = some d) (h : Lexical d) :
      Lexical t

/-- A statement declares the name by `var`, in its own words or through an inner statement. -/
inductive VarName : Tree → Prop
  | declared {t : Tree} (hk : t.kind = .variableDeclaration) (h : DeclaratorBinds word content name t) : VarName t
  | head {t w left : Tree} (hk : t.kind = .forEachStatement) (hw : t.child? .kind = some w)
      (hv : w.text content = "var") (hl : t.child? .left = some left) (h : BoundName word content name left) : VarName t
  | each {t body : Tree} (hk : t.kind = .forEachStatement) (hb : t.child? .body = some body) (h : VarName body) :
      VarName t
  | inner {t c : Tree} (hk : isCompound t.kind = true) (hc : c ∈ t.namedChildren) (h : VarName c) : VarName t

/-- A construct inside `parent` binds the name for all that stands in it: a block, the body of a function, the
parameters of a function, the head of a loop, or the parameter of a `catch`. -/
inductive Declares (parent : Option Tree) (t : Tree) : Prop
  | block {st : Tree} (hk : t.kind = .block) (hs : st ∈ t.namedChildren) (h : Lexical word content name st)
  | body {owner st : Tree} (hk : t.kind = .block) (hp : parent = some owner)
      (ho : owner.kind ∈ [.functionDeclaration, .functionExpression, .arrowFunction, .method, .staticBlock])
      (hs : st ∈ t.namedChildren) (h : VarName word content name st)
  | parameters {ps : Tree} (hk : t.kind ∈ [.functionDeclaration, .functionExpression, .arrowFunction, .method])
      (hp : (t.child? .parameters).or (t.child? .parameter) = some ps) (h : BoundName word content name ps)
  | loop {start : Tree} (hk : t.kind = .forStatement) (hi : t.child? .initializer = some start)
      (hl : start.kind = .lexicalDeclaration) (h : DeclaratorBinds word content name start)
  | each {w left : Tree} (hk : t.kind = .forEachStatement) (hw : t.child? .kind = some w) (hv : w.text content ≠ "var")
      (hl : t.child? .left = some left) (h : BoundName word content name left)
  | caught {p : Tree} (hk : t.kind = .catchClause) (hp : t.child? .parameter = some p)
      (h : BoundName word content name p)

end Rules

section Language

variable (content : List Char) (name : String)

/-- A function of this name behind one or more labels. -/
inductive LabelledFunction : Tree → Prop
  | function {t body own : Tree} (hk : t.kind = .labeledStatement) (hb : t.child? .body = some body)
      (hf : body.kind = .functionDeclaration) (ho : body.child? .name = some own) (hn : own.text content = name) :
      LabelledFunction t
  | label {t body : Tree} (hk : t.kind = .labeledStatement) (hb : t.child? .body = some body)
      (h : LabelledFunction body) : LabelledFunction t

/-- A construct binds the name without being a scope of its own to the search: the body of a `switch` by a declaration
in one of its clauses, a function or class that is a value by its own name, a block by a function with a label. -/
inductive Unnoticed (t : Tree) : Prop
  | clause {clause st : Tree} (hk : t.kind = .switchBody) (hc : clause ∈ t.namedChildren)
      (hck : clause.kind = .switchCase ∨ clause.kind = .switchDefault) (hs : st ∈ clause.namedChildren)
      (h : Lexical isNameWord content name st ∨ LabelledFunction content name st)
  | ownName {own : Tree} (hk : t.kind = .functionExpression ∨ t.kind = .other "class") (ho : t.child? .name = some own)
      (hn : own.text content = name)
  | labelled {st : Tree} (hk : t.kind = .block) (hs : st ∈ t.namedChildren) (h : LabelledFunction content name st)

/-- A construct binds the name by the rules of the language. -/
def Binds (parent : Option Tree) (t : Tree) : Prop :=
  Declares isNameWord content name parent t ∨ Unnoticed content name t

/-- A construct binds the name in a way that the search does not see: it is none of the scopes that are searched, or it
binds the name by the word `undefined` in a pattern and by nothing else. -/
def Overlooked (parent : Option Tree) (t : Tree) : Prop :=
  (Declares isNameWord content name parent t ∧ ¬ Declares isKnownWord content name parent t) ∨ Unnoticed content name t

end Language

/-! ### What the search sees -/

section Seen

variable {content : List Char} {name : String}

theorem ofDeclarators_ne_nil {t : Tree} (h : DeclaratorBinds isKnownWord content name t) :
    ofDeclarators content name t ≠ [] := by
  obtain ⟨d, hd, hk, target, ht, hb⟩ := h
  have hbinds := hb.binds
  have hone : ofDeclarator content name d ≠ [] := by
    rw [ofDeclarator, if_pos hk, ht]
    by_cases hi : target.kind = .identifier
    · rw [binds_eq, hi] at hbinds
      simp [hi, of_decide_eq_true hbinds]
    · simp [hi, hbinds]
  intro hnil
  exact hone (List.flatMap_eq_nil_iff.mp hnil d hd)

theorem ofPattern_ne_nil {pattern : Option Tree} {t : Tree} (hp : pattern = some t)
    (h : BoundName isKnownWord content name t) : ofPattern content name pattern ≠ [] := by
  rw [hp, ofPattern, if_pos h.binds]
  exact List.cons_ne_nil _ _

theorem ofStatement_ne_nil {t : Tree} (h : Lexical isKnownWord content name t) : ofStatement content name t ≠ [] := by
  induction h with
  | declared hk h =>
    rw [ofStatement_eq, hk]
    exact ofDeclarators_ne_nil h
  | named hk ho hn =>
    rw [ofStatement_eq]
    rcases hk with hk | hk <;> simp [hk, ho, hn]
  | exported hk hd _ ih =>
    rw [ofStatement_eq, hk]
    simpa only [hd, Option.map_some, Option.getD_some] using ih

theorem holdsStatements_of_isCompound {k : Kind} (h : isCompound k = true) :
    k.holdsStatements = true ∧ k ≠ .variableDeclaration ∧ k ≠ .forEachStatement := by
  cases k <;> simp_all [isCompound, Kind.holdsStatements]

theorem hoisted_ne_nil {t : Tree} (h : VarName isKnownWord content name t) : hoisted content name t ≠ [] := by
  induction h with
  | declared hk h =>
    rw [hoisted_eq, hk]
    exact ofDeclarators_ne_nil h
  | head hk hw hv hl h =>
    rw [hoisted_eq, hk]
    intro hnil
    have hnil' := (List.append_eq_nil_iff.mp hnil).1
    rw [hw, Option.map_some, if_pos (by rw [hv])] at hnil'
    exact ofPattern_ne_nil hl h hnil'
  | each hk hb _ ih =>
    rw [hoisted_eq, hk]
    intro hnil
    have hnil' := (List.append_eq_nil_iff.mp hnil).2
    rw [hb] at hnil'
    exact ih hnil'
  | @inner t c hk hc _ ih =>
    obtain ⟨hs, hv, hf⟩ := holdsStatements_of_isCompound hk
    have hall : hoisted content name t = t.namedChildren.flatMap (hoisted content name) := by
      rw [hoisted_eq]
      split
      · exact absurd ‹_› hv
      · exact absurd ‹_› hf
      · rw [if_pos hs]
    rw [hall]
    intro hnil
    exact ih (List.flatMap_eq_nil_iff.mp hnil c hc)

theorem ofBlock_ne_nil {t st : Tree} {hoists : Bool} (hs : st ∈ t.namedChildren)
    (h : Lexical isKnownWord content name st ∨ (hoists = true ∧ VarName isKnownWord content name st)) :
    ofBlock content name t hoists ≠ [] := by
  intro hnil
  have hnone := ofBlock_perm content name t hoists
  rw [hnil, List.nil_perm] at hnone
  obtain ⟨hlex, hvar⟩ := List.append_eq_nil_iff.mp hnone
  rcases h with h | ⟨rfl, h⟩
  · exact ofStatement_ne_nil h (List.flatMap_eq_nil_iff.mp hlex st hs)
  · exact hoisted_ne_nil h (List.flatMap_eq_nil_iff.mp hvar st hs)

/-- Every scope that is searched shows what it binds by a word that is known in patterns. -/
theorem declarations_ne_nil {parent : Option Tree} {t : Tree} (h : Declares isKnownWord content name parent t) :
    declarations content name parent t ≠ [] := by
  cases h with
  | block hk hs h =>
    rw [declarations, hk]
    exact ofBlock_ne_nil hs (Or.inl h)
  | @body owner st hk hp ho hs h =>
    have howns : ownsBlock parent = true := by
      subst hp
      simp only [List.mem_cons, List.not_mem_nil, or_false] at ho
      rcases ho with ho | ho | ho | ho | ho <;> simp [ownsBlock, ho, Kind.isFunction]
    rw [declarations, hk, howns]
    exact ofBlock_ne_nil hs (Or.inr ⟨rfl, h⟩)
  | parameters hk hp h =>
    rw [declarations]
    simp only [List.mem_cons, List.not_mem_nil, or_false] at hk
    rcases hk with hk | hk | hk | hk <;> simpa [hk, Kind.isFunction] using ofPattern_ne_nil hp h
  | @loop start hk hi hl h =>
    obtain ⟨d, hd, -, target, ht, hb⟩ := h
    have hany : (start.namedChildren.any fun d => ((d.child? .name).map (Tree.binds content name)).getD false) = true :=
      List.any_eq_true.mpr ⟨d, hd, by rw [ht, Option.map_some, Option.getD_some]; exact hb.binds⟩
    rw [declarations, hk]
    simp only [hi, hl, hany, decide_true, Bool.and_self, if_true]
    exact List.cons_ne_nil _ _
  | each hk hw _ hl h =>
    rw [declarations, hk]
    simpa [hw] using ofPattern_ne_nil hl h
  | caught hk hp h =>
    rw [declarations, hk]
    exact ofPattern_ne_nil hp h

end Seen

/-! ### Bindings between a reference and its value -/

/-- The value of a name is taken from the innermost scope that the search sees to declare it. A construct between the
reference and that scope binds the name exactly if it is overlooked; so where nothing is overlooked, no construct
shadows the value. -/
theorem resolve_shadowed_iff_overlooked {content : List Char} {root : Tree} {name : String} {at_ : Span} {e : Expr}
    (h : resolve content root name at_ = some e) :
    ∃ k value, DecidedAt content name (root.covering at_).tail k value ∧ e = Lower.expr content value ∧
      ∀ i < k, ∀ c, (root.covering at_).tail[i]? = some c →
        (Binds content name (root.covering at_).tail[i + 1]? c ↔
          Overlooked content name (root.covering at_).tail[i + 1]? c) := by
  obtain ⟨value, hvalue, he⟩ := Option.map_eq_some_iff.mp h
  obtain ⟨k, hk⟩ := (initializer?_eq_some_iff content name value _).mp hvalue
  refine ⟨k, value, hk, he.symm, fun i hi c hc => ⟨?_, ?_⟩⟩
  · rintro (hd | hu)
    · -- a scope inside the deciding one shows no declaration
      exact Or.inl ⟨hd, fun hknown => declarations_ne_nil hknown (hk.inner i hi c hc)⟩
    · exact Or.inr hu
  · rintro (⟨hd, -⟩ | hu)
    · exact Or.inl hd
    · exact Or.inr hu

/-- A name declared at the top of a program and again in a clause of a `switch`, where it is used. -/
def switchText : List Char := "const v = 0; switch (x) \x7b default: let v = 1; f(v); \x7d".toList

/-- The name `v` at an offset with a digit as its value. -/
def declaratorV (v : Nat) : Tree :=
  .node .declarator none ⟨v, v + 5⟩ [
    .node .identifier (some .name) ⟨v, v + 1⟩ [], mark "=" (v + 2) (v + 3),
    .node .number (some .value) ⟨v + 4, v + 5⟩ []]

/-- The declaration of `v` by a keyword in front of it. -/
def declareV (keyword : String) (start v : Nat) : Tree :=
  .node .lexicalDeclaration none ⟨start, v + 6⟩ [
    .node (.symbol keyword) (some .kind) ⟨start, v - 1⟩ [], declaratorV v, mark ";" (v + 5) (v + 6)]

/-- The clause of the `switch`. -/
def switchClause : Tree :=
  .node .switchDefault none ⟨26, 51⟩ [
    mark "default" 26 33, mark ":" 33 34, declareV "let" 35 39,
    .node (.other "expression") none ⟨46, 51⟩ [
      .node .call none ⟨46, 50⟩ [
        .node .identifier (some .callee) ⟨46, 47⟩ [],
        .node .arguments (some .arguments) ⟨47, 50⟩ [
          mark "(" 47 48, .node .identifier none ⟨48, 49⟩ [], mark ")" 49 50]],
      mark ";" 50 51]]

/-- The body of the `switch`. -/
def switchBody : Tree :=
  .node .switchBody (some .body) ⟨24, 53⟩ [mark "\x7b" 24 25, switchClause, mark "\x7d" 52 53]

/-- The program. -/
def switchProgram : Tree :=
  .node .program none ⟨0, 53⟩ [
    declareV "const" 0 6,
    .node .switchStatement none ⟨13, 53⟩ [
      mark "switch" 13 19,
      .node .parens none ⟨20, 23⟩ [mark "(" 20 21, .node .identifier none ⟨21, 22⟩ [], mark ")" 22 23],
      switchBody]]

set_option maxRecDepth 100000 in
theorem tree_switchText : (SourceFile.ofText .javaScript switchText).tree = switchProgram := by decide +kernel

theorem decidedAt_switchProgram :
    DecidedAt switchText "v" (switchProgram.covering ⟨48, 49⟩).tail 6 (.node .number (some .value) ⟨10, 11⟩ []) where
  inner := by
    intro i hi c hc
    have hcases : i = 0 ∨ i = 1 ∨ i = 2 ∨ i = 3 ∨ i = 4 ∨ i = 5 := by omega
    rcases hcases with rfl | rfl | rfl | rfl | rfl | rfl <;> cases Option.some.inj hc <;> rfl
  scope := ⟨switchProgram, rfl, by decide +kernel⟩

/-- The value of `v` in the clause is the one from the top of the program. -/
theorem resolve_switchProgram :
    resolve switchText switchProgram "v" ⟨48, 49⟩ = some (.literal ⟨.number "0", ⟨10, 11⟩⟩) :=
  resolve_of_initializer? ((initializer?_eq_some_iff ..).mpr ⟨6, decidedAt_switchProgram⟩)

theorem binds_switchBody (parent : Option Tree) : Binds switchText "v" parent switchBody := by
  have hword : BoundName isNameWord switchText "v" (.node .identifier (some .name) ⟨39, 40⟩ []) := .word rfl rfl
  have hlexical : Lexical isNameWord switchText "v" (declareV "let" 35 39) :=
    .declared rfl ⟨declaratorV 39, by decide, rfl, _, rfl, hword⟩
  exact Or.inr (@Unnoticed.clause _ _ _ switchClause _ rfl (by decide) (Or.inr rfl) (by decide) (Or.inl hlexical))

/-- The value of `v` is taken from the top of the program although the body of the `switch` binds the name. -/
theorem resolve_past_switchBody :
    ∃ k value,
      DecidedAt switchText "v" ((SourceFile.ofText .javaScript switchText).tree.covering ⟨48, 49⟩).tail k value ∧
      (SourceFile.ofText .javaScript switchText).resolve "v" ⟨48, 49⟩ = some (Lower.expr switchText value) ∧
      ∃ i < k, ∃ c, ((SourceFile.ofText .javaScript switchText).tree.covering ⟨48, 49⟩).tail[i]? = some c ∧
        Binds switchText "v" ((SourceFile.ofText .javaScript switchText).tree.covering ⟨48, 49⟩).tail[i + 1]? c := by
  rw [SourceFile.resolve, tree_switchText]
  exact ⟨6, _, decidedAt_switchProgram, resolve_switchProgram, 4, by decide, switchBody, rfl, binds_switchBody _⟩

/-- In the program with the `switch`, its body is overlooked on the way from the use of `v` to the top. -/
theorem resolve_shadowed_iff_overlooked_switch :
    resolve switchText switchProgram "v" ⟨48, 49⟩ = some (.literal ⟨.number "0", ⟨10, 11⟩⟩) ∧
    (switchProgram.covering ⟨48, 49⟩).tail[4]? = some switchBody ∧
    Overlooked switchText "v" (switchProgram.covering ⟨48, 49⟩).tail[5]? switchBody := by
  obtain ⟨k, value, hk, -, hbetween⟩ := resolve_shadowed_iff_overlooked resolve_switchProgram
  have hdeep : 4 < k := by
    refine Nat.lt_of_not_le fun hle => ?_
    obtain ⟨c, hc, hdecl⟩ := hk.scope
    rw [decidedAt_switchProgram.inner k (by omega) c hc] at hdecl
    cases hdecl
  exact ⟨resolve_switchProgram, rfl, (hbetween 4 hdeep switchBody rfl).mp (binds_switchBody _)⟩

end WriteGuard.Scope
