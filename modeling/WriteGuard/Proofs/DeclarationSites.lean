import WriteGuard.Proofs.Addresses
import WriteGuard.Proofs.Shadowing

/-!
Where a scope declares a name. Each declaration has an address below the scope: a declarator, a function, a class, an
import, the head of a loop or the parameters of a function. The functions that collect the declarations of a scope find
all of these places, and each of them once, although a block is searched twice and statements are entered in it.
-/

namespace WriteGuard.Source.Tree

/-! ### Names in patterns -/

/-- The kinds of nodes with a rule of their own for the names they introduce. -/
def namesByRule : Kind → Bool
  | .identifier | .shorthandPattern | .assignmentPattern | .objectAssignmentPattern | .pairPattern | .parameter
  | .importSpecifier | .typeMark | .decorator | .string => true
  | _ => false

/-- A pattern, a parameter list or an import introduces a name. Default values, keys, types and the outside names of
imports introduce nothing. -/
inductive Introduces (content : List Char) (name : String) : Tree → Prop
  | word {t : Tree} (hk : t.kind = .identifier ∨ t.kind = .shorthandPattern) (ht : t.text content = name) :
      Introduces content name t
  | target {t left : Tree} (hk : t.kind = .assignmentPattern ∨ t.kind = .objectAssignmentPattern)
      (hl : t.child? .left = some left) (h : Introduces content name left) : Introduces content name t
  | pair {t value : Tree} (hk : t.kind = .pairPattern) (hv : t.child? .value = some value)
      (h : Introduces content name value) : Introduces content name t
  | parameter {t pattern : Tree} (hk : t.kind = .parameter) (hp : t.child? .pattern = some pattern)
      (h : Introduces content name pattern) : Introduces content name t
  | imported {t inside : Tree} (hk : t.kind = .importSpecifier)
      (hi : (t.child? .alias).or (t.child? .name) = some inside) (h : Introduces content name inside) :
      Introduces content name t
  | element {t c : Tree} (hk : namesByRule t.kind = false) (hc : c ∈ t.namedChildren) (h : Introduces content name c) :
      Introduces content name t

variable {content : List Char} {name : String}

/-- The test of a node without a rule of its own is that of its parts. -/
theorem binds_of_namesByRule {t : Tree} (hk : namesByRule t.kind = false) :
    t.binds content name = t.namedChildren.any (binds content name) := by
  rw [binds_eq]
  split
  case h_11 => rfl
  all_goals
    next heq =>
      rw [heq] at hk
      cases hk

theorem Introduces.binds {t : Tree} (h : Introduces content name t) : t.binds content name = true := by
  induction h with
  | word hk ht => rcases hk with hk | hk <;> rw [binds_eq, hk] <;> exact decide_eq_true ht
  | target hk hl _ ih => rcases hk with hk | hk <;> rw [binds_eq, hk] <;> simp [hl, ih]
  | pair hk hv _ ih => rw [binds_eq, hk]; simp [hv, ih]
  | parameter hk hp _ ih => rw [binds_eq, hk]; simp [hp, ih]
  | imported hk hi _ ih => rw [binds_eq, hk]; simp [hi, ih]
  | element hk hc _ ih =>
    rw [binds_of_namesByRule hk]
    exact List.any_eq_true.mpr ⟨_, hc, ih⟩

/-- The test of a pattern for a name holds exactly if the pattern introduces the name. -/
theorem binds_iff_introduces {t : Tree} : t.binds content name = true ↔ Introduces content name t := by
  refine ⟨?_, Introduces.binds⟩
  induction t using byChildren with
  | step t ih =>
    intro h
    have hpart : ∀ {part : Option Tree}, (∀ c, part = some c → c ∈ t.children) →
        (part.map (Tree.binds content name)).getD false = true → ∃ c, part = some c ∧ Introduces content name c := by
      intro part hmem hbinds
      cases part with
      | none => cases hbinds
      | some c => exact ⟨c, rfl, ih c (hmem c rfl) hbinds⟩
    have hrole : ∀ role c, t.child? role = some c → c ∈ t.children := fun _ _ => List.mem_of_find?_eq_some
    cases hrule : namesByRule t.kind with
    | false =>
      rw [binds_of_namesByRule hrule] at h
      obtain ⟨c, hc, hbinds⟩ := List.any_eq_true.mp h
      exact .element hrule hc (ih c (List.mem_filter.mp hc).1 hbinds)
    | true =>
      rw [binds_eq] at h
      split at h
      case h_1 hk => exact .word (Or.inl hk) (of_decide_eq_true h)
      case h_2 hk => exact .word (Or.inr hk) (of_decide_eq_true h)
      case h_3 hk =>
        obtain ⟨c, hc, hintro⟩ := hpart (hrole _) h
        exact .target (Or.inl hk) hc hintro
      case h_4 hk =>
        obtain ⟨c, hc, hintro⟩ := hpart (hrole _) h
        exact .target (Or.inr hk) hc hintro
      case h_5 hk =>
        obtain ⟨c, hc, hintro⟩ := hpart (hrole _) h
        exact .pair hk hc hintro
      case h_6 hk =>
        obtain ⟨c, hc, hintro⟩ := hpart (hrole _) h
        exact .parameter hk hc hintro
      case h_7 hk =>
        obtain ⟨c, hc, hintro⟩ := hpart (fun c hc => by
          rcases Option.or_eq_some_iff.mp hc with hc | ⟨-, hc⟩ <;> exact hrole _ c hc) h
        exact .imported hk hc hintro
      case h_8 => cases h
      case h_9 => cases h
      case h_10 => cases h
      case h_11 => simp_all [namesByRule]

end WriteGuard.Source.Tree

namespace WriteGuard.Scope

open Source Source.Tree

/-! ### Places of declarations -/

section Places

variable (content : List Char) (name : String)

/-- A declarator declares the name: as a plain variable with its first value, if it has one, or by a pattern. -/
inductive DeclaredBy (d : Tree) : Declaration → Prop
  | plain {target : Tree} (hk : d.kind = .declarator) (ht : d.child? .name = some target)
      (hi : target.kind = .identifier) (hn : target.text content = name) : DeclaredBy d (.declarator (d.child? .value))
  | pattern {target : Tree} (hk : d.kind = .declarator) (ht : d.child? .name = some target)
      (hi : target.kind ≠ .identifier) (hb : Introduces content name target) : DeclaredBy d .unknown

/-- A statement declares the name in the block it stands in, at an address below the statement. -/
inductive DirectAt : Tree → List Nat → Declaration → Prop
  | declarator {t d : Tree} {i : Nat} {x : Declaration} (hk : t.kind = .lexicalDeclaration)
      (hd : t.children[i]? = some d) (h : DeclaredBy content name d x) : DirectAt t [i] x
  | named {t own : Tree} (hk : t.kind = .functionDeclaration ∨ t.kind = .classDeclaration)
      (ho : t.child? .name = some own) (hn : own.text content = name) : DirectAt t [] .unknown
  | imported {t : Tree} (hk : t.kind = .importStatement) (h : Introduces content name t) : DirectAt t [] .unknown
  | exported {t d : Tree} {i : Nat} {p : List Nat} {x : Declaration} (hk : t.kind = .exportStatement)
      (hd : t.FirstPart .declaration i d) (h : DirectAt d p x) : DirectAt t (i :: p) x

/-- A statement declares the name by `var`, at an address below it. The way to the declaration goes through compound
statements, exports and the bodies of loops, never through an expression or a function. -/
inductive VarAt : Tree → List Nat → Declaration → Prop
  | declarator {t d : Tree} {i : Nat} {x : Declaration} (hk : t.kind = .variableDeclaration)
      (hd : t.children[i]? = some d) (h : DeclaredBy content name d x) : VarAt t [i] x
  | head {t w left : Tree} (hk : t.kind = .forEachStatement) (hw : t.child? .kind = some w)
      (hv : w.text content = "var") (hl : t.child? .left = some left) (h : Introduces content name left) :
      VarAt t [] .unknown
  | each {t body : Tree} {i : Nat} {p : List Nat} {x : Declaration} (hk : t.kind = .forEachStatement)
      (hb : t.FirstPart .body i body) (h : VarAt body p x) : VarAt t (i :: p) x
  | inner {t c : Tree} {i : Nat} {p : List Nat} {x : Declaration}
      (hk : isCompound t.kind = true ∨ t.kind = .exportStatement) (hc : t.children[i]? = some c) (h : VarAt c p x) :
      VarAt t (i :: p) x

/-- A block whose `var` declarations belong to it: the program, the body of a function or a static block. -/
def OwnsVars (parent : Option Tree) (t : Tree) : Prop :=
  t.kind = .program ∨ t.kind = .block ∧ ∃ owner, parent = some owner ∧
    owner.kind ∈ [.functionDeclaration, .functionExpression, .arrowFunction, .method, .staticBlock]

/-- A scope inside `parent` declares the name at an address below the scope. Of the loops that go through a collection,
those count whose keyword does. -/
inductive Site (counts : String → Prop) (parent : Option Tree) (t : Tree) : List Nat → Declaration → Prop
  | direct {st : Tree} {i : Nat} {p : List Nat} {x : Declaration} (hk : t.kind = .program ∨ t.kind = .block)
      (hs : t.children[i]? = some st) (h : DirectAt content name st p x) : Site counts parent t (i :: p) x
  | hoisted {st : Tree} {i : Nat} {p : List Nat} {x : Declaration} (ho : OwnsVars parent t)
      (hs : t.children[i]? = some st) (h : VarAt content name st p x) : Site counts parent t (i :: p) x
  | parameters {ps : Tree} (hk : t.kind ∈ [.functionDeclaration, .functionExpression, .arrowFunction, .method])
      (hp : (t.child? .parameters).or (t.child? .parameter) = some ps) (h : Introduces content name ps) :
      Site counts parent t [] .unknown
  | loop {start d target : Tree} (hk : t.kind = .forStatement) (hi : t.child? .initializer = some start)
      (hl : start.kind = .lexicalDeclaration) (hd : d ∈ start.namedChildren) (ht : d.child? .name = some target)
      (h : Introduces content name target) : Site counts parent t [] .unknown
  | each {w left : Tree} (hk : t.kind = .forEachStatement) (hw : t.child? .kind = some w)
      (hc : counts (w.text content)) (hl : t.child? .left = some left) (h : Introduces content name left) :
      Site counts parent t [] .unknown
  | caught {c : Tree} (hk : t.kind = .catchClause) (hp : t.child? .parameter = some c)
      (h : Introduces content name c) : Site counts parent t [] .unknown

variable {content name}

/-- Which keywords count matters only to loops that go through a collection. -/
theorem Site.of_ne_forEach {counts counts' : String → Prop} {parent : Option Tree} {t : Tree} {p : List Nat}
    {x : Declaration} (hk : t.kind ≠ .forEachStatement) (h : Site content name counts parent t p x) :
    Site content name counts' parent t p x := by
  cases h with
  | direct hk hs h => exact .direct hk hs h
  | hoisted ho hs h => exact .hoisted ho hs h
  | parameters hk hp h => exact .parameters hk hp h
  | loop hk hi hl hd ht h => exact .loop hk hi hl hd ht h
  | each hk' => exact absurd hk' hk
  | caught hk hp h => exact .caught hk hp h

end Places

/-! ### The collected declarations -/

section Collected

variable {content : List Char} {name : String}

/-- A function that gives nothing for comments and bare symbols may be used on all parts of a node. -/
theorem flatMap_namedChildren {α : Type} {list : Tree → List α} (t : Tree)
    (h : ∀ c, c.kind.isNamed = false ∨ c.isComment = true → list c = []) :
    t.namedChildren.flatMap list = t.children.flatMap list := by
  rw [namedChildren]
  induction t.children with
  | nil => rfl
  | cons c cs ih =>
    rw [List.filter_cons, List.flatMap_cons]
    split
    · rw [List.flatMap_cons, ih]
    · next hc =>
      have hnil : list c = [] := by
        refine h c ?_
        cases hn : c.kind.isNamed <;> cases hm : c.isComment <;> simp_all
      rw [hnil, ih, List.nil_append]

theorem listed_declarator (d : Tree) :
    Listed (· ≠ ·) (ofDeclarator content name d) fun p x => p = [] ∧ DeclaredBy content name d x := by
  rw [ofDeclarator]
  by_cases hk : d.kind = .declarator
  · rw [if_pos hk]
    cases ht : d.child? .name with
    | none =>
      refine .nil _ ?_
      rintro p x ⟨-, h⟩
      cases h with
      | plain _ ht' => simp [ht] at ht'
      | pattern _ ht' => simp [ht] at ht'
    | some target =>
      by_cases hi : target.kind = .identifier
      · simp only [hi, if_true]
        refine (Listed.hereIf ..).congr fun p x => ⟨?_, ?_⟩
        · rintro ⟨rfl, rfl, hn⟩
          exact ⟨rfl, .plain hk ht hi hn⟩
        · rintro ⟨rfl, h⟩
          cases h with
          | plain _ ht' _ hn =>
            obtain rfl := Option.some.inj (ht.symm.trans ht')
            exact ⟨rfl, rfl, hn⟩
          | pattern _ ht' hi' =>
            obtain rfl := Option.some.inj (ht.symm.trans ht')
            exact absurd hi hi'
      · simp only [hi, if_false]
        refine (Listed.hereIf ..).congr fun p x => ⟨?_, ?_⟩
        · rintro ⟨rfl, rfl, hb⟩
          exact ⟨rfl, .pattern hk ht hi (binds_iff_introduces.mp hb)⟩
        · rintro ⟨rfl, h⟩
          cases h with
          | plain _ ht' hi' =>
            obtain rfl := Option.some.inj (ht.symm.trans ht')
            exact absurd hi' hi
          | pattern _ ht' _ hb =>
            obtain rfl := Option.some.inj (ht.symm.trans ht')
            exact ⟨rfl, rfl, hb.binds⟩
  · rw [if_neg hk]
    refine .nil _ ?_
    rintro p x ⟨-, h⟩
    cases h with
    | plain hk' => exact hk hk'
    | pattern hk' => exact hk hk'

theorem listed_declarators (t : Tree) : Listed (· ≠ ·) (ofDeclarators content name t) fun p x =>
    ∃ i d, p = [i] ∧ t.children[i]? = some d ∧ DeclaredBy content name d x := by
  have hnil : ∀ c : Tree, c.kind.isNamed = false ∨ c.isComment = true → ofDeclarator content name c = [] := by
    intro c hc
    rw [ofDeclarator, if_neg]
    intro hk
    simp [isComment, hk, Kind.isNamed, Kind.isComment] at hc
  rw [ofDeclarators, flatMap_namedChildren t hnil]
  refine (Listed.parts byIndex_ne fun c _ => listed_declarator c).congr fun p x => ⟨?_, ?_⟩
  · rintro ⟨i, d, q, rfl, hd, rfl, h⟩
    exact ⟨i, d, rfl, hd, h⟩
  · rintro ⟨i, d, rfl, hd, h⟩
    exact ⟨i, d, [], rfl, hd, rfl, h⟩

theorem listed_pattern (pattern : Option Tree) : Listed (· ≠ ·) (ofPattern content name pattern) fun p x =>
    p = [] ∧ x = .unknown ∧ ∃ t, pattern = some t ∧ Introduces content name t := by
  cases pattern with
  | none => exact .nil _ (by simp)
  | some t => exact (Listed.hereIf ..).congr (by simp [binds_iff_introduces])

theorem listed_patternIf (P : Prop) [Decidable P] (pattern : Option Tree) :
    Listed (· ≠ ·) (if P then ofPattern content name pattern else []) fun p x =>
      p = [] ∧ x = .unknown ∧ P ∧ ∃ t, pattern = some t ∧ Introduces content name t := by
  by_cases hP : P
  · rw [if_pos hP]
    exact (listed_pattern pattern).congr (by simp [hP])
  · rw [if_neg hP]
    exact .nil _ (by simp [hP])

/-- A function or class declares its own name in the block it stands in. -/
theorem listed_ownName {t : Tree} (hk : t.kind = .functionDeclaration ∨ t.kind = .classDeclaration) :
    Listed (· ≠ ·) (match t.child? .name with
      | some own => if own.text content = name then [Declaration.unknown] else []
      | none => []) (DirectAt content name t) := by
  cases ho : t.child? .name with
  | none =>
    refine .nil _ fun p x h => ?_
    cases h with
    | named _ ho' => simp [ho] at ho'
    | _ => simp_all
  | some own =>
    refine (Listed.hereIf ..).congr fun p x => ⟨?_, ?_⟩
    · rintro ⟨rfl, rfl, hn⟩
      exact .named hk ho hn
    · intro h
      cases h with
      | named _ ho' hn =>
        obtain rfl := Option.some.inj (ho.symm.trans ho')
        exact ⟨rfl, rfl, hn⟩
      | _ => simp_all

/-- The declarations of a statement in its block are listed in full. -/
theorem listed_statement (content : List Char) (name : String) (t : Tree) :
    Listed (· ≠ ·) (ofStatement content name t) (DirectAt content name t) := by
  induction t using byChildren with
  | step t ih =>
    rw [ofStatement_eq]
    split
    case h_1 hk =>
      refine (listed_declarators t).congr fun p x => ⟨?_, ?_⟩
      · rintro ⟨i, d, rfl, hd, h⟩
        exact .declarator hk hd h
      · intro h
        cases h with
        | declarator _ hd h => exact ⟨_, _, rfl, hd, h⟩
        | _ => simp_all
    case h_2 hk => exact listed_ownName (Or.inl hk)
    case h_3 hk => exact listed_ownName (Or.inr hk)
    case h_4 hk =>
      refine (Listed.hereIf ..).congr fun p x => ⟨?_, ?_⟩
      · rintro ⟨rfl, rfl, hb⟩
        exact .imported hk (binds_iff_introduces.mp hb)
      · intro h
        cases h with
        | imported _ hb => exact ⟨rfl, rfl, hb.binds⟩
        | _ => simp_all
    case h_5 hk =>
      refine (Listed.firstPart byIndex_ne fun c hc => ih c (List.mem_of_find?_eq_some hc)).congr fun p x => ⟨?_, ?_⟩
      · rintro ⟨i, d, q, rfl, hd, h⟩
        exact .exported hk hd h
      · intro h
        cases h with
        | exported _ hd h => exact ⟨_, _, _, rfl, hd, h⟩
        | _ => simp_all
    case h_6 =>
      refine .nil _ fun p x h => ?_
      cases h with
      | named hk => rcases hk with hk | hk <;> simp_all
      | _ => simp_all

theorem holdsStatements_iff {k : Kind} : k.holdsStatements = true ↔ isCompound k = true ∨ k = .exportStatement := by
  cases k <;> simp [Kind.holdsStatements, isCompound]

/-- A comment or a bare symbol declares nothing. -/
theorem ofStatement_eq_nil {t : Tree} (h : t.kind.isNamed = false ∨ t.isComment = true) :
    ofStatement content name t = [] := by
  rw [ofStatement_eq]
  split
  case h_6 => rfl
  all_goals
    next hk => simp [isComment, hk, Kind.isNamed, Kind.isComment] at h

/-- Nothing is declared by `var` in a comment or a bare symbol. -/
theorem hoisted_eq_nil {t : Tree} (h : t.kind.isNamed = false ∨ t.isComment = true) : hoisted content name t = [] := by
  rw [hoisted_eq]
  split
  case h_1 hk => simp [isComment, hk, Kind.isNamed, Kind.isComment] at h
  case h_2 hk => simp [isComment, hk, Kind.isNamed, Kind.isComment] at h
  case h_3 =>
    rw [if_neg]
    intro hs
    unfold isComment at h
    cases hk : t.kind <;> simp_all [Kind.isNamed, Kind.isComment, Kind.holdsStatements]

/-- The declarations by `var` in a statement are listed in full. -/
theorem listed_hoisted (content : List Char) (name : String) (t : Tree) :
    Listed (· ≠ ·) (hoisted content name t) (VarAt content name t) := by
  induction t using byChildren with
  | step t ih =>
    rw [hoisted_eq]
    split
    case h_1 hk =>
      refine (listed_declarators t).congr fun p x => ⟨?_, ?_⟩
      · rintro ⟨i, d, rfl, hd, h⟩
        exact .declarator hk hd h
      · intro h
        cases h with
        | declarator _ hd h => exact ⟨_, _, rfl, hd, h⟩
        | inner hk' => simp [hk, isCompound] at hk'
        | _ => simp_all
    case h_2 hk =>
      have hbody := Listed.firstPart byIndex_ne fun c (hc : t.child? .body = some c) =>
        ih c (List.mem_of_find?_eq_some hc)
      refine ((listed_patternIf _ _).append hbody ?_).congr fun p x => ⟨?_, ?_⟩
      · rintro p x q y ⟨rfl, -⟩ ⟨i, c, q, rfl, -⟩
        exact (List.cons_ne_nil i q).symm
      · rintro (⟨rfl, rfl, hv, left, hl, h⟩ | ⟨i, body, q, rfl, hb, h⟩)
        · obtain ⟨w, hw, hv⟩ := Option.map_eq_some_iff.mp hv
          exact .head hk hw hv hl h
        · exact .each hk hb h
      · intro h
        cases h with
        | head _ hw hv hl h => exact Or.inl ⟨rfl, rfl, by rw [hw, Option.map_some, hv], _, hl, h⟩
        | each _ hb h => exact Or.inr ⟨_, _, _, rfl, hb, h⟩
        | inner hk' => simp [hk, isCompound] at hk'
        | _ => simp_all
    case h_3 hv hf =>
      by_cases hs : t.kind.holdsStatements = true
      · rw [if_pos hs, flatMap_namedChildren t fun c => hoisted_eq_nil]
        refine (Listed.parts byIndex_ne ih).congr fun p x => ⟨?_, ?_⟩
        · rintro ⟨i, c, q, rfl, hc, h⟩
          exact .inner (holdsStatements_iff.mp hs) hc h
        · intro h
          cases h with
          | inner _ hc h => exact ⟨_, _, _, rfl, hc, h⟩
          | _ => simp_all
      · rw [if_neg hs]
        refine .nil _ fun p x h => ?_
        cases h with
        | inner hk => exact hs (holdsStatements_iff.mpr hk)
        | _ => simp_all

/-- No address is one of a declaration in the block and of one by `var`. -/
theorem DirectAt.not_varAt {t : Tree} {p : List Nat} {x y : Declaration} (h : DirectAt content name t p x) :
    ¬ VarAt content name t p y := by
  intro hv
  induction h with
  | declarator hk =>
    cases hv with
    | inner hk' => simp [hk, isCompound] at hk'
    | _ => simp_all
  | named hk =>
    cases hv with
    | head hk' => simp [hk'] at hk
  | imported hk =>
    cases hv with
    | head hk' => simp [hk'] at hk
  | exported hk hd _ ih =>
    cases hv with
    | declarator hk' => simp [hk] at hk'
    | each hk' => simp [hk] at hk'
    | inner _ hc hv =>
      obtain rfl := Option.some.inj (hd.part.symm.trans hc)
      exact ih hv

/-- What a block declares is listed in full. -/
theorem listed_block (t : Tree) (hoists : Bool) : Listed (· ≠ ·) (ofBlock content name t hoists) fun p x =>
    ∃ i st q, p = i :: q ∧ t.children[i]? = some st ∧
      (DirectAt content name st q x ∨ hoists = true ∧ VarAt content name st q x) := by
  have hdirect := Listed.parts byIndex_ne fun c (_ : c ∈ t.children) => listed_statement content name c
  refine Listed.perm ?_ (ofBlock_perm content name t hoists).symm
  rw [flatMap_namedChildren t fun c => ofStatement_eq_nil]
  cases hoists with
  | false =>
    rw [if_neg Bool.false_ne_true, List.append_nil]
    exact hdirect.congr (by simp)
  | true =>
    have hvar := Listed.parts byIndex_ne fun c (_ : c ∈ t.children) => listed_hoisted content name c
    rw [if_pos rfl, flatMap_namedChildren t fun c => hoisted_eq_nil]
    refine (hdirect.append hvar ?_).congr fun p x => ⟨?_, ?_⟩
    · -- the two searches of the block find nothing in the same place
      rintro p x p' y ⟨i, st, q, rfl, hst, h⟩ ⟨j, st', q', rfl, hst', h'⟩ heq
      obtain ⟨rfl, rfl⟩ := List.cons.inj heq
      obtain rfl := Option.some.inj (hst.symm.trans hst')
      exact h.not_varAt h'
    · rintro (⟨i, st, q, rfl, hst, h⟩ | ⟨i, st, q, rfl, hst, h⟩)
      · exact ⟨i, st, q, rfl, hst, Or.inl h⟩
      · exact ⟨i, st, q, rfl, hst, Or.inr ⟨rfl, h⟩⟩
    · rintro ⟨i, st, q, rfl, hst, h | ⟨-, h⟩⟩
      · exact Or.inl ⟨i, st, q, rfl, hst, h⟩
      · exact Or.inr ⟨i, st, q, rfl, hst, h⟩

theorem ownsBlock_iff {parent : Option Tree} {t : Tree} (hk : t.kind = .block) :
    ownsBlock parent = true ↔ OwnsVars parent t := by
  cases parent with
  | none => simp [ownsBlock, OwnsVars, hk]
  | some owner => cases ho : owner.kind <;> simp [ownsBlock, OwnsVars, Kind.isFunction, hk, ho]

theorem isFunction_iff {k : Kind} :
    k.isFunction = true ↔ k ∈ [.functionDeclaration, .functionExpression, .arrowFunction, .method] := by
  cases k <;> simp [Kind.isFunction]

/-- What the head of a `for` declares in its loop. -/
theorem listed_loop {parent : Option Tree} {t : Tree} (hk : t.kind = .forStatement) :
    Listed (· ≠ ·) (match t.child? .initializer with
      | some start =>
        if start.kind = .lexicalDeclaration && start.namedChildren.any fun d =>
          ((d.child? .name).map (Tree.binds content name)).getD false
        then [Declaration.unknown] else []
      | none => []) (Site content name (fun _ => True) parent t) := by
  cases hi : t.child? .initializer with
  | none =>
    refine .nil _ fun p x h => ?_
    cases h with
    | loop _ hi' => simp [hi] at hi'
    | hoisted ho => simp [OwnsVars, hk] at ho
    | _ => simp_all
  | some start =>
    refine (Listed.hereIf ..).congr fun p x => ⟨?_, ?_⟩
    · rintro ⟨rfl, rfl, hany⟩
      obtain ⟨hl, hany⟩ := Bool.and_eq_true_iff.mp hany
      obtain ⟨d, hd, hbinds⟩ := List.any_eq_true.mp hany
      cases ht : d.child? .name with
      | none => simp [ht] at hbinds
      | some target =>
        rw [ht, Option.map_some, Option.getD_some] at hbinds
        exact .loop hk hi (of_decide_eq_true hl) hd ht (binds_iff_introduces.mp hbinds)
    · intro h
      cases h with
      | @loop start' d target _ hi' hl hd ht h =>
        obtain rfl := Option.some.inj (hi.symm.trans hi')
        refine ⟨rfl, rfl, Bool.and_eq_true_iff.mpr ⟨decide_eq_true hl, List.any_eq_true.mpr ⟨d, hd, ?_⟩⟩⟩
        rw [ht, Option.map_some, Option.getD_some]
        exact h.binds
      | hoisted ho => simp [OwnsVars, hk] at ho
      | _ => simp_all

/-- The declarations of a scope are listed in full, each of them once. -/
theorem listed_declarations (content : List Char) (name : String) (parent : Option Tree) (t : Tree) :
    Listed (· ≠ ·) (declarations content name parent t) (Site content name (fun _ => True) parent t) := by
  rw [declarations]
  split
  case h_1 hk =>
    refine (listed_block t true).congr fun p x => ⟨?_, ?_⟩
    · rintro ⟨i, st, q, rfl, hst, h | ⟨-, h⟩⟩
      · exact .direct (Or.inl hk) hst h
      · exact .hoisted (Or.inl hk) hst h
    · intro h
      cases h with
      | direct _ hst h => exact ⟨_, _, _, rfl, hst, Or.inl h⟩
      | hoisted _ hst h => exact ⟨_, _, _, rfl, hst, Or.inr ⟨rfl, h⟩⟩
      | _ => simp_all
  case h_2 hk =>
    refine (listed_block t _).congr fun p x => ⟨?_, ?_⟩
    · rintro ⟨i, st, q, rfl, hst, h | ⟨ho, h⟩⟩
      · exact .direct (Or.inr hk) hst h
      · exact .hoisted ((ownsBlock_iff hk).mp ho) hst h
    · intro h
      cases h with
      | direct _ hst h => exact ⟨_, _, _, rfl, hst, Or.inl h⟩
      | hoisted ho hst h => exact ⟨_, _, _, rfl, hst, Or.inr ⟨(ownsBlock_iff hk).mpr ho, h⟩⟩
      | _ => simp_all
  case h_3 hk => exact listed_loop hk
  case h_4 hk =>
    refine (listed_patternIf _ _).congr fun p x => ⟨?_, ?_⟩
    · rintro ⟨rfl, rfl, hw, left, hl, h⟩
      obtain ⟨w, hw⟩ := Option.isSome_iff_exists.mp hw
      exact .each hk hw trivial hl h
    · intro h
      cases h with
      | each _ hw _ hl h => exact ⟨rfl, rfl, by rw [hw]; rfl, _, hl, h⟩
      | hoisted ho => simp [OwnsVars, hk] at ho
      | _ => simp_all
  case h_5 hk =>
    refine (listed_pattern _).congr fun p x => ⟨?_, ?_⟩
    · rintro ⟨rfl, rfl, c, hp, h⟩
      exact .caught hk hp h
    · intro h
      cases h with
      | caught _ hp h => exact ⟨rfl, rfl, _, hp, h⟩
      | hoisted ho => simp [OwnsVars, hk] at ho
      | _ => simp_all
  case h_6 =>
    refine (listed_patternIf _ _).congr fun p x => ⟨?_, ?_⟩
    · rintro ⟨rfl, rfl, hf, ps, hp, h⟩
      exact .parameters (isFunction_iff.mp hf) hp h
    · intro h
      cases h with
      | parameters hk hp h => exact ⟨rfl, rfl, isFunction_iff.mpr hk, _, hp, h⟩
      | direct hk => rcases hk with hk | hk <;> simp_all
      | hoisted ho => rcases ho with hk | ⟨hk, -⟩ <;> simp_all
      | _ => simp_all

end Collected

end WriteGuard.Scope
