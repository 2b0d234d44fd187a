import WriteGuard.Proofs.DecidingScope

/-!
Names that the head of a loop binds. They have no value, since the loop gives them another one in each round. There is
one exception: a `for` that declares a variable by `var` is searched like any other statement, so the name stands for
its first value if nothing else in the scope declares it.
-/

namespace WriteGuard.Scope

open Source Source.Tree

/-- The declaration at an address below a scope stands in the head of a loop: it is made by the head of the scope itself
or of a loop that goes through a collection, or it is a part of the first part of the head of a `for`. -/
inductive InHead (scope : Tree) : List Nat → Prop
  | own (hk : scope.kind = .forStatement) : InHead scope []
  | each {loop : Tree} {p : List Nat} (hp : scope.at? p = some loop) (hk : loop.kind = .forEachStatement) :
      InHead scope p
  | first {loop start : Tree} {p : List Nat} {i j : Nat} (hp : scope.at? p = some loop) (hk : loop.kind = .forStatement)
      (hi : loop.FirstPart .initializer i start) : InHead scope (p ++ [i, j])

/-- The declaration at an address below a scope stands in the head of a `for` that declares variables by `var`. -/
inductive InVarHead (scope : Tree) : List Nat → Prop
  | first {loop start : Tree} {p : List Nat} {i j : Nat} (hp : scope.at? p = some loop) (hk : loop.kind = .forStatement)
      (hi : loop.FirstPart .initializer i start) (hv : start.kind = .variableDeclaration) :
      InVarHead scope (p ++ [i, j])

/-! ### What stands above a declarator -/

/-- An address leads to a declarator in a list of declarators of the given kind. -/
def DeclaratorAt (kind : Kind) (t : Tree) (p : List Nat) : Prop :=
  ∃ q j list d, p = q ++ [j] ∧ t.at? q = some list ∧ list.kind = kind ∧ list.children[j]? = some d ∧
    d.kind = .declarator

/-- No `for` stands on the way down to an address. -/
def OutsideFor (t : Tree) (p : List Nat) : Prop :=
  ∀ q rest n, p = q ++ rest → t.at? q = some n → n.kind ≠ .forStatement

section Places

variable {content : List Char} {name : String}

theorem DeclaredBy.kind {d : Tree} {x : Declaration} (h : DeclaredBy content name d x) : d.kind = .declarator := by
  cases h with
  | plain hk => exact hk
  | pattern hk => exact hk

theorem DeclaratorAt.below {kind : Kind} {t c : Tree} {i : Nat} {p : List Nat} (hc : t.children[i]? = some c)
    (h : DeclaratorAt kind c p) : DeclaratorAt kind t (i :: p) := by
  obtain ⟨q, j, list, d, rfl, hq, hlist⟩ := h
  exact ⟨i :: q, j, list, d, rfl, at?_cons.mpr ⟨c, hc, hq⟩, hlist⟩

theorem DeclaratorAt.exists_at {kind : Kind} {t : Tree} {p : List Nat} (h : DeclaratorAt kind t p) :
    ∃ d, t.at? p = some d ∧ d.kind = .declarator := by
  obtain ⟨q, j, list, d, rfl, hq, -, hj, hd⟩ := h
  exact ⟨d, at?_append.mpr ⟨list, hq, at?_cons.mpr ⟨d, hj, rfl⟩⟩, hd⟩

theorem OutsideFor.here {t : Tree} (hk : t.kind ≠ .forStatement) : OutsideFor t [] := by
  intro q rest n hp hn
  obtain ⟨rfl, -⟩ := List.append_eq_nil_iff.mp hp.symm
  obtain rfl := Option.some.inj hn
  exact hk

theorem OutsideFor.below {t c : Tree} {i : Nat} {p : List Nat} (hk : t.kind ≠ .forStatement)
    (hc : t.children[i]? = some c) (h : OutsideFor c p) : OutsideFor t (i :: p) := by
  intro q rest n hp hn
  cases q with
  | nil =>
    obtain rfl := Option.some.inj hn
    exact hk
  | cons j q =>
    obtain ⟨rfl, hq⟩ := List.cons.inj hp
    obtain ⟨d, hd, hn⟩ := at?_cons.mp hn
    obtain rfl := Option.some.inj (hc.symm.trans hd)
    exact h q rest n hq hn

/-- A plain variable of a block is declared by `let` or `const` and not in a `for`. -/
theorem DirectAt.declaratorAt {t : Tree} {p : List Nat} {x : Declaration} (h : DirectAt content name t p x)
    {value : Option Tree} (hx : x = .declarator value) : DeclaratorAt .lexicalDeclaration t p ∧ OutsideFor t p := by
  induction h with
  | @declarator t d i x hk hd h =>
    refine ⟨⟨[], i, t, d, rfl, rfl, hk, hd, h.kind⟩, .below (by simp [hk]) hd (.here ?_)⟩
    simp [h.kind]
  | named => cases hx
  | imported => cases hx
  | exported hk hd _ ih =>
    obtain ⟨hdeclarator, houtside⟩ := ih hx
    exact ⟨hdeclarator.below hd.part, houtside.below (by simp [hk]) hd.part⟩

/-- A plain variable that is declared by `var` is a part of its declaration. -/
theorem VarAt.declaratorAt {t : Tree} {p : List Nat} {x : Declaration} (h : VarAt content name t p x)
    {value : Option Tree} (hx : x = .declarator value) : DeclaratorAt .variableDeclaration t p := by
  induction h with
  | @declarator t d i x hk hd h => exact ⟨[], i, t, d, rfl, rfl, hk, hd, h.kind⟩
  | head => cases hx
  | each _ hb _ ih => exact (ih hx).below hb.part
  | inner _ hc _ ih => exact (ih hx).below hc

variable {counts : String → Prop} {parent : Option Tree} {scope : Tree} {p : List Nat}

theorem Site.declaratorAt {value : Option Tree} (h : Site content name counts parent scope p (.declarator value)) :
    DeclaratorAt .lexicalDeclaration scope p ∧ OutsideFor scope p ∨ DeclaratorAt .variableDeclaration scope p := by
  cases h with
  | direct hk hs h =>
    obtain ⟨hdeclarator, houtside⟩ := h.declaratorAt rfl
    have hne : scope.kind ≠ .forStatement := by rcases hk with hk | hk <;> simp [hk]
    exact Or.inl ⟨hdeclarator.below hs, houtside.below hne hs⟩
  | hoisted ho hs h => exact Or.inr ((h.declaratorAt rfl).below hs)

/-- In the head of a loop, a plain variable is declared by the `var` of a `for`. -/
theorem Site.inVarHead {value : Option Tree} (h : Site content name counts parent scope p (.declarator value))
    (hh : InHead scope p) : InVarHead scope p := by
  cases hh with
  | own => cases h
  | each hp hk =>
    have hat : ∃ d, scope.at? p = some d ∧ d.kind = .declarator := by
      rcases h.declaratorAt with ⟨hd, -⟩ | hd <;> exact hd.exists_at
    obtain ⟨d, hd, hdeclarator⟩ := hat
    obtain rfl := Option.some.inj (hp.symm.trans hd)
    simp [hk] at hdeclarator
  | @first loop start q i j hp hk hi =>
    rcases h.declaratorAt with ⟨-, houtside⟩ | ⟨q', j', list, d, heq, hq', hlist, -⟩
    · exact absurd hk (houtside q [i, j] loop rfl hp)
    · -- the list of the declarator is the first part of the head
      have hsplit : (q ++ [i]) ++ [j] = q' ++ [j'] := by simpa using heq
      have hfront : q ++ [i] = q' := List.append_inj_left' hsplit rfl
      have hstart : scope.at? q' = some start := by
        rw [← hfront]
        exact at?_append.mpr ⟨loop, hp, at?_cons.mpr ⟨start, hi.part, rfl⟩⟩
      obtain rfl := Option.some.inj (hstart.symm.trans hq')
      exact .first hp hk hi hlist

end Places

/-! ### The value of a declaration -/

section Values

variable {content : List Char} {root : Tree} {name : String} {r : Span} {k : Nat} {scope : Tree} {p : List Nat}
  {x : Declaration}

/-- The search finds the first value of a declaration in the deciding scope exactly if the scope has no other one. -/
theorem Decides.initializer?_eq_some_iff {scopes : List Tree} {value : Tree}
    (hd : Decides (fun _ => True) content name scopes k scope)
    (hp : Site content name (fun _ => True) scopes[k + 1]? scope p x) : initializer? content name scopes = some value ↔
      x = .declarator (some value) ∧ ∀ q y, Site content name (fun _ => True) scopes[k + 1]? scope q y → q = p := by
  rw [initializer?_eq_some_iff_single]
  constructor
  · rintro ⟨j, other, hd', hsingle⟩
    obtain ⟨rfl, rfl⟩ := hd.unique hd'
    have hx : x ∈ declarations content name scopes[k + 1]? scope := (listed_declarations ..).mem_of_finds hp
    rw [declarations_eq_singleton_iff.mpr hsingle] at hx
    obtain ⟨p', -, hunique⟩ := hsingle
    obtain rfl := hunique p x hp
    exact ⟨List.mem_singleton.mp hx, hunique⟩
  · rintro ⟨rfl, hunique⟩
    exact ⟨k, scope, hd, p, hp, hunique⟩

theorem Decides.resolve_eq_some_iff {answer : Expr}
    (hd : Decides (fun _ => True) content name (root.covering r).tail k scope)
    (hp : Site content name (fun _ => True) (root.covering r).tail[k + 1]? scope p x) :
    resolve content root name r = some answer ↔ ∃ value, x = .declarator (some value) ∧
      (∀ q y, Site content name (fun _ => True) (root.covering r).tail[k + 1]? scope q y → q = p) ∧
      Lower.expr content value = answer := by
  simp only [resolve, Option.map_eq_some_iff, hd.initializer?_eq_some_iff hp, and_assoc]

/-- A name that the deciding scope declares in the head of a loop has no value, unless the head is one of a `for` with
`var`. There it has the first value of the variable if the scope declares the name nowhere else, and no value
otherwise. -/
theorem resolve_of_inHead (hd : Decides (fun _ => True) content name (root.covering r).tail k scope)
    (hp : Site content name (fun _ => True) (root.covering r).tail[k + 1]? scope p x) (hh : InHead scope p) :
    (¬ InVarHead scope p → resolve content root name r = none) ∧
    ∀ answer, resolve content root name r = some answer ↔ ∃ value, x = .declarator (some value) ∧
      (∀ q y, Site content name (fun _ => True) (root.covering r).tail[k + 1]? scope q y → q = p) ∧
      Lower.expr content value = answer := by
  refine ⟨?_, fun answer => hd.resolve_eq_some_iff hp⟩
  intro hvar
  rw [Option.eq_none_iff_forall_ne_some]
  intro answer hanswer
  obtain ⟨value, rfl, -⟩ := (hd.resolve_eq_some_iff hp).mp hanswer
  exact hvar (hp.inVarHead hh)

end Values

/-! ### A loop through a collection and a `for`, both with `var` -/

theorem site_namespaceLoop (parent : Option Tree) :
    Site namespaceText "v" (fun _ => True) parent namespaceLoop [] .unknown :=
  .each rfl rfl trivial rfl (.word (Or.inl rfl) (by decide +kernel))

/-- Among the nodes around the use of `v` in the namespace the loop decides. -/
theorem decides_namespaceLoop :
    Decides (fun _ => True) namespaceText "v" (namespaceProgram.covering ⟨47, 48⟩).tail 3 namespaceLoop where
  inner := by
    intro i hi c hc
    have hcases : i = 0 ∨ i = 1 ∨ i = 2 := by omega
    rcases hcases with rfl | rfl | rfl <;> cases Option.some.inj hc <;> exact declarations_eq_nil_iff.mp rfl
  here := rfl
  declares := ⟨[], .unknown, site_namespaceLoop _⟩

/-- The head of the loop in the namespace binds `v` and gives it no value. -/
theorem resolve_of_inHead_namespaceLoop :
    Decides (fun _ => True) namespaceText "v" (namespaceProgram.covering ⟨47, 48⟩).tail 3 namespaceLoop ∧
    Site namespaceText "v" (fun _ => True) (namespaceProgram.covering ⟨47, 48⟩).tail[4]? namespaceLoop [] .unknown ∧
    InHead namespaceLoop [] ∧ ¬ InVarHead namespaceLoop [] ∧
    resolve namespaceText namespaceProgram "v" ⟨47, 48⟩ = none := by
  have hhead : InHead namespaceLoop [] := .each rfl rfl
  have hvar : ¬ InVarHead namespaceLoop [] := by
    generalize hp : ([] : List Nat) = p
    rintro ⟨-⟩
    simp at hp
  have hnone := (resolve_of_inHead decides_namespaceLoop (site_namespaceLoop _) hhead).1 hvar
  exact ⟨decides_namespaceLoop, site_namespaceLoop _, hhead, hvar, hnone⟩

/-- A variable that the head of a `for` declares by `var`, used in the loop. -/
def varLoopText : List Char := "for (var v = 0; a; b) f(v);".toList

/-- The program. -/
def varLoopProgram : Tree :=
  .node .program none ⟨0, 27⟩ [
    .node .forStatement none ⟨0, 27⟩ [
      mark "for" 0 3, mark "(" 4 5, varV (some .initializer) 5, .node .identifier none ⟨16, 17⟩ [], mark ";" 17 18,
      .node .identifier none ⟨19, 20⟩ [], mark ")" 20 21, callV (some .body) 22]]

set_option maxRecDepth 100000 in
theorem tree_varLoopText : (SourceFile.ofText .javaScript varLoopText).tree = varLoopProgram := by decide +kernel

/-- The program declares `v` in the head of its loop. -/
theorem site_varLoopProgram : Site varLoopText "v" (fun _ => True) none varLoopProgram [0, 2, 1]
    (.declarator (some (.node .number (some .value) ⟨13, 14⟩ []))) :=
  .hoisted (Or.inl rfl) rfl (.inner (Or.inl rfl) rfl (.declarator rfl rfl (.plain rfl rfl rfl (by decide +kernel))))

theorem inHead_varLoopProgram : InHead varLoopProgram [0, 2, 1] := by
  refine .first (p := [0]) rfl rfl ⟨rfl, rfl, ?_⟩
  intro j hj d hd
  have hcases : j = 0 ∨ j = 1 := by omega
  rcases hcases with rfl | rfl <;> cases Option.some.inj hd <;> decide

/-- The head of a `for` binds the name in the scope that decides, and yet the name has the value from the head, although
the loop may have given it another one. -/
theorem resolve_in_varLoop :
    Decides (fun _ => True) varLoopText "v" (varLoopProgram.covering ⟨24, 25⟩).tail 4 varLoopProgram ∧
    InHead varLoopProgram [0, 2, 1] ∧ (∃ value, Site varLoopText "v" (fun _ => True) none varLoopProgram [0, 2, 1]
      (.declarator (some value))) ∧
    (SourceFile.ofText .javaScript varLoopText).resolve "v" ⟨24, 25⟩ = some (.literal ⟨.number "0", ⟨13, 14⟩⟩) := by
  refine ⟨⟨?_, rfl, _, _, site_varLoopProgram⟩, inHead_varLoopProgram, ⟨_, site_varLoopProgram⟩, ?_⟩
  · intro i hi c hc
    have hcases : i = 0 ∨ i = 1 ∨ i = 2 ∨ i = 3 := by omega
    rcases hcases with rfl | rfl | rfl | rfl <;> cases Option.some.inj hc <;> exact declarations_eq_nil_iff.mp rfl
  · rw [SourceFile.resolve, tree_varLoopText]
    exact resolve_of_initializer? (v := .node .number (some .value) ⟨13, 14⟩ []) (by decide +kernel)

end WriteGuard.Scope
