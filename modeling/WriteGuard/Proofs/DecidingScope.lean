import WriteGuard.Proofs.DeclarationSites
import WriteGuard.Proofs.SmallestNode

/-!
What a name stands for, said without a search. Among the nodes around the smallest node that covers a reference, the
innermost one that declares the name decides. It gives the first value of a plain variable if it declares the name in
one place only, and nothing otherwise.
-/

namespace WriteGuard.Scope

open Source Source.Tree

section Rules

variable (counts : String → Prop) (content : List Char) (name : String)

/-- The scope at index `k` is the innermost one that declares the name. Each scope stands below the one after it. -/
structure Decides (scopes : List Tree) (k : Nat) (scope : Tree) : Prop where
  inner : ∀ i < k, ∀ c, scopes[i]? = some c → ∀ p x, ¬ Site content name counts scopes[i + 1]? c p x
  here : scopes[k]? = some scope
  declares : ∃ p x, Site content name counts scopes[k + 1]? scope p x

/-- A scope declares the name in one place, as a plain variable with a first value. -/
def Single (parent : Option Tree) (scope value : Tree) : Prop :=
  ∃ p, Site content name counts parent scope p (.declarator (some value)) ∧
    ∀ q x, Site content name counts parent scope q x → q = p

/-- The value of a name that is referred to at a range: the first value of the variable if the deciding scope declares
it once and with a value, nothing if this scope declares the name in any other way, if no scope declares it, or if the
range is one of no node. -/
inductive Answer (root : Tree) (r : Span) : Option Expr → Prop
  | value {t scope value : Tree} {above : List Tree} {k : Nat} (hs : Smallest root r t above)
      (hd : Decides counts content name above k scope)
      (h : Single counts content name above[k + 1]? scope value) : Answer root r (some (Lower.expr content value))
  | unclear {t scope : Tree} {above : List Tree} {k : Nat} (hs : Smallest root r t above)
      (hd : Decides counts content name above k scope)
      (h : ∀ value, ¬ Single counts content name above[k + 1]? scope value) : Answer root r none
  | undeclared {t : Tree} {above : List Tree} (hs : Smallest root r t above)
      (h : ∀ k c, above[k]? = some c → ∀ p x, ¬ Site content name counts above[k + 1]? c p x) : Answer root r none
  | nowhere (h : ∀ t above, ¬ Smallest root r t above) : Answer root r none

end Rules

/-! ### The search among the scopes -/

section Search

variable {content : List Char} {name : String} {scopes : List Tree}

/-- One scope decides at most. -/
theorem Decides.unique {counts : String → Prop} {j k : Nat} {a b : Tree} (ha : Decides counts content name scopes j a)
    (hb : Decides counts content name scopes k b) : j = k ∧ a = b := by
  obtain ⟨p, x, hp⟩ := ha.declares
  obtain ⟨q, y, hq⟩ := hb.declares
  rcases Nat.lt_trichotomy j k with hlt | rfl | hlt
  · exact absurd hp (hb.inner j hlt a ha.here p x)
  · exact ⟨rfl, Option.some.inj (ha.here.symm.trans hb.here)⟩
  · exact absurd hq (ha.inner k hlt b hb.here q y)

/-- Where some scope declares the name, an innermost one does. -/
theorem exists_decides {counts : String → Prop} (k : Nat) : ∀ c, scopes[k]? = some c →
    (∃ p x, Site content name counts scopes[k + 1]? c p x) → ∃ j scope, Decides counts content name scopes j scope := by
  induction k using Nat.strongRecOn with
  | _ k ih =>
    intro c hc hdeclares
    by_cases hinner : ∃ i < k, ∃ d, scopes[i]? = some d ∧ ∃ p x, Site content name counts scopes[i + 1]? d p x
    · obtain ⟨i, hi, d, hd, hd'⟩ := hinner
      exact ih i hi d hd hd'
    · refine ⟨k, c, ?_, hc, hdeclares⟩
      intro i hi d hd p x hp
      exact hinner ⟨i, hi, d, hd, p, x, hp⟩

theorem declarations_eq_nil_iff {parent : Option Tree} {t : Tree} :
    declarations content name parent t = [] ↔ ∀ p x, ¬ Site content name (fun _ => True) parent t p x :=
  (listed_declarations content name parent t).eq_nil_iff

theorem declarations_eq_singleton_iff {parent : Option Tree} {t value : Tree} :
    declarations content name parent t = [.declarator (some value)] ↔
      Single (fun _ => True) content name parent t value :=
  (listed_declarations content name parent t).eq_singleton_iff _

/-- The search gives the first value of the single declaration in the deciding scope. -/
theorem initializer?_eq_some_iff_single {value : Tree} : initializer? content name scopes = some value ↔
    ∃ k scope, Decides (fun _ => True) content name scopes k scope ∧
      Single (fun _ => True) content name scopes[k + 1]? scope value := by
  rw [initializer?_eq_some_iff]
  constructor
  · rintro ⟨k, hinner, scope, hscope, hdeclarations⟩
    have hsingle := declarations_eq_singleton_iff.mp hdeclarations
    have hsome : ∃ p x, Site content name (fun _ => True) scopes[k + 1]? scope p x := by
      obtain ⟨p, hp, -⟩ := hsingle
      exact ⟨p, _, hp⟩
    refine ⟨k, scope, ⟨?_, hscope, hsome⟩, hsingle⟩
    intro i hi c hc
    exact declarations_eq_nil_iff.mp (hinner i hi c hc)
  · rintro ⟨k, scope, hd, hsingle⟩
    refine ⟨k, ?_, scope, hd.here, declarations_eq_singleton_iff.mpr hsingle⟩
    intro i hi c hc
    exact declarations_eq_nil_iff.mpr (hd.inner i hi c hc)

theorem resolve_of_smallest {root t : Tree} {r : Span} {above : List Tree} (hw : root.WellFormed)
    (hs : Smallest root r t above) :
    resolve content root name r = (initializer? content name above).map (Lower.expr content) := by
  rw [resolve, hs.covering_eq hw, List.tail_cons]

/-- A range is one of no node exactly if it is reversed, and then the search has nowhere to start. -/
theorem resolve_of_nowhere {root : Tree} {r : Span} (h : ∀ t above, ¬ Smallest root r t above) :
    resolve content root name r = none := by
  have hr : r.stop < r.start := by
    by_contra hr
    obtain ⟨t, above, hs⟩ := exists_smallest root (Nat.le_of_not_lt hr)
    exact h t above hs
  rw [resolve, covering, if_pos hr]
  rfl

/-- Every answer of the rules is the one of the search. -/
theorem Answer.resolve_eq {root : Tree} {r : Span} {answer : Option Expr} (hw : root.WellFormed)
    (h : Answer (fun _ => True) content name root r answer) : resolve content root name r = answer := by
  cases h with
  | value hs hd hsingle =>
    rw [resolve_of_smallest hw hs, initializer?_eq_some_iff_single.mpr ⟨_, _, hd, hsingle⟩]
    rfl
  | unclear hs hd hnone =>
    rw [resolve_of_smallest hw hs, Option.map_eq_none_iff, Option.eq_none_iff_forall_ne_some]
    intro value hvalue
    obtain ⟨k, scope, hd', hsingle⟩ := initializer?_eq_some_iff_single.mp hvalue
    obtain ⟨rfl, rfl⟩ := hd.unique hd'
    exact hnone value hsingle
  | undeclared hs hnone =>
    rw [resolve_of_smallest hw hs, Option.map_eq_none_iff, Option.eq_none_iff_forall_ne_some]
    intro value hvalue
    obtain ⟨k, scope, hd, -⟩ := initializer?_eq_some_iff_single.mp hvalue
    obtain ⟨p, x, hp⟩ := hd.declares
    exact hnone k scope hd.here p x hp
  | nowhere hnone => exact resolve_of_nowhere hnone

/-- The rules have an answer for every name and range. -/
theorem exists_answer (counts : String → Prop) (content : List Char) (name : String) (root : Tree) (r : Span) :
    ∃ answer, Answer counts content name root r answer := by
  by_cases hs : ∃ t above, Smallest root r t above
  · obtain ⟨t, above, hs⟩ := hs
    by_cases hd : ∃ k scope, Decides counts content name above k scope
    · obtain ⟨k, scope, hd⟩ := hd
      by_cases hsingle : ∃ value, Single counts content name above[k + 1]? scope value
      · obtain ⟨value, hsingle⟩ := hsingle
        exact ⟨_, .value hs hd hsingle⟩
      · exact ⟨none, .unclear hs hd (not_exists.mp hsingle)⟩
    · refine ⟨none, .undeclared hs ?_⟩
      intro k c hc p x hp
      exact hd (exists_decides k c hc ⟨p, x, hp⟩)
  · exact ⟨none, .nowhere fun t above h => hs ⟨t, above, h⟩⟩

end Search

/-- In every well-formed tree a name that is referred to at a range has the value that the innermost declaring scope
gives it. The declarations that are collected for a scope are its places of declaration, each of them once; and for a
range that is not empty, all nodes that cover it are among those from which the scopes are taken. -/
theorem resolve_eq_iff_answer (content : List Char) {root : Tree} (hw : root.WellFormed) (name : String) (r : Span) :
    (∀ answer, resolve content root name r = answer ↔ Answer (fun _ => True) content name root r answer) ∧
    (∀ parent scope, Listed (· ≠ ·) (declarations content name parent scope)
      (Site content name (fun _ => True) parent scope)) ∧
    ∀ t above, Smallest root r t above → r.start < r.stop → ∀ a ∈ root.preorder, a.span.Covers r → a ∈ t :: above := by
  refine ⟨?_, listed_declarations content name, fun t above hs hr a ha => hs.mem_of_covers hw hr ha⟩
  intro answer
  refine ⟨?_, Answer.resolve_eq hw⟩
  rintro rfl
  obtain ⟨answer, h⟩ := exists_answer (fun _ => True) content name root r
  rw [h.resolve_eq hw]
  exact h

/-! ### A hoisted variable -/

/-- A call with `v` at an offset as its only argument. -/
def callV (role : Option Role) (start : Nat) : Tree :=
  .node (.other "expression") role ⟨start, start + 5⟩ [
    .node .call none ⟨start, start + 4⟩ [
      .node .identifier (some .callee) ⟨start, start + 1⟩ [],
      .node .arguments (some .arguments) ⟨start + 1, start + 4⟩ [
        mark "(" (start + 1) (start + 2), .node .identifier none ⟨start + 2, start + 3⟩ [],
        mark ")" (start + 3) (start + 4)]],
    mark ";" (start + 4) (start + 5)]

/-- The variable `v` declared by `var` at an offset with a digit as its value. -/
def varV (role : Option Role) (start : Nat) : Tree :=
  .node .variableDeclaration role ⟨start, start + 10⟩ [
    mark "var" start (start + 3), declaratorV (start + 4), mark ";" (start + 9) (start + 10)]

/-- A name in parentheses. -/
def inParens (start : Nat) : Tree :=
  .node .parens none ⟨start, start + 3⟩ [
    mark "(" start (start + 1), .node .identifier none ⟨start + 1, start + 2⟩ [], mark ")" (start + 2) (start + 3)]

/-- A variable that is declared in a loop in a branch and used behind it. -/
def hoistedText : List Char :=
  "function f() \x7b if (a) \x7b do \x7b var v = 0; \x7d while (b); \x7d g(v); \x7d".toList

/-- The program. -/
def hoistedProgram : Tree :=
  .node .program none ⟨0, 62⟩ [
    .node .functionDeclaration none ⟨0, 62⟩ [
      mark "function" 0 8, .node .identifier (some .name) ⟨9, 10⟩ [],
      .node .parameters (some .parameters) ⟨10, 12⟩ [mark "(" 10 11, mark ")" 11 12],
      .node .block (some .body) ⟨13, 62⟩ [
        mark "\x7b" 13 14,
        .node .ifStatement none ⟨15, 54⟩ [
          mark "if" 15 17, inParens 18,
          .node .block none ⟨22, 54⟩ [
            mark "\x7b" 22 23,
            .node .doStatement none ⟨24, 52⟩ [
              mark "do" 24 26,
              .node .block (some .body) ⟨27, 41⟩ [mark "\x7b" 27 28, varV none 29, mark "\x7d" 40 41],
              mark "while" 42 47, inParens 48, mark ";" 51 52],
            mark "\x7d" 53 54]],
        callV none 55,
        mark "\x7d" 61 62]]]

set_option maxRecDepth 100000 in
theorem tree_hoistedText : (SourceFile.ofText .javaScript hoistedText).tree = hoistedProgram ∧
    hoistedProgram.WellFormed := by decide +kernel

/-- The body of the function declares `v` once, inside two statements, and gives it its value. -/
theorem resolve_eq_iff_answer_hoisted :
    hoistedProgram.WellFormed ∧
    Answer (fun _ => True) hoistedText "v" hoistedProgram ⟨57, 58⟩ (some (.literal ⟨.number "0", ⟨37, 38⟩⟩)) := by
  have hvalue : resolve hoistedText hoistedProgram "v" ⟨57, 58⟩ = some (.literal ⟨.number "0", ⟨37, 38⟩⟩) :=
    resolve_of_initializer? (v := .node .number (some .value) ⟨37, 38⟩ []) (by decide +kernel)
  obtain ⟨hanswer, -⟩ := resolve_eq_iff_answer hoistedText tree_hoistedText.2 "v" ⟨57, 58⟩
  exact ⟨tree_hoistedText.2, (hanswer _).mp hvalue⟩

/-! ### A loop in a namespace -/

/-- A name declared at the top of a program and again by the head of a loop in a namespace, where it is used. -/
def namespaceText : List Char := "const v = 1; namespace N \x7b for (var v of vs) g(v); \x7d".toList

/-- The loop. -/
def namespaceLoop : Tree :=
  .node .forEachStatement none ⟨27, 50⟩ [
    mark "for" 27 30, mark "(" 31 32, .node (.symbol "var") (some .kind) ⟨32, 35⟩ [],
    .node .identifier (some .left) ⟨36, 37⟩ [], mark "of" 38 40, .node .identifier none ⟨41, 43⟩ [], mark ")" 43 44,
    callV (some .body) 45]

/-- The program. -/
def namespaceProgram : Tree :=
  .node .program none ⟨0, 52⟩ [
    declareV "const" 0 6,
    .node (.other "namespace") none ⟨13, 52⟩ [
      mark "namespace" 13 22, .node .typeName none ⟨23, 24⟩ [],
      .node .block (some .body) ⟨25, 52⟩ [mark "\x7b" 25 26, namespaceLoop, mark "\x7d" 51 52]]]

set_option maxRecDepth 100000 in
theorem tree_namespaceText : (SourceFile.ofText .typeScript namespaceText).tree = namespaceProgram ∧
    namespaceProgram.WellFormed := by decide +kernel

/-- The head of the loop declares nothing where `var` does not count. -/
theorem not_site_namespaceLoop (parent : Option Tree) (p : List Nat) (x : Declaration) :
    ¬ Site namespaceText "v" (· ≠ "var") parent namespaceLoop p x := by
  intro h
  cases h with
  | direct hk => rcases hk with hk | hk <;> cases hk
  | hoisted ho => rcases ho with hk | ⟨hk, -⟩ <;> cases hk
  | parameters hk => exact absurd hk (by decide)
  | loop hk => cases hk
  | each _ hw hc => exact hc (by cases Option.some.inj hw; decide +kernel)
  | caught hk => cases hk

/-- The program declares `v` once, with its value. -/
theorem single_namespaceProgram : Single (· ≠ "var") namespaceText "v" none namespaceProgram
    (.node .number (some .value) ⟨10, 11⟩ []) := by
  have hone : declarations namespaceText "v" none namespaceProgram =
      [.declarator (some (.node .number (some .value) ⟨10, 11⟩ []))] := by decide +kernel
  obtain ⟨p, hp, hunique⟩ := declarations_eq_singleton_iff.mp hone
  exact ⟨p, hp.of_ne_forEach (by decide), fun q x hq => hunique q x (hq.of_ne_forEach (by decide))⟩

/-- Among the nodes around the use of `v` in the namespace the program decides if `var` does not count in the heads of
loops. -/
theorem decides_namespaceProgram :
    Decides (· ≠ "var") namespaceText "v" (namespaceProgram.covering ⟨47, 48⟩).tail 6 namespaceProgram where
  inner := by
    intro i hi c hc
    have hcases : i = 0 ∨ i = 1 ∨ i = 2 ∨ i = 3 ∨ i = 4 ∨ i = 5 := by omega
    have hnone : ∀ parent : Option Tree, c.kind ≠ .forEachStatement → declarations namespaceText "v" parent c = [] →
        ∀ p x, ¬ Site namespaceText "v" (· ≠ "var") parent c p x :=
      fun parent hk hnil p x h => declarations_eq_nil_iff.mp hnil p x (h.of_ne_forEach hk)
    rcases hcases with rfl | rfl | rfl | rfl | rfl | rfl <;> cases Option.some.inj hc
    case inr.inr.inr.inl => exact not_site_namespaceLoop _
    all_goals exact hnone _ (by decide) rfl
  here := rfl
  declares := by
    obtain ⟨p, hp, -⟩ := single_namespaceProgram
    exact ⟨p, _, hp⟩

/-- The name `v` has no value in the loop, since the head of the loop binds it. Were only `let` and `const` to count in
the heads of such loops, the rules would give it the value that it has at the top of the program. -/
theorem resolve_in_namespaceLoop :
    (SourceFile.ofText .typeScript namespaceText).resolve "v" ⟨47, 48⟩ = none ∧
    Answer (· ≠ "var") namespaceText "v" (SourceFile.ofText .typeScript namespaceText).tree ⟨47, 48⟩
      (some (.literal ⟨.number "1", ⟨10, 11⟩⟩)) := by
  rw [SourceFile.resolve, tree_namespaceText.1]
  refine ⟨rfl, ?_⟩
  exact .value (smallest_of_covering tree_namespaceText.2 (by decide) rfl) decides_namespaceProgram
    single_namespaceProgram

end WriteGuard.Scope
