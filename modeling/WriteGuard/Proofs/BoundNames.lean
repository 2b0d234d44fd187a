import WriteGuard.Scope.Pattern

/-!
The names that a binding pattern introduces, as a relation between trees and names, and the test of a pattern for one
name level by level. The relation is told which words may stand for a variable in a pattern, because the language allows
one word there that the test passes over: `undefined` is an ordinary name in the place of a parameter.
-/

namespace WriteGuard.Source.Tree

/-! ### The test of one level -/

section Level

variable (content : List Char) (name : String)

theorem partBinds_eq (role : Role) : ∀ cs : List Tree,
    partBinds content name role cs = (cs.find? fun c => c.role = some role).map (binds content name)
  | [] => rfl
  | c :: cs => by
      rw [partBinds, List.find?_cons]
      by_cases hr : c.role = some role
      · simp [hr]
      · simp [hr, partBinds_eq role cs]

theorem anyBinds_eq : ∀ cs : List Tree,
    anyBinds content name cs = (cs.filter fun c => c.kind.isNamed && !c.isComment).any (binds content name)
  | [] => rfl
  | c :: cs => by
      rw [anyBinds, List.filter_cons, anyBinds_eq cs]
      by_cases hc : (c.kind.isNamed && !c.isComment) = true
      · rw [if_pos hc, hc, Bool.true_and, List.any_cons]
      · rw [if_neg hc, Bool.eq_false_iff.mpr hc, Bool.false_and, Bool.false_or]

/-- The test of a node in terms of the tests of its parts. -/
theorem binds_eq (t : Tree) : t.binds content name =
    match t.kind with
    | .identifier | .shorthandPattern => decide (t.text content = name)
    | .assignmentPattern | .objectAssignmentPattern => ((t.child? .left).map (binds content name)).getD false
    | .pairPattern => ((t.child? .value).map (binds content name)).getD false
    | .parameter => ((t.child? .pattern).map (binds content name)).getD false
    | .importSpecifier => (((t.child? .alias).or (t.child? .name)).map (binds content name)).getD false
    | .typeMark | .decorator | .string => false
    | _ => t.namedChildren.any (binds content name) := by
  obtain ⟨k, role, s, cs⟩ := t
  unfold binds
  simp only [partBinds_eq, anyBinds_eq, ← Option.map_or]
  rfl

end Level

/-! ### Bound names -/

/-- A pattern binds a name by one of the given words: the word is the pattern, or stands in the target of a default, in
the value of a pair, in a parameter or among the parts of a list. Default values, keys and types bind nothing. -/
inductive BoundName (word : Kind → Bool) (content : List Char) (name : String) : Tree → Prop
  | word {t : Tree} (hk : word t.kind = true) (ht : t.text content = name) : BoundName word content name t
  | target {t left : Tree} (hk : t.kind = .assignmentPattern ∨ t.kind = .objectAssignmentPattern)
      (hl : t.child? .left = some left) (h : BoundName word content name left) : BoundName word content name t
  | pair {t value : Tree} (hk : t.kind = .pairPattern) (hv : t.child? .value = some value)
      (h : BoundName word content name value) : BoundName word content name t
  | parameter {t pattern : Tree} (hk : t.kind = .parameter) (hp : t.child? .pattern = some pattern)
      (h : BoundName word content name pattern) : BoundName word content name t
  | element {t c : Tree} (hk : t.kind ∈ [.objectPattern, .arrayPattern, .other "rest", .parameters])
      (hc : c ∈ t.namedChildren) (h : BoundName word content name c) : BoundName word content name t

/-- The words that are a variable in a pattern. -/
def isNameWord : Kind → Bool
  | .identifier | .shorthandPattern | .undefinedName => true
  | _ => false

/-- The words that the test of a pattern knows. -/
def isKnownWord : Kind → Bool
  | .identifier | .shorthandPattern => true
  | _ => false

theorem isKnownWord_cases {k : Kind} (h : isKnownWord k = true) : k = .identifier ∨ k = .shorthandPattern := by
  unfold isKnownWord at h
  split at h
  · exact Or.inl rfl
  · exact Or.inr rfl
  · cases h

variable {content : List Char} {name : String}

/-- The test finds every name that is bound by a word it knows. -/
theorem BoundName.binds {t : Tree} (h : BoundName isKnownWord content name t) : t.binds content name = true := by
  induction h with
  | @word t hk ht =>
    rcases isKnownWord_cases hk with hk | hk <;> rw [binds_eq, hk] <;> exact decide_eq_true ht
  | @target t left hk hl _ ih =>
    rcases hk with hk | hk <;> rw [binds_eq, hk] <;> simp only [hl, Option.map_some, Option.getD_some, ih]
  | pair hk hv _ ih =>
    rw [binds_eq, hk]
    simp only [hv, Option.map_some, Option.getD_some, ih]
  | parameter hk hp _ ih =>
    rw [binds_eq, hk]
    simp only [hp, Option.map_some, Option.getD_some, ih]
  | @element t c hk hc _ ih =>
    have hany : t.namedChildren.any (Tree.binds content name) = true := List.any_eq_true.mpr ⟨c, hc, ih⟩
    simp only [List.mem_cons, List.not_mem_nil, or_false] at hk
    rcases hk with hk | hk | hk | hk <;> rw [binds_eq, hk] <;> exact hany

end WriteGuard.Source.Tree
