import WriteGuard.Proofs.BoundNames
import WriteGuard.Proofs.Nesting
import WriteGuard.Scope.Resolve

/-!
The declarations of a scope level by level, and the scope that decides about a name. The functions that collect
declarations walk over lists of trees by hand, or keep statements to be searched later; here each of them is the plain
filter, search or concatenation over the children of a node that it stands for, up to the order in which the search for
`var` finds things.
-/

namespace WriteGuard.Scope

open Source

deriving instance DecidableEq for Declaration

section Level

variable (content : List Char) (name : String)

theorem ofExported_eq : ∀ cs : List Tree,
    ofExported content name cs =
      ((cs.find? fun c => c.role = some .declaration).map (ofStatement content name)).getD []
  | [] => rfl
  | c :: cs => by
      rw [ofExported, List.find?_cons]
      by_cases hr : c.role = some .declaration
      · simp [hr]
      · simp [hr, ofExported_eq cs]

/-- What a statement declares in its block, in terms of its parts. -/
theorem ofStatement_eq (t : Tree) : ofStatement content name t =
    match t.kind with
    | .lexicalDeclaration => ofDeclarators content name t
    | .functionDeclaration | .classDeclaration =>
      match t.child? .name with
      | some own => if own.text content = name then [.unknown] else []
      | none => []
    | .importStatement => if t.binds content name then [.unknown] else []
    | .exportStatement => ((t.child? .declaration).map (ofStatement content name)).getD []
    | _ => [] := by
  obtain ⟨k, role, s, cs⟩ := t
  unfold ofStatement
  simp only [ofExported_eq]
  rfl

/-! ### Hoisting

The search for `var` takes the last statement that waits. It finds what the recursion over statements finds, with every
declaration as often, but in an order of its own. -/

/-- The declarations of the name by `var` in a statement, found through statements but not through expressions and
functions. -/
def hoisted (t : Tree) : List Declaration :=
  ofVar content name t ++ (innerStatements t).attach.flatMap fun c => hoisted c.1
termination_by Tree.pendingSize [t]
decreasing_by exact Tree.pendingSize_parts_lt ((List.singleton_sublist.mpr c.2).trans (innerStatements_sublist t))

theorem hoisted_eq_append (t : Tree) :
    hoisted content name t = ofVar content name t ++ (innerStatements t).flatMap (hoisted content name) := by
  rw [hoisted, ← List.flatMap_map Subtype.val (hoisted content name), List.attach_map_subtype_val]

/-- What is declared by `var` inside a statement, in terms of its parts. -/
theorem hoisted_eq (t : Tree) : hoisted content name t =
    match t.kind with
    | .variableDeclaration => ofDeclarators content name t
    | .forEachStatement =>
      (if ((t.child? .kind).map fun w => w.text content) = some "var"
        then ofPattern content name (t.child? .left) else []) ++ ((t.child? .body).map (hoisted content name)).getD []
    | _ => if t.kind.holdsStatements then t.namedChildren.flatMap (hoisted content name) else [] := by
  have hbody : (t.child? .body).toList.flatMap (hoisted content name) =
      ((t.child? .body).map (hoisted content name)).getD [] := by
    cases t.child? .body <;> simp
  rw [hoisted_eq_append, ofVar, innerStatements]
  split <;> simp_all [apply_ite (List.flatMap (hoisted content name))]

/-- One round of the search: what the statement declares itself is found, and its parts wait in its place. -/
theorem flatMap_hoisted_perm (t : Tree) (pending : List Tree) :
    ((t :: pending).flatMap (hoisted content name)).Perm
      (ofVar content name t ++ ((innerStatements t).reverse ++ pending).flatMap (hoisted content name)) := by
  have hparts : ((innerStatements t).flatMap (hoisted content name)).Perm
      ((innerStatements t).reverse.flatMap (hoisted content name)) :=
    (List.reverse_perm _).symm.flatMap_right _
  rw [List.flatMap_cons, hoisted_eq_append, List.flatMap_append, List.append_assoc]
  exact (hparts.append_right _).append_left _

/-- The search finds what the statements that wait declare by `var`. -/
theorem hoistedFrom_perm (found : Array Declaration) (pending : List Tree) :
    (hoistedFrom content name found pending).toList.Perm
      (found.toList ++ pending.flatMap (hoisted content name)) := by
  fun_induction hoistedFrom content name found pending with
  | case1 found => simp
  | case2 found t pending ih =>
    rw [Array.toList_appendList, List.append_assoc] at ih
    exact ih.trans ((flatMap_hoisted_perm content name t pending).symm.append_left _)

/-- What a block declares: what its statements declare in it, and what is declared by `var` inside if it owns that. -/
theorem ofBlock_perm (t : Tree) (hoists : Bool) : (ofBlock content name t hoists).Perm
    (t.namedChildren.flatMap (ofStatement content name) ++
      if hoists then t.namedChildren.flatMap (hoisted content name) else []) := by
  refine List.Perm.append_left _ ?_
  cases hoists with
  | false => exact .refl _
  | true =>
    have hfound := hoistedFrom_perm content name #[] t.namedChildren.reverse
    exact hfound.trans ((List.reverse_perm _).flatMap_right _)

end Level

/-! ### The deciding scope -/

/-- The scope at index `k` around a reference is the innermost one that declares the name, and it declares it once, as a
plain variable with the given first value. Each scope stands below the one after it. -/
structure DecidedAt (content : List Char) (name : String) (scopes : List Tree) (k : Nat) (value : Tree) : Prop where
  inner : ∀ i < k, ∀ c, scopes[i]? = some c → declarations content name scopes[i + 1]? c = []
  scope : ∃ c, scopes[k]? = some c ∧ declarations content name scopes[k + 1]? c = [.declarator (some value)]

theorem resolve_of_initializer? {content : List Char} {root v : Tree} {name : String} {at_ : Span}
    (h : initializer? content name (root.covering at_).tail = some v) :
    resolve content root name at_ = some (Lower.expr content v) := by
  rw [resolve, h]
  rfl

/-- The initial value of a name is the one the deciding scope gives. -/
theorem initializer?_eq_some_iff (content : List Char) (name : String) (value : Tree) : ∀ scopes : List Tree,
    initializer? content name scopes = some value ↔ ∃ k, DecidedAt content name scopes k value
  | [] => by
      constructor
      · intro h
        cases h
      · rintro ⟨k, hk⟩
        obtain ⟨c, hc, _⟩ := hk.scope
        simp at hc
  | s :: above => by
      have hhead : (s :: above)[0 + 1]? = above.head? := by rw [List.getElem?_cons_succ, List.head?_eq_getElem?]
      rw [initializer?]
      constructor
      · intro h
        split at h
        · next hd =>
          obtain ⟨k, hk⟩ := (initializer?_eq_some_iff content name value above).mp h
          refine ⟨k + 1, ⟨fun i hi c hc => ?_, hk.scope⟩⟩
          cases i with
          | zero => rw [hhead, ← Option.some.inj hc]; exact hd
          | succ i => exact hk.inner i (Nat.lt_of_succ_lt_succ hi) c hc
        · next v hd => exact ⟨0, ⟨fun i hi => absurd hi (Nat.not_lt_zero i), s, rfl, by rw [hhead, hd, h]⟩⟩
        · cases h
      · rintro ⟨k, hk⟩
        cases k with
        | zero =>
          obtain ⟨c, hc, hd⟩ := hk.scope
          rw [hhead, ← Option.some.inj hc] at hd
          rw [hd]
        | succ k =>
          have hd := hk.inner 0 (Nat.succ_pos k) s rfl
          rw [hhead] at hd
          rw [hd]
          refine (initializer?_eq_some_iff content name value above).mpr ⟨k, ⟨fun i hi c hc => ?_, hk.scope⟩⟩
          exact hk.inner (i + 1) (Nat.succ_lt_succ hi) c hc

end WriteGuard.Scope
