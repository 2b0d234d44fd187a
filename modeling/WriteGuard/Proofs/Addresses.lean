import Mathlib.Data.List.Nodup
import Mathlib.Data.List.Perm.Basic
import WriteGuard.Proofs.Nesting

/-!
Nodes of a tree by their addresses. An address says which part is taken at each level on the way down, so it tells two
nodes apart even if they look the same. What is found in a tree is listed in full if the list has one entry for each
address where something is found; the addresses may have to differ only, or to come in the order of the tree.
-/

namespace WriteGuard.Source

namespace Tree

/-- The node at an address. -/
def at? (t : Tree) : List Nat → Option Tree
  | [] => some t
  | i :: p => t.children[i]?.bind fun c => c.at? p

theorem at?_cons {t n : Tree} {i : Nat} {p : List Nat} :
    t.at? (i :: p) = some n ↔ ∃ c, t.children[i]? = some c ∧ c.at? p = some n := by
  rw [at?, Option.bind_eq_some_iff]

theorem at?_append {t n : Tree} {p q : List Nat} :
    t.at? (p ++ q) = some n ↔ ∃ c, t.at? p = some c ∧ c.at? q = some n := by
  induction p generalizing t with
  | nil => simp [at?]
  | cons i p ih =>
    simp only [List.cons_append, at?_cons, ih]
    constructor
    · rintro ⟨c, hc, d, hd, hn⟩
      exact ⟨d, ⟨c, hc, hd⟩, hn⟩
    · rintro ⟨d, ⟨c, hc, hd⟩, hn⟩
      exact ⟨c, hc, d, hd, hn⟩

/-- The part of a node at an index is the first one in its role. -/
structure FirstPart (t : Tree) (role : Role) (i : Nat) (c : Tree) : Prop where
  part : t.children[i]? = some c
  plays : c.role = some role
  first : ∀ j < i, ∀ d, t.children[j]? = some d → d.role ≠ some role

theorem child?_eq_some_iff {t c : Tree} {role : Role} : t.child? role = some c ↔ ∃ i, t.FirstPart role i c := by
  rw [child?, List.find?_eq_some_iff_getElem]
  constructor
  · rintro ⟨hrole, i, hi, hget, hfirst⟩
    refine ⟨i, List.getElem?_eq_some_iff.mpr ⟨hi, hget⟩, of_decide_eq_true hrole, ?_⟩
    intro j hj d hd
    obtain ⟨-, rfl⟩ := List.getElem?_eq_some_iff.mp hd
    simpa using hfirst j hj
  · rintro ⟨i, hpart, hrole, hfirst⟩
    obtain ⟨hi, hget⟩ := List.getElem?_eq_some_iff.mp hpart
    refine ⟨decide_eq_true hrole, i, hi, hget, ?_⟩
    intro j hj
    simpa using hfirst j hj _ (List.getElem?_eq_getElem _)

/-- There is one first part in a role. -/
theorem FirstPart.index_unique {t c d : Tree} {role : Role} {i j : Nat} (hi : t.FirstPart role i c)
    (hj : t.FirstPart role j d) : i = j := by
  rcases Nat.lt_trichotomy i j with hlt | heq | hlt
  · exact absurd hi.plays (hj.first i hlt c hi.part)
  · exact heq
  · exact absurd hj.plays (hi.first j hlt d hj.part)

end Tree

/-! ### Lists of what is found -/

/-- An order of addresses that goes by the first index in which they differ. -/
structure ByIndex (before : List Nat → List Nat → Prop) : Prop where
  below : ∀ i p q, before p q → before (i :: p) (i :: q)
  apart : ∀ i j p q, i < j → before (i :: p) (j :: q)

theorem byIndex_ne : ByIndex (· ≠ ·) where
  below i p q h := by simpa using h
  apart i j p q h := by
    intro heq
    exact absurd (List.cons.inj heq).1 (Nat.ne_of_lt h)

theorem byIndex_lex : ByIndex (List.Lex (· < ·)) where
  below _ _ _ h := .cons h
  apart _ _ _ _ h := .rel h

/-- A list has what a relation finds at addresses, with one entry for each address, in an order of the addresses. -/
def Listed {α : Type} (before : List Nat → List Nat → Prop) (found : List α) (finds : List Nat → α → Prop) : Prop :=
  ∃ entries : List (List Nat × α), entries.map Prod.snd = found ∧ (entries.map Prod.fst).Pairwise before ∧
    ∀ p a, (p, a) ∈ entries ↔ finds p a

namespace Listed

variable {α : Type} {before : List Nat → List Nat → Prop} {found more : List α} {finds others : List Nat → α → Prop}

theorem congr (h : Listed before found finds) (hiff : ∀ p a, finds p a ↔ others p a) :
    Listed before found others := by
  obtain ⟨entries, hfound, horder, hmem⟩ := h
  exact ⟨entries, hfound, horder, fun p a => (hmem p a).trans (hiff p a)⟩

theorem nil (before : List Nat → List Nat → Prop) (h : ∀ p a, ¬ finds p a) : Listed before [] finds :=
  ⟨[], rfl, .nil, fun p a => iff_of_false List.not_mem_nil (h p a)⟩

/-- The order of what is found does not matter if the order of the addresses does not. -/
theorem perm (h : Listed (· ≠ ·) found finds) (hperm : found.Perm more) : Listed (· ≠ ·) more finds := by
  obtain ⟨entries, rfl, horder, hmem⟩ := h
  have hmoved : Relation.Comp (· = List.map Prod.snd ·) List.Perm more entries := by
    rw [List.eq_map_comp_perm]
    exact hperm.symm
  obtain ⟨entries', rfl, hentries⟩ := hmoved
  refine ⟨entries', rfl, ?_, fun p a => hentries.mem_iff.trans (hmem p a)⟩
  exact (hentries.map Prod.fst).symm.pairwise horder Ne.symm

/-- The node itself is the only thing found. -/
theorem here (before : List Nat → List Nat → Prop) (a : α) : Listed before [a] fun p b => p = [] ∧ b = a :=
  ⟨[([], a)], rfl, List.pairwise_singleton .., by simp⟩

theorem hereIf (before : List Nat → List Nat → Prop) (a : α) (P : Prop) [Decidable P] :
    Listed before (if P then [a] else []) fun p b => p = [] ∧ b = a ∧ P := by
  by_cases hP : P
  · rw [if_pos hP]
    exact (here before a).congr (by simp [hP])
  · rw [if_neg hP]
    exact nil before (by simp [hP])

theorem append (h : Listed before found finds) (h' : Listed before more others)
    (hbefore : ∀ p a q b, finds p a → others q b → before p q) :
    Listed before (found ++ more) fun p a => finds p a ∨ others p a := by
  obtain ⟨entries, rfl, horder, hmem⟩ := h
  obtain ⟨entries', rfl, horder', hmem'⟩ := h'
  refine ⟨entries ++ entries', List.map_append, ?_, ?_⟩
  · rw [List.map_append, List.pairwise_append]
    refine ⟨horder, horder', ?_⟩
    intro p hp q hq
    obtain ⟨⟨p, a⟩, hpa, rfl⟩ := List.mem_map.mp hp
    obtain ⟨⟨q, b⟩, hqb, rfl⟩ := List.mem_map.mp hq
    exact hbefore p a q b ((hmem p a).mp hpa) ((hmem' q b).mp hqb)
  · intro p a
    rw [List.mem_append, hmem, hmem']

/-- What is found below a part is found below the node, under the index of the part. -/
theorem below (ho : ByIndex before) (h : Listed before found finds) (i : Nat) :
    Listed before found fun p a => ∃ q, p = i :: q ∧ finds q a := by
  obtain ⟨entries, rfl, horder, hmem⟩ := h
  refine ⟨entries.map fun entry => (i :: entry.1, entry.2), by simp, ?_, ?_⟩
  · rw [List.map_map, List.pairwise_map]
    exact (List.pairwise_map.mp horder).imp fun hpq => ho.below i _ _ hpq
  · intro p a
    constructor
    · intro hp
      obtain ⟨⟨q, b⟩, hq, heq⟩ := List.mem_map.mp hp
      obtain ⟨rfl, rfl⟩ := Prod.mk.inj heq
      exact ⟨q, rfl, (hmem q b).mp hq⟩
    · rintro ⟨q, rfl, hq⟩
      exact List.mem_map.mpr ⟨(q, a), (hmem q a).mpr hq, rfl⟩

/-- What is found below several parts in a row, the first of them with index `k`. -/
theorem partsFrom (ho : ByIndex before) {list : Tree → List α} {finds : Tree → List Nat → α → Prop} :
    ∀ (cs : List Tree) (k : Nat), (∀ c ∈ cs, Listed before (list c) (finds c)) →
      Listed before (cs.flatMap list) fun p a => ∃ i c q, p = (k + i) :: q ∧ cs[i]? = some c ∧ finds c q a
  | [], k, _ => nil before (by simp)
  | c :: cs, k, h => by
      have hfirst := (h c List.mem_cons_self).below ho k
      have hrest := partsFrom ho cs (k + 1) fun d hd => h d (List.mem_cons_of_mem c hd)
      rw [List.flatMap_cons]
      refine (hfirst.append hrest ?_).congr fun p a => ⟨?_, ?_⟩
      · rintro p a q b ⟨p, rfl, -⟩ ⟨i, d, q, rfl, -, -⟩
        exact ho.apart _ _ _ _ (by omega)
      · rintro (⟨q, rfl, hq⟩ | ⟨i, d, q, rfl, hd, hq⟩)
        · exact ⟨0, c, q, rfl, rfl, hq⟩
        · exact ⟨i + 1, d, q, by rw [Nat.add_right_comm, Nat.add_assoc], hd, hq⟩
      · rintro ⟨i, d, q, rfl, hd, hq⟩
        cases i with
        | zero =>
          obtain rfl := Option.some.inj hd
          exact Or.inl ⟨q, rfl, hq⟩
        | succ i => exact Or.inr ⟨i, d, q, by rw [Nat.add_right_comm, Nat.add_assoc], hd, hq⟩

/-- What is found below the parts of a node. -/
theorem parts (ho : ByIndex before) {t : Tree} {list : Tree → List α} {finds : Tree → List Nat → α → Prop}
    (h : ∀ c ∈ t.children, Listed before (list c) (finds c)) :
    Listed before (t.children.flatMap list) fun p a => ∃ i c q, p = i :: q ∧ t.children[i]? = some c ∧ finds c q a := by
  simpa only [Nat.zero_add] using partsFrom ho t.children 0 h

/-- What is found below the first part in a role. -/
theorem firstPart (ho : ByIndex before) {t : Tree} {role : Role} {list : Tree → List α}
    {finds : Tree → List Nat → α → Prop} (h : ∀ c, t.child? role = some c → Listed before (list c) (finds c)) :
    Listed before (((t.child? role).map list).getD []) fun p a =>
      ∃ i c q, p = i :: q ∧ t.FirstPart role i c ∧ finds c q a := by
  cases hc : t.child? role with
  | none =>
    refine nil before ?_
    rintro p a ⟨i, c, q, -, hfirst, -⟩
    rw [Tree.child?_eq_some_iff.mpr ⟨i, hfirst⟩] at hc
    cases hc
  | some c =>
    obtain ⟨i, hi⟩ := Tree.child?_eq_some_iff.mp hc
    refine ((h c hc).below ho i).congr fun p a => ⟨?_, ?_⟩
    · rintro ⟨q, rfl, hq⟩
      exact ⟨i, c, q, rfl, hi, hq⟩
    · rintro ⟨j, d, q, rfl, hj, hq⟩
      obtain rfl := hi.index_unique hj
      obtain rfl := Option.some.inj (hi.part.symm.trans hj.part)
      exact ⟨q, rfl, hq⟩

/-- What is made of the things that are found, in the same order. -/
theorem filterMap {β : Type} (h : Listed before found finds) (f : α → Option β) :
    Listed before (found.filterMap f) fun p b => ∃ a, finds p a ∧ f a = some b := by
  obtain ⟨entries, rfl, horder, hmem⟩ := h
  refine ⟨entries.filterMap fun entry => (f entry.2).map (entry.1, ·), ?_, ?_, ?_⟩
  · simp [List.map_filterMap, List.filterMap_map, Function.comp_def]
  · rw [List.pairwise_map] at horder ⊢
    refine horder.filterMap _ ?_
    rintro x y hxy x' hx y' hy
    obtain ⟨a, -, rfl⟩ := Option.map_eq_some_iff.mp hx
    obtain ⟨b, -, rfl⟩ := Option.map_eq_some_iff.mp hy
    exact hxy
  · intro p b
    constructor
    · intro hp
      obtain ⟨⟨q, a⟩, hq, heq⟩ := List.mem_filterMap.mp hp
      obtain ⟨c, hc, heq⟩ := Option.map_eq_some_iff.mp heq
      obtain ⟨rfl, rfl⟩ := Prod.mk.inj heq
      exact ⟨a, (hmem q a).mp hq, hc⟩
    · rintro ⟨a, hp, hb⟩
      exact List.mem_filterMap.mpr ⟨(p, a), (hmem p a).mpr hp, Option.map_eq_some_iff.mpr ⟨b, hb, rfl⟩⟩

/-- What is found is in the list. -/
theorem mem_of_finds (h : Listed before found finds) {p : List Nat} {a : α} (hp : finds p a) : a ∈ found := by
  obtain ⟨entries, rfl, -, hmem⟩ := h
  exact List.mem_map_of_mem ((hmem p a).mpr hp)

/-! ### Lists with one entry for each address -/

/-- Nothing is in the list exactly if nothing is found. -/
theorem eq_nil_iff (h : Listed before found finds) : found = [] ↔ ∀ p a, ¬ finds p a := by
  obtain ⟨entries, rfl, -, hmem⟩ := h
  constructor
  · intro hnil p a hp
    rw [List.map_eq_nil_iff.mp hnil] at hmem
    exact List.not_mem_nil ((hmem p a).mpr hp)
  · intro hnone
    rw [List.map_eq_nil_iff]
    refine List.eq_nil_iff_forall_not_mem.mpr ?_
    rintro ⟨p, a⟩ hp
    exact hnone p a ((hmem p a).mp hp)

/-- One thing is in the list exactly if it is found at one address and nothing at any other. -/
theorem eq_singleton_iff (h : Listed (· ≠ ·) found finds) (a : α) :
    found = [a] ↔ ∃ p, finds p a ∧ ∀ q b, finds q b → q = p := by
  obtain ⟨entries, rfl, horder, hmem⟩ := h
  constructor
  · intro hone
    obtain ⟨⟨p, b⟩, rfl, rfl⟩ := List.map_eq_singleton_iff.mp hone
    refine ⟨p, (hmem p b).mp List.mem_cons_self, ?_⟩
    intro q c hq
    exact (Prod.mk.inj (List.mem_singleton.mp ((hmem q c).mpr hq))).1
  · rintro ⟨p, hp, hunique⟩
    have hin := (hmem p a).mpr hp
    -- a second entry would have the same address
    obtain ⟨front, rest, rfl⟩ := List.append_of_mem hin
    rw [List.map_append, List.map_cons, List.pairwise_append, List.pairwise_cons] at horder
    obtain ⟨-, ⟨hafter, -⟩, hbefore⟩ := horder
    have hfront : front = [] := by
      refine List.eq_nil_iff_forall_not_mem.mpr ?_
      rintro ⟨q, b⟩ hq
      have heq := hunique q b ((hmem q b).mp (List.mem_append_left _ hq))
      exact hbefore q (List.mem_map_of_mem hq) p List.mem_cons_self heq
    have hrest : rest = [] := by
      refine List.eq_nil_iff_forall_not_mem.mpr ?_
      rintro ⟨q, b⟩ hq
      have heq := hunique q b ((hmem q b).mp (List.mem_append_right _ (List.mem_cons_of_mem _ hq)))
      exact hafter q (List.mem_map_of_mem hq) heq.symm
    rw [hfront, hrest]
    rfl

end Listed

end WriteGuard.Source
