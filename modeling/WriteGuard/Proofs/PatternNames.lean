import WriteGuard.Proofs.DeclarationSites

/-!
The search of a pattern for a name, in any order. What a node has to offer is the word it is, or else the parts that may
bind: the search may visit pending nodes in whatever order and stop at the first word that fits, and it ends with the same
answer. Default values, keys, types and the outside names of imports are never visited, so nothing about them matters.
-/

namespace WriteGuard.Source.Tree

/-! ### Parts that may bind -/

/-- The parts of a node whose names are its names. -/
def bindingParts (t : Tree) : List Tree :=
  match t.kind with
  | .identifier | .shorthandPattern | .typeMark | .decorator | .string => []
  | .assignmentPattern | .objectAssignmentPattern => (t.child? .left).toList
  | .pairPattern => (t.child? .value).toList
  | .parameter => (t.child? .pattern).toList
  | .importSpecifier => ((t.child? .alias).or (t.child? .name)).toList
  | _ => t.namedChildren

/-- A node is a word that binds the name. -/
def Hit (content : List Char) (name : String) (t : Tree) : Prop :=
  isKnownWord t.kind = true ∧ t.text content = name

instance (content : List Char) (name : String) (t : Tree) : Decidable (Hit content name t) :=
  inferInstanceAs (Decidable (_ ∧ _))

theorem bindingParts_sublist (t : Tree) : t.bindingParts.Sublist t.children := by
  unfold bindingParts
  split
  case h_10 =>
    refine toList_sublist_children fun c hc => ?_
    rcases Option.or_eq_some_iff.mp hc with hc | ⟨-, hc⟩ <;> exact List.mem_of_find?_eq_some hc
  case h_11 => exact List.filter_sublist
  case h_6 | h_7 | h_8 | h_9 => exact toList_sublist_children fun c hc => List.mem_of_find?_eq_some hc
  all_goals exact List.nil_sublist _

theorem bindingParts_of_namesByRule {t : Tree} (hk : namesByRule t.kind = false) : t.bindingParts = t.namedChildren := by
  unfold bindingParts
  split
  case h_11 => rfl
  all_goals
    next heq =>
      rw [heq] at hk
      cases hk

variable {content : List Char} {name : String}

theorem Hit.namesByRule {t : Tree} (h : Hit content name t) : namesByRule t.kind = true := by
  rcases isKnownWord_cases h.1 with hk | hk <;> rw [hk] <;> rfl

/-- The test of a node is that of the word it is and of its parts. -/
theorem binds_eq_hit_or_parts (t : Tree) :
    t.binds content name = (decide (Hit content name t) || t.bindingParts.any (binds content name)) := by
  cases hrule : namesByRule t.kind with
  | false =>
    have hmiss : ¬ Hit content name t := fun h => by rw [h.namesByRule] at hrule; cases hrule
    rw [binds_of_namesByRule hrule, bindingParts_of_namesByRule hrule, decide_eq_false hmiss, Bool.false_or]
  | true =>
    have hpart (part : Option Tree) :
        (part.map (binds content name)).getD false = part.toList.any (binds content name) := by
      cases part <;> simp
    rw [binds_eq]
    unfold bindingParts Hit
    split
    case h_11 => simp_all [namesByRule]
    all_goals
      next hk => simp [hk, isKnownWord, hpart]

/-! ### The search -/

section Search

variable (content name)

/-- One step of the search: a pending node that does not fit is taken out, and its parts become pending. Nothing is said
about the order. -/
inductive Visit : List Tree → List Tree → Prop
  | node {pending later rest : List Tree} {t : Tree} (htake : pending.Perm (t :: rest)) (hmiss : ¬ Hit content name t)
      (hleave : later.Perm (t.bindingParts ++ rest)) : Visit pending later

/-- A whole search and its answer: it stops at a pending node that fits, or when nothing is pending. -/
inductive Search : List Tree → Bool → Prop
  | empty : Search [] false
  | found {pending : List Tree} {t : Tree} (ht : t ∈ pending) (hit : Hit content name t) : Search pending true
  | next {pending later : List Tree} {answer : Bool} (hvisit : Visit content name pending later)
      (h : Search later answer) : Search pending answer

end Search

/-- A step of the search leaves open whether a pending node binds the name. -/
theorem Visit.any_binds {pending later : List Tree} (h : Visit content name pending later) :
    later.any (binds content name) = pending.any (binds content name) := by
  obtain ⟨htake, hmiss, hleave⟩ := h
  rw [hleave.any_eq, htake.any_eq, List.any_append, List.any_cons, binds_eq_hit_or_parts, decide_eq_false hmiss,
    Bool.false_or]

theorem Search.answer_eq {pending : List Tree} {answer : Bool} (h : Search content name pending answer) :
    answer = pending.any (binds content name) := by
  induction h with
  | empty => rfl
  | found ht hit =>
    refine (List.any_eq_true.mpr ⟨_, ht, ?_⟩).symm
    rw [binds_eq_hit_or_parts, decide_eq_true hit, Bool.true_or]
  | next hvisit _ ih => rw [ih, hvisit.any_binds]

/-- A step of the search makes what is pending smaller. -/
theorem Visit.pendingSize_lt {pending later : List Tree} (h : Visit content name pending later) :
    pendingSize later < pendingSize pending := by
  cases h with
  | @node rest t htake _ hleave =>
    rw [pendingSize_perm hleave, pendingSize_perm htake, pendingSize_append, pendingSize_cons]
    exact Nat.add_lt_add_right (pendingSize_parts_lt (bindingParts_sublist t)) _

/-- Every search ends. -/
theorem acc_visit (content : List Char) (name : String) (pending : List Tree) :
    Acc (fun later earlier => Visit content name earlier later) pending :=
  Subrelation.accessible (fun h => h.pendingSize_lt) ((measure pendingSize).wf.apply pending)

theorem search_any_binds (content : List Char) (name : String) (pending : List Tree) :
    Search content name pending (pending.any (binds content name)) := by
  induction acc_visit content name pending with
  | intro pending _ ih =>
    cases pending with
    | nil => exact .empty
    | cons t rest =>
      by_cases hit : Hit content name t
      · have hbinds : (t :: rest).any (binds content name) = true := by
          rw [List.any_cons, binds_eq_hit_or_parts, decide_eq_true hit, Bool.true_or, Bool.true_or]
        rw [hbinds]
        exact .found List.mem_cons_self hit
      · have hvisit : Visit content name (t :: rest) (t.bindingParts ++ rest) := ⟨.refl _, hit, .refl _⟩
        rw [← hvisit.any_binds]
        exact .next hvisit (ih _ hvisit)

/-! ### What binds nothing -/

/-- The part of a node that alone may bind. -/
def bindingRole? : Kind → Option Role
  | .assignmentPattern | .objectAssignmentPattern => some .left
  | .pairPattern => some .value
  | .parameter => some .pattern
  | _ => none

/-- Kinds of nodes in which nothing binds. -/
def isMute : Kind → Bool
  | .typeMark | .decorator | .string => true
  | _ => false

/-- Two patterns are the same up to what binds nothing: default values, keys and what else stands beside the part that
binds, the outside names of imports with a name of their own, and what is in types, decorators and strings. -/
inductive SameTargets : Tree → Tree → Prop
  | beside {k : Kind} {role : Option Role} {s : Span} {before after : List Tree} {c c' : Tree} {r : Role}
      (hk : bindingRole? k = some r) (hc : c.role ≠ some r) (hc' : c'.role ≠ some r) :
      SameTargets (.node k role s (before ++ c :: after)) (.node k role s (before ++ c' :: after))
  | outside {role : Option Role} {s : Span} {before after : List Tree} {c c' own : Tree}
      (hown : own ∈ before ++ after) (halias : own.role = some .alias) (hc : c.role ≠ some .alias)
      (hc' : c'.role ≠ some .alias) :
      SameTargets (.node .importSpecifier role s (before ++ c :: after))
        (.node .importSpecifier role s (before ++ c' :: after))
  | mute {k : Kind} {role : Option Role} {s : Span} {cs cs' : List Tree} (hk : isMute k = true) :
      SameTargets (.node k role s cs) (.node k role s cs')
  | inside {k : Kind} {role : Option Role} {s : Span} {before after : List Tree} {c c' : Tree} (h : SameTargets c c') :
      SameTargets (.node k role s (before ++ c :: after)) (.node k role s (before ++ c' :: after))
  | trans {t u v : Tree} (h : SameTargets t u) (h' : SameTargets u v) : SameTargets t v

theorem SameTargets.kind_eq {t t' : Tree} (h : SameTargets t t') : t.kind = t'.kind := by
  induction h with
  | trans _ _ ih ih' => exact ih.trans ih'
  | _ => rfl

theorem SameTargets.role_eq {t t' : Tree} (h : SameTargets t t') : t.role = t'.role := by
  induction h with
  | trans _ _ ih ih' => exact ih.trans ih'
  | _ => rfl

section Change

variable {c c' : Tree}

/-- The first tree that plays a part is tested alike if a change concerns no tree in that part, or nothing of its test. -/
theorem partBinds_change {r : Role} (h : c.role = some r ∨ c'.role = some r →
      c.role = c'.role ∧ c.binds content name = c'.binds content name) (after : List Tree) : ∀ before : List Tree,
    partBinds content name r (before ++ c :: after) = partBinds content name r (before ++ c' :: after)
  | [] => by
    by_cases hc : c.role = some r
    · obtain ⟨hrole, hbinds⟩ := h (Or.inl hc)
      rw [List.nil_append, partBinds, if_pos hc, List.nil_append, partBinds, if_pos (hrole ▸ hc), hbinds]
    · have hc' : c'.role ≠ some r := fun hc' => hc ((h (Or.inr hc')).1.trans hc')
      rw [List.nil_append, partBinds, if_neg hc, List.nil_append, partBinds, if_neg hc']
  | b :: before => by
    rw [List.cons_append, partBinds, List.cons_append, partBinds, partBinds_change h after before]

theorem anyBinds_change (hkind : c.kind = c'.kind) (hbinds : c.binds content name = c'.binds content name)
    (after : List Tree) : ∀ before : List Tree,
    anyBinds content name (before ++ c :: after) = anyBinds content name (before ++ c' :: after)
  | [] => by rw [List.nil_append, anyBinds, List.nil_append, anyBinds, isComment, isComment, hkind, hbinds]
  | b :: before => by
    rw [List.cons_append, anyBinds, List.cons_append, anyBinds, anyBinds_change hkind hbinds after before]

end Change

theorem binds_of_bindingRole? {k : Kind} {r : Role} (hk : bindingRole? k = some r) (role : Option Role) (s : Span)
    (cs : List Tree) : (Tree.node k role s cs).binds content name = (partBinds content name r cs).getD false := by
  unfold bindingRole? at hk
  split at hk
  case h_5 => cases hk
  all_goals
    obtain rfl := Option.some.inj hk
    rw [binds]

theorem binds_of_isMute {k : Kind} (hk : isMute k = true) (role : Option Role) (s : Span) (cs : List Tree) :
    (Tree.node k role s cs).binds content name = false := by
  unfold isMute at hk
  split at hk
  case h_4 => cases hk
  all_goals rw [binds]

theorem exists_partBinds (content : List Char) (name : String) {r : Role} {own : Tree} (hown : own.role = some r)
    {cs : List Tree} (hmem : own ∈ cs) :
    ∃ answer, partBinds content name r cs = some answer := by
  have hsome : (cs.find? fun c => c.role = some r).isSome = true :=
    List.find?_isSome.mpr ⟨own, hmem, decide_eq_true hown⟩
  obtain ⟨first, hfirst⟩ := Option.isSome_iff_exists.mp hsome
  exact ⟨first.binds content name, by rw [partBinds_eq, hfirst, Option.map_some]⟩

/-- What binds nothing does not matter to the test. -/
theorem SameTargets.binds_eq {t t' : Tree} (h : SameTargets t t') : t.binds content name = t'.binds content name := by
  induction h with
  | beside hk hc hc' =>
    rw [binds_of_bindingRole? hk, binds_of_bindingRole? hk,
      partBinds_change fun hr => absurd hr (not_or.mpr ⟨hc, hc'⟩)]
  | @outside role s before after c c' own hown halias hc hc' =>
    have hmem : own ∈ before ++ c :: after := by
      rcases List.mem_append.mp hown with hown | hown
      · exact List.mem_append_left _ hown
      · exact List.mem_append_right _ (List.mem_cons_of_mem c hown)
    obtain ⟨answer, hanswer⟩ := exists_partBinds content name halias hmem
    have hsame : partBinds content name .alias (before ++ c' :: after) = some answer := by
      rw [← hanswer, partBinds_change fun hr => absurd hr (not_or.mpr ⟨hc, hc'⟩)]
    rw [binds, binds, hanswer, hsame, Option.some_or, Option.some_or]
  | mute hk => rw [binds_of_isMute hk, binds_of_isMute hk]
  | @inside k role s before after c c' h ih =>
    have hpart (r : Role) :
        partBinds content name r (before ++ c :: after) = partBinds content name r (before ++ c' :: after) :=
      partBinds_change (fun _ => ⟨h.role_eq, ih⟩) after before
    have hany : anyBinds content name (before ++ c :: after) = anyBinds content name (before ++ c' :: after) :=
      anyBinds_change h.kind_eq ih after before
    unfold binds
    simp only [hpart, hany]
  | trans _ _ ih ih' => exact ih.trans ih'

/-- A pattern binds the names that its rules give it and no others. A search of its nodes ends, in whatever order it
visits them, and has this answer; and the answer is the same for all patterns that differ only in what binds nothing. -/
theorem binds_settles_names (content : List Char) (name : String) (t : Tree) :
    (t.binds content name = true ↔ Introduces content name t) ∧
    Acc (fun later earlier => Visit content name earlier later) [t] ∧
    (∀ answer, Search content name [t] answer ↔ answer = t.binds content name) ∧
    ∀ t', SameTargets t t' → (t.binds content name = true ↔ Introduces content name t') := by
  have hone : [t].any (binds content name) = t.binds content name := by rw [List.any_cons, List.any_nil, Bool.or_false]
  refine ⟨binds_iff_introduces, acc_visit content name [t], fun answer => ⟨fun h => ?_, ?_⟩, fun t' h => ?_⟩
  · rw [h.answer_eq, hone]
  · rintro rfl
    rw [← hone]
    exact search_any_binds content name [t]
  · rw [h.binds_eq]
    exact binds_iff_introduces

/-- The pattern of `{ v: a = v }`, with any default value in the place of the last word. -/
def keyedDefault (value : Tree) : Tree :=
  .node .objectPattern none ⟨0, 12⟩ [
    mark "\x7b" 0 1,
    .node .pairPattern none ⟨2, 10⟩ [
      .node .propertyName (some .key) ⟨2, 3⟩ [], mark ":" 3 4,
      .node .assignmentPattern (some .value) ⟨5, 10⟩ [
        .node .identifier (some .left) ⟨5, 6⟩ [], mark "=" 7 8, value]],
    mark "\x7d" 11 12]

/-- The pattern as it is written. -/
def wordDefault : Tree := keyedDefault (.node .identifier none ⟨9, 10⟩ [])

/-- The pattern with a list in the place of the default value. -/
def listDefault : Tree := keyedDefault (.node .arrayPattern none ⟨9, 10⟩ [.node .identifier none ⟨9, 10⟩ []])

/-- The default value does not matter; the pattern binds `a` and neither the key nor the word in the default. -/
theorem binds_settles_names_wordDefault :
    SameTargets wordDefault listDefault ∧ Introduces "\x7b v: a = v \x7d".toList "a" listDefault ∧
      Search "\x7b v: a = v \x7d".toList "a" [wordDefault] true ∧
      Search "\x7b v: a = v \x7d".toList "v" [wordDefault] false ∧
      ¬ Introduces "\x7b v: a = v \x7d".toList "v" listDefault := by
  have hdefault : SameTargets wordDefault listDefault :=
    @SameTargets.inside _ _ _ [mark "\x7b" 0 1] _ _ _ <| @SameTargets.inside _ _ _ [_, _] _ _ _ <|
      @SameTargets.beside _ _ _ [_, _] _ _ _ .left rfl (by decide) (by decide)
  have hbinds : wordDefault.binds "\x7b v: a = v \x7d".toList "a" = true ∧
      wordDefault.binds "\x7b v: a = v \x7d".toList "v" = false := by decide +kernel
  obtain ⟨-, -, ha, hsame⟩ := binds_settles_names "\x7b v: a = v \x7d".toList "a" wordDefault
  obtain ⟨-, -, hv, hsame'⟩ := binds_settles_names "\x7b v: a = v \x7d".toList "v" wordDefault
  refine ⟨hdefault, (hsame _ hdefault).mp hbinds.1, (ha true).mpr hbinds.1.symm, (hv false).mpr hbinds.2.symm,
    fun h => ?_⟩
  rw [← hsame' _ hdefault, hbinds.2] at h
  cases h

end WriteGuard.Source.Tree
