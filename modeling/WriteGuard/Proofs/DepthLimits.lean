import WriteGuard.Proofs.LoopHeads
import WriteGuard.Proofs.PayloadWalk
import WriteGuard.Proofs.WholeReading

/-!
The limit on the nesting that is read and the limit on the steps of a search do not get in each other's way. A step
into an object uses up one level of the reading, and so does each pair of parentheses, which costs the search nothing;
behind a variable the reading starts afresh. So a search of 32 steps meets the end of the reading only behind more than
223 pairs of parentheses on one way down.
-/

namespace WriteGuard

open Source Source.Tree

/-! ### Values of variables -/

namespace Source.Tree

theorem mem_descend {r : Span} {a t : Tree} {above : List Tree} (h : a ∈ descend r above t) :
    a ∈ above ∨ a ∈ t.preorder := by
  induction t using byChildren generalizing above with
  | step t ih =>
    have hinto : ∀ {ts : List Tree}, (∀ c ∈ ts, c ∈ t.children) → a ∈ descendInto r (t :: above) ts →
        a ∈ above ∨ a ∈ t.preorder := by
      have hhere : a ∈ t :: above → a ∈ above ∨ a ∈ t.preorder := by
        intro ha
        rcases List.mem_cons.mp ha with rfl | ha
        · exact Or.inr (mem_preorder_self a)
        · exact Or.inl ha
      intro ts hts ha
      induction ts with
      | nil => exact hhere ha
      | cons c cs ihcs =>
        rw [descendInto] at ha
        split at ha
        · split at ha
          · exact hhere ha
          · rcases ih c (hts c List.mem_cons_self) ha with ha | ha
            · exact hhere ha
            · exact Or.inr (mem_preorder.mpr (Or.inr ⟨c, hts c List.mem_cons_self, ha⟩))
        · exact ihcs (fun d hd => hts d (List.mem_cons_of_mem c hd)) ha
    rw [descend_eq] at h
    exact hinto (fun c hc => hc) h

/-- The nodes around a range are nodes of the tree. -/
theorem mem_preorder_of_mem_covering {root a : Tree} {r : Span} (h : a ∈ root.covering r) : a ∈ root.preorder := by
  unfold covering at h
  split at h
  · cases h
  · exact (mem_descend h).resolve_left List.not_mem_nil

end Source.Tree

namespace Scope

variable {content : List Char} {name : String} {x : Declaration} {v : Tree}

theorem DeclaredBy.value {d : Tree} (h : DeclaredBy content name d x) (hx : x = .declarator (some v)) :
    d.kind = .declarator ∧ d.child? .value = some v := by
  cases h with
  | plain hk => exact ⟨hk, Declaration.declarator.inj hx⟩
  | pattern => cases hx

theorem DirectAt.exists_value {t : Tree} {p : List Nat} (h : DirectAt content name t p x)
    (hx : x = .declarator (some v)) : ∃ d ∈ t.preorder, d.kind = .declarator ∧ d.child? .value = some v := by
  induction h with
  | declarator _ hd h => exact ⟨_, mem_preorder_of_mem_children (List.mem_of_getElem? hd), h.value hx⟩
  | named => cases hx
  | imported => cases hx
  | exported _ hd _ ih =>
    obtain ⟨d, hmem, hvalue⟩ := ih hx
    exact ⟨d, mem_preorder_trans hmem (mem_preorder_of_mem_children (List.mem_of_getElem? hd.part)), hvalue⟩

theorem VarAt.exists_value {t : Tree} {p : List Nat} (h : VarAt content name t p x)
    (hx : x = .declarator (some v)) : ∃ d ∈ t.preorder, d.kind = .declarator ∧ d.child? .value = some v := by
  induction h with
  | declarator _ hd h => exact ⟨_, mem_preorder_of_mem_children (List.mem_of_getElem? hd), h.value hx⟩
  | head => cases hx
  | each _ hb _ ih =>
    obtain ⟨d, hmem, hvalue⟩ := ih hx
    exact ⟨d, mem_preorder_trans hmem (mem_preorder_of_mem_children (List.mem_of_getElem? hb.part)), hvalue⟩
  | inner _ hc _ ih =>
    obtain ⟨d, hmem, hvalue⟩ := ih hx
    exact ⟨d, mem_preorder_trans hmem (mem_preorder_of_mem_children (List.mem_of_getElem? hc)), hvalue⟩

/-- The value of a name is the value of a declarator of the program. -/
theorem exists_declarator_of_initializer? {root : Tree} {at_ : Span}
    (h : initializer? content name (root.covering at_).tail = some v) :
    ∃ d ∈ root.preorder, d.kind = .declarator ∧ d.child? .value = some v := by
  obtain ⟨k, scope, hd, p, hp, -⟩ := initializer?_eq_some_iff_single.mp h
  have hscope : scope ∈ root.preorder :=
    mem_preorder_of_mem_covering (List.mem_of_mem_tail (List.mem_of_getElem? hd.here))
  have hbelow : ∀ {st : Tree} {i : Nat}, scope.children[i]? = some st →
      (∃ d ∈ st.preorder, d.kind = .declarator ∧ d.child? .value = some v) →
      ∃ d ∈ root.preorder, d.kind = .declarator ∧ d.child? .value = some v := by
    rintro st i hs ⟨d, hmem, hvalue⟩
    have hst := mem_preorder_of_child (List.mem_of_getElem? hs) hscope
    exact ⟨d, mem_preorder_trans hmem hst, hvalue⟩
  cases hp with
  | direct _ hs h => exact hbelow hs (h.exists_value rfl)
  | hoisted _ hs h => exact hbelow hs (h.exists_value rfl)

end Scope

/-! ### A search over nodes -/

namespace Source.Tree

/-- A property of an object literal that is written out has its value at a node. -/
def HasValue (t v : Tree) : Prop :=
  ∃ c ∈ t.namedChildren, c.kind = .pair ∧ (∃ k, c.child? .key = some k) ∧ c.child? .value = some v

/-- An object literal has a shorthand for a name. -/
def HasShorthand (content : List Char) (t : Tree) (i : Ident) : Prop :=
  ∃ c ∈ t.namedChildren, c.kind = .shorthand ∧ c.toIdent content = i

theorem HasValue.most_le {t v : Tree} (h : t.HasValue v) (sort : Kind → Bool) : v.most sort ≤ t.most sort := by
  obtain ⟨c, hc, -, -, hv⟩ := h
  exact most_le_of_mem_preorder sort (mem_preorder_trans (mem_preorder_of_child? hv) (mem_preorder_of_namedChild hc))

end Source.Tree

namespace Payload

variable {content : List Char}

/-- What the properties of an object literal have for values. -/
theorem exists_property_iff {part : Tree → Expr} {t : Tree} {P : Expr → Prop} :
    (∃ p ∈ Member.properties (t.namedChildren.map (Lower.objectMember content part)), P p.value) ↔
      (∃ v, t.HasValue v ∧ P (part v)) ∨ ∃ i, t.HasShorthand content i ∧ P (.ident i) := by
  constructor
  · rintro ⟨p, hp, hP⟩
    obtain ⟨c, hc, hm⟩ := List.mem_map.mp (mem_properties.mp hp)
    unfold Lower.objectMember at hm
    split at hm
    · next hk =>
      split at hm
      · next k v hkey hv =>
        obtain ⟨-, hvalue, -⟩ := Member.property.inj hm
        exact Or.inl ⟨v, ⟨c, hc, hk, ⟨k, hkey⟩, hv⟩, hvalue ▸ hP⟩
      · cases hm
    · next hk =>
      obtain ⟨-, hvalue, -⟩ := Member.property.inj hm
      exact Or.inr ⟨_, ⟨c, hc, hk, rfl⟩, hvalue ▸ hP⟩
    · cases hm
    · cases hm
  · have hmem : ∀ {c : Tree} {p : Property}, c ∈ t.namedChildren →
        Lower.objectMember content part c = .property p.key p.value p.shorthand p.span →
        p ∈ Member.properties (t.namedChildren.map (Lower.objectMember content part)) :=
      fun hc h => mem_properties.mpr (List.mem_map.mpr ⟨_, hc, h⟩)
    rintro (⟨v, ⟨c, hc, hk, ⟨k, hkey⟩, hv⟩, hP⟩ | ⟨_, ⟨c, hc, hk, rfl⟩, hP⟩)
    · refine ⟨⟨Lower.key content part k, part v, false, c.span⟩, hmem hc ?_, hP⟩
      simp only [Lower.objectMember, hk, hkey, hv]
    · refine ⟨⟨.ident (c.toIdent content), .ident (c.toIdent content), true, c.span⟩, hmem hc ?_, hP⟩
      simp only [Lower.objectMember, hk]

/-- A search of an expression looks past parentheses, at a name, or into the properties of an object. -/
theorem inspect_node_iff {view : SourceView} {fuel : Nat} {part : Tree → Expr} {t : Tree} :
    inspect view (fuel + 1) (Lower.node content part t) = true ↔
      (t.kind = .parens ∧ ∃ c, t.firstNamed? = some c ∧ inspect view (fuel + 1) (part c) = true) ∨
      ((t.kind = .identifier ∨ t.kind = .undefinedName) ∧
        inspect view (fuel + 1) (.ident (t.toIdent content)) = true) ∨
      (t.kind = .object ∧ ((∃ v, t.HasValue v ∧ inspect view fuel (part v) = true) ∨
        ∃ i, t.HasShorthand content i ∧ inspect view fuel (.ident i) = true)) := by
  unfold Lower.node
  split
  case h_1 hk =>
    cases hf : t.firstNamed? with
    | none => simp [hk, inspect]
    | some c => simp [hk]
  case h_2 hk | h_3 hk => simp [hk]
  case h_4 hk =>
    cases hcall : Lower.call? part t with
    | none => simp [hk, inspect]
    | some call => simp [hk, inspect, Call.toExpr]
  case h_5 hk | h_6 hk =>
    unfold Lower.member
    split <;> simp [hk, inspect]
  case h_7 hk =>
    simp only [inspect, List.any_eq_true, exists_property_iff (P := fun e => inspect view fuel e = true)]
    simp [hk]
  all_goals simp_all [inspect]

end Payload

/-! ### Files read to different depths -/

namespace SourceFile

/-- The calls of a file, with their parts read by a function of one's own. -/
def callsBy (file : SourceFile) (lower : Tree → Expr) : List Call :=
  file.tree.preorder.filterMap fun t => if t.kind = .call then Lower.call? lower t else none

/-- A file as analyses see it, with the values of variables read by a function of one's own. -/
def viewBy (file : SourceFile) (lower : Tree → Expr) : SourceView where
  resolve name at_ := (Scope.initializer? file.content name (file.tree.covering at_).tail).map lower
  tokens := file.tokensOf

/-- A node is the value of a declarator of the file. -/
def IsInitializer (file : SourceFile) (v : Tree) : Prop :=
  ∃ d ∈ file.tree.preorder, d.kind = .declarator ∧ d.child? .value = some v

end SourceFile

namespace Payload

variable {file : SourceFile}

/-- What a search finds behind a name depends only on what it finds in the values of variables. -/
theorem inspect_ident_of_values {fuel m₀ n₀ : Nat}
    (h : ∀ v, file.IsInitializer v →
      inspect (file.viewBy (Expr.ofTree file.content m₀)) fuel (Expr.ofTree file.content m₀ v) = true →
        inspect (file.viewBy (Expr.ofTree file.content n₀)) fuel (Expr.ofTree file.content n₀ v) = true) {i : Ident}
    (hi : inspect (file.viewBy (Expr.ofTree file.content m₀)) (fuel + 1) (.ident i) = true) :
    inspect (file.viewBy (Expr.ofTree file.content n₀)) (fuel + 1) (.ident i) = true := by
  rw [inspect_succ] at hi ⊢
  rcases hi with hword | ⟨e, hstep, he⟩
  · exact Or.inl hword
  · cases hstep with
    | binding hne hr =>
      obtain ⟨v, hv, rfl⟩ := Option.map_eq_some_iff.mp hr
      refine Or.inr ⟨_, .binding hne (Option.map_eq_some_iff.mpr ⟨v, hv, rfl⟩), ?_⟩
      exact h v (Scope.exists_declarator_of_initializer? hv) he

/-- A search that finds the word with `m` levels read finds it with `n` levels read too, if those are no fewer, or as
many as the search has steps and its way down has parentheses. The values of variables are read through `m₀` levels and
`n₀` levels, and the same is asked of these. -/
theorem inspect_ofTree_of_levels {m₀ n₀ steps : Nat}
    (hvalues : ∀ v, file.IsInitializer v → min m₀ (steps + v.most (· = .parens)) ≤ n₀) : ∀ fuel ≤ steps + 1,
    (∀ i, inspect (file.viewBy (Expr.ofTree file.content m₀)) fuel (.ident i) = true →
      inspect (file.viewBy (Expr.ofTree file.content n₀)) fuel (.ident i) = true) ∧
    ∀ m n t, min m (fuel + t.most (· = .parens)) ≤ n →
      inspect (file.viewBy (Expr.ofTree file.content m₀)) fuel (Expr.ofTree file.content m t) = true →
        inspect (file.viewBy (Expr.ofTree file.content n₀)) fuel (Expr.ofTree file.content n t) = true
  | 0, _ => by simp [inspect]
  | fuel + 1, hfuel => by
      obtain ⟨ihnames, ihnodes⟩ := inspect_ofTree_of_levels hvalues fuel (by omega)
      have hnames : ∀ i, inspect (file.viewBy (Expr.ofTree file.content m₀)) (fuel + 1) (.ident i) = true →
          inspect (file.viewBy (Expr.ofTree file.content n₀)) (fuel + 1) (.ident i) = true := by
        intro i hi
        refine inspect_ident_of_values (fun v hv => ?_) hi
        have hle := hvalues v hv
        exact ihnodes m₀ n₀ v (by omega)
      refine ⟨hnames, ?_⟩
      intro m
      -- parentheses use up levels but no fuel, so this goes by the levels that are read
      induction m with
      | zero =>
        intro n t _ h
        simp [Expr.ofTree, inspect] at h
      | succ m ihm =>
        intro n t hle h
        obtain ⟨n, rfl⟩ : ∃ n', n = n' + 1 := Nat.exists_eq_succ_of_ne_zero (by omega)
        rw [Expr.ofTree, inspect_node_iff] at h ⊢
        rcases h with ⟨hk, c, hc, h⟩ | ⟨hk, h⟩ | ⟨hk, ⟨v, hv, h⟩ | ⟨i, hi, h⟩⟩
        · have hmost := most_add_le (· = .parens) (Expr.mem_children_of_firstNamed? hc)
          simp only [hk, decide_true, if_true] at hmost
          exact Or.inl ⟨hk, c, hc, ihm n c (by omega) h⟩
        · exact Or.inr (Or.inl ⟨hk, hnames _ h⟩)
        · have hmost := hv.most_le (· = .parens)
          exact Or.inr (Or.inr ⟨hk, Or.inl ⟨v, hv, ihnodes m n v (by omega) h⟩⟩)
        · exact Or.inr (Or.inr ⟨hk, Or.inr ⟨i, hi, ihnames i h⟩⟩)

end Payload

/-! ### Reading without a limit -/

namespace Source.Tree

/-- No way down from a node goes through more than so many pairs of parentheses. -/
def FewParens (limit : Nat) (t : Tree) : Prop := ∀ way, t.Way way → (way.countP fun a => a.kind = .parens) ≤ limit

theorem fewParens_iff {limit : Nat} {t : Tree} : t.FewParens limit ↔ t.most (· = .parens) ≤ limit :=
  (@most_le_iff (· = .parens) t limit).symm

/-- The nodes of the arguments of a call, if the node makes one. -/
def argumentNodes? (t : Tree) : Option (List Tree) :=
  if t.kind = .call then
    match t.child? .callee, t.child? .arguments with
    | some _, some args => if args.kind = .arguments then some args.namedChildren else none
    | _, _ => none
  else none

theorem mem_preorder_of_argumentNodes? {t a : Tree} {nodes : List Tree} (h : t.argumentNodes? = some nodes)
    (ha : a ∈ nodes) : a ∈ t.preorder := by
  unfold argumentNodes? at h
  split at h
  · split at h
    · next args _ hargs =>
      split at h
      · obtain rfl := Option.some.inj h
        exact mem_preorder_trans (mem_preorder_of_namedChild ha) (mem_preorder_of_child? hargs)
      · cases h
    · cases h
  · cases h

end Source.Tree

namespace SourceFile

variable {file : SourceFile} {lower : Tree → Expr}

/-- The nodes of the arguments of each call of a file. -/
def argumentNodes (file : SourceFile) : List (List Tree) := file.tree.preorder.filterMap argumentNodes?

theorem callsBy_eq (file : SourceFile) (lower : Tree → Expr) : file.callsBy lower =
    file.tree.preorder.filterMap fun t => t.argumentNodes?.map fun nodes =>
      ⟨lower ((t.child? .callee).getD t), nodes.map lower, t.span⟩ := by
  unfold callsBy
  congr 1
  funext t
  unfold argumentNodes? Lower.call?
  split
  · cases t.child? .callee with
    | none => rfl
    | some callee =>
      cases t.child? .arguments with
      | none => rfl
      | some args => by_cases hk : args.kind = .arguments <;> simp [hk]
  · rfl

theorem callsBy_maxDepth (file : SourceFile) : file.callsBy (Expr.ofTree file.content Lower.maxDepth) = file.calls :=
  file.calls_eq.symm

theorem map_arguments_callsBy (file : SourceFile) (lower : Tree → Expr) :
    (file.callsBy lower).map Call.arguments = file.argumentNodes.map (List.map lower) := by
  simp [callsBy_eq, argumentNodes, List.map_filterMap, Function.comp_def]

theorem map_span_callsBy (file : SourceFile) (lower other : Tree → Expr) :
    (file.callsBy lower).map Call.span = (file.callsBy other).map Call.span := by
  simp [callsBy_eq, List.map_filterMap, Function.comp_def]

theorem mem_preorder_of_mem_argumentNodes {nodes : List Tree} {a : Tree} (h : nodes ∈ file.argumentNodes)
    (ha : a ∈ nodes) : a ∈ file.tree.preorder := by
  obtain ⟨t, ht, hnodes⟩ := List.mem_filterMap.mp h
  exact mem_preorder_trans (mem_preorder_of_argumentNodes? hnodes ha) ht

end SourceFile

namespace Lower

variable {content : List Char} {lower : Tree → Expr}

/-- A reading that takes each level from its own readings of the nodes below is the whole reading. -/
theorem eq_whole (h : ∀ t, lower t = node content lower t) (t : Tree) : lower t = whole content t := by
  suffices hall : ∀ d ∈ t.preorder, lower d = whole content d from hall t (mem_preorder_self t)
  induction t using byChildren with
  | step t ih =>
    intro d hd
    rcases mem_preorder.mp hd with rfl | ⟨c, hc, hd⟩
    · rw [h, whole_eq, node_congr ih]
    · exact ih c hc d hd

end Lower

namespace Payload

variable {file : SourceFile} {lower : Tree → Expr}

/-- The verdict on a node of a file that is read without a limit is the one for any number of levels that is enough. -/
theorem containsSentinel_eq_ofTree (hlower : ∀ t, lower t = Lower.node file.content lower t) {levels : Nat}
    (hlevels : file.tree.height ≤ levels) {a : Tree} (ha : a ∈ file.tree.preorder) :
    containsSentinel (file.viewBy lower) (lower a) =
      containsSentinel (file.viewBy (Expr.ofTree file.content levels)) (Expr.ofTree file.content levels a) := by
  have hread : ∀ t ∈ file.tree.preorder, lower t = Expr.ofTree file.content levels t := by
    intro t ht
    have hle : t.height ≤ file.tree.height := most_le_of_mem_preorder _ ht
    rw [Lower.eq_whole hlower, Lower.ofTree_eq_whole file.content (by omega)]
  rw [hread a ha]
  refine containsSentinel_congr ?_ _
  intro name at_ _
  simp only [SourceFile.viewBy]
  cases hv : Scope.initializer? file.content name (file.tree.covering at_).tail with
  | none => rfl
  | some v =>
    obtain ⟨d, hd, -, hvalue⟩ := Scope.exists_declarator_of_initializer? hv
    rw [Option.map_some, Option.map_some, hread v (mem_preorder_trans (mem_preorder_of_child? hvalue) hd)]

/-- Let the calls of a file and the values of its variables be read without a limit on nesting. Then the calls have the
same bytes and their arguments stand at the same nodes; and where the search found `undefined` in an argument, it still
finds it. Where it finds it only now, more than 223 pairs of parentheses stand around each other on a way down from the
argument, or from the value of some variable. -/
theorem containsSentinel_unlimited (file : SourceFile) {lower : Tree → Expr}
    (hlower : ∀ t, lower t = Lower.node file.content lower t) :
    (file.callsBy lower).map Call.span = file.calls.map Call.span ∧
    file.calls.map Call.arguments = file.argumentNodes.map (List.map (Expr.ofTree file.content Lower.maxDepth)) ∧
    (file.callsBy lower).map Call.arguments = file.argumentNodes.map (List.map lower) ∧
    ∀ nodes ∈ file.argumentNodes, ∀ a ∈ nodes,
      (containsSentinel file.view (Expr.ofTree file.content Lower.maxDepth a) = true →
        containsSentinel (file.viewBy lower) (lower a) = true) ∧
      (a.FewParens 223 → (∀ v, file.IsInitializer v → v.FewParens 223) →
        containsSentinel (file.viewBy lower) (lower a) =
          containsSentinel file.view (Expr.ofTree file.content Lower.maxDepth a)) := by
  rw [← file.callsBy_maxDepth]
  refine ⟨file.map_span_callsBy lower _, file.map_arguments_callsBy _, file.map_arguments_callsBy lower, ?_⟩
  intro nodes hnodes a ha
  have hmem := SourceFile.mem_preorder_of_mem_argumentNodes hnodes ha
  -- so many levels that both the limited reading and the whole one get by with them
  have hwhole := containsSentinel_eq_ofTree hlower (Nat.le_add_right file.tree.height 257) hmem
  have hmore : containsSentinel file.view (Expr.ofTree file.content Lower.maxDepth a) = true →
      containsSentinel (file.viewBy lower) (lower a) = true := by
    intro h
    rw [hwhole]
    have hvalues : ∀ v, file.IsInitializer v → min 257 (32 + v.most (· = .parens)) ≤ file.tree.height + 257 :=
      fun v _ => by omega
    exact (inspect_ofTree_of_levels hvalues 33 (Nat.le_refl _)).2 256 _ a (by omega) h
  refine ⟨hmore, fun hfew hvalues => Bool.eq_iff_iff.mpr ⟨?_, hmore⟩⟩
  intro h
  rw [hwhole] at h
  have hfew := fewParens_iff.mp hfew
  have hvalues : ∀ v, file.IsInitializer v → min (file.tree.height + 257) (32 + v.most (· = .parens)) ≤ 257 := by
    intro v hv
    have hfew := fewParens_iff.mp (hvalues v hv)
    omega
  exact (inspect_ofTree_of_levels hvalues 33 (Nat.le_refl _)).2 _ 256 a (by omega) h

/-! ### A call at the limit -/

/-- A node in so many pairs of parentheses. -/
def inParens : Nat → Tree → Tree
  | 0, t => t
  | n + 1, t =>
    inParens n (.node .parens t.role ⟨t.span.start - 1, t.span.stop + 1⟩ [
      mark "(" (t.span.start - 1) t.span.start, t, mark ")" t.span.stop (t.span.stop + 1)])

/-- A node in so many objects, as the value of the property `a` in each. -/
def inObjects : Nat → Tree → Tree
  | 0, t => t
  | n + 1, t =>
    let start := t.span.start
    inObjects n (.node .object none ⟨start - 3, t.span.stop + 1⟩ [
      mark "\x7b" (start - 3) (start - 2),
      .node .pair none ⟨start - 2, t.span.stop⟩ [
        .node .propertyName (some .key) ⟨start - 2, start - 1⟩ [], mark ":" (start - 1) start, t.withRole .value],
      mark "\x7d" t.span.stop (t.span.stop + 1)])

/-- The word in 32 objects, and these in so many pairs of parentheses, as the argument of a call. -/
def deepText (parens : Nat) : List Char :=
  "f(".toList ++ List.replicate parens '(' ++ (List.replicate 32 "\x7ba:".toList).flatten ++ "undefined".toList ++
    List.replicate 32 '\x7d' ++ List.replicate parens ')' ++ ");".toList

/-- The argument of the call. -/
def deepArgument (parens : Nat) : Tree :=
  inParens parens (inObjects 32 (.node .undefinedName none ⟨parens + 98, parens + 107⟩ []))

/-- The node of the call. -/
def deepNode (parens : Nat) : Tree :=
  .node .call none ⟨0, 2 * parens + 140⟩ [
    .node .identifier (some .callee) ⟨0, 1⟩ [],
    .node .arguments (some .arguments) ⟨1, 2 * parens + 140⟩ [
      mark "(" 1 2, deepArgument parens, mark ")" (2 * parens + 139) (2 * parens + 140)]]

/-- The call as a file. -/
def deepCall (parens : Nat) : SourceFile where
  content := deepText parens
  dialect := .javaScript
  tree := .node .program none ⟨0, 2 * parens + 141⟩ [
    .node (.other "expression") none ⟨0, 2 * parens + 141⟩ [
      deepNode parens, mark ";" (2 * parens + 140) (2 * parens + 141)]]
  broken := false

theorem mem_argumentNodes_deepCall : [deepArgument 223] ∈ (deepCall 223).argumentNodes := by
  have hstatement := mem_preorder_of_mem_children (t := (deepCall 223).tree) List.mem_cons_self
  have hnode := mem_preorder_trans (mem_preorder_of_mem_children List.mem_cons_self) hstatement
  exact List.mem_filterMap.mpr ⟨deepNode 223, hnode, rfl⟩

/-- No variable is declared in the file of the call. -/
theorem not_isInitializer_deepCall (v : Tree) : ¬ (deepCall 223).IsInitializer v := by
  rintro ⟨d, hd, hkind, -⟩
  have hle := most_le_of_mem_preorder (· = .declarator) hd
  have hnone : (deepCall 223).tree.most (· = .declarator) = 0 := by decide +kernel
  rw [most_eq, hkind] at hle
  simp [hnone] at hle

/-- At 223 pairs of parentheses `undefined` is found with the limit and without it. -/
theorem containsSentinel_unlimited_deepCall :
    (deepArgument 223).FewParens 223 ∧
    containsSentinel (deepCall 223).view (Expr.ofTree (deepText 223) Lower.maxDepth (deepArgument 223)) = true ∧
    containsSentinel ((deepCall 223).viewBy (Lower.whole (deepText 223)))
        (Lower.whole (deepText 223) (deepArgument 223)) =
      containsSentinel (deepCall 223).view (Expr.ofTree (deepText 223) Lower.maxDepth (deepArgument 223)) := by
  have hfew : (deepArgument 223).FewParens 223 := fewParens_iff.mpr (by decide +kernel)
  obtain ⟨-, -, -, h⟩ := containsSentinel_unlimited (deepCall 223) (Lower.whole_eq (deepText 223))
  obtain ⟨-, hsame⟩ := h _ mem_argumentNodes_deepCall _ List.mem_cons_self
  exact ⟨hfew, by decide +kernel, hsame hfew fun v hv => absurd hv (not_isInitializer_deepCall v)⟩

/-- With one pair more the limit hides it, so no larger number would do. -/
example : containsSentinel (deepCall 224).view (Expr.ofTree (deepText 224) Lower.maxDepth (deepArgument 224)) = false ∧
    containsSentinel ((deepCall 224).viewBy (Lower.whole (deepText 224)))
      (Lower.whole (deepText 224) (deepArgument 224)) = true := by
  decide +kernel

end Payload

end WriteGuard
