import WriteGuard.Config.Project

/-!
Settings in layers. Laying settings over others is an operation with the default settings as its unit, in which the
brackets do not matter and a layer counts once however often it is laid; settings are compared by what they say about
every rule and category. The kind of an entry decides before its layer does: an entry for the rule itself counts before
one for its category, and that before one for all rules, and only among entries of one kind the upper layer is first.
-/

namespace WriteGuard

namespace Levels

variable {α : Type} [DecidableEq α]

@[simp]
theorem get?_nil (key : α) : get? [] key = none := rfl

/-- Of two tables one after the other, the first answers where it can. -/
@[simp]
theorem get?_append (levels levels' : Levels α) (key : α) :
    get? (levels ++ levels') key = (levels.get? key).or (levels'.get? key) := by
  rw [get?, get?, get?, List.find?_append]
  cases levels.find? fun entry => entry.1 = key <;> rfl

end Levels

namespace Project

/-- Settings that say the same: their tables give every key the same level, and all else is equal. -/
structure Agrees (p q : Project) : Prop where
  source : p.source = q.source
  all : p.all = q.all
  categories : ∀ category, p.categories.get? category = q.categories.get? category
  rules : ∀ rule, p.rules.get? rule = q.rules.get? rule
  objects : p.objects = q.objects

/-- The brackets among three layers do not matter. -/
theorem merge_assoc (p q r : Project) : ((p.merge q).merge r).Agrees (p.merge (q.merge r)) := by
  refine ⟨?_, ?_, ?_, ?_, ?_⟩ <;> simp [merge, Option.or_assoc]

/-- The default settings under a layer add nothing. -/
theorem default_merge (p : Project) : (merge {} p).Agrees p := by
  refine ⟨?_, ?_, ?_, ?_, ?_⟩ <;> simp [merge]

/-- The default settings over a layer take nothing away. -/
theorem merge_default (p : Project) : (p.merge {}).Agrees p := by
  refine ⟨?_, ?_, ?_, ?_, ?_⟩ <;> simp [merge]

/-- A layer over itself says what it says alone. -/
theorem merge_self (p : Project) : (p.merge p).Agrees p := by
  refine ⟨?_, ?_, ?_, ?_, ?_⟩ <;> simp [merge]

/-! ### Which entry counts -/

/-- An entry of the upper layer counts before one of the same kind in the lower layer. -/
theorem level?_merge (base top : Project) (rule : String) (category : Category) :
    (base.merge top).level? rule category =
      (((top.rules.get? rule).or (base.rules.get? rule)).or
        ((top.categories.get? category).or (base.categories.get? category))).or (top.all.or base.all) := by
  simp [level?, merge]

/-- What one layer says about a question, asked of many layers: the uppermost layer that says something answers. -/
theorem foldl_merge {β : Type} {answer : Project → Option β} (h : ∀ p q, answer (p.merge q) = (answer q).or (answer p))
    (layers : List Project) (base : Project) :
    answer (layers.foldl merge base) = (layers.reverse.findSome? answer).or (answer base) := by
  induction layers generalizing base with
  | nil => rfl
  | cons layer layers ih =>
    rw [List.foldl_cons, ih, h, List.reverse_cons, List.findSome?_append, Option.or_assoc]
    simp

theorem level?_foldl_merge (layers : List Project) (rule : String) (category : Category) :
    (layers.foldl merge {}).level? rule category =
      ((layers.reverse.findSome? fun p => p.rules.get? rule).or
        (layers.reverse.findSome? fun p => p.categories.get? category)).or (layers.reverse.findSome? all) := by
  have hrules := @foldl_merge _ (fun p => p.rules.get? rule) (by simp [merge]) layers {}
  have hcategories := @foldl_merge _ (fun p => p.categories.get? category) (by simp [merge]) layers {}
  have hall := @foldl_merge _ all (by simp [merge]) layers {}
  rw [level?, hrules, hcategories, hall]
  simp

/-- Laying settings over others is associative and idempotent and has the default settings as its unit on both sides,
all by what the settings say. The level of a rule in two layers is the first there is of six: the entries for the rule,
for its category and for all rules, each from the upper layer to the lower one; so an entry for the rule in the lower
layer counts before one for its category or for all rules in the upper one. Of many layers the uppermost counts in the
same way, kind by kind. -/
theorem merge_laws (a b c : Project) (rule : String) (category : Category) :
    ((a.merge b).merge c).Agrees (a.merge (b.merge c)) ∧ (merge {} a).Agrees a ∧ (a.merge {}).Agrees a ∧
    (a.merge a).Agrees a ∧
    (a.merge b).level? rule category =
      [b.rules.get? rule, a.rules.get? rule, b.categories.get? category, a.categories.get? category, b.all,
        a.all].findSome? id ∧
    (∀ level, a.rules.get? rule = some level → b.rules.get? rule = none →
      (a.merge b).level? rule category = some level) ∧
    ∀ layers : List Project, (layers.foldl merge {}).level? rule category =
      ((layers.reverse.findSome? fun p => p.rules.get? rule).or
        (layers.reverse.findSome? fun p => p.categories.get? category)).or (layers.reverse.findSome? all) := by
  refine ⟨merge_assoc a b c, default_merge a, merge_default a, merge_self a, ?_, ?_, ?_⟩
  · have hcons : ∀ (x : Option Level) (xs : List (Option Level)), (x :: xs).findSome? id = x.or (xs.findSome? id) := by
      intro x xs
      cases x <;> rfl
    simp only [level?_merge, hcons, List.findSome?_nil, Option.or_none, Option.or_assoc]
  · intro level ha hb
    rw [level?_merge, ha, hb]
    rfl
  · intro layers
    exact level?_foldl_merge layers rule category

/-- A rule that the lower layer allows stays allowed under a layer that denies its category and warns about all rules. -/
theorem merge_laws_allowedBelow :
    (merge { rules := [("r", .allow)] } { categories := [(.problem, .deny)], all := some .warn }).level? "r" .problem =
      some .allow :=
  (merge_laws { rules := [("r", .allow)] } { categories := [(.problem, .deny)], all := some .warn } {} "r"
    .problem).2.2.2.2.2.1 .allow (by decide) rfl

end Project

end WriteGuard
