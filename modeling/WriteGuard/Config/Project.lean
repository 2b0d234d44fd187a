import WriteGuard.Lint.Rule

/-!
Settings of a project: levels for all rules, for categories and for single rules, and the objects that the rule on
undefined values watches. Settings can be laid over others.
-/

namespace WriteGuard

/-- Levels by key; of two entries for a key the first counts. -/
abbrev Levels (α : Type) := List (α × Level)

namespace Levels

/-- The level of a key. -/
def get? {α : Type} [DecidableEq α] (levels : Levels α) (key : α) : Option Level :=
  (levels.find? fun entry => entry.1 = key).map (·.2)

/-- The entries that count. -/
def entries {α : Type} [DecidableEq α] : Levels α → Levels α
  | [] => []
  | entry :: rest => entry :: (entries rest).filter fun other => other.1 ≠ entry.1

end Levels

/-- The settings of a project. -/
structure Project where
  /-- The file the settings come from. -/
  source : Option String := none
  /-- The level of every rule that nothing else sets. -/
  all : Option Level := none
  categories : Levels Category := []
  /-- Levels by the ids of rules. -/
  rules : Levels String := []
  /-- The receivers that the rule on undefined values is narrowed to, where it is given options. -/
  objects : Option (List String) := none
  deriving DecidableEq, Repr, Inhabited

namespace Project

/-- The level set for a rule: by its id, else by its category, else for all rules. -/
def level? (p : Project) (rule : String) (category : Category) : Option Level :=
  ((p.rules.get? rule).or (p.categories.get? category)).or p.all

/-- Settings laid over these; where both say something, `top` counts. -/
def merge (base top : Project) : Project where
  source := top.source.or base.source
  all := top.all.or base.all
  categories := top.categories ++ base.categories
  rules := top.rules ++ base.rules
  objects := top.objects.or base.objects

end Project

end WriteGuard
