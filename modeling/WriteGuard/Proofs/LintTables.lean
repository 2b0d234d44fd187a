import WriteGuard.Proofs.LayeredSettings
import WriteGuard.Proofs.LintEntries

/-!
Reading a table of lints. The table is refused exactly if one of its entries is wrong, and the first of these in the order
of keys gives the error. A table that is not refused says for all rules, for each category, for each rule and about the
objects what its entries say; keys that name one category in different letters are laid over each other, the last on top.
-/

namespace WriteGuard

namespace Toml

/-- The keys of a table and of the tables directly in it are in the order of their bytes. -/
structure IsMap (entries : List (String × Toml)) : Prop where
  keys : InOrder entries
  inner : ∀ key inner, (key, Toml.table inner) ∈ entries → InOrder inner

variable {entries : List (String × Toml)}

/-- Of the entries that answer a question, the last in the order of keys is the first from behind. -/
theorem findSome?_reverse_eq_some_iff {β : Type} (h : InOrder entries) {f : String × Toml → Option β} {b : β} :
    entries.reverse.findSome? f = some b ↔ ∃ entry ∈ entries, f entry = some b ∧
      ∀ other ∈ entries, f other ≠ none → keyBytes other.1 ≤ keyBytes entry.1 := by
  constructor
  · intro hfound
    obtain ⟨later, entry, earlier, hsplit, hentry, hnone⟩ := List.findSome?_eq_some_iff.mp hfound
    rw [List.reverse_eq_append_iff, List.reverse_cons, List.append_assoc, List.singleton_append] at hsplit
    rw [InOrder, hsplit, List.pairwise_append] at h
    refine ⟨entry, by simp [hsplit], hentry, ?_⟩
    intro other hother hanswers
    rw [hsplit, List.mem_append, List.mem_cons] at hother
    rcases hother with hearlier | rfl | hlater
    · exact List.le_of_lt (h.2.2 other hearlier entry List.mem_cons_self)
    · exact List.le_refl _
    · exact absurd (hnone other (List.mem_reverse.mp hlater)) hanswers
  · rintro ⟨entry, hmem, hentry, hlast⟩
    obtain ⟨earlier, later, rfl⟩ := List.append_of_mem hmem
    rw [InOrder, List.pairwise_append, List.pairwise_cons] at h
    refine List.findSome?_eq_some_iff.mpr ⟨later.reverse, entry, earlier.reverse, by simp, hentry, ?_⟩
    intro other hother
    have hlater := List.mem_reverse.mp hother
    cases hanswer : f other with
    | none => rfl
    | some c =>
      have hbefore : ¬ keyBytes entry.1 < keyBytes other.1 := hlast other (by simp [hlater]) (by simp [hanswer])
      exact absurd (h.2.1.1 other hlater) hbefore

end Toml

theorem Levels.get?_one {α : Type} [DecidableEq α] (level : Option Level) (key k : α) :
    Levels.get? (level.toList.map (key, ·)) k = if key = k then level else none := by
  cases level with
  | none => simp [Levels.get?]
  | some level => by_cases hk : key = k <;> simp [Levels.get?, hk]

namespace Project

open Toml (keyBytes InOrder IsMap)

/-! ### What one entry says -/

section Layer

variable {key : String} {value : Toml} {p : Project}

theorem category_all : Category.ofName? "all" = none := by decide +kernel

theorem source_layer (key : String) (level : Option Level) (objects : Option (List String)) :
    (layer key level objects).source = none := by
  rw [layer]
  split
  · rfl
  · split <;> rfl

theorem objects_layer (key : String) (level : Option Level) (objects : Option (List String)) :
    (layer key level objects).objects = objects := by
  rw [layer]
  split
  · rfl
  · split <;> rfl

theorem all_layer (key : String) (level : Option Level) (objects : Option (List String)) :
    (layer key level objects).all = if key = "all" then level else none := by
  rw [layer]
  split
  · rfl
  · split <;> rfl

theorem categories_layer (key : String) (level : Option Level) (objects : Option (List String)) (category : Category) :
    (layer key level objects).categories.get? category =
      if Category.ofName? key = some category then level else none := by
  rw [layer]
  split
  · next hall => simp [hall, category_all]
  · split
    · next hcategory => simp [hcategory, Levels.get?_one]
    · next hcategory => simp [hcategory]

theorem rules_layer (key : String) (level : Option Level) (objects : Option (List String)) (id : String) :
    (layer key level objects).rules.get? id =
      if key = id ∧ id ≠ "all" ∧ Category.ofName? id = none then level else none := by
  rw [layer]
  split
  · next hall =>
    have hnot : ¬ (key = id ∧ id ≠ "all" ∧ Category.ofName? id = none) := fun h => h.2.1 (h.1 ▸ hall)
    rw [if_neg hnot]
    rfl
  · next hall =>
    split
    · next hcategory =>
      have hnot : ¬ (key = id ∧ id ≠ "all" ∧ Category.ofName? id = none) := by
        rintro ⟨rfl, -, hnone⟩
        rw [hnone] at hcategory
        cases hcategory
      rw [if_neg hnot]
      rfl
    · next hcategory =>
      rw [Levels.get?_one]
      by_cases hkey : key = id
      · subst hkey
        rw [if_pos rfl, if_pos ⟨rfl, hall, hcategory⟩]
      · rw [if_neg hkey, if_neg fun h => hkey h.1]

theorem category_eq_none_iff {name : String} :
    Category.ofName? name = none ↔ ∀ category : Category, ¬ SameWord name category.name := by
  simp [Option.eq_none_iff_forall_ne_some, Category.ofName?_eq_some_iff]

theorem ofEntry_all (h : ofEntry key value = .ok p) {level : Level} :
    p.all = some level ↔ key = "all" ∧ Carries value level := by
  obtain ⟨read, objects, hread, -, rfl⟩ := ofEntry_eq_ok h
  rw [all_layer, ← (levelOf_eq_ok hread).2.2 level]
  by_cases hkey : key = "all" <;> simp [hkey]

theorem ofEntry_categories (h : ofEntry key value = .ok p) {category : Category} {level : Level} :
    p.categories.get? category = some level ↔ SameWord key category.name ∧ Carries value level := by
  obtain ⟨read, objects, hread, -, rfl⟩ := ofEntry_eq_ok h
  rw [categories_layer, ← (levelOf_eq_ok hread).2.2 level, ← Category.ofName?_eq_some_iff]
  by_cases hkey : Category.ofName? key = some category <;> simp [hkey]

theorem ofEntry_rules (h : ofEntry key value = .ok p) {id : String} {level : Level} : p.rules.get? id = some level ↔
    key = id ∧ id ≠ "all" ∧ (∀ category : Category, ¬ SameWord id category.name) ∧ Carries value level := by
  obtain ⟨read, objects, hread, -, rfl⟩ := ofEntry_eq_ok h
  rw [rules_layer, ← (levelOf_eq_ok hread).2.2 level, ← category_eq_none_iff]
  split
  · next hkey => exact ⟨fun hlevel => ⟨hkey.1, hkey.2.1, hkey.2.2, hlevel⟩, fun h => h.2.2.2⟩
  · next hkey => exact ⟨nofun, fun h => absurd ⟨h.1, h.2.1, h.2.2.1⟩ hkey⟩

theorem ofEntry_objects (h : ofEntry key value = .ok p) (hmap : ∀ entries, value = .table entries → InOrder entries)
    {names : List String} : p.objects = some names ↔
      key = LintRule.noUndefinedValues.id ∧ ∃ entries, value = .table entries ∧ Lists entries names := by
  obtain ⟨level, objects, -, hread, rfl⟩ := ofEntry_eq_ok h
  rw [objects_layer, readOptions_eq_ok hread hmap]

theorem ofEntry_source (h : ofEntry key value = .ok p) : p.source = none := by
  obtain ⟨level, objects, -, -, rfl⟩ := ofEntry_eq_ok h
  exact source_layer key level objects

end Layer

/-! ### All entries -/

section Table

variable {entries : List (String × Toml)} {p : Project}

/-- Reading stops at the first entry that is refused. -/
theorem failure?_ofEntries (entries : List (String × Toml)) : ∀ base : Project,
    failure? (ofEntries base entries) = entries.findSome? fun entry => failure? (ofEntry entry.1 entry.2) := by
  induction entries with
  | nil => exact fun base => rfl
  | cons entry entries ih =>
    intro base
    obtain ⟨key, value⟩ := entry
    rw [ofEntries, List.findSome?_cons]
    cases ofEntry key value with
    | error e => rfl
    | ok layer => exact ih (base.merge layer)

/-- The settings of an entry that is not refused. -/
def layer? (entry : String × Toml) : Option Project := (ofEntry entry.1 entry.2).toOption

theorem layer?_eq_some_iff {entry : String × Toml} {layer : Project} :
    layer? entry = some layer ↔ ofEntry entry.1 entry.2 = .ok layer := by
  rw [layer?]
  cases ofEntry entry.1 entry.2 <;> simp [Except.toOption]

/-- Entries that are not refused are laid over each other in their order. -/
theorem ofEntries_eq_foldl (entries : List (String × Toml)) : ∀ base : Project, ofEntries base entries = .ok p →
    p = (entries.filterMap layer?).foldl merge base := by
  induction entries with
  | nil =>
    intro base h
    exact (Except.ok.inj h).symm
  | cons entry entries ih =>
    intro base h
    obtain ⟨key, value⟩ := entry
    rw [ofEntries] at h
    cases hentry : ofEntry key value with
    | error e =>
      rw [hentry] at h
      cases h
    | ok layer =>
      rw [hentry] at h
      rw [List.filterMap_cons_some (layer?_eq_some_iff.mpr hentry), List.foldl_cons]
      exact ih (base.merge layer) h

/-- What a table says in answer to a question is said by one of its entries: among those that answer, the last. -/
theorem ofEntries_answer {β : Type} (answer : Project → Option β) (Says : String × Toml → β → Prop)
    (hkeys : InOrder entries) (hread : ofEntries {} entries = .ok p)
    (hmerge : ∀ p q, answer (p.merge q) = (answer q).or (answer p)) (hdefault : answer {} = none)
    (htold : ∀ entry ∈ entries, ∀ layer, ofEntry entry.1 entry.2 = .ok layer →
      ∀ b, answer layer = some b ↔ Says entry b) (b : β) :
    answer p = some b ↔ ∃ entry ∈ entries, Says entry b ∧
      ∀ other ∈ entries, ∀ b', Says other b' → keyBytes other.1 ≤ keyBytes entry.1 := by
  have hall : ∀ entry ∈ entries, ∃ layer, ofEntry entry.1 entry.2 = .ok layer := by
    have hnone : failure? (ofEntries {} entries) = none := failure?_eq_none_iff.mpr ⟨p, hread⟩
    rw [failure?_ofEntries, List.findSome?_eq_none_iff] at hnone
    exact fun entry hentry => failure?_eq_none_iff.mp (hnone entry hentry)
  have hanswer : ∀ entry ∈ entries, ∀ b', (layer? entry).bind answer = some b' ↔ Says entry b' := by
    intro entry hentry b'
    obtain ⟨layer, hlayer⟩ := hall entry hentry
    rw [layer?_eq_some_iff.mpr hlayer, Option.bind_some, htold entry hentry layer hlayer]
  have hlast : answer p = entries.reverse.findSome? fun entry => (layer? entry).bind answer := by
    rw [ofEntries_eq_foldl entries {} hread, foldl_merge hmerge, hdefault, Option.or_none, ← List.filterMap_reverse,
      ← List.head?_filterMap, ← List.head?_filterMap, List.filterMap_filterMap]
  rw [hlast, Toml.findSome?_reverse_eq_some_iff hkeys]
  constructor
  · rintro ⟨entry, hentry, hb, hgreatest⟩
    refine ⟨entry, hentry, (hanswer entry hentry b).mp hb, fun other hother b' hb' => hgreatest other hother ?_⟩
    rw [(hanswer other hother b').mpr hb']
    exact Option.some_ne_none b'
  · rintro ⟨entry, hentry, hb, hgreatest⟩
    refine ⟨entry, hentry, (hanswer entry hentry b).mpr hb, fun other hother hsome => ?_⟩
    obtain ⟨b', hb'⟩ := Option.ne_none_iff_exists'.mp hsome
    exact hgreatest other hother b' ((hanswer other hother b').mp hb')

/-- A question that only the entry of one key answers. -/
theorem ofEntries_answer_of_key {β : Type} (answer : Project → Option β) (key : String) (Says : Toml → β → Prop)
    (hkeys : InOrder entries) (hread : ofEntries {} entries = .ok p)
    (hmerge : ∀ p q, answer (p.merge q) = (answer q).or (answer p)) (hdefault : answer {} = none)
    (htold : ∀ entry ∈ entries, ∀ layer, ofEntry entry.1 entry.2 = .ok layer →
      ∀ b, answer layer = some b ↔ entry.1 = key ∧ Says entry.2 b) (b : β) :
    answer p = some b ↔ ∃ value, (key, value) ∈ entries ∧ Says value b := by
  rw [ofEntries_answer answer (fun entry b => entry.1 = key ∧ Says entry.2 b) hkeys hread hmerge hdefault htold]
  constructor
  · rintro ⟨⟨k, value⟩, hentry, ⟨rfl, hb⟩, -⟩
    exact ⟨value, hentry, hb⟩
  · rintro ⟨value, hentry, hb⟩
    refine ⟨(key, value), hentry, ⟨rfl, hb⟩, ?_⟩
    rintro other - b' ⟨hkey, -⟩
    rw [hkey]
    exact List.le_refl _

/-- What the settings of a table say. -/
structure Reading (entries : List (String × Toml)) (p : Project) : Prop where
  source : p.source = none
  /-- The level of all rules is that of the key `all`. -/
  all : ∀ level, p.all = some level ↔ ∃ value, ("all", value) ∈ entries ∧ Carries value level
  /-- The level of a category is that of the last key that is its name and carries one. -/
  categories : ∀ category level, p.categories.get? category = some level ↔ ∃ key value, (key, value) ∈ entries ∧
    SameWord key category.name ∧ Carries value level ∧ ∀ key' value' level', (key', value') ∈ entries →
      SameWord key' category.name → Carries value' level' → keyBytes key' ≤ keyBytes key
  /-- The level of a rule is that of its key, for all keys that remain. -/
  rules : ∀ id level, p.rules.get? id = some level ↔ id ≠ "all" ∧ (∀ category : Category, ¬ SameWord id category.name) ∧
    ∃ value, (id, value) ∈ entries ∧ Carries value level
  /-- Objects are given exactly by a table for the rule on undefined values. -/
  objects : ∀ names, p.objects = some names ↔
    ∃ inner, (LintRule.noUndefinedValues.id, Toml.table inner) ∈ entries ∧ Lists inner names

theorem reading_of_ofEntries (hmap : IsMap entries) (hread : ofEntries {} entries = .ok p) : Reading entries p where
  source := by
    rw [Option.eq_none_iff_forall_ne_some]
    intro source hsource
    have hanswer := ofEntries_answer Project.source (fun _ _ => False) hmap.keys hread (by simp [merge]) rfl
      (fun _ _ _ hlayer _ => by simp [ofEntry_source hlayer]) source
    obtain ⟨entry, -, hfalse, -⟩ := hanswer.mp hsource
    exact hfalse
  all := ofEntries_answer_of_key Project.all "all" Carries hmap.keys hread (by simp [merge]) rfl
    fun _ _ _ hlayer _ => ofEntry_all hlayer
  categories := by
    intro category level
    rw [ofEntries_answer (fun p => p.categories.get? category)
      (fun entry level => SameWord entry.1 category.name ∧ Carries entry.2 level) hmap.keys hread (by simp [merge]) rfl
      fun _ _ _ hlayer _ => ofEntry_categories hlayer]
    constructor
    · rintro ⟨⟨key, value⟩, hentry, ⟨hname, hlevel⟩, hlast⟩
      exact ⟨key, value, hentry, hname, hlevel,
        fun key' value' level' hentry' hname' hlevel' => hlast (key', value') hentry' level' ⟨hname', hlevel'⟩⟩
    · rintro ⟨key, value, hentry, hname, hlevel, hlast⟩
      exact ⟨(key, value), hentry, ⟨hname, hlevel⟩,
        fun other hother level' h => hlast other.1 other.2 level' hother h.1 h.2⟩
  rules := by
    intro id level
    rw [ofEntries_answer_of_key (fun p => p.rules.get? id) id
      (fun value level => id ≠ "all" ∧ (∀ category : Category, ¬ SameWord id category.name) ∧ Carries value level)
      hmap.keys hread (by simp [merge]) rfl fun _ _ _ hlayer _ => ofEntry_rules hlayer]
    constructor
    · rintro ⟨value, hentry, hall, hcategory, hlevel⟩
      exact ⟨hall, hcategory, value, hentry, hlevel⟩
    · rintro ⟨hall, hcategory, value, hentry, hlevel⟩
      exact ⟨value, hentry, hall, hcategory, hlevel⟩
  objects := by
    intro names
    have hobjects : ∀ entry ∈ entries, ∀ layer, ofEntry entry.1 entry.2 = .ok layer → ∀ names,
        layer.objects = some names ↔ entry.1 = LintRule.noUndefinedValues.id ∧
          ∃ inner, entry.2 = .table inner ∧ Lists inner names := by
      rintro ⟨key, value⟩ hentry layer hlayer names
      exact ofEntry_objects hlayer fun inner hinner => hmap.inner key inner (hinner ▸ hentry)
    rw [ofEntries_answer_of_key Project.objects _ (fun value names => ∃ inner, value = .table inner ∧ Lists inner names)
      hmap.keys hread (by simp [merge]) rfl hobjects]
    constructor
    · rintro ⟨value, hentry, inner, rfl, hlists⟩
      exact ⟨inner, hentry, hlists⟩
    · rintro ⟨inner, hentry, hlists⟩
      exact ⟨_, hentry, inner, rfl, hlists⟩

/-- A table is refused exactly if one of its entries is wrong. -/
theorem exists_error_iff : (∃ e, ofEntries {} entries = .error e) ↔
    ∃ key value, (key, value) ∈ entries ∧ Wrong key value := by
  simp only [← failure?_eq_some_iff, failure?_ofEntries, ← Option.isSome_iff_exists, List.findSome?_isSome_iff]
  simp only [Option.isSome_iff_exists, failure?_eq_some_iff, ofEntry_eq_error_iff, ← wrong_iff_exists_fault, Prod.exists]

/-- The error of a table is that of its first wrong entry in the order of keys. -/
theorem ofEntries_eq_error_iff (hkeys : InOrder entries) {e : ConfigError} : ofEntries {} entries = .error e ↔
    ∃ key value, (key, value) ∈ entries ∧ Fault key value e ∧
      ∀ key' value', (key', value') ∈ entries → Wrong key' value' → keyBytes key ≤ keyBytes key' := by
  rw [← failure?_eq_some_iff, failure?_ofEntries, List.findSome?_eq_some_iff]
  constructor
  · rintro ⟨front, ⟨key, value⟩, back, rfl, hfault, hfront⟩
    rw [failure?_eq_some_iff, ofEntry_eq_error_iff] at hfault
    rw [InOrder, List.pairwise_append, List.pairwise_cons] at hkeys
    refine ⟨key, value, by simp, hfault, ?_⟩
    intro key' value' hmem hwrong
    rw [List.mem_append, List.mem_cons] at hmem
    rcases hmem with hbefore | heq | hbehind
    · obtain ⟨e', he'⟩ := wrong_iff_exists_fault.mp hwrong
      have hnone := hfront _ hbefore
      rw [ofEntry_eq_error_iff.mpr he'] at hnone
      cases hnone
    · rw [(Prod.mk.inj heq).1]
      exact List.le_refl _
    · exact List.le_of_lt (hkeys.2.1.1 _ hbehind)
  · rintro ⟨key, value, hmem, hfault, hfirst⟩
    obtain ⟨front, back, rfl⟩ := List.append_of_mem hmem
    rw [InOrder, List.pairwise_append] at hkeys
    refine ⟨front, (key, value), back, rfl, ?_, ?_⟩
    · rw [failure?_eq_some_iff, ofEntry_eq_error_iff]
      exact hfault
    · rintro ⟨key', value'⟩ hbefore
      rw [failure?_eq_none_iff]
      cases hentry : ofEntry key' value' with
      | ok layer => exact ⟨layer, rfl⟩
      | error e' =>
        have hwrong := wrong_iff_exists_fault.mpr ⟨e', ofEntry_eq_error_iff.mp hentry⟩
        have hlt := hkeys.2.2 _ hbefore _ List.mem_cons_self
        exact absurd hlt (hfirst key' value' (by simp [hbefore]) hwrong)

/-- The verdict on a table of lints. An entry on its own is refused exactly if it is wrong, with the error that its level
or else its first refused option gives. The table is refused exactly if one of its entries is wrong, with the error of the
wrong entry whose key is first in the order of bytes; else its settings say what its entries say. -/
theorem ofEntries_verdict (entries : List (String × Toml)) (hmap : IsMap entries) :
    (∀ key value e, ofEntries {} [(key, value)] = .error e ↔ Fault key value e) ∧
    (∀ key value, Wrong key value ↔ ∃ e, Fault key value e) ∧
    ((∃ e, ofEntries {} entries = .error e) ↔ ∃ key value, (key, value) ∈ entries ∧ Wrong key value) ∧
    (∀ e, ofEntries {} entries = .error e ↔ ∃ key value, (key, value) ∈ entries ∧ Fault key value e ∧
      ∀ key' value', (key', value') ∈ entries → Wrong key' value' → keyBytes key ≤ keyBytes key') ∧
    ∀ p, ofEntries {} entries = .ok p → Reading entries p := by
  refine ⟨?_, fun key value => wrong_iff_exists_fault, exists_error_iff, fun e => ofEntries_eq_error_iff hmap.keys,
    fun p hread => reading_of_ofEntries hmap hread⟩
  intro key value e
  rw [← failure?_eq_some_iff, failure?_ofEntries, ← ofEntry_eq_error_iff, ← failure?_eq_some_iff]
  cases hfailure : failure? (ofEntry key value) <;> simp [hfailure]

end Table

/-- Two keys for one category, the second of which counts, and objects for the rule on undefined values. -/
def collidingTable : List (String × Toml) :=
  [("PROBLEM", .string "Warn"), ("all", .table [("level", .string "DENY")]),
    (LintRule.noUndefinedValues.id, .table [("additionalObjects", .array [.string "batch"])]),
    ("problem", .string "allow")]

/-- Two wrong entries, of which that with the capital letter is the first. -/
def refusedTable : List (String × Toml) := [("Problem", .string "error"), ("all", .integer 3)]

theorem isMap_collidingTable : IsMap collidingTable where
  keys := by unfold InOrder; decide +kernel
  inner := by
    intro key inner hmem
    simp [collidingTable] at hmem
    rcases hmem with ⟨-, rfl⟩ | ⟨-, rfl⟩ <;> exact List.pairwise_singleton _ _

theorem isMap_refusedTable : IsMap refusedTable where
  keys := by unfold InOrder; decide +kernel
  inner := by simp [refusedTable]

theorem fault_refusedTable : Fault "Problem" (.string "error") (.invalidLevel "Problem" "error") := by
  refine .level (.word rfl fun level => ?_)
  cases level <;> unfold SameWord <;> decide +kernel

/-- The last of two keys gives the category its level, and the first of two wrong entries the error. -/
theorem ofEntries_verdict_tables :
    (∃ p, ofEntries {} collidingTable = .ok p ∧ Reading collidingTable p ∧ p.categories.get? .problem = some .allow ∧
      p.objects = some ["batch"]) ∧
    (∃ e, ofEntries {} refusedTable = .error e) ∧
    ofEntries {} refusedTable = .error (.invalidLevel "Problem" "error") := by
  obtain ⟨-, -, -, -, hreading⟩ := ofEntries_verdict collidingTable isMap_collidingTable
  obtain ⟨-, -, hrefused, herror, -⟩ := ofEntries_verdict refusedTable isMap_refusedTable
  refine ⟨?_, ?_, ?_⟩
  · have htold : (ofEntries {} collidingTable).toOption.map (fun p => (p.categories.get? .problem, p.objects)) =
        some (some .allow, some ["batch"]) := by decide +kernel
    cases hread : ofEntries {} collidingTable with
    | error e =>
      rw [hread] at htold
      cases htold
    | ok p =>
      rw [hread] at htold
      obtain ⟨hproblem, hobjects⟩ := Prod.mk.inj (Option.some.inj htold)
      exact ⟨p, rfl, hreading p hread, hproblem, hobjects⟩
  · refine hrefused.mpr ⟨"all", .integer 3, by simp [refusedTable], .shape ?_⟩
    rintro (⟨word, hword⟩ | ⟨entries, htable⟩)
    · cases hword
    · cases htable
  · refine (herror _).mpr ⟨"Problem", .string "error", List.mem_cons_self, fault_refusedTable, ?_⟩
    intro key' value' hmem _
    rcases List.mem_cons.mp hmem with heq | hmem
    · rw [(Prod.mk.inj heq).1]
      exact List.le_refl _
    · rw [(Prod.mk.inj (List.mem_singleton.mp hmem)).1]
      decide +kernel

end Project

end WriteGuard
