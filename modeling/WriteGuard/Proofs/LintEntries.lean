import WriteGuard.Config.Read
import WriteGuard.Proofs.LineColumns

/-!
The entries of a table of lints. Each is right or wrong on its own: it must be a word or a table, what it gives as its
level must name one, and every option must be one that its key accepts. Reading stops at the first thing that is wrong,
the level before the options, and that decides the error.
-/

namespace WriteGuard

/-- Two words are the same but for capital letters. -/
def SameWord (a b : String) : Prop := a.toLower = b.toLower

theorem Level.ofWord?_eq_some_iff {word : String} {level : Level} :
    Level.ofWord? word = some level ↔ SameWord word level.word := by
  have hsmall : level.word.toLower = level.word := by cases level <;> decide +kernel
  rw [SameWord, hsmall, Level.ofWord?]
  constructor
  · intro h
    have hword : level.word = word.toLower := by simpa using List.find?_some h
    exact hword.symm
  · intro h
    rw [h]
    cases level <;> decide

theorem Category.ofName?_eq_some_iff {name : String} {category : Category} :
    Category.ofName? name = some category ↔ SameWord name category.name := by
  have hsmall : category.name.toLower = category.name := by cases category <;> decide +kernel
  rw [SameWord, hsmall, Category.ofName?]
  constructor
  · intro h
    have hname : category.name = name.toLower := by simpa using List.find?_some h
    exact hname.symm
  · intro h
    rw [h]
    cases category <;> decide

namespace Toml

/-- The bytes of a key. -/
def keyBytes (key : String) : List UInt8 := Text.bytes key.toList

/-- The keys of a table are in the order of their bytes. -/
def InOrder (entries : List (String × Toml)) : Prop := entries.Pairwise fun a b => keyBytes a.1 < keyBytes b.1

/-- The text that a value is: a string, or a date as it is written. -/
def text? : Toml → Option String
  | .string text => some text
  | .datetime text => some text
  | _ => none

end Toml

namespace Project

/-! ### Right and wrong entries -/

/-- An entry has the form of one: a word or a table. -/
def IsEntry (value : Toml) : Prop := (∃ word, value = .string word) ∨ ∃ entries, value = .table entries

/-- What an entry gives as its level: the word it is, or what its table has under `level`. -/
def statedLevel? : Toml → Option Toml
  | .string word => some (.string word)
  | .table entries => Toml.get? entries "level"
  | _ => none

/-- An entry carries a level. -/
def Carries (value : Toml) (level : Level) : Prop :=
  ∃ word, statedLevel? value = some (.string word) ∧ SameWord word level.word

/-- What an entry gives as its level names one, or it gives none. -/
def LevelFits (value : Toml) : Prop := ∀ stated, statedLevel? value = some stated → ∃ level, Carries value level

/-- A key accepts an option: only the rule on undefined values does, and only a list of texts as its objects. -/
def Accepts (key : String) (option : String × Toml) : Prop :=
  key = LintRule.noUndefinedValues.id ∧ option.1 = "additionalObjects" ∧
    ∃ items, option.2 = .array items ∧ ∀ item ∈ items, item.text? ≠ none

/-- An entry is wrong on its own: it is neither a word nor a table, what it gives as its level names none, or one of the
options in its table is not accepted. -/
inductive Wrong (key : String) : Toml → Prop
  | shape {value : Toml} (h : ¬ IsEntry value) : Wrong key value
  | level {value : Toml} (h : ¬ LevelFits value) : Wrong key value
  | option {entries : List (String × Toml)} {option : String × Toml} (hmem : option ∈ entries)
      (hname : option.1 ≠ "level") (h : ¬ Accepts key option) : Wrong key (.table entries)

/-- An option is the first in a table that the key does not accept. -/
def FirstRefused (key : String) (entries : List (String × Toml)) (option : String × Toml) : Prop :=
  option.1 ≠ "level" ∧ ¬ Accepts key option ∧
    ∃ front back, entries = front ++ option :: back ∧ ∀ other ∈ front, other.1 = "level" ∨ Accepts key other

/-- What is wrong with an option that is not accepted. -/
inductive OptionFault (key : String) : String × Toml → ConfigError → Prop
  | unexpected {option : String × Toml} (hkey : key ≠ LintRule.noUndefinedValues.id) :
      OptionFault key option (.unexpectedOption key option.1)
  | unknown {name : String} {value : Toml} (hkey : key = LintRule.noUndefinedValues.id)
      (hname : name ≠ "additionalObjects") : OptionFault key (name, value) (.invalidOptions key (.unknownField name))
  | notList {value : Toml} (hkey : key = LintRule.noUndefinedValues.id) (h : ∀ items, value ≠ .array items) :
      OptionFault key ("additionalObjects", value) (.invalidOptions key (.unexpected value.toDatum "a sequence"))
  | notText {front back : List Toml} {item : Toml} (hkey : key = LintRule.noUndefinedValues.id)
      (hfront : ∀ other ∈ front, other.text? ≠ none) (hitem : item.text? = none) :
      OptionFault key ("additionalObjects", .array (front ++ item :: back))
        (.invalidOptions key (.unexpected item.toDatum "a string"))

/-- What is wrong with what an entry gives as its level. -/
inductive LevelFault (key : String) (value : Toml) : ConfigError → Prop
  | shape (h : ¬ IsEntry value) : LevelFault key value (.invalidLevel key value.render)
  | word {word : String} (hstated : statedLevel? value = some (.string word))
      (hword : ∀ level : Level, ¬ SameWord word level.word) : LevelFault key value (.invalidLevel key word)
  | value {stated : Toml} (hstated : statedLevel? value = some stated) (hword : ∀ word, stated ≠ .string word) :
      LevelFault key value (.invalidLevel key stated.render)

/-- The error of an entry on its own. What it gives as its level counts before its options. -/
inductive Fault (key : String) : Toml → ConfigError → Prop
  | level {value : Toml} {e : ConfigError} (h : LevelFault key value e) : Fault key value e
  | option {entries : List (String × Toml)} {option : String × Toml} {e : ConfigError}
      (hlevel : LevelFits (.table entries)) (hfirst : FirstRefused key entries option) (h : OptionFault key option e) :
      Fault key (.table entries) e

/-! ### Levels -/

section Levels

variable {key : String} {value : Toml}

theorem levelOf_of_not_isEntry (h : ¬ IsEntry value) : levelOf key value = .error (.invalidLevel key value.render) := by
  cases value with
  | string word => exact absurd (Or.inl ⟨word, rfl⟩) h
  | table entries => exact absurd (Or.inr ⟨entries, rfl⟩) h
  | _ => rfl

theorem levelOf_of_none (h : IsEntry value) (hnone : statedLevel? value = none) : levelOf key value = .ok none := by
  rcases h with ⟨word, rfl⟩ | ⟨entries, rfl⟩
  · cases hnone
  · rw [statedLevel?] at hnone
    simp only [levelOf, hnone]

theorem levelOf_of_word {word : String} (h : statedLevel? value = some (.string word)) :
    levelOf key value = (levelOfWord key word).map some := by
  cases value with
  | string other =>
    obtain rfl : other = word := by simpa [statedLevel?] using h
    rfl
  | table entries =>
    rw [statedLevel?] at h
    simp only [levelOf, h]
  | _ => cases h

theorem levelOf_of_value {stated : Toml} (h : statedLevel? value = some stated) (hword : ∀ word, stated ≠ .string word) :
    levelOf key value = .error (.invalidLevel key stated.render) := by
  cases value with
  | string word => exact absurd (Option.some.inj h).symm (hword word)
  | table entries =>
    rw [statedLevel?] at h
    cases stated with
    | string word => exact absurd rfl (hword word)
    | _ => simp only [levelOf, h]
  | _ => cases h

theorem levelOfWord_eq_ok {word : String} {level : Level} (h : SameWord word level.word) :
    levelOfWord key word = .ok level := by
  rw [levelOfWord, Level.ofWord?_eq_some_iff.mpr h]

theorem levelOfWord_eq_error {word : String} (h : ∀ level : Level, ¬ SameWord word level.word) :
    levelOfWord key word = .error (.invalidLevel key word) := by
  have hnone : Level.ofWord? word = none :=
    Option.eq_none_iff_forall_ne_some.mpr fun level hlevel => h level (Level.ofWord?_eq_some_iff.mp hlevel)
  rw [levelOfWord, hnone]

theorem Carries.levelOf_eq {level : Level} (h : Carries value level) : levelOf key value = .ok (some level) := by
  obtain ⟨word, hstated, hword⟩ := h
  rw [levelOf_of_word hstated, levelOfWord_eq_ok hword]
  rfl

theorem LevelFault.levelOf_eq {e : ConfigError} (h : LevelFault key value e) : levelOf key value = .error e := by
  cases h with
  | shape h => exact levelOf_of_not_isEntry h
  | word hstated hword =>
    rw [levelOf_of_word hstated, levelOfWord_eq_error hword]
    rfl
  | value hstated hword => exact levelOf_of_value hstated hword

/-- Either an entry carries a level, or it is a table without one, or something is wrong with what it gives. -/
theorem level_cases (key : String) (value : Toml) :
    (∃ level, Carries value level) ∨ (IsEntry value ∧ statedLevel? value = none) ∨ ∃ e, LevelFault key value e := by
  by_cases hentry : IsEntry value
  · cases hstated : statedLevel? value with
    | none => exact Or.inr (Or.inl ⟨hentry, rfl⟩)
    | some stated =>
      by_cases hword : ∃ word, stated = .string word
      · obtain ⟨word, rfl⟩ := hword
        by_cases hlevel : ∃ level : Level, SameWord word level.word
        · obtain ⟨level, hlevel⟩ := hlevel
          exact Or.inl ⟨level, word, hstated, hlevel⟩
        · exact Or.inr (Or.inr ⟨_, .word hstated (not_exists.mp hlevel)⟩)
      · exact Or.inr (Or.inr ⟨_, .value hstated (not_exists.mp hword)⟩)
  · exact Or.inr (Or.inr ⟨_, .shape hentry⟩)

theorem levelOf_eq_error_iff {e : ConfigError} : levelOf key value = .error e ↔ LevelFault key value e := by
  refine ⟨fun h => ?_, LevelFault.levelOf_eq⟩
  rcases level_cases key value with ⟨level, hlevel⟩ | ⟨hentry, hnone⟩ | ⟨e', he⟩
  · rw [hlevel.levelOf_eq] at h
    cases h
  · rw [levelOf_of_none hentry hnone] at h
    cases h
  · obtain rfl := Except.error.inj (he.levelOf_eq.symm.trans h)
    exact he

theorem Carries.isEntry {level : Level} (h : Carries value level) : IsEntry value := by
  obtain ⟨word, hstated, -⟩ := h
  cases value with
  | string other => exact Or.inl ⟨other, rfl⟩
  | table entries => exact Or.inr ⟨entries, rfl⟩
  | _ => cases hstated

/-- Where a level is read, nothing is wrong with it, and it is the level that the entry carries. -/
theorem levelOf_eq_ok {level : Option Level} (h : levelOf key value = .ok level) :
    IsEntry value ∧ LevelFits value ∧ ∀ l, level = some l ↔ Carries value l := by
  rcases level_cases key value with ⟨l', hl'⟩ | ⟨hentry, hnone⟩ | ⟨e, he⟩
  · obtain rfl := Except.ok.inj (h.symm.trans hl'.levelOf_eq)
    refine ⟨hl'.isEntry, fun _ _ => ⟨l', hl'⟩, fun l => ⟨?_, ?_⟩⟩
    · intro hl
      obtain rfl := Option.some.inj hl
      exact hl'
    · intro hl
      exact Except.ok.inj (h.symm.trans hl.levelOf_eq)
  · obtain rfl := Except.ok.inj (h.symm.trans (levelOf_of_none hentry hnone))
    have habsent : ∀ stated, statedLevel? value ≠ some stated := by simp [hnone]
    refine ⟨hentry, fun stated hstated => absurd hstated (habsent stated), fun l => ⟨nofun, ?_⟩⟩
    rintro ⟨word, hstated, -⟩
    exact absurd hstated (habsent _)
  · rw [he.levelOf_eq] at h
    cases h

theorem LevelFault.not_levelFits {e : ConfigError} (h : LevelFault key value e) (hentry : IsEntry value) :
    ¬ LevelFits value := by
  intro hfits
  cases h with
  | shape h => exact h hentry
  | word hstated hword =>
    obtain ⟨level, word', hstated', hword'⟩ := hfits _ hstated
    obtain rfl : word' = _ := by simpa using hstated'.symm.trans hstated
    exact hword level hword'
  | value hstated hword =>
    obtain ⟨level, word', hstated', -⟩ := hfits _ hstated
    exact hword word' (Option.some.inj (hstated.symm.trans hstated'))

end Levels

/-! ### Options -/

section Options

/-- The error that a result is. -/
def failure? {ε α : Type} : Except ε α → Option ε
  | .error e => some e
  | .ok _ => none

@[simp]
theorem failure?_eq_some_iff {ε α : Type} {r : Except ε α} {e : ε} : failure? r = some e ↔ r = .error e := by
  cases r <;> simp [failure?]

@[simp]
theorem failure?_eq_none_iff {ε α : Type} {r : Except ε α} : failure? r = none ↔ ∃ a, r = .ok a := by
  cases r <;> simp [failure?]

@[simp]
theorem failure?_map {ε α β : Type} (f : α → β) (r : Except ε α) : failure? (r.map f) = failure? r := by
  cases r <;> rfl

/-- The error of an item in a list of texts. -/
def itemError? (item : Toml) : Option OptionsError :=
  match item.text? with
  | some _ => none
  | none => some (.unexpected item.toDatum "a string")

theorem itemError?_eq_none_iff {item : Toml} : itemError? item = none ↔ item.text? ≠ none := by
  rw [itemError?]
  cases item.text? <;> simp

theorem strings_cons (item : Toml) (rest : List Datum) : RuleOptions.strings (item.toDatum :: rest) =
    match item.text? with
    | some text => (RuleOptions.strings rest).map (text :: ·)
    | none => .error (.unexpected item.toDatum "a string") := by
  cases item <;> simp [Toml.toDatum, Toml.text?, RuleOptions.strings]

theorem strings_eq_ok_iff {items : List Toml} : ∀ {names : List String},
    RuleOptions.strings (Toml.itemsToData items) = .ok names ↔ items.map Toml.text? = names.map some := by
  induction items with
  | nil =>
    intro names
    cases names <;> simp [Toml.itemsToData, RuleOptions.strings]
  | cons item items ih =>
    intro names
    rw [Toml.itemsToData, strings_cons, List.map_cons]
    cases htext : item.text? with
    | none => cases names <;> simp
    | some text =>
      cases names with
      | nil => cases RuleOptions.strings (Toml.itemsToData items) <;> simp [Except.map]
      | cons name names =>
        rw [List.map_cons, List.cons.injEq, ← ih]
        cases RuleOptions.strings (Toml.itemsToData items) <;> simp [Except.map]

theorem failure?_strings (items : List Toml) :
    failure? (RuleOptions.strings (Toml.itemsToData items)) = items.findSome? itemError? := by
  induction items with
  | nil => rfl
  | cons item items ih =>
    rw [Toml.itemsToData, strings_cons, List.findSome?_cons, itemError?, ← ih]
    cases item.text? with
    | none => rfl
    | some text => exact failure?_map _ _

theorem objects_eq_ok_iff {value : Toml} {names : List String} : RuleOptions.objects value.toDatum = .ok names ↔
    ∃ items, value = .array items ∧ items.map Toml.text? = names.map some := by
  cases value with
  | array items => simp [Toml.toDatum, RuleOptions.objects, strings_eq_ok_iff]
  | _ => simp [Toml.toDatum, RuleOptions.objects]

/-- The error of an option of the rule on undefined values. -/
def optionError? (option : String × Toml) : Option OptionsError :=
  if option.1 = "additionalObjects" then failure? (RuleOptions.objects option.2.toDatum)
  else some (.unknownField option.1)

/-- The error of what stands in the table of a key; what stands under `level` is no option. -/
def refusal? (key : String) (option : String × Toml) : Option ConfigError :=
  if option.1 = "level" then none
  else if key = LintRule.noUndefinedValues.id then (optionError? option).map (.invalidOptions key)
  else some (.unexpectedOption key option.1)

variable {key : String}

theorem optionFault_of_optionError? {option : String × Toml} {e : OptionsError}
    (hkey : key = LintRule.noUndefinedValues.id) (h : optionError? option = some e) :
    OptionFault key option (.invalidOptions key e) := by
  obtain ⟨name, value⟩ := option
  rw [optionError?] at h
  split at h
  · next hname =>
    obtain rfl : name = "additionalObjects" := hname
    rw [failure?_eq_some_iff] at h
    cases value with
    | array items =>
      rw [Toml.toDatum, RuleOptions.objects, ← failure?_eq_some_iff, failure?_strings] at h
      obtain ⟨front, item, back, rfl, hitem, hfront⟩ := List.findSome?_eq_some_iff.mp h
      rw [itemError?] at hitem
      split at hitem
      · cases hitem
      · next htext =>
        obtain rfl := Option.some.inj hitem
        exact .notText hkey (fun other hother => itemError?_eq_none_iff.mp (hfront other hother)) htext
    | _ =>
      obtain rfl := Except.error.inj h
      exact .notList hkey nofun
  · next hname =>
    obtain rfl := Option.some.inj h
    exact .unknown hkey hname

theorem OptionFault.refusal?_eq {option : String × Toml} {e : ConfigError} (h : OptionFault key option e)
    (hlevel : option.1 ≠ "level") : refusal? key option = some e := by
  rw [refusal?, if_neg hlevel]
  cases h with
  | unexpected hkey => rw [if_neg hkey]
  | unknown hkey hname => rw [if_pos hkey, optionError?, if_neg hname, Option.map_some]
  | @notList value hkey hlist =>
    have hobjects : RuleOptions.objects value.toDatum = .error (.unexpected value.toDatum "a sequence") := by
      cases value with
      | array items => exact absurd rfl (hlist items)
      | _ => rfl
    rw [if_pos hkey, optionError?, if_pos rfl, hobjects, failure?, Option.map_some]
  | @notText front back item hkey hfront hitem =>
    have herror : (front ++ item :: back).findSome? itemError? = some (.unexpected item.toDatum "a string") :=
      List.findSome?_eq_some_iff.mpr ⟨front, item, back, rfl, by rw [itemError?, hitem],
        fun other hother => itemError?_eq_none_iff.mpr (hfront other hother)⟩
    rw [if_pos hkey, optionError?, if_pos rfl]
    simp only [Toml.toDatum, RuleOptions.objects, failure?_strings, herror, Option.map_some]

theorem refusal?_eq_some_iff {option : String × Toml} {e : ConfigError} :
    refusal? key option = some e ↔ option.1 ≠ "level" ∧ OptionFault key option e := by
  refine ⟨fun h => ?_, fun h => h.2.refusal?_eq h.1⟩
  rw [refusal?] at h
  split at h
  · cases h
  · next hlevel =>
    refine ⟨hlevel, ?_⟩
    split at h
    · next hkey =>
      obtain ⟨e', he, rfl⟩ := Option.map_eq_some_iff.mp h
      exact optionFault_of_optionError? hkey he
    · next hkey =>
      obtain rfl := Option.some.inj h
      exact .unexpected hkey

theorem optionError?_eq_none_iff {option : String × Toml} : optionError? option = none ↔
    option.1 = "additionalObjects" ∧ ∃ items, option.2 = .array items ∧ ∀ item ∈ items, item.text? ≠ none := by
  rw [optionError?]
  split
  · next hname =>
    cases hvalue : option.2 with
    | array items =>
      simp [hname, Toml.toDatum, RuleOptions.objects, - failure?_eq_none_iff, failure?_strings, itemError?_eq_none_iff]
    | _ => simp [Toml.toDatum, RuleOptions.objects]
  · next hname => simp [hname]

theorem refusal?_eq_none_iff {option : String × Toml} :
    refusal? key option = none ↔ option.1 = "level" ∨ Accepts key option := by
  rw [refusal?, Accepts]
  split
  · next hlevel => simp [hlevel]
  · next hlevel =>
    split
    · next hkey => simp [hlevel, hkey, optionError?_eq_none_iff]
    · next hkey => simp [hlevel, hkey]

theorem OptionFault.not_accepts {option : String × Toml} {e : ConfigError} (h : OptionFault key option e)
    (hlevel : option.1 ≠ "level") : ¬ Accepts key option := by
  intro haccepts
  have hnone := refusal?_eq_none_iff.mpr (Or.inr haccepts)
  rw [h.refusal?_eq hlevel] at hnone
  cases hnone

/-- The first error in the table of a key is that of the first option that is not accepted. -/
theorem findSome?_refusal?_eq_some_iff {entries : List (String × Toml)} {e : ConfigError} :
    entries.findSome? (refusal? key) = some e ↔ ∃ option, FirstRefused key entries option ∧ OptionFault key option e := by
  simp only [List.findSome?_eq_some_iff, refusal?_eq_some_iff, refusal?_eq_none_iff]
  constructor
  · rintro ⟨front, option, back, hentries, ⟨hlevel, hfault⟩, hfront⟩
    exact ⟨option, ⟨hlevel, hfault.not_accepts hlevel, front, back, hentries, hfront⟩, hfault⟩
  · rintro ⟨option, ⟨hlevel, -, front, back, hentries, hfront⟩, hfault⟩
    exact ⟨front, option, back, hentries, ⟨hlevel, hfault⟩, hfront⟩

theorem failure?_ofData (options : List (String × Toml)) : ∀ read : RuleOptions,
    failure? (RuleOptions.ofEntries read (Toml.entriesToData options)) = options.findSome? optionError? := by
  induction options with
  | nil => exact fun read => rfl
  | cons option options ih =>
    intro read
    obtain ⟨name, value⟩ := option
    rw [Toml.entriesToData, RuleOptions.ofEntries, List.findSome?_cons, optionError?]
    split
    · next hname =>
      cases RuleOptions.objects value.toDatum with
      | ok names => exact ih ⟨names⟩
      | error e => rfl
    · next hname => rfl

theorem failure?_refuseOptions (hkey : key ≠ LintRule.noUndefinedValues.id) (entries : List (String × Toml)) :
    failure? (refuseOptions key (optionsOf (.table entries))) = entries.findSome? (refusal? key) := by
  rw [optionsOf]
  induction entries with
  | nil => rfl
  | cons entry entries ih =>
    rw [List.findSome?_cons, List.filter_cons, refusal?]
    by_cases hlevel : entry.1 = "level"
    · simpa [hlevel] using ih
    · simp [hlevel, hkey, refuseOptions, failure?]

theorem failure?_objectsOf (hkey : key = LintRule.noUndefinedValues.id) (entries : List (String × Toml)) :
    failure? (objectsOf key (.table entries)) = entries.findSome? (refusal? key) := by
  have hread : failure? (objectsOf key (.table entries)) =
      ((optionsOf (.table entries)).findSome? optionError?).map (.invalidOptions key) := by
    rw [← failure?_ofData _ {}, objectsOf]
    cases RuleOptions.ofEntries {} (Toml.entriesToData (optionsOf (.table entries))) <;> rfl
  rw [hread, optionsOf]
  clear hread
  induction entries with
  | nil => rfl
  | cons entry entries ih =>
    rw [List.findSome?_cons, List.filter_cons, refusal?, ← ih]
    by_cases hlevel : entry.1 = "level"
    · simp [hlevel]
    · cases herror : optionError? entry <;> simp [hlevel, hkey, herror]

/-- The options of an entry as they are read: only the rule on undefined values may have any. -/
def readOptions (key : String) (value : Toml) : Except ConfigError (Option (List String)) :=
  if key = LintRule.noUndefinedValues.id then objectsOf key value
  else (refuseOptions key (optionsOf value)).map fun _ => none

theorem failure?_readOptions (entries : List (String × Toml)) :
    failure? (readOptions key (.table entries)) = entries.findSome? (refusal? key) := by
  rw [readOptions]
  split
  · next hkey => exact failure?_objectsOf hkey entries
  · next hkey => rw [failure?_map, failure?_refuseOptions hkey]

/-- The objects that the table of the rule on undefined values lists. -/
def Lists (entries : List (String × Toml)) (names : List String) : Prop :=
  match Toml.get? entries "additionalObjects" with
  | none => names = []
  | some value => ∃ items, value = .array items ∧ items.map Toml.text? = names.map some

theorem Lists.unique {entries : List (String × Toml)} {names names' : List String} (h : Lists entries names)
    (h' : Lists entries names') : names = names' := by
  rw [Lists] at h h'
  cases hget : Toml.get? entries "additionalObjects" with
  | none =>
    simp only [hget] at h h'
    rw [h, h']
  | some value =>
    simp only [hget] at h h'
    obtain ⟨items, rfl, hnames⟩ := h
    obtain ⟨items', hitems, hnames'⟩ := h'
    rw [Toml.array.inj hitems, hnames'] at hnames
    exact (List.map_inj_right fun _ _ => Option.some.inj).mp hnames.symm

/-- The options that are read are those that the table lists: a table has one entry of the name. -/
theorem lists_of_ofData {options : List (String × Toml)} (hmap : Toml.InOrder options) {read : RuleOptions}
    (h : RuleOptions.ofEntries {} (Toml.entriesToData options) = .ok read) : Lists options read.additionalObjects := by
  have hnames : ∀ option ∈ options, option.1 = "additionalObjects" := by
    have hnone : options.findSome? optionError? = none := by
      rw [← failure?_ofData options {}, failure?_eq_none_iff]
      exact ⟨read, h⟩
    intro option hoption
    exact (optionError?_eq_none_iff.mp (List.findSome?_eq_none_iff.mp hnone option hoption)).1
  cases options with
  | nil =>
    obtain rfl := Except.ok.inj h
    rfl
  | cons option options =>
    obtain ⟨name, value⟩ := option
    obtain rfl : name = "additionalObjects" := hnames _ List.mem_cons_self
    obtain rfl : options = [] := by
      refine List.eq_nil_iff_forall_not_mem.mpr fun other hother => ?_
      have hlt := (List.pairwise_cons.mp hmap).1 other hother
      rw [hnames other (List.mem_cons_of_mem _ hother)] at hlt
      exact List.lt_irrefl _ hlt
    rw [Toml.entriesToData, Toml.entriesToData, RuleOptions.ofEntries, if_pos rfl] at h
    cases hobjects : RuleOptions.objects value.toDatum with
    | error e =>
      rw [hobjects] at h
      cases h
    | ok names =>
      rw [hobjects] at h
      obtain rfl := Except.ok.inj h
      simpa [Lists, Toml.get?] using objects_eq_ok_iff.mp hobjects

theorem lists_optionsOf {entries : List (String × Toml)} {names : List String} :
    Lists (optionsOf (.table entries)) names ↔ Lists entries names := by
  have hget : Toml.get? (optionsOf (.table entries)) "additionalObjects" = Toml.get? entries "additionalObjects" := by
    rw [Toml.get?, Toml.get?, optionsOf, List.find?_filter]
    congr 2
    funext entry
    by_cases hname : entry.1 = "additionalObjects" <;> simp [hname]
  rw [Lists, Lists, hget]

/-- Objects are read for the rule on undefined values only, and only from a table. -/
theorem readOptions_eq_ok {value : Toml} {objects : Option (List String)} (h : readOptions key value = .ok objects)
    (hmap : ∀ entries, value = .table entries → Toml.InOrder entries) {names : List String} :
    objects = some names ↔
      key = LintRule.noUndefinedValues.id ∧ ∃ entries, value = .table entries ∧ Lists entries names := by
  rw [readOptions] at h
  split at h
  · next hkey =>
    rw [objectsOf] at h
    cases hread : RuleOptions.ofEntries {} (Toml.entriesToData (optionsOf value)) with
    | error e =>
      rw [hread] at h
      cases h
    | ok read =>
      rw [hread] at h
      cases value with
      | table entries =>
        obtain rfl := Except.ok.inj h
        have hlists := lists_optionsOf.mp (lists_of_ofData ((hmap entries rfl).filter _) hread)
        constructor
        · intro hnames
          obtain rfl := Option.some.inj hnames
          exact ⟨hkey, entries, rfl, hlists⟩
        · rintro ⟨-, entries', htable, hlists'⟩
          obtain rfl := Toml.table.inj htable
          rw [hlists.unique hlists']
      | _ =>
        obtain rfl := Except.ok.inj h
        simp
  · next hkey =>
    cases hrefuse : refuseOptions key (optionsOf value) with
    | error e =>
      rw [hrefuse] at h
      cases h
    | ok u =>
      rw [hrefuse] at h
      obtain rfl := Except.ok.inj h
      simp [hkey]

end Options

/-! ### One entry -/

section Entry

variable {key : String} {value : Toml}

/-- The settings of an entry with a level and with objects, by the kind of its key. -/
def layer (key : String) (level : Option Level) (objects : Option (List String)) : Project :=
  if key = "all" then { all := level, objects }
  else match Category.ofName? key with
    | some category => { categories := level.toList.map (category, ·), objects }
    | none => { rules := level.toList.map (key, ·), objects }

theorem category_noUndefinedValues : Category.ofName? LintRule.noUndefinedValues.id = none := by decide +kernel

/-- An entry of any kind is read in two steps, first its level and then its options. -/
theorem ofEntry_eq (key : String) (value : Toml) : ofEntry key value =
    (levelOf key value).bind fun level => (readOptions key value).map (layer key level) := by
  rw [ofEntry]
  cases levelOf key value with
  | error e => rfl
  | ok level =>
    simp only [bind, Except.bind, pure, Except.pure, readOptions]
    by_cases hall : key = "all"
    · subst hall
      rw [if_pos rfl, if_neg (by decide)]
      cases refuseOptions "all" (optionsOf value) <;> rfl
    · rw [if_neg hall]
      cases hcategory : Category.ofName? key with
      | some category =>
        have hkey : key ≠ LintRule.noUndefinedValues.id := by
          rintro rfl
          rw [category_noUndefinedValues] at hcategory
          cases hcategory
        simp only [if_neg hkey]
        cases refuseOptions key (optionsOf value) <;> simp [Except.map, layer, hall, hcategory]
      | none =>
        by_cases hkey : key = LintRule.noUndefinedValues.id
        · simp only [if_pos hkey]
          cases objectsOf key value <;> simp [Except.map, layer, hall, hcategory]
        · simp only [if_neg hkey]
          cases refuseOptions key (optionsOf value) <;> simp [Except.map, layer, hall, hcategory]

theorem readOptions_eq_error_iff {e : ConfigError} : readOptions key value = .error e ↔
    ∃ entries option, value = .table entries ∧ FirstRefused key entries option ∧ OptionFault key option e := by
  cases value with
  | table entries =>
    rw [← failure?_eq_some_iff, failure?_readOptions, findSome?_refusal?_eq_some_iff]
    simp
  | _ =>
    rw [readOptions]
    split <;> simp [objectsOf, optionsOf, refuseOptions, Toml.entriesToData, RuleOptions.ofEntries, Except.map]

/-- An entry is refused with the error of the first thing that is wrong with it. -/
theorem ofEntry_eq_error_iff {e : ConfigError} : ofEntry key value = .error e ↔ Fault key value e := by
  rw [ofEntry_eq]
  cases hlevel : levelOf key value with
  | error e' =>
    have hfault := levelOf_eq_error_iff.mp hlevel
    constructor
    · intro h
      obtain rfl := Except.error.inj h
      exact .level hfault
    · intro h
      cases h with
      | level h => rw [← hlevel, h.levelOf_eq]; rfl
      | option hfits => exact absurd hfits (hfault.not_levelFits (Or.inr ⟨_, rfl⟩))
  | ok level =>
    obtain ⟨hentry, hfits, -⟩ := levelOf_eq_ok hlevel
    have hread : ((Except.ok level : Except ConfigError (Option Level)).bind fun level =>
        (readOptions key value).map (layer key level)) = .error e ↔ readOptions key value = .error e := by
      cases readOptions key value <;> simp [Except.bind, Except.map]
    rw [hread, readOptions_eq_error_iff]
    constructor
    · rintro ⟨entries, option, rfl, hfirst, hfault⟩
      exact .option hfits hfirst hfault
    · intro h
      cases h with
      | level h => exact absurd hfits (h.not_levelFits hentry)
      | option _ hfirst hfault => exact ⟨_, _, rfl, hfirst, hfault⟩

theorem ofEntry_eq_ok {p : Project} (h : ofEntry key value = .ok p) : ∃ level objects,
    levelOf key value = .ok level ∧ readOptions key value = .ok objects ∧ p = layer key level objects := by
  rw [ofEntry_eq] at h
  cases hlevel : levelOf key value with
  | error e =>
    rw [hlevel] at h
    cases h
  | ok level =>
    rw [hlevel] at h
    cases hobjects : readOptions key value with
    | error e =>
      rw [hobjects] at h
      cases h
    | ok objects =>
      rw [hobjects] at h
      exact ⟨level, objects, rfl, rfl, (Except.ok.inj h).symm⟩

/-- An entry is wrong exactly if it has an error. -/
theorem wrong_iff_exists_fault : Wrong key value ↔ ∃ e, Fault key value e := by
  constructor
  · intro hwrong
    cases hread : ofEntry key value with
    | error e => exact ⟨e, ofEntry_eq_error_iff.mp hread⟩
    | ok p =>
      obtain ⟨level, objects, hlevel, hobjects, -⟩ := ofEntry_eq_ok hread
      obtain ⟨hentry, hfits, -⟩ := levelOf_eq_ok hlevel
      cases hwrong with
      | shape h => exact absurd hentry h
      | level h => exact absurd hfits h
      | @option entries option hmem hname h =>
        have hnone : entries.findSome? (refusal? key) = none := by
          rw [← failure?_readOptions, failure?_eq_none_iff]
          exact ⟨objects, hobjects⟩
        have haccepts := refusal?_eq_none_iff.mp (List.findSome?_eq_none_iff.mp hnone option hmem)
        exact absurd (haccepts.resolve_left hname) h
  · rintro ⟨e, h⟩
    cases h with
    | level h =>
      by_cases hentry : IsEntry value
      · exact .level (h.not_levelFits hentry)
      · exact .shape hentry
    | option _ hfirst _ =>
      obtain ⟨hlevel, haccepts, front, back, rfl, -⟩ := hfirst
      exact .option (by simp) hlevel haccepts

end Entry

end Project

end WriteGuard
