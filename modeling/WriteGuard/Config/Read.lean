import WriteGuard.Config.Options
import WriteGuard.Config.Project
import WriteGuard.Config.Toml.Document

/-!
Settings read from the table `lints` of a document. Entries are read in the order of their keys, and the first that is
wrong decides the error.
-/

namespace WriteGuard

/-- What can be wrong with settings. -/
inductive ConfigError where
  /-- The text is no TOML document. -/
  | toml
  | lintsNotATable
  | invalidLevel (key value : String)
  | invalidOptions (rule : String) (error : OptionsError)
  | unexpectedOption (rule option : String)

namespace ConfigError

/-- The words for an error. -/
def message : ConfigError → String
  | .toml => "invalid TOML:"
  | .lintsNotATable => "`[lints]` must be a table"
  | .invalidLevel key value => "invalid lint level for `" ++ key ++ "`: " ++ value
  | .invalidOptions rule error => "invalid options for `" ++ rule ++ "`: " ++ error.message
  | .unexpectedOption rule option => "`" ++ rule ++ "` does not accept options (found `" ++ option ++ "`)"

end ConfigError

namespace Toml

mutual

/-- A value as plain data; a date is a text. -/
def toDatum : Toml → Datum
  | .string text => .string text
  | .integer value => .integer value
  | .float value => .float value
  | .boolean value => .boolean value
  | .datetime text => .string text
  | .array items => .list (itemsToData items)
  | .table entries => .map (entriesToData entries)

/-- Values as plain data. -/
def itemsToData : List Toml → List Datum
  | [] => []
  | v :: vs => toDatum v :: itemsToData vs

/-- Entries as plain data. -/
def entriesToData : List (String × Toml) → List (String × Datum)
  | [] => []
  | (k, v) :: rest => (k, toDatum v) :: entriesToData rest

end

end Toml

namespace Project

/-- The level that a word sets for a key. -/
def levelOfWord (key word : String) : Except ConfigError Level :=
  match Level.ofWord? word with
  | some level => .ok level
  | none => .error (.invalidLevel key word)

/-- The level that an entry sets: the word itself, or the one under `level` in a table, which may be left out. -/
def levelOf (key : String) : Toml → Except ConfigError (Option Level)
  | .string word => (levelOfWord key word).map some
  | .table entries =>
    match Toml.get? entries "level" with
    | none => .ok none
    | some (.string word) => (levelOfWord key word).map some
    | some other => .error (.invalidLevel key other.render)
  | other => .error (.invalidLevel key other.render)

/-- What an entry says besides its level. -/
def optionsOf : Toml → List (String × Toml)
  | .table entries => entries.filter fun entry => entry.1 ≠ "level"
  | _ => []

/-- An entry without options. -/
def refuseOptions (key : String) (options : List (String × Toml)) : Except ConfigError Unit :=
  match options with
  | [] => .ok ()
  | (option, _) :: _ => .error (.unexpectedOption key option)

/-- The options of the rule on undefined values; only a table gives any. -/
def objectsOf (key : String) (value : Toml) : Except ConfigError (Option (List String)) :=
  match RuleOptions.ofEntries {} (Toml.entriesToData (optionsOf value)) with
  | .error e => .error (.invalidOptions key e)
  | .ok options =>
    match value with
    | .table _ => .ok (some options.additionalObjects)
    | _ => .ok none

/-- The settings of one entry. -/
def ofEntry (key : String) (value : Toml) : Except ConfigError Project := do
  let level ← levelOf key value
  if key = "all" then
    refuseOptions key (optionsOf value)
    return { all := level }
  match Category.ofName? key with
  | some category =>
    refuseOptions key (optionsOf value)
    return { categories := level.toList.map (category, ·) }
  | none =>
    let rules := level.toList.map (key, ·)
    if key = LintRule.noUndefinedValues.id then
      return { rules := rules, objects := ← objectsOf key value }
    refuseOptions key (optionsOf value)
    return { rules := rules }

/-- The settings of several entries, each laid over those before it. -/
def ofEntries (project : Project) : List (String × Toml) → Except ConfigError Project
  | [] => .ok project
  | (key, value) :: rest =>
    match ofEntry key value with
    | .ok entry => ofEntries (project.merge entry) rest
    | .error e => .error e

/-- The settings in the text of a file. -/
def parse (text : List Char) : Except ConfigError Project :=
  match Toml.parse? text with
  | none => .error .toml
  | some document =>
    match Toml.get? document "lints" with
    | none => .ok {}
    | some (.table entries) => ofEntries {} entries
    | some _ => .error .lintsNotATable

end Project

end WriteGuard
