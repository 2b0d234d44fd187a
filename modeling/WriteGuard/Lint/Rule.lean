/-!
The rules of the linter and the words about them: categories, severities, levels and messages.
-/

namespace WriteGuard

/-- What a rule is about. -/
inductive Category where
  /-- Code that fails or corrupts data when it runs. -/
  | problem
  /-- Code that works but is likely not what was meant. -/
  | suggestion
  deriving DecidableEq, Repr, Inhabited

namespace Category

/-- All categories. -/
def all : List Category := [.problem, .suggestion]

/-- The name of a category. -/
def name : Category → String
  | .problem => "problem"
  | .suggestion => "suggestion"

/-- The category with a name, in small or capital letters. -/
def ofName? (name : String) : Option Category := all.find? fun c => c.name = name.toLower

end Category

/-- How bad a violation is, from the mildest to the worst. -/
inductive Severity where
  | hint
  | info
  | warning
  | error
  deriving DecidableEq, Repr, Inhabited

namespace Severity

/-- All severities. -/
def all : List Severity := [.hint, .info, .warning, .error]

/-- The place of a severity in the order. -/
def rank : Severity → Nat
  | .hint => 0
  | .info => 1
  | .warning => 2
  | .error => 3

/-- The name of a severity. -/
def name : Severity → String
  | .hint => "Hint"
  | .info => "Info"
  | .warning => "Warning"
  | .error => "Error"

/-- The severity with a name. -/
def ofName? (name : String) : Option Severity := all.find? fun s => s.name = name

end Severity

/-- How a rule is set in a configuration. -/
inductive Level where
  | allow
  | warn
  | deny
  | forbid
  deriving DecidableEq, Repr, Inhabited

namespace Level

/-- All levels. -/
def all : List Level := [.allow, .warn, .deny, .forbid]

/-- The word for a level. -/
def word : Level → String
  | .allow => "allow"
  | .warn => "warn"
  | .deny => "deny"
  | .forbid => "forbid"

/-- The level for a word, in small or capital letters. -/
def ofWord? (word : String) : Option Level := all.find? fun l => l.word = word.toLower

/-- The name of a level. -/
def name : Level → String
  | .allow => "Allow"
  | .warn => "Warn"
  | .deny => "Deny"
  | .forbid => "Forbid"

/-- The severity at which a level reports; `allow` reports nothing. -/
def severity? : Level → Option Severity
  | .allow => none
  | .warn => some .warning
  | .deny | .forbid => some .error

end Level

/-- A message of a report or of a suggestion. -/
inductive Message where
  | noUndefinedValues
  | missingMerge
  | addMergeOption
  | changeToUpdate
  deriving DecidableEq, Repr, Inhabited

namespace Message

/-- All messages. -/
def all : List Message := [.noUndefinedValues, .missingMerge, .addMergeOption, .changeToUpdate]

/-- The key of a message. -/
def key : Message → String
  | .noUndefinedValues => "noUndefinedValues"
  | .missingMerge => "missingMerge"
  | .addMergeOption => "addOptionParameterMergeTrue"
  | .changeToUpdate => "changeUpdate"

/-- The message with a key. -/
def ofKey? (key : String) : Option Message := all.find? fun m => m.key = key

/-- The text of a message. -/
def text : Message → String
  | .noUndefinedValues =>
    "Firestore does not support undefined values in set(), update(), or create() operations. Use null instead or remove the field."
  | .missingMerge => "Missing merge option parameter."
  | .addMergeOption => "Add option parameter \x7b merge: true \x7d."
  | .changeToUpdate => "Change from set to update."

end Message

/-- A rule of the linter. -/
structure LintRule where
  id : String
  name : String
  category : Category
  /-- The severity of violations where no configuration sets one. -/
  severity : Severity
  description : String
  hasSuggestions : Bool
  reference : String
  deriving DecidableEq, Repr, Inhabited

namespace LintRule

/-- Payloads must not hold `undefined`. -/
def noUndefinedValues : LintRule where
  id := "firestore-no-undefined-values"
  name := "No Undefined Values"
  category := .problem
  severity := .error
  description := "Disallow undefined values in Firestore set(), update(), and create() operations. Firestore rejects documents that contain undefined."
  hasSuggestions := false
  reference := "https://github.com/konti-kun/eslint-plugin-firestore/blob/main/docs/rules/firestore-no-undefined-values.md"

/-- A set must merge. -/
def setRequireMerge : LintRule where
  id := "firestore-set-require-merge"
  name := "Set Requires Merge"
  category := .suggestion
  severity := .warning
  description := "Enforce the merge option when calling DocumentReference.set() or setDoc(). Without it the whole document is overwritten."
  hasSuggestions := true
  reference := "https://github.com/konti-kun/eslint-plugin-firestore/blob/main/docs/rules/firestore-set-require-merge.md"

/-- All rules, in the order in which they are applied to a call. -/
def all : List LintRule := [noUndefinedValues, setRequireMerge]

/-- The rule with an id. -/
def ofId? (id : String) : Option LintRule := all.find? fun r => r.id = id

/-- The rules of a category. -/
def ofCategory (category : Category) : List LintRule := all.filter fun r => r.category = category

end LintRule

end WriteGuard
