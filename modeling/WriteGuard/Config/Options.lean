import WriteGuard.Decimal.Double
import WriteGuard.Text.Hidden

/-!
The options of the rule on undefined values, decoded from plain data of any format, with the words for what is wrong.
-/

namespace WriteGuard

/-- Plain data, as formats for settings and messages hold it. Entries are in the order of their keys. -/
inductive Datum where
  | null
  | boolean (value : Bool)
  | integer (value : Int)
  | float (value : Double)
  | string (text : String)
  | list (items : List Datum)
  | map (entries : List (String × Datum))
  deriving Inhabited

namespace Datum

/-- A character in a quoted text. -/
def escapedChar (c : Char) : List Char :=
  if c = '\x00' then ['\\', '0']
  else if c = '\t' then ['\\', 't']
  else if c = '\r' then ['\\', 'r']
  else if c = '\n' then ['\\', 'n']
  else if c = '"' || c = '\\' then ['\\', c]
  else if Text.isHidden c then "\\u\x7b".toList ++ Nat.toDigits 16 c.toNat ++ ['\x7d']
  else [c]

/-- A text in quotes, with everything that does not show written by its number. -/
def quoted (text : String) : String := String.ofList ('"' :: text.toList.flatMap escapedChar ++ ['"'])

/-- What a datum is, in words. -/
def describe : Datum → String
  | .null => "null"
  | .boolean value => "boolean `" ++ (if value then "true" else "false") ++ "`"
  | .integer value => "integer `" ++ toString value ++ "`"
  | .float value => "floating point `" ++ value.text "NaN" ++ "`"
  | .string text => "string " ++ quoted text
  | .list _ => "sequence"
  | .map _ => "map"

end Datum

/-- What can be wrong with options. -/
inductive OptionsError where
  | unknownField (name : String)
  /-- Something of another kind than expected. -/
  | unexpected (found : Datum) (expected : String)
  /-- A list in the place of the options that is too long. -/
  | tooLong (length : Nat)

namespace OptionsError

/-- The words for an error. -/
def message : OptionsError → String
  | .unknownField name => "unknown field `" ++ name ++ "`, expected `additionalObjects`"
  | .unexpected found expected => "invalid type: " ++ found.describe ++ ", expected " ++ expected
  | .tooLong length => "invalid length " ++ toString length ++ ", expected fewer elements in array"

end OptionsError

/-- The options of the rule on undefined values. -/
structure RuleOptions where
  /-- The receivers to watch; none for all. -/
  additionalObjects : List String := []
  deriving DecidableEq, Repr, Inhabited

namespace RuleOptions

/-- The texts of a list. -/
def strings : List Datum → Except OptionsError (List String)
  | [] => .ok []
  | .string text :: rest => (strings rest).map (text :: ·)
  | other :: _ => .error (.unexpected other "a string")

/-- The objects to watch. -/
def objects : Datum → Except OptionsError (List String)
  | .list items => strings items
  | other => .error (.unexpected other "a sequence")

/-- Options from the entries of a map. -/
def ofEntries (options : RuleOptions) : List (String × Datum) → Except OptionsError RuleOptions
  | [] => .ok options
  | (name, value) :: rest =>
    if name = "additionalObjects" then
      match objects value with
      | .ok names => ofEntries ⟨names⟩ rest
      | .error e => .error e
    else .error (.unknownField name)

/-- Options from a datum. A list gives them in order. -/
def ofDatum : Datum → Except OptionsError RuleOptions
  | .map entries => ofEntries {} entries
  | .list [] => .ok {}
  | .list (value :: rest) =>
    match objects value with
    | .ok names => if rest.isEmpty then .ok ⟨names⟩ else .error (.tooLong (rest.length + 1))
    | .error e => .error e
  | other => .error (.unexpected other "struct NoUndefinedValuesOptions")

end RuleOptions

end WriteGuard
