/-!
JSON values and the text they are written as, over several lines with two spaces for each level.
-/

namespace WriteGuard

/-- A JSON value. -/
inductive Json where
  | null
  | boolean (value : Bool)
  /-- The number `mantissa / 10 ^ places`. -/
  | number (mantissa : Int) (places : Nat)
  | string (text : String)
  | array (items : List Json)
  | object (entries : List (String × Json))
  deriving Inhabited

namespace Json

/-- A natural number. -/
def nat (n : Nat) : Json := .number n 0

/-- A text, or nothing. -/
def text? (text : Option String) : Json :=
  match text with
  | some text => .string text
  | none => .null

/-- An entry put where its key belongs in the order of keys; an entry with that key is replaced. -/
def insert (entry : String × Json) : List (String × Json) → List (String × Json)
  | [] => [entry]
  | other :: rest =>
    if entry.1 = other.1 then entry :: rest
    else if entry.1 < other.1 then entry :: other :: rest
    else other :: insert entry rest

/-- An object with its entries in the order of keys. -/
def ofEntries (entries : List (String × Json)) : Json := .object (entries.foldl (fun es e => insert e es) [])

/-- The value of a key in an object. -/
def get? (j : Json) (key : String) : Option Json :=
  match j with
  | .object entries => (entries.find? fun entry => entry.1 = key).map (·.2)
  | _ => none

/-- The text of a string. -/
def str? : Json → Option String
  | .string text => some text
  | _ => none

/-! ### Writing -/

/-- A character inside quotes. -/
def escapedChar (c : Char) : List Char :=
  if c = '"' then ['\\', '"']
  else if c = '\\' then ['\\', '\\']
  else if c = '\x08' then ['\\', 'b']
  else if c = '\x0c' then ['\\', 'f']
  else if c = '\n' then ['\\', 'n']
  else if c = '\r' then ['\\', 'r']
  else if c = '\t' then ['\\', 't']
  else if c < ' ' then
    let digits := Nat.toDigits 16 c.toNat
    '\\' :: 'u' :: List.replicate (4 - digits.length) '0' ++ digits
  else [c]

/-- A text in quotes. -/
def quoted (text : String) : String := String.ofList ('"' :: text.toList.flatMap escapedChar ++ ['"'])

/-- A new line at a level of nesting. -/
def newline (level : Nat) : String := String.ofList ('\n' :: List.replicate (2 * level) ' ')

mutual

/-- A value over several lines, at a level of nesting. -/
def pretty (level : Nat) : Json → String
  | .null => "null"
  | .boolean value => if value then "true" else "false"
  | .number mantissa places =>
    if places = 0 then toString mantissa else toString mantissa ++ "e-" ++ toString places
  | .string text => quoted text
  | .array [] => "[]"
  | .array (j :: js) =>
    "[" ++ newline (level + 1) ++ pretty (level + 1) j ++ prettyItems (level + 1) js ++ newline level ++ "]"
  | .object [] => "\x7b\x7d"
  | .object (e :: es) =>
    "\x7b" ++ newline (level + 1) ++ prettyEntry (level + 1) e ++ prettyEntries (level + 1) es ++ newline level ++ "\x7d"

/-- An entry of an object. -/
def prettyEntry (level : Nat) : String × Json → String
  | (k, v) => quoted k ++ ": " ++ pretty level v

/-- The items of an array after the first. -/
def prettyItems (level : Nat) : List Json → String
  | [] => ""
  | j :: js => "," ++ newline level ++ pretty level j ++ prettyItems level js

/-- The entries of an object after the first. -/
def prettyEntries (level : Nat) : List (String × Json) → String
  | [] => ""
  | e :: es => "," ++ newline level ++ prettyEntry level e ++ prettyEntries level es

end

mutual

/-- A value on one line, without blanks. -/
def compact : Json → String
  | .array [] => "[]"
  | .array (j :: js) => "[" ++ compact j ++ compactItems js ++ "]"
  | .object [] => "\x7b\x7d"
  | .object (e :: es) => "\x7b" ++ compactEntry e ++ compactEntries es ++ "\x7d"
  | plain => pretty 0 plain

/-- An entry of an object on one line. -/
def compactEntry : String × Json → String
  | (k, v) => quoted k ++ ":" ++ compact v

/-- The items of an array after the first, on one line. -/
def compactItems : List Json → String
  | [] => ""
  | j :: js => "," ++ compact j ++ compactItems js

/-- The entries of an object after the first, on one line. -/
def compactEntries : List (String × Json) → String
  | [] => ""
  | e :: es => "," ++ compactEntry e ++ compactEntries es

end

end Json

end WriteGuard
