import WriteGuard.Decimal.Double

/-!
Values of TOML documents and the texts they are written as.
-/

namespace WriteGuard

/-- A value of a TOML document. The entries of a table are in the order of their keys. -/
inductive Toml where
  | string (text : String)
  | integer (value : Int)
  | float (value : Double)
  | boolean (value : Bool)
  /-- A date, a time or both, in the form they are written in. -/
  | datetime (text : String)
  | array (items : List Toml)
  | table (entries : List (String × Toml))
  deriving Inhabited

namespace Toml

/-! ### Strings -/

/-- The longest run of a character in a text, with `run` of them before it. -/
def longestRun (c : Char) (run : Nat) : List Char → Nat
  | [] => run
  | d :: ds => if d = c then longestRun c (run + 1) ds else max run (longestRun c 0 ds)

/-- Whether a character can only be written by an escape. -/
def needsEscape (c : Char) : Bool := (c ≤ '\x1f' && c ≠ '\t' && c ≠ '\n') || c = '\x7f'

/-- Four hexadecimal digits of a number. -/
def hex4 (n : Nat) : List Char :=
  let digits := (Nat.toDigits 16 n).map Char.toUpper
  List.replicate (4 - digits.length) '0' ++ digits

/-- The text of a string in double quotes; at most `quotes` quotes in a row stand unescaped, after `run` of them. -/
def escaped (lines : Bool) (quotes : Nat) (run : Nat) : List Char → List Char
  | [] => []
  | c :: cs =>
    if c = '"' then
      if quotes ≤ run then '\\' :: '"' :: escaped lines quotes 0 cs else '"' :: escaped lines quotes (run + 1) cs
    else
      let written : List Char :=
        if c = '\x08' then ['\\', 'b']
        else if c = '\t' then ['\\', 't']
        else if c = '\n' then (if lines then ['\n'] else ['\\', 'n'])
        else if c = '\x0c' then ['\\', 'f']
        else if c = '\r' then ['\\', 'r']
        else if c = '\\' then ['\\', '\\']
        else if needsEscape c then '\\' :: 'u' :: hex4 c.toNat
        else [c]
      written ++ escaped lines quotes 0 cs

/-- The ways a string can be quoted. -/
inductive Quoting where
  | basic
  | literal
  | linesBasic
  | linesLiteral
  deriving DecidableEq, Repr

/-- A string in the given quotes. -/
def quotedAs (q : Quoting) (text : List Char) : List Char :=
  let opening : List Char := if text.contains '\n' then ['\n'] else []
  match q with
  | .basic => '"' :: escaped false 0 0 text ++ ['"']
  | .literal => '\'' :: text ++ ['\'']
  | .linesBasic => "\"\"\"".toList ++ opening ++ escaped true 2 0 text ++ "\"\"\"".toList
  | .linesLiteral => "'''".toList ++ opening ++ text ++ "'''".toList

/-- The quotes a string is written in: plain ones if nothing has to be escaped. -/
def quoting (text : List Char) : Quoting :=
  let codes := text.any needsEscape
  let backslash := text.contains '\\'
  let newline := text.contains '\n'
  let singles := longestRun '\'' 0 text
  let doubles := longestRun '"' 0 text
  if !codes && !backslash && doubles = 0 && !newline then .basic
  else if !codes && singles = 0 && !newline then .literal
  else if !codes && !backslash && doubles ≤ 2 then .linesBasic
  else if !codes && singles ≤ 2 then .linesLiteral
  else if newline then .linesBasic
  else .basic

/-- A string as it is written. -/
def quoted (text : String) : String := String.ofList (quotedAs (quoting text.toList) text.toList)

/-- Whether a character can be part of a key without quotes. -/
def isBare (c : Char) : Bool := c.isAlphanum || c = '_' || c = '-'

/-- The quotes of a key that needs some. -/
def keyQuoting (text : List Char) : Quoting :=
  let codes := text.any fun c => needsEscape c || c = '\n'
  if !codes && !text.contains '\\' && !text.contains '"' then .basic
  else if !codes && !text.contains '\'' then .literal
  else .basic

/-- A key as it is written. -/
def key (text : String) : String :=
  let cs := text.toList
  if !cs.isEmpty && cs.all isBare then text else String.ofList (quotedAs (keyQuoting cs) cs)

/-! ### Values -/

/-- The key that dates are kept under. -/
def dateKey : String := "$__toml_private_datetime"

mutual

/-- A value as it is written on one line. A date is written as a table. -/
def render : Toml → String
  | .string text => quoted text
  | .integer value => toString value
  | .float value => value.text "nan"
  | .boolean value => if value then "true" else "false"
  | .datetime text => "\x7b " ++ key dateKey ++ " = " ++ quoted text ++ " \x7d"
  | .array items => "[" ++ ", ".intercalate (renderItems items) ++ "]"
  | .table entries =>
    match renderEntries entries with
    | [] => "\x7b\x7d"
    | written => "\x7b " ++ ", ".intercalate written ++ " \x7d"

/-- The items of an array as they are written. -/
def renderItems : List Toml → List String
  | [] => []
  | v :: vs => render v :: renderItems vs

/-- The entries of a table as they are written. -/
def renderEntries : List (String × Toml) → List String
  | [] => []
  | (k, v) :: rest => (key k ++ " = " ++ render v) :: renderEntries rest

end

/-- The value of a key in the entries of a table. -/
def get? (entries : List (String × Toml)) (key : String) : Option Toml :=
  (entries.find? fun entry => entry.1 = key).map (·.2)

end Toml

end WriteGuard
