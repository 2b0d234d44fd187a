import WriteGuard.Config.Toml.Value

/-!
Reading the values of TOML that hold no others: strings, numbers, booleans, dates and times. A reader takes a text and
gives a value and the rest of the text, or nothing.
-/

namespace WriteGuard.Toml

/-- Reads a value from the front of a text. -/
abbrev Reader (α : Type) := List Char → Option (α × List Char)

namespace Reader

/-- The given text. -/
def exactly (s : String) : Reader Unit := fun text =>
  if s.toList.isPrefixOf text then some ((), text.drop s.length) else none

/-- The text after spaces and tabs. -/
def skipSpaces (text : List Char) : List Char := text.dropWhile fun c => c = ' ' || c = '\t'

/-- The text after a line end, if it begins with one. -/
def newline? : List Char → Option (List Char)
  | '\n' :: rest => some rest
  | '\r' :: '\n' :: rest => some rest
  | _ => none

/-! ### Strings -/

/-- Whether a character may stand for itself in a comment, and but for quotes and backslashes in a string. -/
def isPlain (c : Char) : Bool := c = '\t' || (' ' ≤ c && c ≠ '\x7f')

/-- Whether a character is a hexadecimal digit. -/
def isHex (c : Char) : Bool := c.isDigit || ('a' ≤ c && c ≤ 'f') || ('A' ≤ c && c ≤ 'F')

/-- The value of a hexadecimal digit. -/
def hexValue (c : Char) : Nat :=
  if c.isDigit then c.toNat - '0'.toNat
  else if 'a' ≤ c then c.toNat - 'a'.toNat + 10 else c.toNat - 'A'.toNat + 10

/-- The number that digits of a base stand for. -/
def natOf (base : Nat) (digits : List Char) : Nat := digits.foldl (fun n c => n * base + hexValue c) 0

/-- A character by its code point in `count` hexadecimal digits. -/
def codePoint (count : Nat) : Reader Char := fun text =>
  let digits := text.take count
  if digits.length = count && digits.all isHex then
    let n := natOf 16 digits
    if n.isValidChar then some (Char.ofNat n, text.drop count) else none
  else none

/-- A character written by what follows a backslash. -/
def escape : Reader Char
  | 'b' :: rest => some ('\x08', rest)
  | 't' :: rest => some ('\t', rest)
  | 'n' :: rest => some ('\n', rest)
  | 'f' :: rest => some ('\x0c', rest)
  | 'r' :: rest => some ('\r', rest)
  | '"' :: rest => some ('"', rest)
  | '\\' :: rest => some ('\\', rest)
  | 'u' :: rest => codePoint 4 rest
  | 'U' :: rest => codePoint 8 rest
  | _ => none

/-- The rest of a string in double quotes, read in at most `fuel` steps. -/
def basicRest : Nat → List Char → List Char → Option (List Char × List Char)
  | 0, _, _ => none
  | _ + 1, _, [] => none
  | fuel + 1, taken, c :: cs =>
    if c = '"' then some (taken.reverse, cs)
    else if c = '\\' then
      match escape cs with
      | some (d, rest) => basicRest fuel (d :: taken) rest
      | none => none
    else if isPlain c then basicRest fuel (c :: taken) cs
    else none

/-- A string in double quotes on one line. -/
def basic : Reader (List Char)
  | '"' :: rest => basicRest (rest.length + 1) [] rest
  | _ => none

/-- A string in single quotes on one line. -/
def literal : Reader (List Char)
  | '\'' :: rest =>
    let inside (c : Char) : Bool := isPlain c && c ≠ '\''
    match rest.dropWhile inside with
    | '\'' :: after => some (rest.takeWhile inside, after)
    | _ => none
  | _ => none

/-- The text after a backslash at the end of a line: blanks and line ends are skipped. -/
def skipFolded : List Char → List Char
  | [] => []
  | c :: cs => if c = ' ' || c = '\t' || c = '\n' then skipFolded cs
    else match c, cs with
      | '\r', '\n' :: rest => skipFolded rest
      | _, _ => c :: cs

/-- The quotes that close a string over several lines: three, with up to two more that belong to the string. -/
def closing? (quote : Char) (text : List Char) : Option (Nat × List Char) :=
  let count := (text.takeWhile (· = quote)).length
  if count < 3 then none else some (min (count - 3) 2, text.drop (min count 5))

/-- The rest of a string over several lines, read in at most `fuel` steps; `escapes` tells whether backslashes count. -/
def linesRest (quote : Char) (escapes : Bool) : Nat → List Char → List Char → Option (List Char × List Char)
  | 0, _, _ => none
  | _ + 1, _, [] => none
  | fuel + 1, taken, c :: cs =>
    if c = quote then
      match closing? quote (c :: cs) with
      | some (extra, rest) => some (taken.reverse ++ List.replicate extra quote, rest)
      | none => linesRest quote escapes fuel (c :: taken) cs
    else if escapes && c = '\\' then
      match newline? (skipSpaces cs) with
      | some rest => linesRest quote escapes fuel taken (skipFolded rest)
      | none =>
        match escape cs with
        | some (d, rest) => linesRest quote escapes fuel (d :: taken) rest
        | none => none
    else
      match newline? (c :: cs) with
      | some rest => linesRest quote escapes fuel ('\n' :: taken) rest
      | none => if isPlain c then linesRest quote escapes fuel (c :: taken) cs else none

/-- A string over several lines. A line end right after the opening quotes does not count. -/
def lines (quote : Char) (escapes : Bool) : Reader (List Char) := fun text =>
  match exactly (String.ofList [quote, quote, quote]) text with
  | none => none
  | some ((), rest) =>
    let rest := (newline? rest).getD rest
    linesRest quote escapes (rest.length + 1) [] rest

/-- The first reader that fits. -/
def orElse {α : Type} (first second : Reader α) : Reader α := fun text => (first text).or (second text)

/-- A reader with its value changed. -/
def map {α β : Type} (f : α → β) (r : Reader α) : Reader β := fun text => (r text).map fun (a, rest) => (f a, rest)

/-- A string of any form. -/
def string : Reader Toml := fun text =>
  let read : Reader (List Char) := match text with
    | '"' :: '"' :: '"' :: _ => lines '"' true
    | '"' :: _ => basic
    | '\'' :: '\'' :: '\'' :: _ => lines '\'' false
    | _ => literal
  map (fun cs => .string (String.ofList cs)) read text

/-! ### Numbers -/

/-- Digits after a first one, with single underscores between them. -/
def moreDigits (isDigit : Char → Bool) : List Char → List Char × List Char
  | '_' :: d :: cs =>
    if isDigit d then let (ds, rest) := moreDigits isDigit cs; (d :: ds, rest) else ([], '_' :: d :: cs)
  | c :: cs =>
    if isDigit c then let (ds, rest) := moreDigits isDigit cs; (c :: ds, rest) else ([], c :: cs)
  | [] => ([], [])

/-- One or more digits. -/
def digits (isDigit : Char → Bool) : Reader (List Char)
  | c :: cs =>
    if isDigit c then let (ds, rest) := moreDigits isDigit cs; some (c :: ds, rest) else none
  | [] => none

/-- A sign, true for minus. -/
def sign : List Char → Bool × List Char
  | '+' :: rest => (false, rest)
  | '-' :: rest => (true, rest)
  | text => (false, text)

/-- Digits of a whole number: a zero, or digits that do not begin with one. -/
def whole : Reader (List Char)
  | '0' :: rest => some (['0'], rest)
  | text => digits Char.isDigit text

/-- A number in another base after its mark. -/
def based (mark : String) (base : Nat) (isDigit : Char → Bool) : Reader Int := fun text =>
  match exactly mark text with
  | none => none
  | some ((), rest) => map (fun ds => (natOf base ds : Int)) (digits isDigit) rest

/-- A whole number in decimal digits. -/
def decimal : Reader Int := fun text =>
  let (negative, rest) := sign text
  map (fun ds => if negative then -(natOf 10 ds : Int) else natOf 10 ds) whole rest

/-- A whole number that fits into 64 bits. -/
def integer : Reader Toml := fun text =>
  let read : Reader Int := orElse (based "0x" 16 isHex)
    (orElse (based "0o" 8 fun c => '0' ≤ c && c ≤ '7') (orElse (based "0b" 2 fun c => c = '0' || c = '1') decimal))
  match read text with
  | some (n, rest) => if -9223372036854775808 ≤ n && n ≤ 9223372036854775807 then some (.integer n, rest) else none
  | none => none

/-- The exponent of a number; zero if there is none. -/
def exponent (text : List Char) : Option (Option Int × List Char) :=
  match text with
  | e :: rest =>
    if e = 'e' || e = 'E' then
      let (negative, rest) := sign rest
      map (fun ds => some (if negative then -(natOf 10 ds : Int) else natOf 10 ds)) (digits Char.isDigit) rest
    else some (none, text)
  | [] => some (none, [])

/-- A number with a point or an exponent, or one of the words for the limits of numbers. One that is too great is
refused. -/
def float : Reader Toml := fun text =>
  let (negative, rest) := sign text
  match exactly "inf" rest, exactly "nan" rest with
  | some ((), after), _ => some (.float (.infinite negative), after)
  | _, some ((), after) => some (.float .nan, after)
  | none, none =>
    match whole rest with
    | none => none
    | some (ds, rest) =>
      let part : Option (List Char × List Char) := match rest with
        | '.' :: after => digits Char.isDigit after
        | _ => some ([], rest)
      match part with
      | none => none
      | some (fraction, rest) =>
        match exponent rest with
        | none => none
        | some (power, rest) =>
          if fraction.isEmpty && power.isNone then none
          else
            let value := Double.ofDecimal negative (natOf 10 (ds ++ fraction)) (power.getD 0 - fraction.length)
            if value = .infinite false then none else some (.float value, rest)

/-! ### Dates and times -/

/-- A number of exactly `count` digits between two bounds. -/
def fixed (count low high : Nat) : Reader Nat := fun text =>
  let ds := text.take count
  if ds.length = count && ds.all Char.isDigit && low ≤ natOf 10 ds && natOf 10 ds ≤ high
  then some (natOf 10 ds, text.drop count) else none

/-- Whether a year has a day more. -/
def isLeap (year : Nat) : Bool := (year % 4 = 0 && year % 100 ≠ 0) || year % 400 = 0

/-- The number of days of a month. -/
def daysIn (year month : Nat) : Nat :=
  if month = 2 then (if isLeap year then 29 else 28) else if [4, 6, 9, 11].contains month then 30 else 31

/-- A number with two digits at least. -/
def two (n : Nat) : String := if n < 10 then "0" ++ toString n else toString n

/-- A number with four digits at least. -/
def four (n : Nat) : String := String.ofList (List.replicate (4 - (Nat.toDigits 10 n).length) '0' ++ Nat.toDigits 10 n)

/-- A date. -/
def date : Reader String := fun text => do
  let (year, text) ← fixed 4 0 9999 text
  let ((), text) ← exactly "-" text
  let (month, text) ← fixed 2 1 12 text
  let ((), text) ← exactly "-" text
  let (day, text) ← fixed 2 1 (daysIn year month) text
  return (four year ++ "-" ++ two month ++ "-" ++ two day, text)

/-- The parts of a second, to nine digits, without zeros at the end. -/
def secondPart (text : List Char) : Option (String × List Char) :=
  match text with
  | '.' :: rest =>
    let ds := rest.takeWhile Char.isDigit
    if ds.isEmpty then none
    else
      let kept := ((ds.take 9).reverse.dropWhile (· = '0')).reverse
      some (if kept.isEmpty then "" else String.ofList ('.' :: kept), rest.drop ds.length)
  | _ => some ("", text)

/-- A time of day. -/
def time : Reader String := fun text => do
  let (hour, text) ← fixed 2 0 23 text
  let ((), text) ← exactly ":" text
  let (minute, text) ← fixed 2 0 59 text
  let ((), text) ← exactly ":" text
  let (second, text) ← fixed 2 0 60 text
  let (part, text) ← secondPart text
  return (two hour ++ ":" ++ two minute ++ ":" ++ two second ++ part, text)

/-- The distance of a local time from universal time, if one is given. -/
def offset (text : List Char) : Option (String × List Char) :=
  match text with
  | 'Z' :: rest | 'z' :: rest => some ("Z", rest)
  | c :: rest =>
    if c = '+' || c = '-' then do
      let (hours, rest) ← fixed 2 0 23 rest
      let ((), rest) ← exactly ":" rest
      let (minutes, rest) ← fixed 2 0 59 rest
      let mark := if c = '-' && 0 < hours + minutes then "-" else "+"
      return (mark ++ two hours ++ ":" ++ two minutes, rest)
    else some ("", text)
  | [] => some ("", text)

/-- A time after a date, divided from it by a letter or a space. -/
def timeAfter (text : List Char) : Option (String × List Char) :=
  match text with
  | c :: rest =>
    if c = 'T' || c = 't' || c = ' ' then
      match time rest with
      | none => some ("", text)
      | some (clock, rest) => (offset rest).map fun (zone, rest) => ("T" ++ clock ++ zone, rest)
    else some ("", text)
  | [] => some ("", text)

/-- A date, a time or both. -/
def datetime : Reader Toml := fun text =>
  match date text with
  | some (day, rest) => (timeAfter rest).map fun (clock, rest) => (.datetime (day ++ clock), rest)
  | none => map .datetime time text

/-- A value that holds no others. -/
def scalar : Reader Toml := fun text =>
  match text with
  | '"' :: _ | '\'' :: _ => string text
  | 't' :: _ => map (fun _ => .boolean true) (exactly "true") text
  | 'f' :: _ => map (fun _ => .boolean false) (exactly "false") text
  | _ => orElse datetime (orElse float integer) text

end Reader

end WriteGuard.Toml
