/-!
Scanners. A scanner looks at the front of a text and says how many characters its lexeme takes, so that a lexeme is
always the beginning of the text it was found in.
-/

namespace WriteGuard.Source

/-- The number of characters a lexeme takes from the front of a text, if it stands there. -/
abbrev Scanner := List Char → Option Nat

namespace Scanner

/-! ### Characters -/

/-- Spaces, line ends and invisible characters that may stand between any two tokens. -/
def isBlank (c : Char) : Bool :=
  c = ' ' || ('\t' ≤ c && c ≤ '\r') || c = '\u00a0' || c = '\u1680' || ('\u2000' ≤ c && c ≤ '\u200b')
    || c = '\u2028' || c = '\u2029' || c = '\u202f' || c = '\u205f' || c = '\u2060' || c = '\u3000' || c = '\ufeff'

/-- Whether a line ends with this character. -/
def isLineEnd (c : Char) : Bool := c = '\n' || c = '\u2028' || c = '\u2029'

/-- Punctuation that no name holds. -/
def marks : List Char := ":;`\"'@#.,|^&<=>+-*/\\%?!~()[]\x7b\x7d".toList

/-- Whether a name may hold this character after its first. -/
def isNamePart (c : Char) : Bool := !(c ≤ '\x1f' || isBlank c || marks.contains c)

/-- Whether a name may begin with this character. -/
def isNameStart (c : Char) : Bool := isNamePart c && !c.isDigit

/-- Whether the character is a hexadecimal digit. -/
def isHex (c : Char) : Bool := c.isDigit || ('a' ≤ c && c ≤ 'f') || ('A' ≤ c && c ≤ 'F')

/-- The length of the longest front of a text whose characters all pass a test. -/
def runLength (p : Char → Bool) : List Char → Nat
  | [] => 0
  | c :: cs => if p c then runLength p cs + 1 else 0

/-! ### Fixed texts -/

/-- The given text. -/
def exactly (s : String) : Scanner := fun text =>
  if s.toList.isPrefixOf text then some s.length else none

/-- The first match of several scanners. -/
def oneOf (scanners : List Scanner) : Scanner := fun text => scanners.findSome? (· text)

/-- A nonempty run of characters that pass a test. -/
def run (p : Char → Bool) : Scanner := fun text =>
  match runLength p text with
  | 0 => none
  | n => some n

/-- The operators and other punctuation of expressions; of two that fit, the one listed first is read. -/
def operators : List String :=
  [">>>=", "===", "!==", "**=", "<<=", ">>=", ">>>", "&&=", "||=", "??=", "...",
   "=>", "==", "!=", "<=", ">=", "<<", ">>", "++", "--", "+=", "-=", "*=", "/=", "%=", "&=", "|=", "^=",
   "&&", "||", "??", "**",
   "=", "<", ">", "+", "-", "*", "/", "%", "&", "|", "^", "!", "~"]

/-- The longest operator at the front of a text. -/
def operatorAt (text : List Char) : Option String := operators.find? fun s => s.toList.isPrefixOf text

/-- The given operator, where no longer one stands. -/
def operator (s : String) : Scanner := fun text => if operatorAt text = some s then some s.length else none

/-! ### Names -/

/-- A character written by its code point in a name. -/
def nameEscape : Scanner
  | '\\' :: 'u' :: '{' :: rest =>
    let n := runLength isHex rest
    if 0 < n && (rest.drop n).head? = some '}' then some (n + 4) else none
  | '\\' :: 'u' :: a :: b :: c :: d :: _ => if isHex a && isHex b && isHex c && isHex d then some 6 else none
  | _ => none

/-- How far a name goes on, read in at most `fuel` steps. -/
def nameRest : Nat → List Char → Nat
  | 0, _ => 0
  | _ + 1, [] => 0
  | fuel + 1, c :: cs =>
    if isNamePart c then nameRest fuel cs + 1
    else match nameEscape (c :: cs) with
      | some n => nameRest fuel ((c :: cs).drop n) + n
      | none => 0

/-- A name, keyword or not. -/
def name : Scanner
  | [] => none
  | c :: cs =>
    if isNameStart c then some (nameRest cs.length cs + 1)
    else (nameEscape (c :: cs)).map fun n => nameRest cs.length ((c :: cs).drop n) + n

/-- The given word, where no longer name stands. -/
def word (s : String) : Scanner := fun text =>
  if s.toList.isPrefixOf text then
    match text.drop s.length with
    | [] => some s.length
    | c :: _ => if isNamePart c || c = '\\' then none else some s.length
  else none

/-- Words that are never the name of a variable. -/
def reserved : List String :=
  ["break", "case", "catch", "class", "const", "continue", "debugger", "default", "delete", "do", "else", "export",
   "extends", "false", "finally", "for", "function", "if", "import", "in", "instanceof", "new", "null", "return",
   "super", "switch", "this", "throw", "true", "try", "typeof", "var", "void", "while", "with"]

/-- Spaces and line ends of the basic character set. -/
def isSpace (c : Char) : Bool := c = ' ' || ('\t' ≤ c && c ≤ '\r')

/-- The number of characters up to the last line end among the spaces at the front of a text; none where there is none. -/
def lastLineEnd (text : List Char) : Option Nat :=
  match (text.take (runLength isSpace text)).reverse.dropWhile (· ≠ '\n') with
  | [] => none
  | spaces => some spaces.length

/-- The words `static get` at the end of a line, with the spaces up to the last line end after them. -/
def staticGetter : Scanner := fun text =>
  match "static".toList.isPrefixOf text, runLength isSpace (text.drop 6) with
  | true, gap + 1 =>
    let rest := text.drop (6 + (gap + 1))
    if "get".toList.isPrefixOf rest then (lastLineEnd (rest.drop 3)).map (6 + (gap + 1) + 3 + ·) else none
  | _, _ => none

/-- What a scanner reads, unless it is one of the given words. -/
def butNot (words : List String) (scan : Scanner) : Scanner := fun text =>
  match scan text with
  | none => none
  | some n => if words.contains (String.ofList (text.take n)) then none else some n

/-- A name that can stand for a variable. -/
def identifier : Scanner := butNot reserved name

/-- A name that is private to a class. -/
def privateName : Scanner
  | '#' :: rest => (name rest).map (· + 1)
  | _ => none

/-! ### Numbers -/

/-- Digits that follow a digit, each with or without an underscore before it. -/
def moreDigits (p : Char → Bool) : List Char → Nat
  | '_' :: d :: cs => if p d then moreDigits p cs + 2 else 0
  | d :: cs => if p d then moreDigits p cs + 1 else 0
  | [] => 0

/-- Digits of one kind, with single underscores between them. -/
def digits (p : Char → Bool) : List Char → Nat
  | c :: cs => if p c then moreDigits p cs + 1 else 0
  | [] => 0

/-- Digits of one kind after a mark such as `0x`. -/
def marked (low high : Char) (p : Char → Bool) : List Char → Nat
  | '0' :: x :: rest =>
    if x = low || x = high then
      match digits p rest with
      | 0 => 0
      | n => n + 2
    else 0
  | _ => 0

/-- The exponent of a number. -/
def exponent : List Char → Nat
  | e :: rest =>
    if e = 'e' || e = 'E' then
      let sign := match rest with
        | '+' :: _ | '-' :: _ => 1
        | _ => 0
      match digits Char.isDigit (rest.drop sign) with
      | 0 => 0
      | n => n + sign + 1
    else 0
  | [] => 0

/-- The whole part of a number with a point or an exponent: a zero, or digits with at most one zero in front. -/
def wholePart : List Char → Nat
  | '0' :: c :: rest =>
    if '1' ≤ c && c ≤ '9' then digits Char.isDigit (c :: rest) + 1 else 1
  | text => digits Char.isDigit text

/-- The fraction and exponent after a whole part of `n` characters. -/
def decimal (n : Nat) (text : List Char) : Nat :=
  match text.drop n with
  | '.' :: rest =>
    let fraction := digits Char.isDigit rest
    if n = 0 && fraction = 0 then 0 else n + 1 + fraction + exponent (rest.drop fraction)
  | rest =>
    match exponent rest with
    | 0 => 0
    | k => if n = 0 then 0 else n + k

/-- A count of digits that may be closed by the mark of big integers. -/
def big (n : Nat) (text : List Char) : Nat :=
  if 0 < n && (text.drop n).head? = some 'n' then n + 1 else n

/-- A number: the longest of its readings. -/
def number : Scanner := fun text =>
  let readings :=
    [big (marked 'x' 'X' isHex text) text, big (marked 'b' 'B' (fun c => c = '0' || c = '1') text) text,
     big (marked 'o' 'O' (fun c => '0' ≤ c && c ≤ '7') text) text, big (digits Char.isDigit text) text,
     decimal (wholePart text) text]
  match readings.foldl max 0 with
  | 0 => none
  | n => some n

/-! ### Pieces of literals -/

/-- A character written by a backslash in a string or template. -/
def escape : Scanner
  | '\\' :: 'x' :: a :: b :: _ => if isHex a && isHex b then some 4 else none
  | '\\' :: 'u' :: rest => nameEscape ('\\' :: 'u' :: rest)
  | '\\' :: '\r' :: c :: _ => if isLineEnd c then some 3 else some 2
  | '\\' :: c :: rest =>
    if '0' ≤ c && c ≤ '7' then
      some (min 3 (runLength (fun d => '0' ≤ d && d ≤ '7') (c :: rest)) + 1)
    else if c = 'x' then none
    else some 2
  | _ => none

/-- Plain characters of a string in the given quotes. -/
def stringFragment (quote : Char) : Scanner := run fun c => c ≠ quote && c ≠ '\\' && c ≠ '\r' && c ≠ '\n'

/-- The length of plain characters of a template. -/
def templateLength : List Char → Nat
  | [] => 0
  | '$' :: '{' :: _ => 0
  | c :: cs => if c = '`' || c = '\\' then 0 else templateLength cs + 1

/-- Plain characters of a template; a template that is never closed has none. -/
def templateFragment : Scanner := fun text =>
  match templateLength text with
  | 0 => none
  | n => if text.length ≤ n then none else some n

/-- The length of the body of a regular expression; `inClass` tells whether a bracket is open. -/
def regexLength (inClass : Bool) : List Char → Nat
  | [] => 0
  | '\\' :: c :: cs => if c = '\n' then 0 else regexLength inClass cs + 2
  | c :: cs =>
    if c = '\n' then 0
    else if inClass then regexLength (c ≠ ']') cs + 1
    else if c = '/' then 0
    else regexLength (c = '[') cs + 1

/-- The body of a regular expression. -/
def regexBody : Scanner := fun text =>
  match regexLength false text with
  | 0 => none
  | n => some n

/-- The flags of a regular expression. -/
def regexFlags : Scanner := run fun c => 'a' ≤ c && c ≤ 'z'

/-! ### Comments -/

/-- The number of characters up to and including the end of a comment between lines. -/
def blockLength : List Char → Option Nat
  | [] => none
  | '*' :: '/' :: _ => some 2
  | _ :: cs => (blockLength cs).map (· + 1)

/-- A comment to the end of its line, or between marks. -/
def comment : Scanner
  | '/' :: '/' :: rest => some (runLength (fun c => !isLineEnd c && c ≠ '\r') rest + 2)
  | '/' :: '*' :: rest => (blockLength rest).map (· + 2)
  | _ => none

/-- A comment in the manner of markup pages, to the end of its line. -/
def markupComment : Scanner
  | '<' :: '!' :: '-' :: '-' :: rest => some (runLength (fun c => !isLineEnd c) rest + 4)
  | '-' :: '-' :: '>' :: rest => some (runLength (fun c => !isLineEnd c) rest + 3)
  | _ => none

/-- The first line of a script that names its interpreter. -/
def hashBang : Scanner
  | '#' :: '!' :: rest => some (runLength (· ≠ '\n') rest + 2)
  | _ => none

/-! ### Markup -/

/-- Whether a character ends the text between two elements. -/
def endsMarkupText (c : Char) : Bool := c = '<' || c = '>' || c = '{' || c = '}' || c = '&'

/-- Whether the text between two elements shows anything: more than line ends and the spaces after them. -/
def showsText (atNewline : Bool) : List Char → Bool
  | [] => false
  | c :: cs =>
    if endsMarkupText c then false
    else if c = '\n' then showsText true cs
    else if atNewline && isSpace c then showsText true cs
    else true

/-- The text between two elements. -/
def markupText : Scanner := fun text =>
  if showsText false text then some (runLength (fun c => !endsMarkupText c) text) else none

/-- A character written by its name or number in markup. -/
def entity : Scanner
  | '&' :: '#' :: rest =>
    let (mark, p, most) : Nat × (Char → Bool) × Nat := match rest with
      | 'x' :: _ | 'X' :: _ => (1, isHex, 6)
      | _ => (0, Char.isDigit, 5)
    let n := runLength p (rest.drop mark)
    if 0 < n && n ≤ most && (rest.drop (mark + n)).head? = some ';' then some (n + mark + 3) else none
  | '&' :: rest =>
    let n := runLength Char.isAlpha rest
    if 0 < n && n ≤ 30 && (rest.drop n).head? = some ';' then some (n + 2) else none
  | _ => none

/-- The name of an element or attribute, which may hold hyphens. -/
def markupName : Scanner := fun text =>
  match identifier text with
  | none => none
  | some n =>
    match text.drop n with
    | '-' :: rest => some (n + 1 + runLength (fun c => c.isAlphanum || c = '_' || c = '$' || c = '-') rest)
    | _ => some n

/-- The plain text of an attribute in the given quotes. -/
def attributeText (quote : Char) : Scanner := run (· ≠ quote)

end Scanner

end WriteGuard.Source
