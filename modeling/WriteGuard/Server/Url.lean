import WriteGuard.Text.White

/-!
Addresses of documents, in their normal form, and the paths of files they stand for.
-/

namespace WriteGuard

/-- An address in its normal form. -/
structure Url where
  scheme : List Char
  /-- The name of a host, with a user and a number where there are any; none where the address has no place for one. -/
  authority : Option (List Char)
  /-- The host alone. -/
  host : List Char
  path : List Char
  /-- The query and the fragment, with their marks. -/
  rest : List Char
  deriving DecidableEq, Repr, Inhabited

namespace Url

/-! ### Escapes -/

/-- Two hexadecimal digits of a byte. -/
def hex2 (b : UInt8) : List Char :=
  let digit (n : Nat) : Char := Char.ofNat (if n < 10 then 48 + n else 55 + n)
  [digit (b.toNat / 16), digit (b.toNat % 16)]

/-- A character by the numbers of its bytes. -/
def escaped (c : Char) : List Char := (String.utf8EncodeChar c).flatMap fun b => '%' :: hex2 b

/-- A text in which characters that do not pass a test, and those outside the basic set, are escaped. -/
def encode (keep : Char → Bool) (text : List Char) : List Char :=
  text.flatMap fun c => if ' ' ≤ c && c < '\x7f' && keep c then [c] else escaped c

/-- Whether a character stands for itself in a path. -/
def inPath (c : Char) : Bool := !(" \"<>`#?\x7b\x7d".toList.contains c)

/-- Whether a character stands for itself in a query. -/
def inQuery (special : Bool) (c : Char) : Bool := !(" \"<>#".toList.contains c) && !(special && c = '\'')

/-- Whether a character stands for itself in a fragment. -/
def inFragment (c : Char) : Bool := !(" \"<>`".toList.contains c)

/-- The value of a hexadecimal digit. -/
def hexValue? (c : Char) : Option Nat :=
  if c.isDigit then some (c.toNat - 48)
  else if 'a' ≤ c && c ≤ 'f' then some (c.toNat - 87)
  else if 'A' ≤ c && c ≤ 'F' then some (c.toNat - 55)
  else none

/-- The bytes of a text with its escapes undone. -/
def decodeBytes : List Char → List UInt8
  | '%' :: a :: b :: rest =>
    match hexValue? a, hexValue? b with
    | some x, some y => UInt8.ofNat (16 * x + y) :: decodeBytes rest
    | _, _ => '%'.toUInt8 :: decodeBytes (a :: b :: rest)
  | c :: rest => String.utf8EncodeChar c ++ decodeBytes rest
  | [] => []

/-- A text with its escapes undone; bytes that are no text become a mark. -/
def decode (text : List Char) : List Char :=
  let bytes := decodeBytes text
  match String.fromUTF8? ⟨bytes.toArray⟩ with
  | some s => s.toList
  | none => bytes.map fun b => if b < 128 then Char.ofNat b.toNat else Char.ofNat 0xfffd

/-! ### Reading -/

/-- Schemes whose addresses always have hosts and paths, with the numbers that go without saying. -/
def specialSchemes : List (String × String) :=
  [("http", "80"), ("https", "443"), ("ws", "80"), ("wss", "443"), ("ftp", "21"), ("file", "")]

/-- Whether a scheme is one of them. -/
def isSpecial (scheme : List Char) : Bool := specialSchemes.any fun s => s.1.toList = scheme

/-- The scheme of an address and the text after its colon. -/
def scheme? (text : List Char) : Option (List Char × List Char) :=
  let name := text.takeWhile fun c => c.isAlphanum || c = '+' || c = '-' || c = '.'
  match name, text.drop name.length with
  | c :: _, ':' :: rest => if c.isAlpha then some (name.map Char.toLower, rest) else none
  | _, _ => none

/-- Whether a character divides the names of a path. -/
def isSlash (special : Bool) (c : Char) : Bool := c = '/' || (special && c = '\\')

/-- The texts between slashes. -/
def segments (special : Bool) : List Char → List (List Char)
  | [] => [[]]
  | c :: cs =>
    if isSlash special c then [] :: segments special cs
    else match segments special cs with
      | [] => [[c]]
      | s :: ss => (c :: s) :: ss

/-- Whether a name of a path stands for the directory itself. -/
def isDot (s : List Char) : Bool := [".", "%2e"].contains (String.ofList (s.map Char.toLower))

/-- Whether a name of a path stands for the directory above. -/
def isDotDot (s : List Char) : Bool :=
  ["..", ".%2e", "%2e.", "%2e%2e"].contains (String.ofList (s.map Char.toLower))

/-- Names of a path with dots resolved; `above` are the names before them, the last one first. -/
def resolveDots (above : List (List Char)) : List (List Char) → List (List Char)
  | [] => above.reverse
  | [s] =>
    if isDotDot s then ([] :: above.drop 1).reverse
    else if isDot s then ([] :: above).reverse
    else (s :: above).reverse
  | s :: rest =>
    if isDotDot s then resolveDots (above.drop 1) rest
    else if isDot s then resolveDots above rest
    else resolveDots (s :: above) rest

/-- A path that begins with a slash, in its normal form. -/
def normalPath (special : Bool) (path : List Char) : List Char :=
  match path with
  | [] => if special then ['/'] else []
  | c :: cs =>
    let inner := if isSlash special c then cs else c :: cs
    (resolveDots [] (segments special inner)).flatMap fun s => '/' :: encode inPath s

/-- The query and fragment of an address in their normal form. -/
def normalRest (special : Bool) (text : List Char) : List Char :=
  let query := text.takeWhile (· ≠ '#')
  let fragment := text.drop query.length
  (match query with
    | '?' :: q => '?' :: encode (inQuery special) q
    | _ => []) ++
  (match fragment with
    | '#' :: f => '#' :: encode inFragment f
    | _ => [])

/-- A host with its user and number: the whole in its normal form, and the host alone; none where it is wrong. -/
def authority? (scheme : List Char) (text : List Char) : Option (List Char × List Char) :=
  let special := isSpecial scheme
  let user := match (text.reverse.dropWhile (· ≠ '@')).reverse with
    | [] => []
    | u => u
  let place := text.drop user.length
  let (host, number) := match place with
    | '[' :: _ => let h := place.takeWhile (· ≠ ']'); (h ++ [']'], place.drop (h.length + 1))
    | _ => let h := place.takeWhile (· ≠ ':'); (h, place.drop h.length)
  let host := if special then (decode host).map Char.toLower else encode (fun _ => true) host
  let digits := number.drop 1
  let usual := ((specialSchemes.find? fun s => s.1.toList = scheme).map (·.2.toList)).getD []
  if !digits.all Char.isDigit then none
  else if host = [] && special && scheme ≠ "file".toList then none
  else
    let number := if digits = [] || digits = usual then [] else ':' :: digits
    some (user ++ host ++ number, host)

/-- The address that a text gives; none where it is no address. -/
def parse? (text : List Char) : Option Url := do
  let blank (c : Char) : Bool := c ≤ ' '
  let text := ((text.dropWhile blank).reverse.dropWhile blank).reverse.filter fun c => c ≠ '\t' && c ≠ '\n' && c ≠ '\r'
  let (scheme, text) ← scheme? text
  let special := isSpecial scheme
  let before := text.takeWhile fun c => c ≠ '?' && c ≠ '#'
  let rest := normalRest special (text.drop before.length)
  let slashes := (before.takeWhile (isSlash special)).length
  let named (skip : Nat) : Option Url := do
    let authority := (before.drop skip).takeWhile fun c => !isSlash special c
    let path := before.drop (skip + authority.length)
    let (whole, host) ← authority? scheme authority
    return ⟨scheme, some whole, host, normalPath special path, rest⟩
  if scheme = "file".toList then
    if 2 ≤ slashes then
      let url ← named 2
      return if url.host = "localhost".toList then { url with authority := some [], host := [] } else url
    else return ⟨scheme, some [], [], normalPath special (if slashes = 0 then '/' :: before else before), rest⟩
  else if special then named slashes
  else if 2 ≤ slashes then named 2
  else if slashes = 1 then return ⟨scheme, none, [], normalPath special before, rest⟩
  else return ⟨scheme, none, [], encode (fun _ => true) before, rest⟩

/-! ### Writing -/

/-- The text of an address. -/
def text (u : Url) : List Char :=
  u.scheme ++ ':' :: (match u.authority with
    | some a => '/' :: '/' :: a
    | none => []) ++ u.path ++ u.rest

/-- The path of the file an address stands for; none where it names another host or has no path of names. -/
def filePath? (u : Url) : Option (List Char) :=
  if u.host ≠ [] && u.host ≠ "localhost".toList then none
  else match u.path with
    | '/' :: _ =>
      let path := decode u.path
      match path.reverse with
      | c :: d :: _ => some (if (c = ':' || c = '|') && d.isAlpha then path ++ ['/'] else path)
      | _ => some path
    | _ => none

end Url

end WriteGuard
