import WriteGuard.Config.Options
import WriteGuard.Server.Url
import WriteGuard.Text.Json
import WriteGuard.Text.Lines

/-!
Reading the parts of messages between an editor and the server, with the words for what is wrong in them.
-/

namespace WriteGuard

namespace Json

mutual

/-- A JSON value as plain data. -/
def toDatum : Json → Datum
  | .null => .null
  | .boolean b => .boolean b
  | .number m places =>
    if places = 0 then .integer m else .float (Double.ofDecimal (m < 0) m.natAbs (-(places : Int)))
  | .string s => .string s
  | .array items => .list (itemsToData items)
  | .object entries => .map (entriesToData entries)

/-- JSON values as plain data. -/
def itemsToData : List Json → List Datum
  | [] => []
  | j :: js => toDatum j :: itemsToData js

/-- JSON entries as plain data. -/
def entriesToData : List (String × Json) → List (String × Datum)
  | [] => []
  | (k, v) :: rest => (k, toDatum v) :: entriesToData rest

end

end Json

/-- Reads a part of a message. -/
abbrev Decoder (α : Type) := Json → Except String α

namespace Decoder

/-- The error of a part of another kind than expected. -/
def unexpected {α : Type} (j : Json) (expected : String) : Except String α :=
  .error ("invalid type: " ++ j.toDatum.describe ++ ", expected " ++ expected)

/-- A text. -/
def string : Decoder String
  | .string s => .ok s
  | j => unexpected j "a string"

/-- A whole number between two bounds. -/
def integer (low high : Int) (expected : String) : Decoder Int
  | .number m 0 =>
    if low ≤ m && m ≤ high then .ok m
    else .error ("invalid value: integer `" ++ toString m ++ "`, expected " ++ expected)
  | j => unexpected j expected

/-- A natural number of 32 bits. -/
def u32 : Decoder Nat := fun j => (integer 0 4294967295 "u32" j).map Int.toNat

/-- A whole number of 32 bits. -/
def i32 : Decoder Int := integer (-2147483648) 2147483647 "i32"

/-- An address. -/
def url : Decoder Url := fun j => do
  let s ← string j
  match Url.parse? s.toList with
  | some u => return u
  | none => .error ("invalid value: string " ++ Datum.quoted s ++ ", expected relative URL without a base")

/-- A list. -/
def list {α : Type} (item : Decoder α) : Decoder (List α)
  | .array items => items.mapM item
  | j => unexpected j "a sequence"

/-- A part that may be missing or null. -/
def optional {α : Type} (part : Decoder α) : Decoder (Option α)
  | .null => .ok none
  | j => (part j).map some

/-- A part of an object, if it is there. -/
def field? {α : Type} (j : Json) (name : String) (part : Decoder α) : Except String (Option α) :=
  match j.get? name with
  | none => .ok none
  | some v => (part v).map some

/-- A part that may be missing or null in an object. -/
def optionalField {α : Type} (j : Json) (name : String) (part : Decoder α) : Except String (Option α) :=
  (field? j name (optional part)).map Option.join

/-- The part of an object that has to be there. -/
def required {α : Type} (name : String) (part : Option α) : Except String α :=
  match part with
  | some a => .ok a
  | none => .error ("missing field `" ++ name ++ "`")

/-- An object of a kind, as its parts by name or in order; `names` are in order. -/
def record {α : Type} (kind : String) (names : List String) (read : Decoder α) : Decoder α := fun j =>
  match j with
  | .object _ => read j
  | .array items =>
    if items.length = names.length then read (Json.ofEntries (names.zip items))
    else .error ("invalid length " ++ toString items.length ++ ", expected " ++ kind ++ " with "
      ++ toString names.length ++ " elements")
  | _ => unexpected j kind

end Decoder

namespace Position

/-- A place as the editor sends it. -/
def decoder : Decoder Position := Decoder.record "struct Position" ["line", "character"] fun j => do
  let character ← Decoder.field? j "character" Decoder.u32
  let line ← Decoder.field? j "line" Decoder.u32
  return ⟨← Decoder.required "line" line, ← Decoder.required "character" character⟩

/-- A place as it is sent. -/
def toJson (p : Position) : Json := .ofEntries [("line", .nat p.line), ("character", .nat p.character)]

end Position

/-- A range between two places of a document. -/
structure Range where
  start : Position
  stop : Position
  deriving DecidableEq, Repr, Inhabited

namespace Range

/-- The range of bytes of a text as the editor counts. -/
def ofSpan (lines : Lines) (content : List Char) (s : Span) : Range :=
  ⟨Position.ofOffset lines content s.start, Position.ofOffset lines content s.stop⟩

/-- A range as the editor sends it. -/
def decoder : Decoder Range := Decoder.record "struct Range" ["start", "end"] fun j => do
  let stop ← Decoder.field? j "end" Position.decoder
  let start ← Decoder.field? j "start" Position.decoder
  return ⟨← Decoder.required "start" start, ← Decoder.required "end" stop⟩

/-- A range as it is sent. -/
def toJson (r : Range) : Json := .ofEntries [("start", r.start.toJson), ("end", r.stop.toJson)]

end Range

end WriteGuard
