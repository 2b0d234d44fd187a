import WriteGuard.Text.Bytes

/-!
Lines of a text: where each starts, which line and column a byte offset has, and what a line says. Lines are divided
by line feeds only; carriage returns at the end of a line are not part of what it says.
-/

namespace WriteGuard

/-- The byte offsets at which the lines of a text start, in order. -/
structure Lines where
  starts : List Nat
  deriving DecidableEq, Repr

namespace Lines

/-- Offsets just past each line feed of a text that itself begins at `offset`. -/
def startsAfter : Nat → List Char → List Nat
  | _, [] => []
  | offset, c :: cs =>
    if c = '\n' then (offset + 1) :: startsAfter (offset + 1) cs else startsAfter (offset + c.utf8Size) cs

/-- The lines of a text. -/
def ofText (text : List Char) : Lines := ⟨0 :: startsAfter 0 text⟩

/-- The line starts at or before an offset. -/
def upTo (lines : Lines) (offset : Nat) : List Nat := lines.starts.takeWhile (· ≤ offset)

/-- The start of the line an offset is on. -/
def startOf (lines : Lines) (offset : Nat) : Nat := (lines.upTo offset).getLastD 0

/-- The line of an offset, counted from one, and its column in bytes, counted from zero. -/
def lineCol (lines : Lines) (offset : Nat) : Nat × Nat :=
  ((lines.upTo offset).length, offset - lines.startOf offset)

/-- A text without the carriage returns at its end. -/
def withoutReturns (line : List Char) : List Char := (line.reverse.dropWhile (· = '\r')).reverse

/-- The bytes of line `number`, counted from one, without its line feed. -/
def lineSpan? (lines : Lines) (text : List Char) (number : Nat) : Option Span :=
  match number with
  | 0 => none
  | n + 1 => lines.starts[n]?.map fun start =>
      ⟨start, max start (match lines.starts[n + 1]? with
        | some next => next - 1
        | none => Text.byteLength text)⟩

/-- What line `number`, counted from one, says; nothing for a line that is not there. -/
def lineText (lines : Lines) (text : List Char) (number : Nat) : List Char :=
  match lines.lineSpan? text number with
  | none => []
  | some span => withoutReturns (Text.sliceD text span)

end Lines

/-- A place in a document as editors count: a line from zero and a column in UTF-16 code units. -/
structure Position where
  line : Nat
  character : Nat
  deriving DecidableEq, Repr, Inhabited

namespace Position

/-- Editors hold lines and columns in words of 32 bits. -/
def word (n : Nat) : Nat := n % 4294967296

/-- The place of a byte offset. Inside a character the column counts bytes. -/
def ofOffset (lines : Lines) (text : List Char) (offset : Nat) : Position :=
  let (line, column) := lines.lineCol offset
  let before := Text.slice? text ⟨lines.startOf offset, min offset (Text.byteLength text)⟩
  ⟨word (line - 1), word ((before.map Text.unitLength).getD column)⟩

end Position

end WriteGuard
