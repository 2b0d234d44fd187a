import WriteGuard.Text.Span

/-!
Texts are lists of characters; places in them are counted in bytes of their UTF-8 form, or in UTF-16 code units
where an editor asks. A cut at a byte offset exists only between two characters.
-/

namespace WriteGuard.Text

/-- The number of bytes of a text. -/
def byteLength : List Char → Nat
  | [] => 0
  | c :: cs => c.utf8Size + byteLength cs

/-- The number of UTF-16 code units of a character. -/
def units (c : Char) : Nat := if c.val < 0x10000 then 1 else 2

/-- The number of UTF-16 code units of a text. -/
def unitLength : List Char → Nat
  | [] => 0
  | c :: cs => units c + unitLength cs

/-- The text after its first `n` bytes, when a character or the end of the text starts there. -/
def dropBytes? : Nat → List Char → Option (List Char)
  | 0, cs => some cs
  | _ + 1, [] => none
  | n + 1, c :: cs => if c.utf8Size ≤ n + 1 then dropBytes? (n + 1 - c.utf8Size) cs else none

/-- The first `n` bytes of a text, when a character or the end of the text starts after them. -/
def takeBytes? : Nat → List Char → Option (List Char)
  | 0, _ => some []
  | _ + 1, [] => none
  | n + 1, c :: cs =>
    if c.utf8Size ≤ n + 1 then (takeBytes? (n + 1 - c.utf8Size) cs).map (c :: ·) else none

/-- The piece of a text between two byte offsets, when both lie between characters and in order. -/
def slice? (cs : List Char) (s : Span) : Option (List Char) :=
  if s.start ≤ s.stop then (dropBytes? s.start cs).bind (takeBytes? (s.stop - s.start)) else none

/-- The piece of a text at a range, or nothing where there is no such piece. -/
def sliceD (cs : List Char) (s : Span) : List Char := (slice? cs s).getD []

end WriteGuard.Text
