import WriteGuard.Source.Token

/-!
Edits of a text at one of its tokens.
-/

namespace WriteGuard

/-- A change of a text. -/
inductive TextEdit where
  /-- New text in front of a token. -/
  | insertBefore (token : Token) (text : String)
  /-- New text in the place of a token. -/
  | replace (token : Token) (text : String)
  deriving DecidableEq, Repr, Inhabited

namespace TextEdit

/-- The token an edit is made at. -/
def token : TextEdit → Token
  | .insertBefore t _ | .replace t _ => t

/-- The bytes an edit takes away; none for an insertion. -/
def range : TextEdit → Span
  | .insertBefore t _ => Span.empty t.span.start
  | .replace t _ => t.span

/-- The text an edit brings. -/
def newText : TextEdit → String
  | .insertBefore _ s | .replace _ s => s

/-- The text after an edit. An edit whose range is not part of the text changes nothing. -/
def apply (e : TextEdit) (content : List Char) : List Char :=
  let r := e.range
  match Text.takeBytes? r.start content, Text.dropBytes? r.stop content with
  | some before, some after => if r.start ≤ r.stop then before ++ e.newText.toList ++ after else content
  | _, _ => content

end TextEdit

end WriteGuard
