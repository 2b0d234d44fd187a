/-!
Colours and styles of text on a terminal.
-/

namespace WriteGuard

/-- A colour of text. -/
inductive Colour where
  | red
  | green
  | yellow
  | blue
  | cyan
  deriving DecidableEq, Repr

/-- The number of a colour in a control sequence. -/
def Colour.code : Colour → String
  | .red => "31"
  | .green => "32"
  | .yellow => "33"
  | .blue => "34"
  | .cyan => "36"

/-- How a text is shown. -/
structure Style where
  bold : Bool := false
  dimmed : Bool := false
  underline : Bool := false
  colour : Option Colour := none
  deriving DecidableEq, Repr

namespace Style

/-- The numbers of a style. -/
def codes (s : Style) : List String :=
  (if s.bold then ["1"] else []) ++ (if s.dimmed then ["2"] else []) ++ (if s.underline then ["4"] else [])
    ++ (s.colour.map Colour.code).toList

/-- The sequence that begins a style. -/
def opening (s : Style) : List Char := ("\x1b[" ++ ";".intercalate s.codes ++ "m").toList

/-- The sequence that ends every style. -/
def closing : List Char := "\x1b[0m".toList

/-- A text in which the style is taken up again after every end of styles; `skip` characters are passed over first. -/
def resumed (opening : List Char) : Nat → List Char → List Char
  | _, [] => []
  | 0, c :: cs =>
    if closing.isPrefixOf (c :: cs) then c :: resumed opening (closing.length - 1) cs else c :: resumed opening 0 cs
  | 1, c :: cs => c :: opening ++ resumed opening 0 cs
  | n + 2, c :: cs => c :: resumed opening (n + 1) cs

/-- A text in a style, where colours are on. -/
def paint (s : Style) (colours : Bool) (text : String) : String :=
  if colours then String.ofList (s.opening ++ resumed s.opening 0 text.toList ++ closing) else text

end Style

end WriteGuard
