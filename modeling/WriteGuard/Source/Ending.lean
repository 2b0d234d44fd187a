import WriteGuard.Source.Dialect
import WriteGuard.Source.Scanner

/-!
Where a statement ends without a semicolon: before a closing brace, at the end of the text, and at a line end after
which no operator goes on. The dialects differ in how they treat comments on the way and in what may open the next line.
-/

namespace WriteGuard.Source.Ending

open Scanner

/-- The text after the rest of its line. -/
def afterLine : List Char → List Char
  | [] => []
  | c :: cs => if isLineEnd c then c :: cs else afterLine cs

/-- The text after the end of a comment between marks, and whether a line ended on the way. -/
def afterBlock (newline : Bool) : List Char → Bool × List Char
  | [] => (newline, [])
  | '*' :: '/' :: cs => (newline, cs)
  | c :: cs => afterBlock (newline || isLineEnd c) cs

/-- The text after spaces. -/
def afterSpaces : List Char → List Char
  | [] => []
  | c :: cs => if isSpace c then afterSpaces cs else c :: cs

/-- The text after spaces and comments, none where a lone slash stands. -/
def afterGaps : Nat → List Char → Option (List Char)
  | 0, _ => none
  | fuel + 1, text =>
    match afterSpaces text with
    | '/' :: '/' :: rest => afterGaps fuel (afterLine rest)
    | '/' :: '*' :: rest => afterGaps fuel (afterBlock false rest).2
    | '/' :: _ => none
    | rest => some rest

/-- What stands between an expression and the rest of its line. -/
inductive Gap where
  /-- A slash that opens no comment. -/
  | slash
  /-- One comment that ends on the line it begins on, then the text after it. -/
  | inline (rest : List Char)
  /-- Comments that end the line, then the text after them and after all spaces. -/
  | lines (rest : List Char)

/-- The comments at the front of a text that begins with a slash. -/
def gap : Nat → List Char → Gap
  | 0, _ => .slash
  | fuel + 1, text =>
    match afterSpaces text with
    | '/' :: '/' :: rest => gap fuel (afterLine rest)
    | '/' :: '*' :: rest =>
      let (newline, rest) := afterBlock false rest
      if rest.head? = some '/' then gap fuel rest
      else if newline then .lines rest else .inline rest
    | '/' :: _ => .slash
    | rest => .lines rest

/-- Whether a line that begins with `in` or `instanceof` goes on with the expression before it. -/
def opensRelation (text : List Char) : Bool :=
  match text with
  | 'n' :: rest =>
    let word := rest.takeWhile Char.isAlpha
    word = [] || word = "stanceof".toList
  | _ => false

/-- Whether a line of JavaScript that begins this way is a new statement. -/
def opensScriptStatement : List Char → Bool
  | [] => true
  | '.' :: rest => (rest.head?.map Char.isDigit).getD false
  | '+' :: rest => rest.head? = some '+'
  | '-' :: rest => rest.head? = some '-'
  | '!' :: rest => rest.head? ≠ some '='
  | 'i' :: rest => !opensRelation rest
  | c :: _ => !("`,:;*%><=[(?^|&/".toList.contains c)

/-- Whether a line of TypeScript that begins this way is a new statement. After an expression a bracket goes on. -/
def opensTypedStatement (afterExpression : Bool) : List Char → Bool
  | [] => true
  | '(' :: _ | '[' :: _ => !afterExpression
  | '+' :: rest => rest.head? = some '+'
  | '-' :: rest => rest.head? = some '-'
  | '!' :: rest => rest.head? ≠ some '='
  | 'i' :: rest => !opensRelation rest
  | c :: _ => !("`,.;*%><=?^|&/:".toList.contains c)

/-- Whether a statement ends at the front of this JavaScript text. -/
def scriptEnds (afterExpression : Bool) : Nat → List Char → Bool
  | 0, _ => false
  | _ + 1, [] => true
  | fuel + 1, c :: cs =>
    let afterNewline (rest : List Char) : Bool := match afterGaps (fuel + 2) rest with
      | none => false
      | some next => opensScriptStatement next
    let goOn (rest : List Char) : Bool := match rest with
      | [] => false
      | d :: ds =>
        if d = '}' then true
        else if isLineEnd d then afterNewline ds
        else isSpace d && scriptEnds afterExpression fuel ds
    if c = '/' then
      match gap (fuel + 2) (c :: cs) with
      | .slash => false
      | .inline rest => goOn rest
      | .lines rest =>
        if !afterExpression && rest.head? ≠ some ',' && rest.head? ≠ some '=' then true else goOn rest
    else goOn (c :: cs)

/-- Whether a statement ends at the front of this TypeScript text. -/
def typedEnds (afterExpression : Bool) : List Char → Bool
  | [] => true
  | '}' :: rest => if (afterSpaces rest).head? = some ':' then afterExpression else true
  | c :: cs =>
    if c = '\n' then
      match afterGaps (cs.length + 1) cs with
      | none => false
      | some next => opensTypedStatement afterExpression next
    else isSpace c && typedEnds afterExpression cs

/-- Whether a statement ends right here without a semicolon. -/
def here (dialect : Dialect) (afterExpression : Bool) (text : List Char) : Bool :=
  match text with
  | [] => true
  | c :: _ =>
    if c = '/' || c = '}' || isSpace c || isLineEnd c then
      if dialect.typed then typedEnds afterExpression text
      else scriptEnds afterExpression (text.length + 1) text
    else false

/-- Whether a statement ends here, or after one of the comments that follow. -/
def ahead (dialect : Dialect) (afterExpression : Bool) : Nat → List Char → Bool
  | 0, _ => false
  | fuel + 1, text =>
    here dialect afterExpression text ||
      (let rest := text.dropWhile isBlank
       match comment rest with
       | some n => ahead dialect afterExpression fuel (rest.drop n)
       | none => false)

end WriteGuard.Source.Ending
