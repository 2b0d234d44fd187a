import WriteGuard.Text.White
import WriteGuard.Text.Word

/-!
Directives in comments that silence rules: on their own line, on the line after it, or in the whole file. A directive
names rules, divided by commas, or none to mean all; what follows two hyphens is a remark.
-/

namespace WriteGuard

/-- The lines a directive is about. -/
inductive DirectiveScope where
  | file
  | line
  | nextLine
  deriving DecidableEq, Repr, Inhabited

namespace DirectiveScope

/-- The name of a scope. -/
def name : DirectiveScope → String
  | .file => "File"
  | .line => "Line"
  | .nextLine => "NextLine"

end DirectiveScope

/-- A directive that silences rules. -/
structure Directive where
  /-- The line it begins on, counted from one. -/
  line : Nat
  scope : DirectiveScope
  /-- The rules it names; none for all rules. -/
  rules : Option (List String)
  deriving DecidableEq, Repr, Inhabited

namespace Directive

/-- Whether a directive silences a rule. -/
def allows (d : Directive) (rule : String) : Bool :=
  match d.rules with
  | none => true
  | some rules => rules.contains rule

/-- Whether a directive is about a line. -/
def covers (d : Directive) (line : Nat) : Bool :=
  match d.scope with
  | .file => true
  | .line => d.line = line
  | .nextLine => d.line + 1 = line

/-- The text before two hyphens. -/
def beforeRemark : List Char → List Char
  | [] => []
  | '-' :: '-' :: _ => []
  | c :: cs => c :: beforeRemark cs

/-- The rules a directive names, each once. -/
def rulesOf (text : List Char) : Option (List String) :=
  let names := ((Text.splitAt ',' (beforeRemark text)).map Text.trim).filter (· ≠ [])
  if names.isEmpty then none else some (names.map String.ofList).eraseDups

/-- A directive at the front of a text: its scope, the text of its list, and what follows it. -/
structure Match where
  scope : DirectiveScope
  list : List Char
  rest : List Char
  deriving DecidableEq, Repr

/-- What follows the words of a directive about one line, where the words end there. -/
def wordsEnd (rest : List Char) : Bool :=
  match rest with
  | [] => true
  | c :: _ => !Text.isWord c

/-- A directive in a comment to the end of the line. -/
def lineMatch? (text : List Char) : Option Match :=
  match Text.after? "//" text with
  | none => none
  | some text =>
    match Text.after? "firestore-lint-" (text.dropWhile fun c => c = ' ' || c = '\t') with
    | none => none
    | some text =>
      let found : Option (DirectiveScope × List Char) :=
        ((Text.after? "disable-next-line" text).map (.nextLine, ·)).or
          ((Text.after? "disable-line" text).map (.line, ·))
      match found with
      | none => none
      | some (scope, rest) =>
        if wordsEnd rest then
          let inLine (c : Char) : Bool := c ≠ '\r' && c ≠ '\n'
          some ⟨scope, rest.takeWhile inLine, rest.dropWhile inLine⟩
        else none

/-- A directive in a comment between marks. -/
def blockMatch? (text : List Char) : Option Match :=
  match Text.after? "/*" text with
  | none => none
  | some text =>
    match Text.after? "firestore-lint-disable" (text.dropWhile Text.isWhite) with
    | none => none
    | some rest =>
      match rest with
      | [] => none
      | c :: cs =>
        if Text.isWhite c then
          let inList (c : Char) : Bool := c ≠ '*'
          (Text.after? "*/" (cs.dropWhile inList)).map (⟨.file, cs.takeWhile inList, ·⟩)
        else (Text.after? "*/" rest).map (⟨.file, [], ·⟩)

/-- A directive at the front of a text. -/
def match? (text : List Char) : Option Match := (lineMatch? text).or (blockMatch? text)

/-- The directives of a text that stands on a line, from its `skip`-th character on. -/
def scan : Nat → Nat → List Char → List Directive
  | _, _, [] => []
  | skip, line, c :: cs =>
    let next := if c = '\n' then line + 1 else line
    match skip with
    | n + 1 => scan n next cs
    | 0 =>
      match match? (c :: cs) with
      | some m => ⟨line, m.scope, rulesOf m.list⟩ :: scan (cs.length - m.rest.length) next cs
      | none => scan 0 next cs

/-- The directives of a text, in order. -/
def ofText (text : List Char) : List Directive := scan 0 1 text

/-- Whether one of several directives silences a rule on a line. -/
def silences (directives : List Directive) (line : Nat) (rule : String) : Bool :=
  directives.any fun d => d.covers line && d.allows rule

end Directive

end WriteGuard
