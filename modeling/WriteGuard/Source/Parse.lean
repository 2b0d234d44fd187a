import WriteGuard.Source.Grammar
import WriteGuard.Text.Bytes

/-!
Syntax trees of whole texts. A text that does not follow the grammar still has a tree: what cannot be read becomes an
error, and reading goes on behind it. Braces that are missing at the end of the text are supplied.
-/

namespace WriteGuard.Source

/-- A text read as a program. -/
structure Parsed where
  root : Tree
  /-- Whether the text breaks the grammar. -/
  broken : Bool

namespace Parse

/-- The nesting of rules that a text can need. -/
def depth (text : List Char) : Nat := 64 * (text.length + 16)

/-- The text and place after skipping to an offset. -/
def skipTo (offset : Nat) (c : Cursor) : Cursor :=
  match Text.dropBytes? (offset - c.offset) c.rest with
  | some rest => ⟨offset, rest⟩
  | none => c

/-- One token that fits nowhere: a name, number or operator, or else one character. -/
def strayToken (text : List Char) : Nat :=
  match Scanner.oneOf [Scanner.name, Scanner.number] text with
  | some n => n
  | none =>
    match Scanner.operatorAt text with
    | some s => s.length
    | none => 1

/-- Statements read as far as they go, with errors for what does not fit; whether the text ends inside a statement. -/
def items (dialect : Dialect) (depth : Nat) : Nat → Cursor → List Tree × Bool
  | 0, _ => ([], true)
  | fuel + 1, c =>
    match Rule.read grammar depth { dialect := dialect } (.many (.phrase .statement)) c with
    | .ok trees next reach =>
      let (remarks, start) := Rule.remarks next
      if start.rest.isEmpty then (trees ++ remarks, false)
      else
        let context : Context := { dialect := dialect, limit := some reach }
        let found := match Rule.read grammar depth context (.phrase .statement) next with
          | .halt trees => trees
          | _ => []
        let stuck := skipTo reach next
        if (Rule.remarks stuck).2.rest.isEmpty then (trees ++ found, true)
        else
          let resumed := if start.offset < reach then stuck else start.advance (strayToken start.rest)
          let stray : List Tree :=
            if start.offset < reach then found
            else remarks ++ [.node (.other "stray token") none ⟨start.offset, resumed.offset⟩ []]
          let (more, ended) := items dialect depth fuel resumed
          (trees ++ Tree.enclose .error start.offset stray ++ more, ended)
    | _ => ([], true)

/-- The whole text from its first token to its end. -/
def root (kind : Kind) (length : Nat) (trees : List Tree) : Tree :=
  .node kind none ⟨(Tree.cover length trees).start, length⟩ trees

/-- The first line of a script that names its interpreter, and the place after it. -/
def opening (text : List Char) : List Tree × Cursor :=
  match Scanner.hashBang text with
  | none => ([], ⟨0, text⟩)
  | some n =>
    let stop := Cursor.advance n ⟨0, text⟩
    ([.node .hashBang none ⟨0, stop.offset⟩ []], stop)

/-- A text as statements and errors; whether it ends inside a statement. -/
def whole (dialect : Dialect) (text : List Char) : List Tree × Bool :=
  let (first, start) := opening text
  let (trees, ended) := items dialect (depth text) (text.length + 1) start
  (first ++ trees, ended)

/-! ### Missing braces -/

/-- Whether a construct is whole once its closing brace is there. -/
def closesAlone : Kind → Bool
  | .block | .switchBody => true
  | .other name => ["class body", "object type", "enumeration body"].contains name
  | _ => false

mutual

/-- Whether all that is closed at or after an offset closes with a brace of its own. -/
def braced (offset : Nat) : Tree → Bool
  | .node k _ _ cs =>
    (closesAlone k || !cs.any fun c => c.kind = .symbol "\x7d" && offset ≤ c.span.start) && allBraced offset cs

/-- Whether this holds of all the trees. -/
def allBraced (offset : Nat) : List Tree → Bool
  | [] => true
  | t :: ts => braced offset t && allBraced offset ts

end

mutual

/-- The tree cut at an offset. -/
def clamp (offset : Nat) : Tree → Tree
  | .node k r s cs => .node k r ⟨min s.start offset, min s.stop offset⟩ (clampAll offset cs)

/-- The trees cut at an offset. -/
def clampAll (offset : Nat) : List Tree → List Tree
  | [] => []
  | t :: ts => clamp offset t :: clampAll offset ts

end

/-- The text with up to `n` braces after it, if it follows the grammar then. -/
def closed (dialect : Dialect) (text : List Char) : Nat → List Char → Option (List Tree)
  | 0, _ => none
  | n + 1, braces =>
    let length := Text.byteLength text
    let (trees, ended) := whole dialect (text ++ braces)
    if !ended && !Tree.hasErrors trees && allBraced length trees then some (clampAll length trees)
    else closed dialect text n ('\x7d' :: braces)

end Parse

/-- The syntax tree of a text. -/
def parse (dialect : Dialect) (text : List Char) : Parsed :=
  let length := Text.byteLength text
  let (trees, ended) := Parse.whole dialect text
  if !ended then ⟨Parse.root .program length trees, Tree.hasErrors trees⟩
  else
    match Parse.closed dialect text (text.filter (· = '\x7b')).length ['\x7d'] with
    | some closed => ⟨Parse.root .program length closed, true⟩
    | none => ⟨Parse.root .error length trees, true⟩

end WriteGuard.Source
