import WriteGuard.Source.Ending
import WriteGuard.Source.Tree

/-!
Grammar rules as data, and the one function that reads a text by them. Rules are tried in order and the first that
fits is taken. Blanks and comments may stand before every leaf; a comment becomes a node of the smallest construct
that has parts on both sides of it.
-/

namespace WriteGuard.Source

/-- A place in a text: the bytes before it and the characters after it. -/
structure Cursor where
  offset : Nat
  rest : List Char

namespace Cursor

/-- The place `n` characters further on. -/
def advance : Nat → Cursor → Cursor
  | 0, c => c
  | _ + 1, ⟨offset, []⟩ => ⟨offset, []⟩
  | n + 1, ⟨offset, d :: ds⟩ => advance n ⟨offset + d.utf8Size, ds⟩

/-- The first place at or after `offset` that no blank follows. -/
def afterBlanks (offset : Nat) : List Char → Cursor
  | [] => ⟨offset, []⟩
  | d :: ds => if Scanner.isBlank d then afterBlanks (offset + d.utf8Size) ds else ⟨offset, d :: ds⟩

/-- The place after the blanks that follow. -/
def skipBlanks (c : Cursor) : Cursor := afterBlanks c.offset c.rest

end Cursor

/-- What a rule depends on besides the text. -/
structure Context where
  dialect : Dialect
  /-- Inside brackets, where no statement can end. -/
  enclosed : Bool := false
  /-- Whether a function written with an arrow may state its result type. -/
  arrowTypes : Bool := true
  /-- Reading stops as soon as a leaf is missing at this offset or after it. -/
  limit : Option Nat := none

/-- The named rules of the grammar. -/
inductive Phrase where
  -- ends of statements
  | ending
  | looseEnding
  | blockEnding
  -- literals
  | string
  | template
  -- expressions
  | expression
  | expressions
  | ternary
  | chain
  | unary
  | operand
  | primary
  | arrow
  | newExpression
  | arguments
  | propertyKey
  | element
  | classBody
  | decorator
  -- patterns and signatures
  | pattern
  | parameters
  -- types
  | type
  | typeUnit
  | typeArguments
  | objectType
  -- statements
  | statement
  | declaration
  | block
  deriving DecidableEq, Repr

/-- A grammar rule. -/
inductive Rule where
  /-- A leaf, after blanks and comments. -/
  | leaf (kind : Kind) (scan : Scanner)
  /-- A keyword or punctuation mark, after blanks and comments, named by its own text. -/
  | sign (scan : Scanner)
  /-- A leaf right here. -/
  | glued (kind : Kind) (scan : Scanner)
  /-- One comment. -/
  | remark
  /-- Nothing, where a test of the text ahead holds. -/
  | look (test : Context → List Char → Bool)
  /-- One rule after the other. -/
  | seq (rules : List Rule)
  /-- The first rule that fits. -/
  | first (rules : List Rule)
  /-- A rule as often as it fits. -/
  | many (rule : Rule)
  /-- A rule if it fits. -/
  | opt (rule : Rule)
  /-- A construct. -/
  | node (kind : Kind) (rule : Rule)
  /-- A construct if it has several parts, otherwise its one part. -/
  | joined (kind : Kind) (rule : Rule)
  /-- What is read plays a part. -/
  | part (role : Role) (rule : Rule)
  /-- A rule, then as often as one fits a tail that makes all before it the first part of a construct. -/
  | grow (rule : Rule) (tails : List (Kind × Role × Rule))
  /-- A rule in another context. -/
  | within (change : Context → Context) (rule : Rule)
  /-- A named rule. -/
  | phrase (name : Phrase)

/-- The result of reading by a rule. -/
inductive Outcome where
  /-- The trees read, the place after them, and the furthest place at which a leaf was missing. -/
  | ok (trees : List Tree) (next : Cursor) (reach : Nat)
  /-- The rule does not fit; the furthest place at which a leaf was missing. -/
  | fail (reach : Nat)
  /-- A leaf was missing at the limit; the trees finished before it. -/
  | halt (trees : List Tree)

namespace Outcome

/-- The outcome with the trees read before it. -/
def after (before : List Tree) (reach : Nat) : Outcome → Outcome
  | .ok trees next r => .ok (before ++ trees) next (max reach r)
  | .fail r => .fail (max reach r)
  | .halt trees => .halt (before ++ trees)

/-- The outcome with its trees replaced, if it fits. -/
def map (f : List Tree → List Tree) : Outcome → Outcome
  | .ok trees next r => .ok (f trees) next r
  | .fail r => .fail r
  | .halt trees => .halt trees

end Outcome

namespace Rule

/-- The comments at a place and the place after them and all blanks, with at most `fuel` comments. -/
def remarksUpTo : Nat → Cursor → List Tree × Cursor
  | 0, c => ([], c)
  | fuel + 1, c =>
    let start := c.skipBlanks
    match Scanner.comment start.rest with
    | none => ([], start)
    | some n =>
      let stop := start.advance n
      let (more, next) := remarksUpTo fuel stop
      (.node .comment none ⟨start.offset, stop.offset⟩ [] :: more, next)

/-- The comments at a place and the place after them and all blanks. No text has more comments than characters. -/
def remarks (c : Cursor) : List Tree × Cursor := remarksUpTo c.rest.length c

/-- A leaf that begins at `start`, after the given comments. -/
def readLeaf (ctx : Context) (kind : Kind) (scan : Scanner) (before : List Tree) (start : Cursor) : Outcome :=
  match scan start.rest with
  | some n =>
    let stop := start.advance n
    .ok (before ++ [.node kind none ⟨start.offset, stop.offset⟩ []]) stop start.offset
  | none =>
    match ctx.limit with
    | some limit => if limit ≤ start.offset then .halt [] else .fail start.offset
    | none => .fail start.offset

/-- The trees with a construct around them if there are several. -/
def join (kind : Kind) (offset : Nat) (trees : List Tree) : List Tree :=
  match trees.filter fun t => !t.isComment with
  | [] | [_] => trees
  | _ => Tree.enclose kind offset trees

mutual

/-- Reads a text by a rule, with nesting up to `fuel`. -/
def read (grammar : Phrase → Rule) : Nat → Context → Rule → Cursor → Outcome
  | 0, _, _, c => .fail c.offset
  | fuel + 1, ctx, rule, c =>
    match rule with
    | .leaf kind scan =>
      let (before, start) := remarks c
      readLeaf ctx kind scan before start
    | .sign scan =>
      let (before, start) := remarks c
      let name := (scan start.rest).map fun n => String.ofList (start.rest.take n)
      readLeaf ctx (.symbol (name.getD "")) scan before start
    | .glued kind scan => readLeaf ctx kind scan [] c
    | .remark =>
      let start := c.skipBlanks
      match Scanner.comment start.rest with
      | none => .fail start.offset
      | some n =>
        let stop := start.advance n
        .ok [.node .comment none ⟨start.offset, stop.offset⟩ []] stop start.offset
    | .look test => if test ctx c.rest then .ok [] c c.offset else .fail c.offset
    | .seq [] => .ok [] c c.offset
    | .seq (r :: rs) =>
      match read grammar fuel ctx r c with
      | .ok trees next reach => (read grammar fuel ctx (.seq rs) next).after trees reach
      | other => other
    | .first [] => .fail c.offset
    | .first (r :: rs) =>
      match read grammar fuel ctx r c with
      | .fail reach => (read grammar fuel ctx (.first rs) c).after [] reach
      | other => other
    | .many r =>
      match read grammar fuel ctx r c with
      | .ok trees next reach =>
        if next.offset ≤ c.offset then .ok [] c reach
        else (read grammar fuel ctx (.many r) next).after trees reach
      | .fail reach => .ok [] c reach
      | .halt trees => .halt trees
    | .opt r =>
      match read grammar fuel ctx r c with
      | .fail reach => .ok [] c reach
      | other => other
    | .node kind r => (read grammar fuel ctx r c).map (Tree.enclose kind c.offset)
    | .joined kind r => (read grammar fuel ctx r c).map (join kind c.offset)
    | .part role r => (read grammar fuel ctx r c).map fun trees => trees.map (Tree.withRole role)
    | .grow r tails =>
      match read grammar fuel ctx r c with
      | .ok trees next reach => (readTails grammar fuel ctx tails tails trees next).after [] reach
      | other => other
    | .within change r => read grammar fuel (change ctx) r c
    | .phrase name => read grammar fuel ctx (grammar name) c

/-- Reads tails of a construct whose first part is `trees`; `tails` are still to be tried at this place. -/
def readTails (grammar : Phrase → Rule) :
    Nat → Context → List (Kind × Role × Rule) → List (Kind × Role × Rule) → List Tree → Cursor → Outcome
  | 0, _, _, _, trees, c => .ok trees c c.offset
  | _ + 1, _, _, [], trees, c => .ok trees c c.offset
  | fuel + 1, ctx, all, (kind, role, r) :: tails, trees, c =>
    match read grammar fuel ctx r c with
    | .ok more next reach =>
      if next.offset ≤ c.offset then .ok trees c reach
      else
        let whole := Tree.enclose kind c.offset (trees.map (Tree.withRole role) ++ more)
        (readTails grammar fuel ctx all all whole next).after [] reach
    | .fail reach => (readTails grammar fuel ctx all tails trees c).after [] reach
    | .halt more => .halt (trees ++ more)

end

end Rule

end WriteGuard.Source
