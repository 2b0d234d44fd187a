import WriteGuard.Config.Toml.Scalar

/-!
Reading TOML documents: keys, arrays, inline tables, and the tables that headers and dotted keys build. A key has one
value, a table is opened by one header, and tables made by dotted keys stay closed to headers.
-/

namespace WriteGuard.Toml

/-! ### Tables under construction -/

mutual

/-- What a key stands for while a document is read. -/
inductive Item where
  | value (value : Toml)
  | table (table : Table)
  | tables (tables : List Table)

/-- A table while a document is read: whether only keys below it were named so far, whether dotted keys made it, and its
entries. -/
inductive Table where
  | mk (implied dotted : Bool) (entries : List (String × Item))

end

namespace Table

/-- A table without entries. -/
def empty : Table := .mk false false []

/-- Whether only keys below the table were named so far. -/
def implied : Table → Bool
  | .mk i _ _ => i

/-- Whether dotted keys made the table. -/
def dotted : Table → Bool
  | .mk _ d _ => d

/-- The entries of the table. -/
def entries : Table → List (String × Item)
  | .mk _ _ es => es

/-- What a key stands for. -/
def get? (t : Table) (key : String) : Option Item := (t.entries.find? fun entry => entry.1 = key).map (·.2)

/-- The table with a key standing for something. -/
def put (t : Table) (key : String) (item : Item) : Table :=
  match t with
  | .mk i d es => .mk i d ((key, item) :: es.filter fun entry => entry.1 ≠ key)

/-- The table with the table at the end of a path changed. Tables on the way that are not there are made. -/
def alter (dotted : Bool) (f : Table → Option Table) : List String → Table → Option Table
  | [], t => f t
  | key :: path, t =>
    let changed : Option Item := match (t.get? key).getD (.table (.mk true dotted [])) with
      | .value _ => none
      | .tables ts =>
        match ts.getLast? with
        | none => none
        | some last => (alter dotted f path last).map fun new => .tables (ts.dropLast ++ [new])
      | .table inner => if dotted && !inner.implied then none else (alter dotted f path inner).map .table
    changed.map fun item => t.put key item

/-- The table with one more value. -/
def assign (path : List String) (key : String) (value : Toml) (t : Table) : Option Table :=
  alter true (fun inner =>
    if inner.dotted = path.isEmpty || (inner.get? key).isSome then none else some (inner.put key (.value value)))
    path t

/-- An entry put where its key belongs in the order of keys. -/
def insertSorted (entry : String × Toml) : List (String × Toml) → List (String × Toml)
  | [] => [entry]
  | other :: rest => if entry.1 < other.1 then entry :: other :: rest else other :: insertSorted entry rest

mutual

/-- A table as a value. -/
def toToml : Table → Toml
  | .mk _ _ entries => .table (entriesToToml entries)

/-- The entries of a table as values, in the order of keys. -/
def entriesToToml : List (String × Item) → List (String × Toml)
  | [] => []
  | (key, item) :: rest => insertSorted (key, itemToToml item) (entriesToToml rest)

/-- What a key stands for as a value. -/
def itemToToml : Item → Toml
  | .value v => v
  | .table t => toToml t
  | .tables ts => .array (tablesToToml ts)

/-- Several tables as values. -/
def tablesToToml : List Table → List Toml
  | [] => []
  | t :: ts => toToml t :: tablesToToml ts

end

end Table

/-! ### Keys and values -/

namespace Reader

/-- How many levels of arrays, of inline tables and of a dotted key are read at most. -/
def maxNesting : Nat := 79

/-- One part of a key. -/
def keyPart : Reader String := fun text =>
  match text with
  | '"' :: _ => map String.ofList basic text
  | '\'' :: _ => map String.ofList literal text
  | _ =>
    let bare := text.takeWhile isBare
    if bare.isEmpty then none else some (String.ofList bare, text.drop bare.length)

/-- The parts of a key after a first one. -/
def keyRest : Nat → List Char → Option (List String × List Char)
  | 0, _ => none
  | fuel + 1, text =>
    match skipSpaces text with
    | '.' :: rest => do
      let (part, rest) ← keyPart (skipSpaces rest)
      let (parts, rest) ← keyRest fuel rest
      return (part :: parts, rest)
    | _ => some ([], text)

/-- A key: the parts before the last one, and the last one. -/
def key : Reader (List String × String) := fun text => do
  let (part, rest) ← keyPart text
  let (parts, rest) ← keyRest maxNesting rest
  return (((part :: parts).dropLast, (part :: parts).getLastD part), rest)

/-- The text after blanks, line ends and comments. -/
def skipLines : Nat → List Char → List Char
  | 0, text => text
  | fuel + 1, text =>
    match skipSpaces text with
    | '#' :: rest =>
      match newline? (rest.dropWhile isPlain) with
      | some after => skipLines fuel after
      | none => '#' :: rest
    | rest =>
      match newline? rest with
      | some after => skipLines fuel after
      | none => rest

mutual

/-- A value, read in at most `fuel` steps and nested at most `depth` deep. -/
def value : Nat → Nat → Reader Toml
  | 0, _, _ => none
  | fuel + 1, depth, text =>
    match text, depth with
    | '[' :: _, 0 => none
    | '\x7b' :: _, 0 => none
    | '[' :: rest, depth + 1 =>
      (items fuel depth (skipLines rest.length rest)).map fun (vs, rest) => (.array vs, rest)
    | '\x7b' :: rest, depth + 1 =>
      match skipSpaces rest with
      | '\x7d' :: after => some (.table [], after)
      | rest => (entries fuel depth Table.empty rest).map fun (t, rest) => (t.toToml, rest)
    | _, _ => scalar text

/-- The items of an array up to its closing bracket. -/
def items : Nat → Nat → Reader (List Toml)
  | 0, _, _ => none
  | fuel + 1, depth, text =>
    match text with
    | ']' :: rest => some ([], rest)
    | _ =>
      match value fuel depth text with
      | none => none
      | some (v, rest) =>
        match skipLines rest.length rest with
        | ',' :: rest => (items fuel depth (skipLines rest.length rest)).map fun (vs, rest) => (v :: vs, rest)
        | ']' :: rest => some ([v], rest)
        | _ => none

/-- The entries of an inline table up to its closing brace. -/
def entries : Nat → Nat → Table → Reader Table
  | 0, _, _, _ => none
  | fuel + 1, depth, t, text =>
    match key text with
    | none => none
    | some ((path, name), rest) =>
      match skipSpaces rest with
      | '=' :: rest =>
        match value fuel depth (skipSpaces rest) with
        | none => none
        | some (v, rest) =>
          match t.assign path name v with
          | none => none
          | some t =>
            match skipSpaces rest with
            | ',' :: rest => entries fuel depth t (skipSpaces rest)
            | '\x7d' :: rest => some (t, rest)
            | _ => none
      | _ => none

end

end Reader

/-! ### Documents -/

/-- A document while it is read: its tables, and the path of the one that is open. -/
structure Draft where
  root : Table
  path : List String

namespace Draft

/-- What a header makes of the thing its name stands for: a table that was only implied is opened, and an array of tables
gets one more. -/
def opened? (isItem : Bool) (item : Option Item) : Option Item :=
  match isItem, item with
  | true, none => some (.tables [Table.empty])
  | true, some (.tables ts) => some (.tables (ts ++ [Table.empty]))
  | false, none => some (.table Table.empty)
  | false, some (.table t) => if t.implied && !t.dotted then some (.table (.mk false false t.entries)) else none
  | _, _ => none

/-- The document after a header. -/
def header (d : Draft) (path : List String) (key : String) (isItem : Bool) : Option Draft :=
  (Table.alter false (fun parent => (opened? isItem (parent.get? key)).map fun item => parent.put key item)
    path d.root).map (⟨·, path ++ [key]⟩)

/-- The document with one more value in the open table. -/
def assign (d : Draft) (path : List String) (key : String) (value : Toml) : Option Draft :=
  (Table.alter false (Table.assign path key value) d.path d.root).map (⟨·, d.path⟩)

end Draft

namespace Reader

/-- The text after the rest of a line that holds at most a comment. -/
def lineEnd (text : List Char) : Option (List Char) :=
  let rest := match skipSpaces text with
    | '#' :: rest => rest.dropWhile isPlain
    | rest => rest
  if rest.isEmpty then some [] else newline? rest

/-- A header of a table: its name and whether it adds a table to an array. -/
def header : Reader ((List String × String) × Bool) := fun text =>
  match text with
  | '[' :: '[' :: rest => do
    let (name, rest) ← key (skipSpaces rest)
    let ((), rest) ← exactly "]]" (skipSpaces rest)
    return ((name, true), rest)
  | '[' :: rest => do
    let (name, rest) ← key (skipSpaces rest)
    let ((), rest) ← exactly "]" (skipSpaces rest)
    return ((name, false), rest)
  | _ => none

/-- The lines of a document, read in at most `fuel` steps. -/
def document : Nat → Draft → List Char → Option Table
  | 0, _, _ => none
  | fuel + 1, draft, text =>
    match skipSpaces text with
    | [] => some draft.root
    | '[' :: rest => do
      let (((path, name), isItem), rest) ← header ('[' :: rest)
      let draft ← draft.header path name isItem
      document fuel draft (← lineEnd rest)
    | c :: rest =>
      if c = '#' || c = '\n' || c = '\r' then do
        document fuel draft (← lineEnd (c :: rest))
      else do
        let ((path, name), rest) ← key (c :: rest)
        let ((), rest) ← exactly "=" (skipSpaces rest)
        let (v, rest) ← value (rest.length + 1) maxNesting (skipSpaces rest)
        let draft ← draft.assign path name v
        document fuel draft (← lineEnd rest)

end Reader

/-- The entries of a document, in the order of their keys; none where the text is no document. -/
def parse? (text : List Char) : Option (List (String × Toml)) :=
  let text := match text with
    | '\ufeff' :: rest => rest
    | _ => text
  (Reader.document (text.length + 1) ⟨Table.empty, []⟩ text).map fun t => Table.entriesToToml t.entries

end WriteGuard.Toml
