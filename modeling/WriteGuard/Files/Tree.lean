import WriteGuard.Files.Path

/-!
A tree of files and directories, and what a path finds in it.
-/

namespace WriteGuard

/-- A file or a directory. -/
inductive FileTree where
  /-- A file with its text; none where its bytes are no text. -/
  | file (content : Option (List Char))
  | directory (entries : List (List Char × FileTree))
  deriving Inhabited

/-- Why a path cannot be read. -/
inductive FileError where
  | notFound
  | notADirectory
  | isADirectory
  | notText
  deriving DecidableEq, Repr, Inhabited

namespace FileError

/-- The words for an error. -/
def message : FileError → String
  | .notFound => "No such file or directory (os error 2)"
  | .notADirectory => "Not a directory (os error 20)"
  | .isADirectory => "Is a directory (os error 21)"
  | .notText => "stream did not contain valid UTF-8"

end FileError

namespace FileTree

/-- The entries of a directory; a file has none. -/
def entries : FileTree → List (List Char × FileTree)
  | .directory es => es
  | .file _ => []

/-- Whether this is a directory. -/
def isDirectory : FileTree → Bool
  | .directory _ => true
  | .file _ => false

/-- The entry with a name. -/
def entry? (t : FileTree) (name : List Char) : Option FileTree :=
  (t.entries.find? fun e => e.1 = name).map (·.2)

/-- What names lead to, one below the other. -/
def at? : List (List Char) → FileTree → Option FileTree
  | [], t => some t
  | name :: names, t => (t.entry? name).bind (at? names)

/-- Entries in the order of names with one more, in the place of one with its name. -/
def putEntry (name : List Char) (new : FileTree) : List (List Char × FileTree) → List (List Char × FileTree)
  | [] => [(name, new)]
  | (other, t) :: rest =>
    if other = name then (name, new) :: rest
    else if name < other then (name, new) :: (other, t) :: rest
    else (other, t) :: putEntry name new rest

/-- The tree with something put at the end of a list of names; directories on the way are made. -/
def insert (new : FileTree) : List (List Char) → FileTree → FileTree
  | [], t => if new.isDirectory && t.isDirectory then t else new
  | name :: names, t =>
    .directory (putEntry name (insert new names ((t.entry? name).getD (.directory []))) t.entries)

end FileTree

/-- A tree of files and the directory that relative paths start from, as names below its root. -/
structure Disk where
  root : FileTree
  current : List (List Char) := []

namespace Disk

/-- What pieces of a path lead to, from a directory given by its names. Every piece but the last must be found to be a
directory. -/
def walk (root : FileTree) (names : List (List Char)) : List (List Char) → Except FileError FileTree
  | [] =>
    match root.at? names with
    | some t => .ok t
    | none => .error .notFound
  | piece :: pieces =>
    match root.at? names with
    | none => .error .notFound
    | some (.file _) => .error .notADirectory
    | some (.directory _) =>
      if piece = [] || piece = ['.'] then walk root names pieces
      else if piece = ['.', '.'] then walk root names.dropLast pieces
      else walk root (names ++ [piece]) pieces

/-- What a path leads to. -/
def find (disk : Disk) (path : List Char) : Except FileError FileTree :=
  if path = [] then .error .notFound
  else
    let pieces := (Path.split [] 0 path).map Path.Piece.name
    walk disk.root (if Path.isAbsolute path then [] else disk.current) pieces

/-- Whether a path leads to a file. -/
def isFile (disk : Disk) (path : List Char) : Bool :=
  match disk.find path with
  | .ok (.file _) => true
  | _ => false

/-- Whether a path leads to a directory. -/
def isDirectory (disk : Disk) (path : List Char) : Bool :=
  match disk.find path with
  | .ok (.directory _) => true
  | _ => false

/-- The text of the file at a path. -/
def read (disk : Disk) (path : List Char) : Except FileError (List Char) :=
  match disk.find path with
  | .error e => .error e
  | .ok (.directory _) => .error .isADirectory
  | .ok (.file none) => .error .notText
  | .ok (.file (some content)) => .ok content

end Disk

end WriteGuard
