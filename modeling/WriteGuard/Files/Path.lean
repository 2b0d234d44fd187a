/-!
Paths as texts. A path is read as a list of names divided by slashes; empty names and single dots between them
say nothing, except for a dot that opens a relative path. Parents and joins keep the spelling of the path.
-/

namespace WriteGuard.Path

/-- A name in a path, with the number of characters of the path up to its end. -/
structure Piece where
  name : List Char
  stop : Nat
  deriving DecidableEq, Repr

/-- The texts between slashes; `taken` holds the characters of the current one in reverse. -/
def split (taken : List Char) (offset : Nat) : List Char → List Piece
  | [] => [⟨taken.reverse, offset⟩]
  | c :: cs => if c = '/' then ⟨taken.reverse, offset⟩ :: split [] (offset + 1) cs else split (c :: taken) (offset + 1) cs

/-- Whether a path starts at the root. -/
def isAbsolute (path : List Char) : Bool := path.head? = some '/'

/-- The names a path goes through, in order. -/
def pieces (path : List Char) : List Piece :=
  match split [] 0 path with
  | [] => []
  | first :: rest =>
    let kept := rest.filter fun p => p.name ≠ [] && p.name ≠ ['.']
    if first.name = [] then kept else first :: kept

/-- The last name of a path, unless that is a dot or two dots. -/
def fileName? (path : List Char) : Option (List Char) :=
  match (pieces path).getLast? with
  | some p => if p.name = ['.'] || p.name = ['.', '.'] then none else some p.name
  | none => none

/-- The text before the last dot of a name and the text after it; a leading dot divides nothing. -/
def splitDot (name : List Char) : List Char × Option (List Char) :=
  let after := (name.reverse.takeWhile (· ≠ '.')).reverse
  let before := name.take (name.length - after.length - 1)
  if after.length = name.length || before = [] then (name, none) else (before, some after)

/-- The extension of a path: what follows the last dot of its last name. -/
def extension? (path : List Char) : Option (List Char) := (fileName? path).bind fun name => (splitDot name).2

/-- The path without its last name; none for the empty path and for the root. -/
def parent? (path : List Char) : Option (List Char) :=
  match (pieces path).reverse with
  | [] => none
  | _ :: rest =>
    match rest with
    | p :: _ => some (path.take p.stop)
    | [] => some (if isAbsolute path then ['/'] else [])

/-- The path of `name` below `path`; an absolute name stands for itself. -/
def join (path name : List Char) : List Char :=
  if isAbsolute name then name
  else if path = [] then name
  else if path.getLast? = some '/' then path ++ name
  else path ++ '/' :: name

/-- The path with the extension of its last name replaced, or added. -/
def withExtension (path extension : List Char) : List Char :=
  match fileName? path, (pieces path).getLast? with
  | some name, some p =>
    path.take (p.stop - name.length) ++ (splitDot name).1 ++ '.' :: extension
  | _, _ => path

end WriteGuard.Path
