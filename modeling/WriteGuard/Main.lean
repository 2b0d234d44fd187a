import WriteGuard.Command.Run

/-!
The command: it reads the files that its arguments reach, runs on them and writes what comes of it.
-/

namespace WriteGuard.Command

/-- The text of a path of names below the root. -/
def absoluteText (names : List (List Char)) : String :=
  if names.isEmpty then "/" else String.ofList (names.flatMap ('/' :: ·))

/-- The file or the empty directory at names below the root, if there is one. -/
def probe (names : List (List Char)) : IO (Option FileTree) := do
  try
    let place ← IO.FS.realPath (absoluteText names)
    if ← place.isDir then return some (.directory [])
    let bytes ← IO.FS.readBinFile place
    return some (.file ((String.fromUTF8? bytes).map String.toList))
  catch _ => return none

/-- The names in the directory at names below the root. -/
def namesIn (names : List (List Char)) : IO (List (List Char)) := do
  try
    let place ← IO.FS.realPath (absoluteText names)
    return (← place.readDir).toList.map fun entry => entry.fileName.toList
  catch _ => return []

/-- A tree with what is at names below the root, without what is below it. -/
def loadOne (tree : FileTree) (names : List (List Char)) : IO FileTree := do
  return match ← probe names with
    | some found => FileTree.insert found names tree
    | none => tree

/-- A tree with what is at names below the root and all that is below it. -/
partial def loadBelow (tree : FileTree) (names : List (List Char)) : IO FileTree := do
  let mut tree ← loadOne tree names
  for name in ← namesIn names do
    unless skippedDirectories.contains (String.ofList name) do
      tree ← loadBelow tree (names ++ [name])
  return tree

/-- The names below the root that a path goes through, one list for each of its steps, the last one first. -/
def stepsOf (current : List (List Char)) (path : List Char) : List (List (List Char)) :=
  ((Path.split [] 0 path).map Path.Piece.name).foldl (fun steps name =>
    let here := steps.head?.getD []
    let next := if name = [] || name = ['.'] then here else if name = ['.', '.'] then here.dropLast else here ++ [name]
    next :: steps) [if Path.isAbsolute path then [] else current]

/-- A tree with what a path leads to and the files with settings on the way. -/
def loadPath (current : List (List Char)) (tree : FileTree) (path : String) : IO FileTree := do
  let steps := stepsOf current path.toList
  let mut tree := tree
  for step in steps.reverse do
    tree ← loadOne tree step
    for name in Project.fileNames do
      tree ← loadOne tree (step ++ [name.toList])
  loadBelow tree (steps.head?.getD current)

/-- The files that arguments reach. -/
def loadDisk (a : Arguments) : IO Disk := do
  let here ← IO.currentDir
  let current := (Path.pieces here.toString.toList).map Path.Piece.name
  let tree ← (a.config.toList ++ a.paths).foldlM (loadPath current) (.directory [])
  return { root := tree, current }

/-- Whether the output is coloured: as the environment says, else where it goes to a terminal. -/
def wantsColours : IO Bool := do
  let forced ← IO.getEnv "CLICOLOR_FORCE"
  if forced.any (· ≠ "0") then return true
  if (← IO.getEnv "NO_COLOR").isSome then return false
  if (← IO.getEnv "CLICOLOR") = some "0" then return false
  (← IO.getStdout).isTty

end WriteGuard.Command

/-- Lints the files that the arguments name. -/
def main (arguments : List String) : IO UInt32 := do
  let request := WriteGuard.Command.Request.ofArguments arguments
  let disk ← match request with
    | .run a => WriteGuard.Command.loadDisk a
    | _ => pure { root := .directory [] }
  let output := WriteGuard.Command.run (← WriteGuard.Command.wantsColours) disk request
  IO.print output.stdout
  for line in output.stderr do IO.eprintln line
  return output.exit.toUInt32
