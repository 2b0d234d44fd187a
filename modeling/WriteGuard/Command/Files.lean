import WriteGuard.Config.Discovery
import WriteGuard.Lint.Linter

/-!
The files that a run of the linter looks at.
-/

namespace WriteGuard

/-- The reports about the file at a path. -/
def LintOptions.lintPath (o : LintOptions) (disk : Disk) (path : List Char) : Except LoadError (List Diagnostic) :=
  match disk.read path with
  | .error e => .error (.reading path e)
  | .ok content => .ok (o.lint path content)

namespace Command

/-- Directories that are not looked into. -/
def skippedDirectories : List String := ["node_modules", ".git", "dist", "build"]

/-- Whether a file is one to lint: a source file that holds more than types. -/
def isLintable (path : List Char) : Bool :=
  let types := match Path.fileName? path with
    | some name => ".d.ts".toList.isSuffixOf name
    | none => false
  !types && (Source.Dialect.ofPath? path).isSome

mutual

/-- The files to lint at a path. -/
def filesAt (path : List Char) : FileTree → List (List Char)
  | .file _ => if isLintable path then [path] else []
  | .directory entries => filesBelow path entries

/-- The files to lint among the entries of the directory at a path. -/
def filesBelow (path : List Char) : List (List Char × FileTree) → List (List Char)
  | [] => []
  | (name, t) :: rest =>
    (if t.isDirectory && skippedDirectories.contains (String.ofList name) then []
      else filesAt (Path.join path name) t) ++ filesBelow path rest

end

/-- The files that a path given by the user stands for: those below a directory, else the path itself. -/
def filesOf (disk : Disk) (path : List Char) : List (List Char) :=
  match disk.find path with
  | .ok (.directory entries) => filesBelow path entries
  | _ => [path]

/-- The files that several paths stand for. -/
def collect (disk : Disk) (paths : List (List Char)) : List (List Char) := paths.flatMap (filesOf disk)

end Command

end WriteGuard
