import WriteGuard.Config.Read
import WriteGuard.Files.Tree

/-!
The settings of a project on disk: the nearest file with settings at or above a path.
-/

namespace WriteGuard

/-- Why settings cannot be had. -/
inductive LoadError where
  /-- A file cannot be read. -/
  | reading (path : List Char) (error : FileError)
  /-- A file with settings is wrong. -/
  | parsing (path : List Char) (error : ConfigError)

namespace LoadError

/-- The words for an error. -/
def message : LoadError → String
  | .reading path error => "reading " ++ String.ofList path ++ ": " ++ error.message
  | .parsing path error => "parsing " ++ String.ofList path ++ ": " ++ error.message

end LoadError

namespace Project

/-- The names of files with settings, the preferred one first. -/
def fileNames : List String := [".firestore-lint.toml", "firestore-lint.toml"]

/-- The file with settings in a directory. -/
def fileIn? (disk : Disk) (directory : List Char) : Option (List Char) :=
  (fileNames.map fun name => Path.join directory name.toList).find? disk.isFile

/-- The nearest file with settings in a directory or above it, looked for in at most `fuel` directories. -/
def searchUp (disk : Disk) : Nat → List Char → Option (List Char)
  | 0, _ => none
  | fuel + 1, directory =>
    match fileIn? disk directory with
    | some found => some found
    | none =>
      match Path.parent? directory with
      | some above => searchUp disk fuel above
      | none => none

/-- The file with settings for a path: the nearest one in the directory of a file, or in the path itself, or above. -/
def findFile? (disk : Disk) (start : List Char) : Option (List Char) :=
  let directory := if disk.isFile start then Path.parent? start else some start
  directory.bind fun d => searchUp disk (d.length + 1) d

/-- The settings in a file. -/
def load (disk : Disk) (path : List Char) : Except LoadError Project :=
  match disk.read path with
  | .error e => .error (.reading path e)
  | .ok content =>
    match parse content with
    | .error e => .error (.parsing path e)
    | .ok project => .ok { project with source := some (String.ofList path) }

/-- The settings for a path; the default ones where there is no file with settings. -/
def discover (disk : Disk) (path : List Char) : Except LoadError Project :=
  match findFile? disk path with
  | some file => load disk file
  | none => .ok {}

end Project

end WriteGuard
