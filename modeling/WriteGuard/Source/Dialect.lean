import WriteGuard.Files.Path

/-!
The languages a source file can be written in, told from the extension of its path.
-/

namespace WriteGuard.Source

/-- A flavour of JavaScript or TypeScript. -/
inductive Dialect where
  /-- JavaScript, with markup elements. -/
  | javaScript
  /-- TypeScript without markup elements. -/
  | typeScript
  /-- TypeScript with markup elements. -/
  | tsx
  deriving DecidableEq, Repr, Inhabited

namespace Dialect

/-- The dialect an extension stands for. -/
def ofExtension? (extension : String) : Option Dialect :=
  match extension with
  | "js" | "jsx" | "mjs" | "cjs" => some .javaScript
  | "ts" | "mts" | "cts" => some .typeScript
  | "tsx" => some .tsx
  | _ => none

/-- The dialect of the file at a path. -/
def ofPath? (path : List Char) : Option Dialect :=
  (Path.extension? path).bind fun extension => ofExtension? (String.ofList extension)

/-- Whether types can be written. -/
def typed : Dialect → Bool
  | .javaScript => false
  | .typeScript | .tsx => true

/-- Whether markup elements can be written. -/
def markup : Dialect → Bool
  | .typeScript => false
  | .javaScript | .tsx => true

/-- The name of a dialect. -/
def name : Dialect → String
  | .javaScript => "JavaScript"
  | .typeScript => "TypeScript"
  | .tsx => "Tsx"

end Dialect

end WriteGuard.Source
