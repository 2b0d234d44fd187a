import WriteGuard.Scope.Resolve
import WriteGuard.Source.Parse
import WriteGuard.Source.Token

/-!
Source files: a text with its syntax tree, the calls in it, and the questions that analyses ask of it.
-/

namespace WriteGuard

/-- What analyses may ask about the text around an expression. -/
structure SourceView where
  /-- The initial value of a name that is referred to at a range. -/
  resolve : String → Span → Option Expr
  /-- The tokens within a range, in order. -/
  tokens : Span → List Token

/-- A parsed text. -/
structure SourceFile where
  content : List Char
  dialect : Source.Dialect
  tree : Source.Tree
  /-- Whether the text breaks the grammar of its dialect. -/
  broken : Bool

namespace SourceFile

/-- A text parsed in a dialect. -/
def ofText (dialect : Source.Dialect) (content : List Char) : SourceFile :=
  let parsed := Source.parse dialect content
  ⟨content, dialect, parsed.root, parsed.broken⟩

/-- A text parsed in the dialect of its path; none for paths of no dialect. -/
def ofPath? (path content : List Char) : Option SourceFile :=
  (Source.Dialect.ofPath? path).map fun dialect => ofText dialect content

/-- The calls of a file in the order of the text, an outer call before the calls in it. -/
def calls (file : SourceFile) : List Call :=
  Source.TreeCursor.gather (Call.ofTree? file.content) (fun _ => true) file.tree

/-- The value of a name referred to at a range. -/
def resolve (file : SourceFile) (name : String) (at_ : Span) : Option Expr :=
  Scope.resolve file.content file.tree name at_

/-- The tokens within a range. -/
def tokensOf (file : SourceFile) (r : Span) : List Token := file.tree.tokensOf file.content r

/-- A file as analyses see it. -/
def view (file : SourceFile) : SourceView := ⟨file.resolve, file.tokensOf⟩

end SourceFile

end WriteGuard
