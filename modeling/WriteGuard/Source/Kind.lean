/-!
What the nodes of a syntax tree are, and which part they play in their parent.
-/

namespace WriteGuard.Source

/-- What a node of a syntax tree is. -/
inductive Kind where
  /-- A keyword or punctuation mark, named by the text of the grammar. -/
  | symbol (name : String)
  -- names
  | identifier
  | undefinedName
  | propertyName
  | privateName
  | shorthand
  | shorthandPattern
  | label
  | typeName
  -- literals and their inner pieces
  | string
  | template
  | substitution
  | regex
  | number
  | trueWord
  | falseWord
  | nullWord
  | thisWord
  | superWord
  | fragment
  | escape
  | markupText
  | entity
  | optionalChain
  | hashBang
  -- remarks
  | comment
  | markupComment
  -- expressions
  | call
  | arguments
  | member
  | subscript
  | parens
  | object
  | pair
  | computedKey
  | array
  | spread
  | arrowFunction
  | functionExpression
  | method
  -- patterns
  | objectPattern
  | arrayPattern
  | assignmentPattern
  | objectAssignmentPattern
  | pairPattern
  | parameters
  | parameter
  | typeMark
  | decorator
  -- declarations
  | lexicalDeclaration
  | variableDeclaration
  | declarator
  | functionDeclaration
  | classDeclaration
  | importStatement
  | importSpecifier
  | exportStatement
  -- statements
  | program
  | block
  | staticBlock
  | ifStatement
  | elseClause
  | forStatement
  | forEachStatement
  | whileStatement
  | doStatement
  | tryStatement
  | catchClause
  | finallyClause
  | switchStatement
  | switchBody
  | switchCase
  | switchDefault
  | labeledStatement
  | withStatement
  /-- A construct that no analysis tells apart from others, with a name for readers. -/
  | other (name : String)
  /-- Text that belongs to no construct. -/
  | error
  deriving DecidableEq, Repr, Inhabited

namespace Kind

/-- Whether a node is more than a keyword or punctuation mark. -/
def isNamed : Kind → Bool
  | .symbol _ => false
  | _ => true

/-- Whether a node is a comment. -/
def isComment : Kind → Bool
  | .comment | .markupComment => true
  | _ => false

/-- Whether a node is a single token although it has parts. -/
def isAtomic : Kind → Bool
  | .string | .template | .regex | .number | .markupText => true
  | .symbol name => name = "string" || name = "number"
  | _ => false

/-- Whether a node has parameters and a body of its own. -/
def isFunction : Kind → Bool
  | .functionDeclaration | .functionExpression | .arrowFunction | .method => true
  | _ => false

/-- Whether a node is a statement, or a part of one, whose body can hold a `var` that belongs to a scope outside it. -/
def holdsStatements : Kind → Bool
  | .block | .ifStatement | .elseClause | .forStatement | .whileStatement | .doStatement | .tryStatement
  | .catchClause | .finallyClause | .switchStatement | .switchBody | .switchCase | .switchDefault
  | .labeledStatement | .withStatement | .exportStatement => true
  | _ => false

end Kind

/-- The part a node plays in its parent. -/
inductive Role where
  | callee
  | arguments
  | object
  | property
  | index
  | key
  | value
  | name
  | alias
  | pattern
  | left
  | kind
  | parameters
  | parameter
  | initializer
  | declaration
  | body
  deriving DecidableEq, Repr

end WriteGuard.Source
