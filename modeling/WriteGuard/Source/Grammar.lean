import WriteGuard.Source.Grammar.Statement

/-!
The grammar of JavaScript and TypeScript sources as one table of named rules.
-/

namespace WriteGuard.Source

/-- The rule for each name. -/
def grammar : Phrase → Rule
  | .ending => Grammar.endOf true .ending
  | .looseEnding => Grammar.endOf false .looseEnding
  | .blockEnding => Grammar.endOfBlock
  | .string => Grammar.string
  | .template => Grammar.template
  | .expression => Grammar.expression
  | .expressions => Grammar.expressions
  | .ternary => Grammar.ternary
  | .chain => Grammar.chain
  | .unary => Grammar.unary
  | .operand => Grammar.operand
  | .primary => Grammar.primary
  | .arrow => Grammar.arrow
  | .newExpression => Grammar.newExpression
  | .arguments => Grammar.arguments
  | .propertyKey => Grammar.propertyKey
  | .element => Grammar.element
  | .classBody => Grammar.classBody
  | .decorator => Grammar.decorator
  | .pattern => Grammar.pattern
  | .parameters => Grammar.parameters
  | .type => Grammar.type
  | .typeUnit => Grammar.typeUnit
  | .typeArguments => Grammar.typeArguments
  | .objectType => Grammar.objectType
  | .statement => Grammar.statement
  | .declaration => Grammar.declaration
  | .block => Grammar.block

end WriteGuard.Source
