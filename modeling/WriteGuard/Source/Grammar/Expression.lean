import WriteGuard.Source.Grammar.TypeExpression

/-!
Expressions. Calls, members and literals keep their exact shape; operators of every strength make one flat construct,
because no analysis looks into them.
-/

namespace WriteGuard.Source.Grammar

/-! ### Operators -/

/-- Operators between two operands. -/
def binaryOperators : List String :=
  ["===", "!==", ">>>", "==", "!=", "<=", ">=", "<<", ">>", "&&", "||", "??", "**",
   "<", ">", "+", "-", "*", "/", "%", "&", "|", "^"]

/-- Operators that give their left side a value. -/
def assignOperators : List String :=
  ["=", "+=", "-=", "*=", "/=", "%=", "^=", "&=", "|=", ">>=", ">>>=", "<<=", "**=", "&&=", "||=", "??="]

/-- The mark after the test of a conditional expression. -/
def questionMark : Scanner
  | '?' :: '?' :: _ => none
  | '?' :: '.' :: rest => if (rest.head?.map Char.isDigit).getD false then some 1 else none
  | '?' :: _ => some 1
  | _ => none

/-- The mark of a member or call that is skipped on a missing value. -/
def chainMark : Scanner
  | '?' :: '.' :: rest => if (rest.head?.map Char.isDigit).getD false then none else some 2
  | _ => none

/-- The mark of an optional chain. -/
def optionalChain : Rule := .first [typed (.sign chainMark), .leaf .optionalChain chainMark]

/-- Nothing, where the next word is `in`. -/
def beforeIn : Rule := .look fun _ text => (Scanner.word "in" (afterRemarks text)).isSome

/-- Operands and the operators between them. -/
def chain : Rule :=
  .joined (.other "operation") (.seq [
    .first [.phrase .unary, .seq [privateName, beforeIn]],
    .many (.first [
      .seq [goesOn, .sign (Scanner.oneOf (Scanner.word "instanceof" :: Scanner.word "in" ::
        binaryOperators.map Scanner.operator)), .phrase .unary],
      typed (.seq [goesOn, .first [
        .seq [word "as", .first [word "const", .phrase .type]], .seq [word "satisfies", .phrase .type]]])])])

/-- An operand with the operators in front of it. -/
def unary : Rule :=
  .first [
    .phrase .operand,
    .node (.other "unary") (.seq [
      .sign (Scanner.oneOf (["typeof", "void", "delete"].map Scanner.word ++
        ["!", "-", "+", "~", "++", "--"].map Scanner.operator)),
      .phrase .unary]),
    .seq [.look fun ctx _ => ctx.dialect.typed && !ctx.dialect.markup,
      .node (.other "type assertion") (.seq [.phrase .typeArguments, .phrase .unary])]]

/-- A test and the two values it chooses from. -/
def ternary : Rule :=
  .joined (.other "conditional") (.seq [.phrase .chain,
    .opt (.seq [goesOn, .sign questionMark, .first [
      .seq [enclosed (.phrase .expression), mark ":", .phrase .expression],
      typed (.seq [.within (fun ctx => { ctx with enclosed := true, arrowTypes := false }) (.phrase .expression),
        mark ":", .phrase .expression])]])])

/-- An expression without commas. -/
def expression : Rule :=
  .first [
    .node (.other "yield") (.seq [word "yield",
      .first [.seq [operator "*", .phrase .expression], .opt (.seq [goesOn, .phrase .expression])]]),
    .joined (.other "assignment") (.seq [.phrase .ternary,
      .opt (.seq [goesOn, oneOperator assignOperators, .phrase .expression])])]

/-- Expressions divided by commas. -/
def expressions : Rule :=
  .joined (.other "sequence")
    (.seq [.phrase .expression, .many (.seq [goesOn, mark ",", .phrase .expression])])

/-! ### Calls and members -/

/-- An argument, element or member that stands for many. -/
def spread : Rule := .node .spread (.seq [operator "...", .phrase .expression])

/-- The arguments of a call. -/
def arguments : Rule :=
  .node .arguments (.seq [mark "(", enclosed (commaList (.first [spread, .phrase .expression])), mark ")"])

/-- The arguments that make what stands before them a call. -/
def callArguments : Rule := .part .arguments (.phrase .arguments)

/-- What can follow an operand and make it part of a larger one. -/
def operandTails : List (Kind × Role × Rule) :=
  [(.member, .object, .seq [goesOn, dotProperty]),
   (.call, .callee, .seq [goesOn, callArguments]),
   (.subscript, .object, .seq [goesOn, mark "[", .part .index (enclosed (.phrase .expressions)), mark "]"]),
   (.call, .callee, .seq [goesOn, .part .arguments (.phrase .template)]),
   (.member, .object, .seq [goesOn, optionalChain, .part .property (.first [privateName, propertyName])]),
   (.call, .callee, .seq [goesOn, optionalChain, .opt (typed (.phrase .typeArguments)), callArguments]),
   (.subscript, .object,
     .seq [goesOn, optionalChain, mark "[", .part .index (enclosed (.phrase .expressions)), mark "]"]),
   (.other "update", .object, .seq [goesOn, oneOperator ["++", "--"]]),
   (.other "value that is not missing", .object, typed (.seq [goesOn, operator "!"])),
   (.call, .callee,
     typed (.seq [goesOn, .phrase .typeArguments, .part .arguments (.first [.phrase .arguments, .phrase .template])])),
   (.other "value at types", .object, typed (.seq [goesOn, .phrase .typeArguments,
     nextIs fun c => ")]:;,.?\x7d=|&".toList.contains c]))]

/-- A value with the members and calls after it. -/
def operand : Rule :=
  .first [
    .node (.other "await") (.seq [word "await", .phrase .unary]),
    .grow (.phrase .primary) operandTails]

/-- What is constructed by `new`: a value with members, but no calls. -/
def constructed : Rule :=
  .grow (.phrase .primary)
    [(.member, .object, .seq [goesOn, dotProperty]),
     (.subscript, .object, .seq [goesOn, mark "[", .part .index (enclosed (.phrase .expressions)), mark "]"])]

/-- An object made by a constructor. -/
def newExpression : Rule :=
  .node (.other "new") (.seq [word "new", constructed, .opt (typed (.phrase .typeArguments)),
    .opt (.seq [goesOn, callArguments])])

/-! ### Functions and classes -/

/-- The keyword of a function that can wait. -/
def asyncWord : Rule := .seq [word "async", goesOn]

/-- The parameters of a function written with an arrow. -/
def arrowHead : Rule :=
  .first [
    .part .parameter identifier,
    .seq [.opt (typed typeParameters), .part .parameters (.phrase .parameters),
      .opt (typed (.seq [.look fun ctx _ => ctx.arrowTypes, resultMark]))]]

/-- A function written with an arrow. -/
def arrow : Rule :=
  let tail : Rule := .seq [arrowHead, operator "=>", .part .body (.first [.phrase .block, .phrase .expression])]
  .node .arrowFunction (.first [.seq [asyncWord, tail], tail])

/-- A function, with or without a name, as a value. -/
def functionExpression : Rule :=
  .node .functionExpression (.seq [.opt asyncWord, word "function", .opt (operator "*"), .opt (.part .name identifier),
    signature, .part .body (.phrase .block)])

/-- The classes and interfaces a class builds on. -/
def heritage : Rule :=
  .seq [
    .opt (.seq [word "extends", commaList1 (.seq [.phrase .operand, .opt (typed (.phrase .typeArguments))])]),
    .opt (typed (.seq [word "implements", commaList1 (.phrase .type)]))]

/-- What follows the keyword and name of a class. -/
def classRest : Rule := .seq [.opt (typed typeParameters), heritage, .part .body (.phrase .classBody)]

/-- A class as a value. -/
def classExpression : Rule :=
  .node (.other "class")
    (.seq [.many (.phrase .decorator), word "class",
      .opt (.part .name (.leaf .identifier (Scanner.butNot ["implements"] Scanner.identifier))), classRest])

/-- A remark that programs can read on a class or member. -/
def decorator : Rule :=
  .node .decorator (.seq [mark "@", .first [
    .node .parens (.seq [mark "(", enclosed (.phrase .expressions), mark ")"]),
    .grow identifier
      [(.member, .object, dotProperty),
       (.call, .callee, .seq [.opt (typed (.phrase .typeArguments)), callArguments])]]])

/-- A function that is a member of a class or object. With types, the remarks on it are not a part of it. -/
def method (ends : Bool) : Rule :=
  let rest : Rule := .seq [signature, .part .body (.phrase .block)]
  .first [
    typed (.seq [.many (.phrase .decorator), .node .method (.seq [.opt (accessWord ends), plainAhead, placeWords ends,
      methodKey ends, .opt (mark "?"), rest])]),
    untyped (.node .method (.seq [.many (.phrase .decorator), .opt (staticWord ends), methodKey ends, rest]))]

/-- A variable that is a member of a class. -/
def field : Rule :=
  let key : Rule := .part .name (.phrase .propertyKey)
  .node (.other "field") (.seq [.many (.phrase .decorator), .first [
    typed (.seq [fieldWords, key, .opt (.seq [memberGoesOn true, .first [mark "?", mark "!"]]), .opt typeMark]),
    untyped (.seq [noStaticGetter, .opt (wordBefore true false ["static"]), key])], .opt initialValue])

/-- The members of a class. -/
def classBody : Rule :=
  .node (.other "class body") (.seq [mark "\x7b",
    opened (.many (.first [
      mark ";",
      .node .staticBlock (.seq [word "static", memberGoesOn true, .part .body (.phrase .block)]),
      method true,
      typed (.seq [.many (.phrase .decorator), .first [abstractSignature, .seq [plainAhead, methodSignature],
        indexSignature], typeMemberEnding]),
      .seq [field, .first [typed (mark ","), anyEnding]]])),
    mark "\x7d"])

/-! ### Objects, arrays and other primary expressions -/

/-- A member of an object. -/
def objectMember : Rule :=
  .first [
    .node .pair (.seq [.part .key (.phrase .propertyKey), mark ":", .part .value (.phrase .expression)]),
    spread, method false,
    .grow (.leaf .shorthand Scanner.identifier)
      [(.objectAssignmentPattern, .left, .seq [operator "=", .phrase .expression])]]

/-- An object by its members. -/
def object : Rule := .node .object (.seq [mark "\x7b", enclosed (commaList objectMember), mark "\x7d"])

/-- An array by its elements. -/
def array : Rule :=
  .node .array (.seq [mark "[", enclosed (commaList (.first [spread, .phrase .expression])), mark "]"])

/-- Expressions in parentheses. -/
def parens : Rule :=
  .node .parens (.seq [mark "(", enclosed (.seq [.phrase .expressions, .opt (typed typeMark)]), mark ")"])

/-- A group of declarations with a name. -/
def namespaceBlock : Rule :=
  .node (.other "namespace") (.seq [word "namespace", goesOn, .first [.phrase .string, dottedName], .part .body (.phrase .block)])

/-- An expression without operators, members and calls. -/
def primary : Rule :=
  .first [
    .leaf .undefinedName (Scanner.word "undefined"),
    functionExpression,
    .phrase .arrow,
    typed namespaceBlock,
    identifier,
    .phrase .string, number, object, array, parens, .phrase .template,
    .leaf .thisWord (Scanner.word "this"), .leaf .superWord (Scanner.word "super"),
    .leaf .trueWord (Scanner.word "true"), .leaf .falseWord (Scanner.word "false"),
    .leaf .nullWord (Scanner.word "null"),
    .node (.other "meta property") (.seq [word "new", mark ".", word "target"]),
    .phrase .newExpression,
    .node (.other "meta property") (.seq [word "import", mark ".", word "meta"]),
    .seq [importWord, nextIs (· = '(')],
    classExpression, regex, .phrase .element]

end WriteGuard.Source.Grammar
