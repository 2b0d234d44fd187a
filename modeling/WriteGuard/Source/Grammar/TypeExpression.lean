import WriteGuard.Source.Grammar.Member

/-!
Types. Analyses look only at the names and calls in them, so that operators of one kind make one flat construct.
-/

namespace WriteGuard.Source.Grammar

/-- The name of a type. -/
def typeName : Rule := .leaf .typeName Scanner.identifier

/-- Names divided by dots. -/
def dottedName : Rule :=
  .joined (.other "qualified name") (.seq [typeName, .many (.seq [mark ".", .leaf .typeName Scanner.name])])

/-- Types in angle brackets after a name. -/
def typeArguments : Rule :=
  .node (.other "type arguments") (.seq [mark "<", enclosed (commaList1 (.phrase .type)), .opt (mark ","), mark ">"])

/-- A parameter of a type. -/
def typeParameter : Rule :=
  .node (.other "type parameter") (.seq
    [.many (.seq [oneWord ["const", "in", "out"], nextIs Scanner.isNameStart]), typeName,
     .opt (.seq [word "extends", .phrase .type]), .opt (.seq [operator "=", .phrase .type])])

/-- The parameters of a type, function or class. -/
def typeParameters : Rule :=
  .node (.other "type parameters") (.seq [mark "<", enclosed (commaList1 typeParameter), .opt (mark ","), mark ">"])

/-- What a function says of one of its arguments. -/
def typePredicate : Rule :=
  .node (.other "type predicate")
    (.seq [.first [.leaf .thisWord (Scanner.word "this"), identifier], word "is", .phrase .type])

/-- What a function ensures when it returns. -/
def assertion : Rule :=
  .node (.other "assertion")
    (.seq [word "asserts", .first [typePredicate, .leaf .thisWord (Scanner.word "this"), identifier]])

/-- The result of a function. -/
def resultType : Rule := .first [assertion, typePredicate, .phrase .type]

/-- The type stated for the result of a function. -/
def resultMark : Rule := .node .typeMark (.seq [mark ":", resultType])

/-- The parameters of a function with their types. -/
def signature : Rule :=
  .seq [.opt (typed typeParameters), .part .parameters (.phrase .parameters), .opt (typed resultMark)]

/-- The type of a function. -/
def functionType : Rule :=
  .node (.other "function type") (.seq [.opt typeParameters, .phrase .parameters, operator "=>", resultType])

/-- The type of a constructor. -/
def constructorType : Rule :=
  .node (.other "constructor type")
    (.seq [.opt (word "abstract"), word "new", .opt typeParameters, .phrase .parameters, operator "=>", .phrase .type])

/-- The keyword of an import inside an expression or type. -/
def importWord : Rule := .node (.other "import") (word "import")

/-- A property after a dot. -/
def dotProperty : Rule := .seq [mark ".", .part .property (.first [privateName, propertyName])]

/-- The value whose type is asked for. -/
def typeQuery : Rule :=
  .node (.other "type query") (.seq [word "typeof",
    .grow (.first [importWord, .leaf .thisWord (Scanner.word "this"), identifier])
      [(.member, .object, .seq [typeGoesOn, dotProperty]),
       (.subscript, .object, .seq [typeGoesOn, mark "[", .part .index (.first [.phrase .string, number]), mark "]"]),
       (.call, .callee, .seq [typeGoesOn, .part .arguments (.phrase .arguments)])],
    .opt (.phrase .typeArguments)])

/-- A type of another module. -/
def importedType : Rule :=
  .seq [.grow (.seq [importWord, nextIs (· = '(')])
      [(.call, .callee, .part .arguments (.phrase .arguments)), (.member, .object, dotProperty)],
    .opt (.phrase .typeArguments)]

/-- A member of a tuple. -/
def tupleMember : Rule :=
  .first [.node (.other "tuple parameter") (.seq [.opt (operator "..."), identifier, .opt (mark "?"), typeMark]),
    .joined (.other "tuple member") (.seq [.opt (operator "..."), .phrase .type, .opt (mark "?")])]

/-- Types with a fixed meaning. -/
def predefinedType : Rule :=
  .first [
    .node (.other "predefined type")
      (.seq [.leaf (.symbol "unique symbol") (Scanner.word "unique"),
        .leaf (.symbol "unique symbol") (Scanner.word "symbol")]),
    .node (.other "predefined type")
      (oneWord ["any", "number", "boolean", "string", "symbol", "unknown", "never", "object", "void"])]

/-- Types with one value. -/
def literalType : Rule :=
  .first [.phrase .string, .joined (.other "literal type") (.seq [.opt (operator "-"), number]),
    .leaf .trueWord (Scanner.word "true"), .leaf .falseWord (Scanner.word "false"),
    .leaf .nullWord (Scanner.word "null"), .leaf .undefinedName (Scanner.word "undefined"),
    templateOf (.other "template type") (.phrase .type)]

/-- A keyword in front of a type. -/
def typePrefixed (s : String) : Rule :=
  .node (.other s) (.seq [word s, nextIs fun c => Scanner.isNamePart c || "([\x7b'\"`".toList.contains c,
    .phrase .typeUnit])

/-- A type without operators. -/
def typeCore : Rule :=
  .first [
    predefinedType, typePrefixed "keyof", typePrefixed "readonly",
    .node (.other "infer")
      (.seq [word "infer", typeName, .opt (.seq [word "extends", .phrase .typeUnit])]),
    typeQuery, importedType, functionType, constructorType, literalType,
    .node (.other "this type") (word "this"), .phrase .objectType,
    .node (.other "tuple") (.seq [mark "[", enclosed (commaList tupleMember), mark "]"]),
    .node (.other "type in parentheses") (.seq [mark "(", enclosed (.phrase .type), mark ")"]),
    .node (.other "existential type") (operator "*"),
    .joined (.other "generic type") (.seq [dottedName, .opt (.phrase .typeArguments)])]

/-- A type with the brackets after it. -/
def typeUnit : Rule :=
  .grow typeCore
    [(.other "array type", .object, .seq [typeGoesOn, mark "[", mark "]"]),
     (.other "lookup type", .object, .seq [typeGoesOn, mark "[", enclosed (.phrase .type), mark "]"])]

/-- Types joined by bars and ampersands. -/
def typeUnion : Rule :=
  .joined (.other "union") (.seq [.opt (oneOperator ["|", "&"]), .phrase .typeUnit,
    .many (.seq [typeGoesOn, oneOperator ["|", "&"], .phrase .typeUnit])])

/-- A type. -/
def type : Rule :=
  .joined (.other "conditional type") (.seq [typeUnion,
    .opt (.seq [typeGoesOn, word "extends", typeUnion, mark "?", enclosed (.phrase .type), mark ":", .phrase .type])])

/-! ### Members of object types -/

/-- The type of members whose keys are not named, or are made from another type. -/
def indexSignature : Rule :=
  .node (.other "index signature") (.seq
    [.opt (.seq [.opt (oneOperator ["+", "-"]), word "readonly"]), mark "[",
     enclosed (.first [.seq [identifier, mark ":", .phrase .type],
       .seq [typeName, word "in", .phrase .type, .opt (.seq [word "as", .phrase .type])]]),
     mark "]", .opt (.seq [.opt (oneOperator ["+", "-"]), mark "?"]), typeMark])

/-- A method without a body. -/
def methodSignature : Rule :=
  .node (.other "method signature") (.seq [.opt (accessWord true), placeWords true, methodKey true, .opt (mark "?"),
    signature])

/-- A method that is left to other classes. -/
def abstractSignature : Rule :=
  .node (.other "abstract method signature") (.seq [.opt (accessWord true), word "abstract",
    .opt (wordBefore true true ["override"]), methodKey true, .opt (mark "?"), signature])

/-- A property with its type. -/
def propertySignature : Rule :=
  .node (.other "property signature") (.seq [.opt (accessWord true), placeWords true,
    .part .name (.phrase .propertyKey), .opt (mark "?"), .opt typeMark])

/-- A constructor with its type. -/
def constructSignature : Rule :=
  .node (.other "construct signature") (.seq [.opt (word "abstract"), word "new", .opt typeParameters,
    .phrase .parameters, .opt typeMark])

/-- A function type among the members of an object type. -/
def callSignature : Rule := .node (.other "call signature") signature

/-- What stands between the members of an object type. -/
def typeMemberEnding : Rule := .first [mark ",", .phrase .looseEnding]

/-- The type of an object by its members. -/
def objectType : Rule :=
  let member : Rule := .first [constructSignature, callSignature, indexSignature, methodSignature, propertySignature]
  .node (.other "object type") (.seq [mark "\x7b",
    opened (.opt (.seq [.opt (.first [mark ",", mark ";"]), member, .many (.seq [typeMemberEnding, member]),
      .opt typeMemberEnding])),
    mark "\x7d"])

end WriteGuard.Source.Grammar
