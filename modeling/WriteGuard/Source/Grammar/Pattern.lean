import WriteGuard.Source.Grammar.Literal

/-!
Patterns, which bind names, and the parameter lists made of them.
-/

namespace WriteGuard.Source.Grammar

/-- A key in brackets. -/
def computedKey : Rule := .node .computedKey (.seq [mark "[", enclosed (.phrase .expression), mark "]"])

/-- The key of a member of an object, pattern or class. -/
def propertyKey : Rule := .first [propertyName, .phrase .string, privateName, number, computedKey]

/-- What is left of an array or object. -/
def restPattern : Rule := .node (.other "rest") (.seq [operator "...", .phrase .pattern])

/-- A pattern with or without the value it has by default. -/
def defaulted : Rule :=
  .grow (.phrase .pattern) [(.assignmentPattern, .left, .seq [operator "=", .phrase .expression])]

/-- A member `key: pattern`. -/
def pairPattern : Rule := .node .pairPattern (.seq [.part .key (.phrase .propertyKey), mark ":", .part .value defaulted])

/-- A member that binds the name of its key. -/
def shorthandPattern : Rule :=
  .grow (.leaf .shorthandPattern Scanner.identifier)
    [(.objectAssignmentPattern, .left, .seq [operator "=", .phrase .expression])]

/-- A pattern for the members of an object. -/
def objectPattern : Rule :=
  .node .objectPattern
    (.seq [mark "\x7b", enclosed (commaList (.first [restPattern, pairPattern, shorthandPattern])), mark "\x7d"])

/-- A pattern for the elements of an array. -/
def arrayPattern : Rule := .node .arrayPattern (.seq [mark "[", enclosed (commaList defaulted), mark "]"])

/-- A pattern. -/
def pattern : Rule :=
  .first [.leaf .undefinedName (Scanner.word "undefined"), identifier, objectPattern, arrayPattern, restPattern]

/-- What a declaration binds: a name or a pattern. -/
def binding : Rule := .first [identifier, objectPattern, arrayPattern]

/-- The type stated for a name. -/
def typeMark : Rule := .node .typeMark (.seq [mark ":", .phrase .type])

/-- One of several words before a parameter. -/
def parameterWord (words : List String) : Rule :=
  .seq [oneWord words, nextIs fun c => Scanner.isNameStart c || c = '\x7b' || c = '[']

/-- A parameter of a typed function. -/
def typedParameter : Rule :=
  .node .parameter (.seq [.many (.phrase .decorator), .opt (parameterWord ["public", "private", "protected"]),
    .opt (parameterWord ["override"]), .opt (parameterWord ["readonly"]),
    .part .pattern (.first [.leaf .thisWord (Scanner.word "this"), .phrase .pattern]),
    .opt (mark "?"), .opt typeMark, .opt initialValue])

/-- A parameter. -/
def parameter : Rule := .first [typed typedParameter, defaulted]

/-- The parameters of a function. -/
def parameters : Rule := .node .parameters (.seq [mark "(", enclosed (commaList parameter), mark ")"])

end WriteGuard.Source.Grammar
