import WriteGuard.Source.Grammar.Markup

/-!
Statements and declarations.
-/

namespace WriteGuard.Source.Grammar

/-! ### Declarations -/

/-- One name or pattern with its first value. -/
def declarator : Rule :=
  .node .declarator (.seq [.part .name binding, .opt (typed (mark "!")), .opt (typed typeMark), .opt initialValue])

/-- A declaration by `let` or `const`. -/
def lexicalDeclaration : Rule :=
  .node .lexicalDeclaration (.seq [.part .kind (.first [.seq [word "let", goesOn], word "const"]), commaList1 declarator, anyEnding])

/-- A declaration by `var`. -/
def variableDeclaration : Rule :=
  .node .variableDeclaration (.seq [word "var", commaList1 declarator, anyEnding])

/-- A function as a declaration. -/
def functionDeclaration : Rule :=
  .node .functionDeclaration (.seq [.opt asyncWord, word "function", .opt (operator "*"), .part .name identifier,
    signature, .part .body (.phrase .block)])

/-- A function without a body. -/
def functionSignature : Rule :=
  .node (.other "function signature") (.seq [.opt asyncWord, word "function", .opt (operator "*"),
    .part .name identifier, signature, .phrase .looseEnding])

/-- A class as a declaration. -/
def classDeclaration : Rule :=
  .node .classDeclaration (.seq [.many (.phrase .decorator), .opt (typed (word "abstract")), word "class",
    .part .name identifier, classRest, .opt endOfBlock])

/-- A name for a type. -/
def typeAlias : Rule :=
  .node (.other "type alias") (.seq [word "type", sameLine, typeName, .opt typeParameters, operator "=", .phrase .type,
    .phrase .looseEnding])

/-- The type of objects with given members. -/
def interface : Rule :=
  .node (.other "interface") (.seq [word "interface", typeName, .opt typeParameters,
    .opt (.seq [word "extends", commaList1 (.phrase .type)]), .phrase .objectType])

/-- A type with named values. -/
def enumeration : Rule :=
  .node (.other "enumeration") (.seq [.opt (word "const"), word "enum", identifier,
    .node (.other "enumeration body") (.seq [mark "\x7b",
      enclosed (commaList (.joined (.other "enumeration value") (.seq [.phrase .propertyKey, .opt initialValue]))),
      mark "\x7d"])])

/-- Another name for something imported or nested. -/
def importAlias : Rule :=
  .node (.other "import alias") (.seq [word "import", identifier, operator "=", dottedName, .phrase .looseEnding])

/-- A module of declarations. -/
def moduleBlock : Rule :=
  .node (.other "module") (.seq [word "module", sameLine, .first [.phrase .string, dottedName],
    .first [.part .body (.phrase .block), .phrase .looseEnding]])

/-- A declaration of something that is defined elsewhere. -/
def ambient : Rule :=
  .node (.other "ambient declaration") (.seq [word "declare", sameLine, .first [
    .seq [word "global", .part .body (.phrase .block)],
    .seq [word "module", mark ".", propertyName, mark ":", .phrase .type, .phrase .looseEnding],
    .phrase .declaration]])

/-- A declaration. -/
def declaration : Rule :=
  .first [
    functionDeclaration, classDeclaration,
    typed (.first [functionSignature, enumeration, typeAlias, interface, importAlias, ambient,
      .seq [namespaceBlock, .opt endOfBlock], moduleBlock]),
    lexicalDeclaration, variableDeclaration]

/-! ### Imports and exports -/

/-- A name another module gives to what it exports. -/
def moduleName : Rule := .first [.leaf .identifier Scanner.name, .phrase .string]

/-- The word that makes an import one of types, where more than a name follows. -/
def typeWord : Rule :=
  typed (.seq [oneWord ["type", "typeof"], .look fun _ text =>
    match afterRemarks text with
    | '\x7b' :: _ | '*' :: _ => true
    | rest =>
      match Scanner.name rest with
      | none => false
      | some n => !(["from", "as"].contains (String.ofList (rest.take n)))])

/-- One imported name. -/
def importSpecifier : Rule :=
  .node .importSpecifier (.seq [.opt typeWord, .first [
    .seq [.part .name moduleName, word "as", .part .alias identifier], .part .name identifier]])

/-- All of a module under one name. -/
def namespaceImport : Rule := .node (.other "namespace import") (.seq [operator "*", word "as", identifier])

/-- Names imported one by one. -/
def namedImports : Rule :=
  .node (.other "named imports") (.seq [mark "\x7b", enclosed (commaList importSpecifier), mark "\x7d"])

/-- What is imported. -/
def importClause : Rule :=
  .node (.other "import clause") (.first [namespaceImport, namedImports,
    .seq [identifier, .opt (.seq [mark ",", .first [namespaceImport, namedImports]])]])

/-- The module something comes from. -/
def fromClause : Rule := .seq [word "from", .phrase .string]

/-- What is asked of a module beside its name. -/
def importAttributes : Rule := .node (.other "import attributes") (.seq [oneWord ["with", "assert"], object])

/-- An import. -/
def importStatement : Rule :=
  .node .importStatement (.seq [word "import", .opt typeWord, .first [
      .seq [importClause, fromClause],
      typed (.node (.other "required module")
        (.seq [identifier, operator "=", word "require", mark "(", .phrase .string, mark ")"])),
      .phrase .string],
    .opt importAttributes, .phrase .looseEnding])

/-- Names exported one by one. -/
def exportClause : Rule :=
  .node (.other "export clause") (.seq [mark "\x7b",
    enclosed (commaList (.node (.other "export specifier")
      (.seq [.opt typeWord, moduleName, .opt (.seq [word "as", moduleName])]))),
    mark "\x7d"])

/-- An export. -/
def exportStatement : Rule :=
  .node .exportStatement (.seq [.many (.phrase .decorator), word "export", goesOn, .first [
    .seq [operator "*", .opt (.seq [word "as", moduleName]), fromClause, .opt importAttributes, .phrase .looseEnding],
    .seq [.opt (typed (.seq [word "type"])), exportClause, .opt (.seq [fromClause, .opt importAttributes]),
      .phrase .looseEnding],
    typed (.seq [operator "=", .phrase .expression, .phrase .ending]),
    typed (.seq [word "as", word "namespace", identifier, .phrase .looseEnding]),
    typed (.seq [word "type", operator "*", .opt (.seq [word "as", moduleName]), fromClause, .phrase .looseEnding]),
    .seq [word "default", .first [
      .part .declaration (.phrase .declaration),
      .seq [.part .value (.phrase .expression), .phrase .ending]]],
    .part .declaration (.phrase .declaration)]])

/-! ### Control -/

/-- A test in parentheses. -/
def condition : Rule := .node .parens (.seq [mark "(", enclosed (.phrase .expressions), mark ")"])

/-- A choice between two statements. -/
def ifStatement : Rule :=
  .node .ifStatement (.seq [word "if", condition, .phrase .statement,
    .opt (.node .elseClause (.seq [word "else", .phrase .statement]))])

/-- The head of a loop over a collection: what each element is bound to, and the collection. -/
def forEachHead : Rule :=
  let among : Rule := .seq [oneWord ["in", "of"], .phrase .expressions]
  .first [
    .seq [.part .kind (word "var"), .part .left binding, .opt initialValue, among],
    .seq [.part .kind (oneWord ["let", "const"]), .part .left binding, among],
    .seq [.part .left (.phrase .operand), among]]

/-- A loop over a collection. -/
def forEachStatement : Rule :=
  .node .forEachStatement (.seq [word "for", .opt (word "await"), mark "(", enclosed forEachHead, mark ")",
    .part .body (.phrase .statement)])

/-- A loop with a start, a test and a step. -/
def forStatement : Rule :=
  .node .forStatement (.seq [word "for", mark "(", enclosed (.seq [
      .first [
        .part .initializer (.first [lexicalDeclaration, variableDeclaration]),
        .seq [.part .initializer (.phrase .expressions), mark ";"],
        mark ";"],
      .opt (.phrase .expressions), mark ";", .opt (.phrase .expressions)]),
    mark ")", .part .body (.phrase .statement)])

/-- The cases of a switch. -/
def switchBody : Rule :=
  let rest : Rule := opened (.many (.phrase .statement))
  .node .switchBody (.seq [mark "\x7b",
    .many (.first [
      .node .switchCase (.seq [word "case",
        .within (fun ctx => { ctx with enclosed := true, arrowTypes := false }) (.phrase .expressions), mark ":", rest]),
      .node .switchDefault (.seq [word "default", mark ":", rest])]),
    mark "\x7d"])

/-- Statements with a keyword in front. -/
def controlStatement : Rule :=
  .first [
    ifStatement, forEachStatement, forStatement,
    .node .whileStatement (.seq [word "while", condition, .part .body (.phrase .statement)]),
    .node .doStatement (.seq [word "do", .part .body (.phrase .statement), word "while", condition,
      .opt (.phrase .looseEnding)]),
    .node .tryStatement (.seq [word "try", .part .body (.phrase .block),
      .opt (.node .catchClause (.seq [word "catch",
        .opt (.seq [mark "(", enclosed (.seq [.part .parameter binding, .opt (typed typeMark)]), mark ")"]),
        .part .body (.phrase .block)])),
      .opt (.node .finallyClause (.seq [word "finally", .part .body (.phrase .block)]))]),
    .node .switchStatement (.seq [word "switch", condition, .part .body switchBody]),
    .node .withStatement (.seq [word "with", condition, .part .body (.phrase .statement)]),
    .node (.other "return") (.seq [word "return",
      .first [.seq [sameLine, .phrase .expressions, .phrase .ending], .phrase .looseEnding]]),
    .node (.other "throw") (.seq [word "throw", .phrase .expressions, .phrase .ending]),
    .node (.other "jump") (.seq [oneWord ["break", "continue"],
      .opt (.seq [sameLine, .leaf .label Scanner.identifier]), .phrase .looseEnding]),
    .node (.other "debugger") (.seq [word "debugger", .phrase .looseEnding])]

/-- Statements in braces. -/
def block : Rule :=
  .node .block (.seq [mark "\x7b", opened (.many (.phrase .statement)), mark "\x7d", .opt endOfBlock])

/-- A statement with a label. -/
def labeledStatement : Rule :=
  .node .labeledStatement (.seq [.leaf .label Scanner.identifier, mark ":", .part .body (.phrase .statement)])

/-- A statement. -/
def statement : Rule :=
  .first [
    .phrase .block,
    .node (.other "empty") (mark ";"),
    controlStatement, exportStatement, importStatement, .phrase .declaration, labeledStatement,
    .node (.other "expression") (.seq [
      .first [.phrase .expressions, .leaf .identifier (Scanner.word "export")], .phrase .ending]),
    .leaf .markupComment Scanner.markupComment]

end WriteGuard.Source.Grammar
