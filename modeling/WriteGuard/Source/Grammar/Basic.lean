import WriteGuard.Source.Rule

/-!
Small rules that the grammar is put together from.
-/

namespace WriteGuard.Source.Grammar

/-- A punctuation mark. -/
def mark (s : String) : Rule := .sign (Scanner.exactly s)

/-- A keyword. -/
def word (s : String) : Rule := .sign (Scanner.word s)

/-- One of several keywords. -/
def oneWord (words : List String) : Rule := .sign (Scanner.oneOf (words.map Scanner.word))

/-- An operator, where no longer one stands. -/
def operator (s : String) : Rule := .sign (Scanner.operator s)

/-- One of several operators. -/
def oneOperator (operators : List String) : Rule := .sign (Scanner.oneOf (operators.map Scanner.operator))

/-- A rule inside brackets. -/
def enclosed (r : Rule) : Rule := .within (fun ctx => { ctx with enclosed := true, arrowTypes := true }) r

/-- A rule where statements can end. -/
def opened (r : Rule) : Rule := .within (fun ctx => { ctx with enclosed := false, arrowTypes := true }) r

/-- A rule for texts with types only. -/
def typed (r : Rule) : Rule := .seq [.look fun ctx _ => ctx.dialect.typed, r]

/-- A rule for texts without types only. -/
def untyped (r : Rule) : Rule := .seq [.look fun ctx _ => !ctx.dialect.typed, r]

/-- Whether an expression cannot go on here because its statement ends. -/
def stops (afterExpression : Bool) (ctx : Context) (text : List Char) : Bool :=
  match text with
  | [] => true
  | c :: _ =>
    if c = '/' || Scanner.isBlank c then Ending.ahead ctx.dialect afterExpression (text.length + 1) text
    else Ending.here ctx.dialect afterExpression text

/-- Nothing, where an expression may go on. -/
def goesOn : Rule := .look fun ctx text => ctx.enclosed || !stops true ctx text

/-- Nothing, where a type may go on. -/
def typeGoesOn : Rule := .look fun ctx text => ctx.enclosed || !stops false ctx text

/-- Nothing, where the line is not over. -/
def sameLine : Rule := .look fun ctx text => !stops false ctx text

/-- The text after blanks and comments. -/
def afterRemarks (text : List Char) : List Char := (Rule.remarks ⟨0, text⟩).2.rest

/-- Nothing, where the next token begins with a character that passes a test. -/
def nextIs (test : Char → Bool) : Rule := .look fun _ text => ((afterRemarks text).head?.map test).getD false

/-- Items divided by commas, any of which may be missing. -/
def commaList (r : Rule) : Rule := .seq [.opt r, .many (.seq [mark ",", .opt r])]

/-- One or more items divided by commas. -/
def commaList1 (r : Rule) : Rule := .seq [r, .many (.seq [mark ",", r])]

/-- A variable name. -/
def identifier : Rule := .leaf .identifier Scanner.identifier

/-- A name after a dot or in front of a colon, keyword or not. -/
def propertyName : Rule := .leaf .propertyName Scanner.name

/-- A name that is private to a class. -/
def privateName : Rule := .leaf .privateName Scanner.privateName

/-- The value a variable, parameter or field begins with. -/
def initialValue : Rule := .seq [operator "=", .part .value (.phrase .expression)]

/-- The end of a statement after an expression or after something else. -/
def anyEnding : Rule := .first [.phrase .ending, .phrase .looseEnding]

/-- The end of a statement: a semicolon, or a place where none is needed. -/
def endOf (afterExpression : Bool) (again : Phrase) : Rule :=
  .first [.look fun ctx text => Ending.here ctx.dialect afterExpression text, mark ";", .seq [.remark, .phrase again]]

/-- The end of a block, with the comments on its last line that belong to it. -/
def endOfBlock : Rule :=
  .first [.look fun ctx text => Ending.here ctx.dialect false text, .seq [.remark, .phrase .blockEnding]]

end WriteGuard.Source.Grammar
