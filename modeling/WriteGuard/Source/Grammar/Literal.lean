import WriteGuard.Source.Grammar.Basic

/-!
Strings, templates and regular expressions. Their inner pieces follow each other without blanks.
-/

namespace WriteGuard.Source.Grammar

/-- A string in the given quotes. -/
def quoted (quote : Char) : Rule :=
  let sign := String.singleton quote
  .node .string (.seq [mark sign,
    .many (.first [.glued .fragment (Scanner.stringFragment quote), .glued .escape Scanner.escape]),
    .glued (.symbol sign) (Scanner.exactly sign)])

/-- A string. -/
def string : Rule := .first [quoted '\'', quoted '"']

/-- An expression inside a template. -/
def substitution (inner : Rule) : Rule :=
  .node .substitution (.seq [.glued (.symbol "$\x7b") (Scanner.exactly "$\x7b"), enclosed inner, mark "\x7d"])

/-- A template whose substitutions hold `inner`. -/
def templateOf (kind : Kind) (inner : Rule) : Rule :=
  .node kind (.seq [mark "`",
    .many (.first [.glued .fragment Scanner.templateFragment, .glued .escape Scanner.escape, substitution inner]),
    .glued (.symbol "`") (Scanner.exactly "`")])

/-- A template. -/
def template : Rule := templateOf .template (.phrase .expressions)

/-- A regular expression. -/
def regex : Rule :=
  .node .regex (.seq [mark "/", .glued (.other "pattern") Scanner.regexBody,
    .glued (.symbol "/") (Scanner.exactly "/"), .opt (.glued (.other "flags") Scanner.regexFlags)])

/-- A number. -/
def number : Rule := .leaf .number Scanner.number

end WriteGuard.Source.Grammar
