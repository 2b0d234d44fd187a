import WriteGuard.Source.Grammar.Expression

/-!
Elements of markup inside expressions: a tag with attributes, and what stands between it and its closing tag.
-/

namespace WriteGuard.Source.Grammar

/-- The name of an element or attribute. -/
def tagName : Rule :=
  .joined (.other "qualified name") (.seq [.leaf .identifier Scanner.markupName,
    .many (.first [.seq [mark ".", propertyName], .seq [mark ":", .leaf .identifier Scanner.markupName]])])

/-- An expression in braces, or none. -/
def markupExpression : Rule :=
  .node (.other "markup expression")
    (.seq [mark "\x7b", enclosed (.opt (.first [spread, .phrase .expressions])), mark "\x7d"])

/-- An attribute in the given quotes. -/
def attributeString (quote : Char) : Rule :=
  let sign := String.singleton quote
  .node .string (.seq [mark sign,
    .many (.first [.glued .entity Scanner.entity, .glued .fragment (Scanner.attributeText quote)]),
    .glued (.symbol sign) (Scanner.exactly sign)])

/-- An attribute of an element. -/
def tagAttribute : Rule :=
  .first [
    .node (.other "attribute") (.seq [tagName,
      .opt (.seq [mark "=", .first [attributeString '"', attributeString '\'', markupExpression, .phrase .element]])]),
    markupExpression]

/-- What stands between two tags. -/
def markupChild : Rule :=
  .first [.glued .markupText Scanner.markupText, .phrase .element, markupExpression, .leaf .entity Scanner.entity]

/-- An element. -/
def element : Rule :=
  .seq [.look fun ctx _ => ctx.dialect.markup,
    .node (.other "element") (.seq [
      .sign fun text => match text with
        | '<' :: '/' :: _ => none
        | '<' :: _ => some 1
        | _ => none,
      .opt (.seq [tagName, .opt (typed (.phrase .typeArguments)), .many tagAttribute]),
      .first [
        mark "/>",
        .seq [mark ">", .many markupChild, mark "</", .opt tagName, mark ">"]]])]

end WriteGuard.Source.Grammar
