import WriteGuard.Source.Grammar.Pattern

/-!
The words before the key of a member of a class, an object or an object type. Each of these words can be a key itself.
It is one where no key follows, and also where the member ends with its line: members of classes and of object types can
end so, members of objects cannot. The parameter `ends` says which of the two it is.
-/

namespace WriteGuard.Source.Grammar

/-- Whether the key of a member may begin with this character. -/
def opensKey (c : Char) : Bool := Scanner.isNameStart c || c.isDigit || "\"'[#\\".toList.contains c

/-- Nothing, where a member does not end. -/
def memberGoesOn (ends : Bool) : Rule := .look fun ctx text => !ends || !stops false ctx text

/-- One of several words before a key, or before the star of a key where `star` allows one. -/
def wordBefore (ends star : Bool) (words : List String) : Rule :=
  .seq [oneWord words, memberGoesOn ends, nextIs fun c => opensKey c || (star && c = '*')]

/-- The words that say who may use a member. -/
def accessWord (ends : Bool) : Rule := wordBefore ends true ["public", "private", "protected"]

/-- The words that tell how a function waits, gets, sets or yields. No member without parameters has them, so that after
the first of them no member ends. -/
def methodWords (ends : Bool) : Rule :=
  .first [
    .seq [wordBefore ends true ["async"], .opt (.first [wordBefore false false ["get", "set"], operator "*"])],
    wordBefore ends false ["get", "set"],
    operator "*"]

/-- The key of a function among members. -/
def methodKey (ends : Bool) : Rule :=
  let key : Rule := .part .name (.phrase .propertyKey)
  .first [.seq [methodWords ends, key], .seq [key, memberGoesOn ends]]

/-- Words before a member with types, from `static` on. -/
def placeWords (ends : Bool) : Rule :=
  .seq [.opt (wordBefore ends true ["static"]), .opt (wordBefore ends true ["override"]),
    .opt (wordBefore ends true ["readonly"])]

/-- Nothing, where the next word can be the key of a member of a class with types: these two words never are. -/
def plainAhead : Rule :=
  .look fun _ text => (Scanner.oneOf (["abstract", "accessor"].map Scanner.word) (afterRemarks text)).isNone

/-- Words before a field of a class with types. -/
def fieldWords : Rule :=
  let access : Rule := accessWord true
  let ambient : Rule := wordBefore true false ["declare"]
  let readonly : Rule := wordBefore true false ["readonly"]
  .seq [
    .opt (.first [.seq [ambient, .opt access], .seq [access, .opt ambient]]),
    .first [
      .seq [word "abstract", .opt readonly],
      word "accessor",
      .seq [readonly, word "abstract"],
      placeWords true]]

/-- Nothing, where the lexeme for a static getter whose name stands on a later line does not follow. -/
def noStaticGetter : Rule := .look fun ctx text => ctx.dialect.typed || (Scanner.staticGetter (afterRemarks text)).isNone

/-- The word for a member of a class itself, in a class without types. -/
def staticWord (ends : Bool) : Rule :=
  .first [.sign Scanner.staticGetter, .seq [noStaticGetter, wordBefore ends true ["static"]]]

end WriteGuard.Source.Grammar
