import WriteGuard.Proofs.PlainRules
import WriteGuard.Source.Parse

/-!
Texts that follow the grammar. All rules of the grammar are plain, so wherever a text without errors looks like a comment,
its tree has a comment or a piece of text there.
-/

namespace WriteGuard.Source

open WriteGuard.Source.Tree (Quotes)

namespace Rule

/-! ### Names, literals and patterns -/

section Parts

open Grammar Scanner

@[simp]
theorem plain_identifier : Plain Grammar.identifier := by simp [Grammar.identifier]

@[simp]
theorem plain_privateName : Plain Grammar.privateName := by simp [Grammar.privateName]

@[simp]
theorem plain_number : Plain Grammar.number := by simp [Grammar.number]

@[simp]
theorem plain_initialValue : Plain initialValue := by simp [initialValue]

@[simp]
theorem plain_anyEnding : Plain anyEnding := by simp [anyEnding]

@[simp]
theorem plain_endOfBlock : Plain endOfBlock := by simp [endOfBlock]

theorem plain_endOf (afterExpression : Bool) (again : Phrase) : Plain (endOf afterExpression again) := by
  simp (disch := decide) [endOf]

theorem plain_quoted {quote : Char} (hquote : quote ≠ '/') : Plain (quoted quote) := by
  have hsign : '/' ∉ (String.singleton quote).toList := by simpa using hquote.symm
  have hmark : '/' ∉ (String.singleton quote).toList.tail := fun hmem => hsign (List.mem_of_mem_tail hmem)
  simp [quoted, slashless_exactly hsign, plain_mark hmark]

theorem plain_templateOf {kind : Kind} {inner : Rule} (hinner : Plain inner) : Plain (templateOf kind inner) := by
  simp (disch := decide) [templateOf, substitution, hinner]

@[simp]
theorem plain_defaulted : Plain defaulted := by simp [defaulted]

@[simp]
theorem plain_restPattern : Plain restPattern := by simp [restPattern]

@[simp]
theorem plain_objectPattern : Plain objectPattern := by
  simp (disch := decide) [objectPattern, pairPattern, shorthandPattern]

@[simp]
theorem plain_arrayPattern : Plain arrayPattern := by simp (disch := decide) [arrayPattern]

@[simp]
theorem plain_binding : Plain binding := by simp [binding]

@[simp]
theorem plain_typeMark : Plain typeMark := by simp (disch := decide) [typeMark]

@[simp]
theorem plain_wordBefore {ends star : Bool} {words : List String} (hs : ∀ s ∈ words, '/' ∉ s.toList) :
    Plain (wordBefore ends star words) := by
  simp [wordBefore, plain_oneWord hs, memberGoesOn, nextIs]

@[simp]
theorem plain_accessWord {ends : Bool} : Plain (accessWord ends) := by simp (disch := decide) [accessWord]

@[simp]
theorem plain_methodKey {ends : Bool} : Plain (methodKey ends) := by
  simp (disch := decide) [methodKey, methodWords, memberGoesOn]

@[simp]
theorem plain_placeWords {ends : Bool} : Plain (placeWords ends) := by simp (disch := decide) [placeWords]

/-! ### Types -/

@[simp]
theorem plain_typeName : Plain typeName := by simp [typeName]

@[simp]
theorem plain_dottedName : Plain dottedName := by simp (disch := decide) [dottedName]

@[simp]
theorem plain_typeParameters : Plain typeParameters := by
  simp (disch := decide) [typeParameters, typeParameter, nextIs]

@[simp]
theorem plain_resultType : Plain resultType := by simp (disch := decide) [resultType, assertion, typePredicate]

@[simp]
theorem plain_resultMark : Plain resultMark := by simp (disch := decide) [resultMark]

@[simp]
theorem plain_signature : Plain signature := by simp [signature]

@[simp]
theorem plain_importWord : Plain importWord := by simp (disch := decide) [importWord]

@[simp]
theorem plain_dotProperty : Plain dotProperty := by simp (disch := decide) [dotProperty]

@[simp]
theorem plain_typePrefixed {s : String} (hs : '/' ∉ s.toList) : Plain (typePrefixed s) := by
  simp [typePrefixed, plain_word hs, nextIs]

theorem plain_typeCore : Plain typeCore := by
  simp (disch := decide) [typeCore, predefinedType, typeQuery, typeGoesOn, importedType, nextIs, functionType,
    constructorType, literalType, plain_templateOf .phrase, tupleMember]

@[simp]
theorem plain_typeUnion : Plain typeUnion := by simp [typeUnion, typeGoesOn]

@[simp]
theorem plain_indexSignature : Plain indexSignature := by simp (disch := decide) [indexSignature]

@[simp]
theorem plain_methodSignature : Plain methodSignature := by simp (disch := decide) [methodSignature]

@[simp]
theorem plain_typeMemberEnding : Plain typeMemberEnding := by simp (disch := decide) [typeMemberEnding]

theorem plain_objectType : Plain objectType := by
  simp (disch := decide) [objectType, constructSignature, callSignature, propertySignature]

/-! ### Expressions -/

theorem plain_chain : Plain chain := by
  have hsign : SlashFirst (Scanner.oneOf (Scanner.word "instanceof" :: Scanner.word "in" ::
      binaryOperators.map Scanner.operator)) := by
    refine .oneOf ?_
    rintro scan (_ | ⟨_, _ | ⟨_, hscan⟩⟩)
    · exact slashFirst_word (by decide)
    · exact slashFirst_word (by decide)
    · obtain ⟨s, -, rfl⟩ := List.mem_map.mp hscan
      exact slashFirst_operator s
  simp (disch := decide) [chain, hsign, beforeIn, goesOn]

theorem plain_unary : Plain unary := by
  have hsign : SlashFirst (Scanner.oneOf (["typeof", "void", "delete"].map Scanner.word ++
      ["!", "-", "+", "~", "++", "--"].map Scanner.operator)) := by
    refine .oneOf fun scan hscan => ?_
    rcases List.mem_append.mp hscan with hscan | hscan
    · obtain ⟨s, hs, rfl⟩ := List.mem_map.mp hscan
      exact slashFirst_word ((by decide : ∀ s ∈ ["typeof", "void", "delete"], '/' ∉ s.toList) s hs)
    · obtain ⟨s, -, rfl⟩ := List.mem_map.mp hscan
      exact slashFirst_operator s
  refine .first ?_
  rintro r (_ | ⟨_, _ | ⟨_, _ | ⟨_, hr⟩⟩⟩)
  · exact .phrase
  · exact .node (.seqCons (.sign hsign) (.seqCons .phrase .seqNil))
  · simp
  · cases hr

@[simp]
theorem plain_spread : Plain spread := by simp [spread]

@[simp]
theorem plain_callArguments : Plain callArguments := by simp [callArguments]

@[simp]
theorem plain_optionalChain : Plain optionalChain := by simp [optionalChain]

theorem plain_operand : Plain operand := by
  simp (disch := decide) [operand, operandTails, goesOn, nextIs]

theorem plain_newExpression : Plain newExpression := by
  simp (disch := decide) [newExpression, constructed, goesOn]

@[simp]
theorem plain_asyncWord : Plain asyncWord := by simp (disch := decide) [asyncWord, goesOn]

@[simp]
theorem plain_classRest : Plain classRest := by simp (disch := decide) [classRest, heritage]

@[simp]
theorem plain_method {ends : Bool} : Plain (method ends) := by
  have hgetter : SlashFirst staticGetter := slashless_staticGetter.slashFirst
  simp (disch := decide) [method, plainAhead, staticWord, hgetter, noStaticGetter]

theorem plain_classBody : Plain classBody := by
  simp (disch := decide) [classBody, memberGoesOn, abstractSignature, plainAhead, field, fieldWords, noStaticGetter]

@[simp]
theorem plain_object : Plain object := by simp (disch := decide) [object, objectMember]

@[simp]
theorem plain_namespaceBlock : Plain namespaceBlock := by simp (disch := decide) [namespaceBlock, goesOn]

theorem plain_primary : Plain primary := by
  have hclassName : SlashFirst (Scanner.butNot ["implements"] Scanner.identifier) :=
    (slashless_identifier.butNot _).slashFirst
  simp (disch := decide) [primary, functionExpression, array, parens, nextIs, classExpression, hclassName, Plain.regex]

/-! ### Markup -/

@[simp]
theorem plain_markupExpression : Plain markupExpression := by simp (disch := decide) [markupExpression]

theorem plain_attributeString {quote : Char} (hquote : quote ≠ '/') : Plain (attributeString quote) := by
  have hsign : '/' ∉ (String.singleton quote).toList := by simpa using hquote.symm
  have hmark : '/' ∉ (String.singleton quote).toList.tail := fun hmem => hsign (List.mem_of_mem_tail hmem)
  simp [attributeString, slashless_exactly hsign, plain_mark hmark, slashless_entity]

theorem plain_element : Plain element := by
  have hentity : SlashFirst entity := slashless_entity.slashFirst
  refine .seqCons .look (.seqCons (.node (.seqCons (.sign ?_) ?_)) .seqNil)
  · intro text n h
    dsimp only at h
    split at h
    · cases h
    · rw [← Option.some.inj h]
      exact List.not_mem_nil
    · cases h
  · simp (disch := decide) [tagAttribute, plain_attributeString, markupChild, hentity, closingTag]

/-! ### Statements -/

@[simp]
theorem plain_declarator : Plain declarator := by simp (disch := decide) [declarator]

@[simp]
theorem plain_lexicalDeclaration : Plain lexicalDeclaration := by
  simp (disch := decide) [lexicalDeclaration, goesOn]

@[simp]
theorem plain_variableDeclaration : Plain variableDeclaration := by simp (disch := decide) [variableDeclaration]

theorem plain_declaration : Plain declaration := by
  simp (disch := decide) [declaration, functionDeclaration, classDeclaration, functionSignature, enumeration, typeAlias,
    sameLine, interface, importAlias, ambient, moduleBlock]

@[simp]
theorem plain_typeWord : Plain typeWord := by simp (disch := decide) [typeWord]

@[simp]
theorem plain_moduleName : Plain moduleName := by simp [moduleName]

@[simp]
theorem plain_fromClause : Plain fromClause := by simp (disch := decide) [fromClause]

@[simp]
theorem plain_importAttributes : Plain importAttributes := by simp (disch := decide) [importAttributes]

@[simp]
theorem plain_importStatement : Plain importStatement := by
  simp (disch := decide) [importStatement, importClause, namespaceImport, namedImports, importSpecifier]

@[simp]
theorem plain_exportStatement : Plain exportStatement := by
  simp (disch := decide) [exportStatement, goesOn, exportClause]

@[simp]
theorem plain_condition : Plain condition := by simp (disch := decide) [condition]

@[simp]
theorem plain_controlStatement : Plain controlStatement := by
  simp (disch := decide) [controlStatement, ifStatement, forEachStatement, forEachHead, forStatement, switchBody, sameLine]

theorem plain_statement : Plain statement := by simp (disch := decide) [statement, labeledStatement]

end Parts

/-- Every rule of the grammar is plain. -/
theorem plain_grammar (name : Phrase) : Plain (grammar name) := by
  cases name with
  | ending => exact plain_endOf true .ending
  | looseEnding => exact plain_endOf false .looseEnding
  | blockEnding => exact plain_endOfBlock
  | string => simp [grammar, Grammar.string, plain_quoted]
  | template => exact plain_templateOf .phrase
  | expression => simp (disch := decide) [grammar, Grammar.expression, Grammar.goesOn]
  | expressions => simp (disch := decide) [grammar, Grammar.expressions, Grammar.goesOn]
  | ternary => simp (disch := decide) [grammar, Grammar.ternary, Grammar.goesOn]
  | chain => exact plain_chain
  | unary => exact plain_unary
  | operand => exact plain_operand
  | primary => exact plain_primary
  | arrow => simp (disch := decide) [grammar, Grammar.arrow, Grammar.arrowHead]
  | newExpression => exact plain_newExpression
  | arguments => simp (disch := decide) [grammar, Grammar.arguments]
  | propertyKey => simp (disch := decide) [grammar, Grammar.propertyKey, Grammar.computedKey]
  | element => exact plain_element
  | classBody => exact plain_classBody
  | decorator => simp (disch := decide) [grammar, Grammar.decorator]
  | pattern => simp (disch := decide) [grammar, Grammar.pattern]
  | parameters =>
    simp (disch := decide) [grammar, Grammar.parameters, Grammar.parameter, Grammar.typedParameter,
      Grammar.parameterWord, Grammar.nextIs]
  | type => simp (disch := decide) [grammar, Grammar.type, Grammar.typeGoesOn]
  | typeUnit => simp (disch := decide) [grammar, Grammar.typeUnit, plain_typeCore, Grammar.typeGoesOn]
  | typeArguments => simp (disch := decide) [grammar, Grammar.typeArguments]
  | objectType => exact plain_objectType
  | statement => exact plain_statement
  | declaration => exact plain_declaration
  | block => simp (disch := decide) [grammar, Grammar.block]

end Rule

/-! ### Whole texts -/

namespace Parse

theorem hasErrors_append : ∀ ts ts' : List Tree, Tree.hasErrors (ts ++ ts') = (Tree.hasErrors ts || Tree.hasErrors ts')
  | [], ts' => rfl
  | t :: ts, ts' => by
      rw [List.cons_append, Tree.hasErrors, Tree.hasErrors, hasErrors_append ts ts', Bool.or_assoc]

theorem hasErrors_enclose_error (at_ : Nat) (ts : List Tree) : Tree.hasErrors (Tree.enclose .error at_ ts) = true := by
  rw [Tree.enclose, hasErrors_append]
  simp [Tree.hasErrors, Tree.hasError]

/-- Statements without errors reach to the end of the text. -/
theorem covers_items {dialect : Dialect} {depth fuel : Nat} {c : Cursor} {trees : List Tree}
    (h : items dialect depth fuel c = (trees, false)) (herrors : Tree.hasErrors trees = false) :
    ∃ stop, stop.rest = [] ∧ Covers trees c stop := by
  cases fuel with
  | zero => cases h
  | succ fuel =>
    rw [items] at h
    split at h
    · next statements next reach hread =>
      dsimp only at h
      split at h
      · next hempty =>
        obtain ⟨rfl, -⟩ := Prod.mk.inj h
        have hstatements := (Rule.reads_of_read hread).covers Rule.plain_grammar (.many .phrase)
        exact ⟨(Rule.remarks next).2, List.isEmpty_iff.mp hempty, hstatements.trans (Rule.covers_remarks next)⟩
      · -- what goes on behind a place that does not fit has an error there
        split at h
        · cases h
        · obtain ⟨rfl, -⟩ := Prod.mk.inj h
          rw [hasErrors_append, hasErrors_append, hasErrors_enclose_error, Bool.or_true, Bool.true_or] at herrors
          cases herrors
    · cases h

theorem covers_opening (text : List Char) : Covers (opening text).1 ⟨0, text⟩ (opening text).2 := by
  rw [opening]
  split
  · exact .refl _
  · next n _ => exact .of_holdsText (between_advance n ⟨0, text⟩) rfl

/-- A text without errors is covered as a whole. -/
theorem covers_whole {dialect : Dialect} {text : List Char} {trees : List Tree}
    (h : whole dialect text = (trees, false)) (herrors : Tree.hasErrors trees = false) :
    ∃ stop, stop.rest = [] ∧ Covers trees ⟨0, text⟩ stop := by
  rw [whole] at h
  dsimp only at h
  cases hitems : items dialect (depth text) (text.length + 1) (opening text).2 with
  | mk statements ended =>
    rw [hitems] at h
    obtain ⟨rfl, rfl⟩ := Prod.mk.inj h
    rw [hasErrors_append, Bool.or_eq_false_iff] at herrors
    obtain ⟨stop, hstop, hcovers⟩ := covers_items hitems herrors.2
    exact ⟨stop, hstop, (covers_opening text).trans hcovers⟩

end Parse

/-- Where a text that follows the grammar looks like a comment, its tree has a comment or a piece of text. -/
theorem parse_quotes {dialect : Dialect} {front rest : List Char}
    (hbroken : (parse dialect (front ++ rest)).broken = false) (hopens : opensRemark rest = true) :
    Quotes [(parse dialect (front ++ rest)).root] (Text.byteLength front) := by
  rw [parse] at hbroken ⊢
  dsimp only at hbroken ⊢
  split at hbroken
  · next hended =>
    rw [if_pos hended]
    obtain ⟨stop, hstop, whole, hwhole, hplaces⟩ := Parse.covers_whole (Prod.ext rfl (by simpa using hended)) hbroken
    have htext : front ++ rest = whole := by simpa [hstop] using hwhole.text
    have hrest : rest ≠ [] := by
      rintro rfl
      cases hopens
    have hquotes := hplaces front rest htext.symm hrest (by rwa [hstop, List.append_nil])
    rw [Nat.zero_add] at hquotes
    obtain ⟨t, ht, n, hn, hkind, hspan⟩ := hquotes
    exact ⟨_, List.mem_singleton_self _, n, Tree.mem_preorder.mpr (Or.inr ⟨t, ht, hn⟩), hkind, hspan⟩
  · split at hbroken <;> cases hbroken

end WriteGuard.Source
