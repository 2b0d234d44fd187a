import WriteGuard.Proofs.Classification

/-!
What the offered changes do to a call. The merge option is offered only where it becomes the options of the call, so
that the call then merges; an update in the place of a set is no set any more. Neither change touches the payload: a
payload with `undefined` in it stays reported, and a clean one stays unreported.
-/

namespace WriteGuard

/-- The object `{ merge: true }`, wherever its parts are written. -/
def mergeObject (key flag property whole : Span) : Expr :=
  .object [.property (.ident ⟨"merge", key⟩) (.literal ⟨.boolean true, flag⟩) false property] whole

/-- A callee with another name for its operation, at `at_`: in the place of a name, of a member after a dot, or between
the quotes or backticks of a key. -/
def Expr.renamed (operation : String) (at_ : Span) : Expr → Expr
  | .ident _ => .ident ⟨operation, at_⟩
  | .member receiver (.named _) s => .member receiver (.named ⟨operation, at_⟩) s
  | .member receiver (.computed (.literal ⟨.string _, _⟩)) s =>
    .member receiver (.computed (.literal ⟨.string operation, at_⟩)) s
  | .member receiver (.computed (.literal ⟨.template (some _), _⟩)) s =>
    .member receiver (.computed (.literal ⟨.template (some operation), at_⟩)) s
  | e => e

/-! ### One more argument -/

namespace MergeCheck

/-- The object asks for a merge where it stands as the options. -/
theorem ofCall_append_mergeObject (call : Call) {s : Signature} (h : call.arguments.length = s.optionsIndex)
    (key flag property whole span : Span) :
    ofCall ⟨call.callee, call.arguments ++ [mergeObject key flag property whole], span⟩ s = .satisfied := by
  have hopt : (call.arguments ++ [mergeObject key flag property whole])[s.optionsIndex]? =
      some (mergeObject key flag property whole) := by
    rw [← h, List.getElem?_concat_length]
  simp only [ofCall, hopt]
  rfl

/-- A last argument in any other place is not looked at: it is beyond the options, or before them. -/
theorem ofCall_append_of_ne (call : Call) {s : Signature} (h : call.arguments.length ≠ s.optionsIndex) (e : Expr)
    (span : Span) : ofCall ⟨call.callee, call.arguments ++ [e], span⟩ s = ofCall call s := by
  have hopt : (call.arguments ++ [e])[s.optionsIndex]? = call.arguments[s.optionsIndex]? := by
    rcases Nat.lt_or_gt_of_ne h with hlt | hgt
    · rw [List.getElem?_eq_none (by simp; omega), List.getElem?_eq_none (by omega)]
    · rw [List.getElem?_append_left hgt]
  simp only [ofCall, hopt]

end MergeCheck

/-- The payload of a call is the same with one more argument after it. -/
theorem Finding.noUndefinedValues?_append {call : Call} {ops : Operations} {s : Signature}
    (hs : Signature.ofCall? ops call = some s) (hlen : s.payloadIndex < call.arguments.length) (objects : List String)
    (view : SourceView) (e : Expr) (span : Span) :
    noUndefinedValues? objects view ⟨call.callee, call.arguments ++ [e], span⟩ =
      noUndefinedValues? objects view call := by
  refine noUndefinedValues?_congr rfl fun s' hs' => ?_
  rw [← Signature.payloadIndex_eq hs hs']
  exact List.getElem?_append_left hlen

/-! ### Another operation -/

namespace Signature

/-- The names a selector can have, and where each of them is written. -/
theorem renamed_of_name? {selector : Selector} {name : String} (hn : selector.name? = some name) (object : Expr)
    (s : Span) (operation : String) (at_ : Span) : ∃ selector',
      Expr.renamed operation at_ (.member object selector s) = .member object selector' s ∧
        selector'.name? = some operation := by
  cases selector with
  | named i => exact ⟨.named ⟨operation, at_⟩, rfl, rfl⟩
  | privateName i => cases hn
  | computed key =>
    cases key with
    | literal l =>
      obtain ⟨value, lspan⟩ := l
      cases value with
      | string text => exact ⟨.computed (.literal ⟨.string operation, at_⟩), rfl, rfl⟩
      | template text =>
        cases text with
        | none => cases hn
        | some text => exact ⟨.computed (.literal ⟨.template (some operation), at_⟩), rfl, rfl⟩
      | _ => cases hn
    | _ => cases hn

/-- A call of another operation is recognised as before by all who watch both names or neither. -/
theorem ofCall?_renamed {call : Call} {ops ops' : Operations} {s : Signature} (h : ofCall? ops call = some s)
    {operation : String} (hf : operation ∈ ops'.functions ↔ s.operation ∈ ops'.functions)
    (hm : operation ∈ ops'.methods ↔ s.operation ∈ ops'.methods) (at_ span : Span) :
    (ofCall? ops' ⟨call.callee.renamed operation at_, call.arguments, span⟩).map payloadIndex =
      (ofCall? ops' call).map payloadIndex := by
  rcases ofCall?_cases h with ⟨i, hc, _, rfl⟩ | ⟨object, selector, sp, name, hc, hn, _, _, rfl⟩
  · rw [hc, Expr.renamed, ofCall?_of_ident rfl, ofCall?_of_ident hc]
    by_cases ho : i.name ∈ ops'.functions
    · rw [if_pos ho, if_pos (hf.mpr ho)]; rfl
    · rw [if_neg ho, if_neg (mt hf.mp ho)]
  · obtain ⟨selector', hr, hn'⟩ := renamed_of_name? hn object sp operation at_
    rw [hc, hr, ofCall?_of_member rfl hn', ofCall?_of_member hc hn]
    by_cases ho : name ∈ ops'.methods ∧ receives ops'.receivers object = true
    · rw [if_pos ho, if_pos ⟨hm.mpr ho.1, ho.2⟩]; rfl
    · rw [if_neg ho, if_neg fun h' => ho ⟨hm.mp h'.1, h'.2⟩]

/-- A call of an operation that is not watched is not recognised. -/
theorem ofCall?_renamed_eq_none {call : Call} {ops ops' : Operations} {s : Signature} (h : ofCall? ops call = some s)
    {operation : String} (hf : operation ∉ ops'.functions) (hm : operation ∉ ops'.methods) (at_ span : Span) :
    ofCall? ops' ⟨call.callee.renamed operation at_, call.arguments, span⟩ = none := by
  rcases ofCall?_cases h with ⟨i, hc, _, rfl⟩ | ⟨object, selector, sp, name, hc, hn, _, _, rfl⟩
  · rw [hc, Expr.renamed, ofCall?_of_ident rfl, if_neg hf]
  · obtain ⟨selector', hr, hn'⟩ := renamed_of_name? hn object sp operation at_
    rw [hc, hr, ofCall?_of_member rfl hn', if_neg fun h' => hm h'.1]

end Signature

/-- The update in the place of a set is watched wherever the set is watched for its payload, and never as a set. -/
theorem Operations.updateVariant?_cases {operation update : String} (h : updateVariant? operation = some update) :
    update ∉ overwritingSets.functions ∧ update ∉ overwritingSets.methods ∧ ∀ objects,
      (update ∈ (writes objects).functions ↔ operation ∈ (writes objects).functions) ∧
        (update ∈ (writes objects).methods ↔ operation ∈ (writes objects).methods) := by
  unfold updateVariant? at h
  split at h <;> cases h <;> simp [overwritingSets, writes]

/-! ### The suggestions -/

namespace Suggestion

/-- The merge option is offered only where the payload is the last argument. -/
theorem length_of_addMergeOption {view : SourceView} {call : Call} {s : Signature} {offer : Suggestion}
    (h : offer ∈ forMerge view call s) (hm : offer.message = .addMergeOption) :
    call.arguments.length = s.optionsIndex := by
  by_cases hlen : call.arguments.length = s.optionsIndex
  · exact hlen
  · rw [forMerge, if_neg hlen, List.nil_append, List.mem_map] at h
    obtain ⟨edit, _, rfl⟩ := h
    cases hm

/-- An update is offered only in the place of an operation that has one. -/
theorem updateVariant?_of_changeToUpdate {view : SourceView} {call : Call} {s : Signature} {offer : Suggestion}
    (h : offer ∈ forMerge view call s) (hm : offer.message = .changeToUpdate) :
    ∃ update, Operations.updateVariant? s.operation = some update := by
  rw [forMerge, List.mem_append, List.mem_map] at h
  rcases h with h | ⟨edit, he, rfl⟩
  · split at h
    · obtain ⟨edit, _, rfl⟩ := List.mem_map.mp h
      cases hm
    · cases h
  · cases hv : Operations.updateVariant? s.operation with
    | none => simp [switchToUpdate?, hv] at he
    | some update => exact ⟨update, rfl⟩

end Suggestion

/-- A reported call is a set whose options do not ask for a merge, with the suggestions for it. -/
theorem Finding.setRequireMerge?_cases {view : SourceView} {call : Call} {finding : Finding}
    (h : setRequireMerge? view call = some finding) :
    ∃ s, Signature.ofCall? Operations.overwritingSets call = some s ∧ MergeCheck.ofCall call s ≠ .satisfied ∧
      finding.suggestions = Suggestion.forMerge view call s := by
  unfold setRequireMerge? at h
  split at h
  · cases h
  · next s hs =>
    split at h
    · cases h
    · next hm => exact ⟨s, hs, hm, by rw [← Option.some.inj h]⟩

/-- The changes offered for a reported call mend it and hide nothing. With the merge option as one more argument, where
it is offered, the call is the same set and asks for a merge; where the payload is not the last argument, one more
argument would not make the call merge, and it is not offered. With an update in the place of the set, where that is
offered, the call is no set any more. In both cases the answer about the payload, and its place, stays the same. -/
theorem Finding.suggestions_mend (view : SourceView) (objects : List String) (call : Call) (finding : Finding)
    (h : setRequireMerge? view call = some finding) :
    ∃ s, Signature.ofCall? Operations.overwritingSets call = some s ∧
      (∀ key flag property whole span,
        let longer : Call := ⟨call.callee, call.arguments ++ [mergeObject key flag property whole], span⟩
        ((∃ offer ∈ finding.suggestions, offer.message = .addMergeOption) →
          Signature.ofCall? Operations.overwritingSets longer = some s ∧ MergeCheck.ofCall longer s = .satisfied ∧
            noUndefinedValues? objects view longer = noUndefinedValues? objects view call) ∧
        (call.arguments.length ≠ s.optionsIndex →
          MergeCheck.ofCall longer s ≠ .satisfied ∧
            ¬ ∃ offer ∈ finding.suggestions, offer.message = .addMergeOption)) ∧
      ((∃ offer ∈ finding.suggestions, offer.message = .changeToUpdate) →
        ∃ update, Operations.updateVariant? s.operation = some update ∧ ∀ at_ span,
          let updating : Call := ⟨call.callee.renamed update at_, call.arguments, span⟩
          Signature.ofCall? Operations.overwritingSets updating = none ∧
            noUndefinedValues? objects view updating = noUndefinedValues? objects view call) := by
  obtain ⟨s, hs, hmissing, hsug⟩ := setRequireMerge?_cases h
  rw [hsug]
  refine ⟨s, hs, fun key flag property whole span => ⟨?_, fun hlen => ⟨?_, ?_⟩⟩, ?_⟩
  · rintro ⟨offer, ho, hm⟩
    have hlen := Suggestion.length_of_addMergeOption ho hm
    have hpay : s.payloadIndex < call.arguments.length := by rw [hlen, Signature.optionsIndex]; omega
    exact ⟨hs, MergeCheck.ofCall_append_mergeObject call hlen .., noUndefinedValues?_append hs hpay ..⟩
  · rw [MergeCheck.ofCall_append_of_ne call hlen]
    exact hmissing
  · rintro ⟨offer, ho, hm⟩
    exact hlen (Suggestion.length_of_addMergeOption ho hm)
  · rintro ⟨offer, ho, hm⟩
    obtain ⟨update, hu⟩ := Suggestion.updateVariant?_of_changeToUpdate ho hm
    obtain ⟨hf, hmeth, hw⟩ := Operations.updateVariant?_cases hu
    refine ⟨update, hu, fun at_ span => ⟨Signature.ofCall?_renamed_eq_none hs hf hmeth at_ span, ?_⟩⟩
    exact noUndefinedValues?_congr (Signature.ofCall?_renamed hs (hw objects).1 (hw objects).2 at_ span) fun _ _ => rfl

/-- The call ``doc()[`set`]({ a: undefined })``. -/
def templateSet : Call :=
  ⟨.member (.call (.ident ⟨"doc", ⟨0, 3⟩⟩) [] ⟨0, 5⟩) (.computed (.literal ⟨.template (some "set"), ⟨6, 11⟩⟩)) ⟨0, 12⟩,
    [.object [.property (.ident ⟨"a", ⟨15, 16⟩⟩) (.ident ⟨"undefined", ⟨18, 27⟩⟩) false ⟨15, 27⟩] ⟨13, 29⟩], ⟨0, 30⟩⟩

/-- The tokens of this call that the changes are made at. -/
def templateTokens : SourceView where
  resolve _ _ := none
  tokens s := [⟨.template, "`set`", ⟨6, 11⟩⟩, ⟨.punctuator, ")", ⟨29, 30⟩⟩].filter fun t => s.contains t.span

/-- Both changes are offered for a set named between backticks. The one makes it merge, the other makes it an update,
and the `undefined` in its payload is reported after either of them. -/
theorem Finding.suggestions_mend_templateSet : ∃ finding s,
    setRequireMerge? templateTokens templateSet = some finding ∧
      (∃ offer ∈ finding.suggestions, offer.message = .addMergeOption) ∧
      (∃ offer ∈ finding.suggestions, offer.message = .changeToUpdate) ∧
      MergeCheck.ofCall ⟨templateSet.callee, templateSet.arguments ++
        [mergeObject ⟨33, 38⟩ ⟨40, 44⟩ ⟨33, 44⟩ ⟨31, 46⟩], ⟨0, 47⟩⟩ s = .satisfied ∧
      ∃ update, Signature.ofCall? Operations.overwritingSets
          ⟨templateSet.callee.renamed update ⟨6, 14⟩, templateSet.arguments, ⟨0, 33⟩⟩ = none ∧
        (noUndefinedValues? ["batch"] templateTokens
          ⟨templateSet.callee.renamed update ⟨6, 14⟩, templateSet.arguments, ⟨0, 33⟩⟩).isSome := by
  obtain ⟨s, _, hadd, hupdate⟩ := suggestions_mend templateTokens ["batch"] templateSet _ rfl
  obtain ⟨-, hsat, -⟩ := (hadd ⟨33, 38⟩ ⟨40, 44⟩ ⟨33, 44⟩ ⟨31, 46⟩ ⟨0, 47⟩).1 (by decide)
  obtain ⟨update, -, hu⟩ := hupdate (by decide)
  obtain ⟨hnone, hsame⟩ := hu ⟨6, 14⟩ ⟨0, 33⟩
  refine ⟨_, s, rfl, by decide, by decide, hsat, update, hnone, ?_⟩
  rw [hsame]
  decide

end WriteGuard
