import WriteGuard.Write.Finding

/-!
What recognised calls look like. The callee alone decides whether a call is a write, and its shape alone decides which
argument is the payload: the second of a function, the first of a method.
-/

namespace WriteGuard

namespace Signature

theorem ofCall?_of_ident {call : Call} {i : Ident} (hc : call.callee = .ident i) (ops : Operations) :
    ofCall? ops call = if i.name ∈ ops.functions then some ⟨i.name, i.span, 1⟩ else none := by
  rw [ofCall?, hc]
  simp only [List.contains_iff_mem]

theorem ofCall?_of_member {call : Call} {object : Expr} {selector : Selector} {at_ : Span} {name : String}
    (hc : call.callee = .member object selector at_) (hn : selector.name? = some name) (ops : Operations) :
    ofCall? ops call =
      if name ∈ ops.methods ∧ receives ops.receivers object = true then some ⟨name, selector.span, 0⟩ else none := by
  rw [ofCall?, hc]
  simp only [hn, Bool.and_eq_true, List.contains_iff_mem]

/-- The two shapes of a recognised call: a function, or a method on a receiver that counts. -/
theorem ofCall?_cases {ops : Operations} {call : Call} {s : Signature} (h : ofCall? ops call = some s) :
    (∃ i : Ident, call.callee = .ident i ∧ i.name ∈ ops.functions ∧ s = ⟨i.name, i.span, 1⟩) ∨
      ∃ object selector at_ name, call.callee = .member object selector at_ ∧ selector.name? = some name ∧
        name ∈ ops.methods ∧ receives ops.receivers object = true ∧ s = ⟨name, selector.span, 0⟩ := by
  cases hc : call.callee with
  | ident i =>
    rw [ofCall?_of_ident hc] at h
    split at h
    · next hi => exact Or.inl ⟨i, rfl, hi, (Option.some.inj h).symm⟩
    · cases h
  | member object selector at_ =>
    cases hn : selector.name? with
    | none => simp [ofCall?, hc, hn] at h
    | some name =>
      rw [ofCall?_of_member hc hn] at h
      split at h
      · next hm => exact Or.inr ⟨object, selector, at_, name, rfl, hn, hm.1, hm.2, (Option.some.inj h).symm⟩
      · cases h
  | _ => simp [ofCall?, hc] at h

/-- Every set of operations sees the payload of a call in the same place. -/
theorem payloadIndex_eq {ops ops' : Operations} {call : Call} {s s' : Signature} (h : ofCall? ops call = some s)
    (h' : ofCall? ops' call = some s') : s.payloadIndex = s'.payloadIndex := by
  rcases ofCall?_cases h with ⟨i, hc, _, rfl⟩ | ⟨o, sel, at_, n, hc, _, _, _, rfl⟩ <;>
    rcases ofCall?_cases h' with ⟨i', hc', _, rfl⟩ | ⟨o', sel', at', n', hc', _, _, _, rfl⟩
  · rfl
  · rw [hc] at hc'; cases hc'
  · rw [hc] at hc'; cases hc'
  · rfl

end Signature

namespace Finding

/-- A finding about a payload is in the place of one of the arguments. -/
theorem noUndefinedValues?_place {objects : List String} {view : SourceView} {call : Call} {f : Finding}
    (h : noUndefinedValues? objects view call = some f) :
    f.rule = .noUndefinedValues ∧ ∃ e ∈ call.arguments, f.span = e.span := by
  unfold noUndefinedValues? at h
  split at h
  · cases h
  · split at h
    · cases h
    · next payload hpayload =>
      split at h
      · rw [← Option.some.inj h]
        exact ⟨rfl, payload, List.mem_of_getElem? hpayload, rfl⟩
      · cases h

/-- A finding about a set is in the place of the whole call. -/
theorem setRequireMerge?_place {view : SourceView} {call : Call} {f : Finding}
    (h : setRequireMerge? view call = some f) : f.rule = .setRequireMerge ∧ f.span = call.span := by
  unfold setRequireMerge? at h
  split at h
  · cases h
  · split at h
    · cases h
    · rw [← Option.some.inj h]
      exact ⟨rfl, rfl⟩

/-- The answer about a payload depends on the callee only through the place of the payload, and on the arguments only
through the one in that place. -/
theorem noUndefinedValues?_congr {objects : List String} {view : SourceView} {call other : Call}
    (hi : (Signature.ofCall? (Operations.writes objects) other).map Signature.payloadIndex =
      (Signature.ofCall? (Operations.writes objects) call).map Signature.payloadIndex)
    (ha : ∀ s, Signature.ofCall? (Operations.writes objects) call = some s →
      other.arguments[s.payloadIndex]? = call.arguments[s.payloadIndex]?) :
    noUndefinedValues? objects view other = noUndefinedValues? objects view call := by
  unfold noUndefinedValues?
  cases hs : Signature.ofCall? (Operations.writes objects) call with
  | none =>
    rw [hs, Option.map_none, Option.map_eq_none_iff] at hi
    rw [hi]
  | some s =>
    rw [hs, Option.map_some, Option.map_eq_some_iff] at hi
    obtain ⟨s', hs', hp⟩ := hi
    have hpay : s'.payload? other = s.payload? call := by
      rw [Signature.payload?, Signature.payload?, hp]
      exact ha s hs
    simp only [hs', hpay]

end Finding

end WriteGuard
