import WriteGuard.Write.Payload

/-!
The search of a payload as a walk over expressions. A step goes into an object literal or through a variable, and both
kinds of step are paid from one budget. The search finds `undefined` exactly if a walk within the budget ends there,
whatever the resolver answers and however often it leads back to the same name.
-/

namespace WriteGuard.Payload

/-- One step of a walk. Nothing else leads on: not a spread, a method, an element, an argument or a receiver. -/
inductive Step (view : SourceView) : Expr → Expr → Prop
  /-- Into the value of a property, written out or shorthand. -/
  | property {members : List Member} {s : Span} {key : Key} {value : Expr} {shorthand : Bool} {at_ : Span}
      (h : Member.property key value shorthand at_ ∈ members) : Step view (.object members s) value
  /-- To the initial value of a variable, as it is seen from the place where the name is written. -/
  | binding {i : Ident} {value : Expr} (hi : i.name ≠ "undefined") (h : view.resolve i.name i.span = some value) :
      Step view (.ident i) value

/-- A walk of `n` steps. -/
inductive Walk (view : SourceView) : Nat → Expr → Expr → Prop
  | here (e : Expr) : Walk view 0 e e
  | step {n : Nat} {e f g : Expr} (h : Step view e f) (rest : Walk view n f g) : Walk view (n + 1) e g

/-- An expression that is the word `undefined`. -/
def IsSentinel (e : Expr) : Prop := ∃ i : Ident, e = .ident i ∧ i.name = "undefined"

/-! ### One step of the search -/

theorem mem_properties {members : List Member} {p : Property} :
    p ∈ Member.properties members ↔ Member.property p.key p.value p.shorthand p.span ∈ members := by
  rw [Member.properties, List.mem_filterMap]
  constructor
  · rintro ⟨m, hm, h⟩
    cases m with
    | property key value shorthand span =>
      simp only [Member.property?, Option.some.injEq] at h
      rw [← h]; exact hm
    | spread argument span => simp [Member.property?] at h
    | other span => simp [Member.property?] at h
  · intro h
    exact ⟨_, h, rfl⟩

theorem not_step_of_isSentinel {view : SourceView} {e f : Expr} (he : IsSentinel e) : ¬ Step view e f := by
  obtain ⟨i, rfl, hi⟩ := he
  intro h
  cases h with
  | binding hne _ => exact hne hi

/-- A search with one more unit of fuel stops at the word itself or makes one step and goes on. -/
theorem inspect_succ (view : SourceView) (fuel : Nat) (e : Expr) :
    inspect view (fuel + 1) e = true ↔ IsSentinel e ∨ ∃ f, Step view e f ∧ inspect view fuel f = true := by
  constructor
  · intro h
    cases e with
    | ident i =>
      by_cases hi : i.name = "undefined"
      · exact Or.inl ⟨i, rfl, hi⟩
      · cases hr : view.resolve i.name i.span with
        | none => simp [inspect, sentinel, hi, hr] at h
        | some value => exact Or.inr ⟨value, .binding hi hr, by simpa [inspect, sentinel, hi, hr] using h⟩
    | object members s =>
      obtain ⟨p, hp, hv⟩ := List.any_eq_true.mp (by simpa only [inspect] using h)
      exact Or.inr ⟨p.value, .property (mem_properties.mp hp), hv⟩
    | call _ _ _ => simp [inspect] at h
    | member _ _ _ => simp [inspect] at h
    | array _ _ => simp [inspect] at h
    | spread _ _ => simp [inspect] at h
    | literal _ => simp [inspect] at h
    | other _ => simp [inspect] at h
  · rintro (⟨i, rfl, hi⟩ | ⟨f, hf, h⟩)
    · simp [inspect, sentinel, hi]
    · cases hf with
      | @property members s key value shorthand at_ hm =>
        simp only [inspect]
        exact List.any_eq_true.mpr ⟨⟨key, f, shorthand, at_⟩, mem_properties.mpr hm, h⟩
      | binding hi hr => simp [inspect, sentinel, hi, hr, h]

/-! ### The whole search -/

/-- The fuel of a search bounds the steps of the walks it covers. -/
theorem inspect_iff_walk (view : SourceView) : ∀ (fuel : Nat) (e : Expr),
    inspect view fuel e = true ↔ ∃ n < fuel, ∃ f, Walk view n e f ∧ IsSentinel f
  | 0, e => by simp [inspect]
  | fuel + 1, e => by
      rw [inspect_succ]
      constructor
      · rintro (he | ⟨f, hf, h⟩)
        · exact ⟨0, Nat.succ_pos _, e, .here e, he⟩
        · obtain ⟨n, hn, g, hw, hg⟩ := (inspect_iff_walk view fuel f).mp h
          exact ⟨n + 1, Nat.succ_lt_succ hn, g, .step hf hw, hg⟩
      · rintro ⟨n, hn, g, hw, hg⟩
        cases hw with
        | here => exact Or.inl hg
        | step hf hw =>
          exact Or.inr ⟨_, hf, (inspect_iff_walk view fuel _).mpr ⟨_, Nat.lt_of_succ_lt_succ hn, g, hw, hg⟩⟩

/-- Resolvers that differ only at the word `undefined` allow the same steps. -/
theorem Step.congr {view other : SourceView}
    (hv : ∀ name at_, name ≠ "undefined" → other.resolve name at_ = view.resolve name at_) {e f : Expr}
    (h : Step view e f) : Step other e f := by
  cases h with
  | property hm => exact .property hm
  | binding hi hr => exact .binding hi (by rw [hv _ _ hi, hr])

theorem Walk.congr {view other : SourceView}
    (hv : ∀ name at_, name ≠ "undefined" → other.resolve name at_ = view.resolve name at_) {n : Nat} {e f : Expr}
    (h : Walk view n e f) : Walk other n e f := by
  induction h with
  | here e => exact .here e
  | step hs _ ih => exact .step (hs.congr hv) ih

/-- A resolver that is asked only about other names than `undefined` may answer anything about that one. -/
theorem containsSentinel_congr {view other : SourceView}
    (hv : ∀ name at_, name ≠ "undefined" → other.resolve name at_ = view.resolve name at_) (e : Expr) :
    containsSentinel other e = containsSentinel view e := by
  rw [Bool.eq_iff_iff, containsSentinel, containsSentinel, inspect_iff_walk, inspect_iff_walk]
  constructor
  · rintro ⟨n, hn, f, hw, hf⟩
    exact ⟨n, hn, f, hw.congr fun name at_ hne => (hv name at_ hne).symm, hf⟩
  · rintro ⟨n, hn, f, hw, hf⟩
    exact ⟨n, hn, f, hw.congr hv, hf⟩

/-- A payload holds the sentinel exactly if a walk of at most 32 steps leads from it to the word `undefined`. The word
is where a walk ends: it is never looked up, so the answer does not depend on what the resolver makes of it. -/
theorem containsSentinel_iff_walk (view : SourceView) (e : Expr) :
    (containsSentinel view e = true ↔ ∃ n ≤ 32, ∃ i : Ident, Walk view n e (.ident i) ∧ i.name = "undefined") ∧
      (∀ i : Ident, i.name = "undefined" → ∀ f, ¬ Step view (.ident i) f) ∧
      ∀ other : SourceView, (∀ name at_, name ≠ "undefined" → other.resolve name at_ = view.resolve name at_) →
        containsSentinel other e = containsSentinel view e := by
  refine ⟨?_, fun i hi f => not_step_of_isSentinel ⟨i, rfl, hi⟩, fun other hv => containsSentinel_congr hv e⟩
  rw [containsSentinel, inspect_iff_walk]
  constructor
  · rintro ⟨n, hn, _, hw, i, rfl, hi⟩
    exact ⟨n, Nat.le_of_lt_succ hn, i, hw, hi⟩
  · rintro ⟨n, hn, i, hw, hi⟩
    exact ⟨n, Nat.lt_succ_of_le hn, .ident i, hw, i, rfl, hi⟩

/-- A variable whose value is the same variable, written one byte earlier, down to the start of the text. -/
def countdown : SourceView where
  resolve _ at_ := some <| match at_.start with
    | 0 => .ident ⟨"undefined", at_⟩
    | k + 1 => .ident ⟨"v", ⟨k, k + 1⟩⟩
  tokens _ := []

/-- The budget is met exactly: 32 steps are made and 33 are not, and a resolver that calls `undefined` something else
changes nothing. -/
theorem containsSentinel_at_limit :
    containsSentinel countdown (.ident ⟨"v", ⟨31, 32⟩⟩) = true ∧
      (¬ ∃ n ≤ 32, ∃ i : Ident, Walk countdown n (.ident ⟨"v", ⟨32, 33⟩⟩) (.ident i) ∧ i.name = "undefined") ∧
      containsSentinel
        ⟨fun name at_ => if name = "undefined" then none else countdown.resolve name at_, countdown.tokens⟩
        (.ident ⟨"v", ⟨31, 32⟩⟩) = true := by
  have near : containsSentinel countdown (.ident ⟨"v", ⟨31, 32⟩⟩) = true := by decide
  have far : containsSentinel countdown (.ident ⟨"v", ⟨32, 33⟩⟩) = false := by decide
  refine ⟨near, fun h => ?_, ?_⟩
  · rw [(containsSentinel_iff_walk countdown _).1.mpr h] at far
    exact Bool.noConfusion far
  · rw [(containsSentinel_iff_walk countdown _).2.2 _ fun name at_ hne => by simp [hne]]
    exact near

end WriteGuard.Payload
