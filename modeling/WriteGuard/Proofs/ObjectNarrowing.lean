import WriteGuard.Lint.Diagnostic
import WriteGuard.Proofs.Classification

/-!
What a list of objects takes away. A list that is not empty shuts out the methods called on a name outside the list, and
nothing else; the empty list shuts out nothing. So a longer list reports more, no list reports most, and the rule on
sets, which only looks at calls on `doc`, is not touched by any list.
-/

namespace WriteGuard

namespace Call

/-- The name that a method is called on, if it is called on a name. -/
def receiverName? (call : Call) : Option String :=
  match call.callee with
  | .member (.ident i) _ _ => some i.name
  | _ => none

/-- Whether a list of objects shuts a call out: it is a method on a name, and the list has other names only. -/
def ShutOut (objects : List String) (call : Call) : Prop := objects ≠ [] ∧ ∃ name ∈ call.receiverName?, name ∉ objects

instance (objects : List String) (call : Call) : Decidable (call.ShutOut objects) :=
  inferInstanceAs (Decidable (_ ∧ ∃ name ∈ call.receiverName?, name ∉ objects))

theorem not_shutOut_nil (call : Call) : ¬ call.ShutOut [] := fun h => h.1 rfl

/-- What a list shuts out is shut out by every shorter list that is not empty. -/
theorem ShutOut.of_subset {objects objects' : List String} {call : Call} (h : call.ShutOut objects')
    (hne : objects ≠ []) (hsub : objects ⊆ objects') : call.ShutOut objects := by
  obtain ⟨-, name, hname, hout⟩ := h
  exact ⟨hne, name, hname, fun hmem => hout (hsub hmem)⟩

end Call

/-! ### Calls -/

namespace Signature

/-- A list that lets a receiver through is empty, or the receiver is a name in it, or no name at all. -/
theorem receives_writes (objects : List String) (receiver : Expr) :
    receives (Operations.writes objects).receivers receiver = true ↔
      (objects ≠ [] → ∀ i, receiver = .ident i → i.name ∈ objects) := by
  cases objects with
  | nil => simp [Operations.writes, receives]
  | cons o os => cases receiver <;> simp [Operations.writes, receives]

/-- A list of objects changes the answer about a call only by shutting the call out. -/
theorem ofCall?_writes (objects : List String) (call : Call) : ofCall? (Operations.writes objects) call =
    if call.ShutOut objects then none else ofCall? (Operations.writes []) call := by
  cases hc : call.callee with
  | member object selector at_ =>
    cases hn : selector.name? with
    | none => simp [ofCall?, hc, hn]
    | some name =>
      have hout : call.ShutOut objects ↔ ¬ receives (Operations.writes objects).receivers object = true := by
        rw [receives_writes]
        cases object <;> simp [Call.ShutOut, Call.receiverName?, hc]
      have hnil : receives (Operations.writes []).receivers object = true := rfl
      have hmethods : (Operations.writes objects).methods = (Operations.writes []).methods := rfl
      rw [ofCall?_of_member hc hn, ofCall?_of_member hc hn, hmethods, hnil]
      by_cases h : call.ShutOut objects
      · rw [if_pos h, if_neg fun hboth => hout.mp h hboth.2]
      · have hin := Decidable.of_not_not fun hnot => h (hout.mpr hnot)
        rw [if_neg h, hin]
  | ident i =>
    have hin : ¬ call.ShutOut objects := by simp [Call.ShutOut, Call.receiverName?, hc]
    rw [if_neg hin, ofCall?_of_ident hc, ofCall?_of_ident hc]
    rfl
  | _ => simp [ofCall?, hc]

/-- A set that replaces a document is a write under every list: its receiver is a call of `doc`, which is no name. -/
theorem ofCall?_writes_of_overwritingSets {call : Call} {s : Signature}
    (h : ofCall? Operations.overwritingSets call = some s) (objects : List String) :
    ofCall? (Operations.writes objects) call = some s := by
  rcases ofCall?_cases h with ⟨i, hc, hi, rfl⟩ | ⟨object, selector, at_, name, hc, hn, hname, hdoc, rfl⟩
  · have hmem : i.name ∈ (Operations.writes objects).functions := by
      simp only [Operations.overwritingSets, List.mem_singleton] at hi
      simp [Operations.writes, hi]
    rw [ofCall?_of_ident hc, if_pos hmem]
  · have hmem : name ∈ (Operations.writes objects).methods := by
      simp only [Operations.overwritingSets, List.mem_singleton] at hname
      simp [Operations.writes, hname]
    have hreceives : receives (Operations.writes objects).receivers object = true := by
      rw [receives_writes]
      rintro - i rfl
      cases hdoc
    rw [ofCall?_of_member hc hn, if_pos ⟨hmem, hreceives⟩]

end Signature

/-! ### Findings and reports -/

namespace Finding

theorem noUndefinedValues?_eq (objects : List String) (view : SourceView) (call : Call) :
    noUndefinedValues? objects view call =
      if call.ShutOut objects then none else noUndefinedValues? [] view call := by
  unfold noUndefinedValues?
  rw [Signature.ofCall?_writes]
  by_cases hout : call.ShutOut objects
  · simp only [if_pos hout]
  · simp only [if_neg hout]

/-- A list that shuts out at least the same calls finds a part of what the other list finds, in the same order. -/
theorem ofFile_sublist {objects objects' : List String} (file : SourceFile)
    (h : ∀ call : Call, call.ShutOut objects' → call.ShutOut objects) :
    (ofFile objects file).Sublist (ofFile objects' file) := by
  rw [ofFile, ofFile, ofCalls, ofCalls]
  induction file.calls with
  | nil => simp
  | cons call calls ih =>
    rw [List.flatMap_cons, List.flatMap_cons, ofCall, ofCall]
    refine List.Sublist.append (List.Sublist.append ?_ (List.Sublist.refl _)) ih
    rw [noUndefinedValues?_eq objects, noUndefinedValues?_eq objects']
    by_cases hout : call.ShutOut objects
    · rw [if_pos hout]
      exact List.nil_sublist _
    · have hout' : ¬ call.ShutOut objects' := fun hout' => hout (h call hout')
      simpa only [if_neg hout, if_neg hout'] using List.Sublist.refl _

/-- The findings about sets are those of the calls one by one, whatever the list. -/
theorem ofFile_filter_setRequireMerge (objects : List String) (file : SourceFile) :
    (ofFile objects file).filter (fun f => f.rule.id = LintRule.setRequireMerge.id) =
      file.calls.flatMap fun call => (setRequireMerge? file.view call).toList := by
  rw [ofFile, ofCalls]
  induction file.calls with
  | nil => rfl
  | cons call calls ih =>
    have hundefined : (noUndefinedValues? objects file.view call).toList.filter
        (fun f => f.rule.id = LintRule.setRequireMerge.id) = [] := by
      rw [List.filter_eq_nil_iff]
      intro f hf
      rw [(noUndefinedValues?_place (Option.mem_toList.mp hf)).1]
      decide
    have hset : (setRequireMerge? file.view call).toList.filter
        (fun f => f.rule.id = LintRule.setRequireMerge.id) = (setRequireMerge? file.view call).toList := by
      rw [List.filter_eq_self]
      intro f hf
      rw [(setRequireMerge?_place (Option.mem_toList.mp hf)).1]
      decide
    rw [List.flatMap_cons, List.flatMap_cons, List.filter_append, ih, ofCall, List.filter_append, hundefined, hset,
      List.nil_append]

end Finding

namespace Diagnostic

/-- The reports under a list that shuts out at least the same calls are a part of those under the other list. -/
theorem ofFile_sublist {objects objects' : List String} (file : SourceFile)
    (h : ∀ call : Call, call.ShutOut objects' → call.ShutOut objects) :
    (ofFile objects file).Sublist (ofFile objects' file) :=
  ((Finding.ofFile_sublist file h).map _).filter _

/-- The reports about sets are the same under every list. -/
theorem ofFile_filter_setRequireMerge (objects objects' : List String) (file : SourceFile) :
    (ofFile objects file).filter (fun d => d.ruleId = LintRule.setRequireMerge.id) =
      (ofFile objects' file).filter fun d => d.ruleId = LintRule.setRequireMerge.id := by
  have hfindings : ∀ names : List String,
      ((Finding.ofFile names file).map (ofFinding file.content)).filter
          (fun d => d.ruleId = LintRule.setRequireMerge.id) =
        (file.calls.flatMap fun call => (Finding.setRequireMerge? file.view call).toList).map
          (ofFinding file.content) := by
    intro names
    rw [List.filter_map, ← Finding.ofFile_filter_setRequireMerge names]
    rfl
  rw [ofFile, ofFile, List.filter_filter, List.filter_filter]
  simp only [Bool.and_comm (decide _)]
  rw [← List.filter_filter, ← List.filter_filter, hfindings, hfindings]

/-- A list of objects only narrows. The reports under a list are in order among those under every longer list, and those
among the reports under no list; all three have the same reports about sets. A call that the rule on sets watches is
the same write, named in the same place and with the same payload, under every list. -/
theorem ofFile_narrowed (file : SourceFile) {objects objects' : List String} (hne : objects ≠ [])
    (hsub : objects ⊆ objects') :
    (ofFile objects file).Sublist (ofFile objects' file) ∧
    (ofFile objects' file).Sublist (ofFile [] file) ∧
    (ofFile objects file).filter (fun d => d.ruleId = LintRule.setRequireMerge.id) =
      (ofFile objects' file).filter (fun d => d.ruleId = LintRule.setRequireMerge.id) ∧
    (ofFile objects' file).filter (fun d => d.ruleId = LintRule.setRequireMerge.id) =
      (ofFile [] file).filter (fun d => d.ruleId = LintRule.setRequireMerge.id) ∧
    ∀ (call : Call) (s : Signature), Signature.ofCall? Operations.overwritingSets call = some s →
      ∀ names, Signature.ofCall? (Operations.writes names) call = some s := by
  refine ⟨?_, ?_, ofFile_filter_setRequireMerge .., ofFile_filter_setRequireMerge .., ?_⟩
  · exact ofFile_sublist file fun call hout => hout.of_subset hne hsub
  · exact ofFile_sublist file fun call hout => absurd hout call.not_shutOut_nil
  · intro call s hs names
    exact Signature.ofCall?_writes_of_overwritingSets hs names

/-- Sets on two names and on a call of `doc`. -/
def threeSets : SourceFile :=
  SourceFile.ofText .javaScript "tx.set(undefined); batch.set(undefined); doc().set(undefined);".toList

set_option maxRecDepth 100000 in
/-- Each list leaves out one report more: the longer one that on no name of its own, the shorter one also that on
`batch`. The set on `doc` is reported by both rules under all of them. -/
theorem ofFile_narrowed_threeSets :
    (ofFile [] threeSets).map span = [⟨7, 16⟩, ⟨29, 38⟩, ⟨51, 60⟩, ⟨41, 61⟩] ∧
    (ofFile ["batch", "ref"] threeSets).map span = [⟨29, 38⟩, ⟨51, 60⟩, ⟨41, 61⟩] ∧
    (ofFile ["ref"] threeSets).map span = [⟨51, 60⟩, ⟨41, 61⟩] ∧
    (ofFile ["ref"] threeSets).Sublist (ofFile ["batch", "ref"] threeSets) ∧
    (ofFile ["batch", "ref"] threeSets).Sublist (ofFile [] threeSets) := by
  obtain ⟨hlonger, hnone, -⟩ := @ofFile_narrowed threeSets ["ref"] ["batch", "ref"] (List.cons_ne_nil "ref" [])
    (by decide)
  have hspans : (ofFile [] threeSets).map span = [⟨7, 16⟩, ⟨29, 38⟩, ⟨51, 60⟩, ⟨41, 61⟩] ∧
      (ofFile ["batch", "ref"] threeSets).map span = [⟨29, 38⟩, ⟨51, 60⟩, ⟨41, 61⟩] ∧
      (ofFile ["ref"] threeSets).map span = [⟨51, 60⟩, ⟨41, 61⟩] := by decide +kernel
  exact ⟨hspans.1, hspans.2.1, hspans.2.2, hlonger, hnone⟩

end Diagnostic

end WriteGuard
