import WriteGuard.Proofs.CallNodes
import WriteGuard.Proofs.MergeFix

/-!
Where the offered changes are made. The name of an operation is read through parentheses, dots and brackets; the token
in its place is found by a search of its own. In a tree whose names and quoted texts are single tokens the two agree, so
an update is always offered, in the place of the name and within its quotes, and in front of the place where a merge
option goes.
-/

namespace WriteGuard

open Source Source.Tree

/-- What stands on both sides of the text of a token: the mark that opens it if it is quoted, else nothing. -/
def Token.quote (t : Token) : String :=
  match t.kind with
  | .string | .template => String.ofList t.text.toList.head?.toList
  | _ => ""

namespace Source.Tree

/-! ### Single tokens -/

/-- A node that is one token. It has no parts, or is of a kind that is not taken apart, and no part is all of it. -/
structure SingleToken (t : Tree) : Prop where
  whole : t.isToken = true
  parts : ∀ c ∈ t.children, c.span ≠ t.span

instance (t : Tree) : Decidable t.SingleToken :=
  decidable_of_iff (t.isToken = true ∧ ∀ c ∈ t.children, c.span ≠ t.span)
    ⟨fun h => ⟨h.1, h.2⟩, fun h => ⟨h.whole, h.parts⟩⟩

/-- Names and quoted texts are single tokens, a member is chosen by a name, and the arguments of a call stand behind
its callee. -/
structure Regular (t : Tree) : Prop where
  single : t.kind ∈ [.identifier, .undefinedName, .propertyName, .string, .template] → t.SingleToken
  named : t.kind = .member → ∀ p ∈ t.child? .property, p.kind = .propertyName ∨ p.kind = .privateName
  behind : t.kind = .call → ∀ f ∈ t.child? .callee, ∀ args ∈ t.child? .arguments, f.span.stop ≤ args.span.start

instance (t : Tree) : Decidable t.Regular :=
  decidable_of_iff
    ((t.kind ∈ [.identifier, .undefinedName, .propertyName, .string, .template] → t.SingleToken) ∧
      (t.kind = .member → ∀ p ∈ t.child? .property, p.kind = .propertyName ∨ p.kind = .privateName) ∧
      (t.kind = .call → ∀ f ∈ t.child? .callee, ∀ args ∈ t.child? .arguments, f.span.stop ≤ args.span.start))
    ⟨fun h => ⟨h.1, h.2.1, h.2.2⟩, fun h => ⟨h.single, h.named, h.behind⟩⟩

variable {content : List Char} {r : Span}

/-- The search stops where no child covers the range. -/
theorem descendInto_eq_above (above : List Tree) : ∀ {ts : List Tree},
    (∀ c ∈ ts, c.span.stop < r.stop ∨ r.start < c.span.start) → descendInto r above ts = above
  | [], _ => by rw [descendInto]
  | t :: ts, h => by
      rw [descendInto, descendInto_eq_above above fun c hc => h c (List.mem_cons_of_mem t hc)]
      split
      · next hreach =>
        rw [reaches, Bool.and_eq_true] at hreach
        have hstop := of_decide_eq_true hreach.1
        rw [if_pos ((h t List.mem_cons_self).resolve_left (by omega))]
      · rfl

/-- A single token of a well-formed tree is what is found in its place. -/
theorem tokensOf_span {root t : Tree} (hw : root.WellFormed) (ht : t ∈ root.preorder) (hs : t.SingleToken)
    (hk : t.isComment = false) (hlt : t.span.start < t.span.stop) :
    root.tokensOf content t.span = [t.toToken content] := by
  obtain ⟨above, hdescend⟩ := descend_of_mem_preorder hw ht hlt (Nat.le_refl _) (Nat.le_refl _) []
  have hparts : ∀ c ∈ t.children, c.span.stop < t.span.stop ∨ t.span.start < c.span.start := by
    intro c hc
    have hin := (hw.of_mem ht).nested.inside c hc
    have hne : ¬ (c.span.start = t.span.start ∧ c.span.stop = t.span.stop) := fun heq =>
      hs.parts c hc (by rw [← Span.mk.injEq] at heq; exact heq)
    omega
  have hfull : (!t.span.isEmpty && t.span.contains t.span) = true := by
    simp only [Span.isEmpty, Span.length, Span.contains, Bool.and_eq_true, Bool.not_eq_true', decide_eq_true_eq,
      beq_eq_false_iff_ne]
    omega
  rw [tokensOf, covering, if_neg (by omega), hdescend, descend_eq, descendInto_eq_above _ hparts]
  show tokensIn content t.span t = _
  rw [tokensIn_eq, overlaps_of_lt hlt hlt, hk, hs.whole, hfull]
  rfl

/-- The tokens of a tree that lie within a range are not empty and lie there. -/
theorem tokensIn_within {t : Tree} {token : Token} (h : token ∈ tokensIn content r t) :
    r.start ≤ token.span.start ∧ token.span.start < token.span.stop ∧ token.span.stop ≤ r.stop := by
  induction t using byChildren with
  | step t ih =>
    rw [tokensIn_eq] at h
    split at h
    · split at h
      · split at h
        · next hfull =>
          obtain rfl := List.mem_singleton.mp h
          simp only [Span.isEmpty, Span.length, Span.contains, Bool.and_eq_true, Bool.not_eq_true', decide_eq_true_eq,
            beq_eq_false_iff_ne] at hfull
          simp only [toToken]
          omega
        · cases h
      · obtain ⟨c, hc, htoken⟩ := List.mem_flatMap.mp h
        exact ih c hc htoken
    · cases h

theorem tokensOf_within {root : Tree} {token : Token} (h : token ∈ root.tokensOf content r) :
    r.start ≤ token.span.start ∧ token.span.start < token.span.stop ∧ token.span.stop ≤ r.stop := by
  unfold tokensOf at h
  split at h
  · cases h
  · exact tokensIn_within h

end Source.Tree

/-! ### Where a name is read from -/

namespace Lower

variable {content : List Char} {part : Tree → Expr} {n : Tree}

theorem member_cases (content : List Char) (part : Tree → Expr) (n : Tree) :
    member content part n = .other n.span ∨ ∃ object selector, selector? content part n = some selector ∧
      member content part n = .member (part object) selector n.span := by
  unfold member
  split
  · next object selector _ hs => exact Or.inr ⟨object, selector, hs, rfl⟩
  · exact Or.inl rfl

theorem call_cases (part : Tree → Expr) (n : Tree) :
    ((call? part n).map Call.toExpr).getD (.other n.span) = .other n.span ∨
      ∃ callee arguments span, ((call? part n).map Call.toExpr).getD (.other n.span) = .call callee arguments span := by
  cases call? part n with
  | none => exact Or.inl rfl
  | some call => exact Or.inr ⟨call.callee, call.arguments, call.span, rfl⟩

/-- What a node is when something that can name a member or a function is read from it. -/
def ReadFrom (content : List Char) (part : Tree → Expr) (n : Tree) : Expr → Prop
  | .ident i => (n.kind = .identifier ∨ n.kind = .undefinedName) ∧ i = n.toIdent content
  | .member _ selector _ => (n.kind = .member ∨ n.kind = .subscript) ∧ selector? content part n = some selector
  | .literal l => ∀ text, l.staticString? = some text →
      (n.kind = .string ∨ n.kind = .template) ∧ l.span = n.span ∧ text = quotedText content n
  | _ => True

theorem readFrom_node (content : List Char) (part : Tree → Expr) {n : Tree} (hk : n.kind ≠ .parens) :
    ReadFrom content part n (node content part n) := by
  unfold node
  split
  · exact absurd ‹_› hk
  · exact ⟨Or.inl ‹_›, rfl⟩
  · exact ⟨Or.inr ‹_›, rfl⟩
  · rcases call_cases part n with h | ⟨_, _, _, h⟩ <;> rw [h] <;> trivial
  · rcases member_cases content part n with h | ⟨_, _, hs, h⟩ <;> rw [h]
    · trivial
    · exact ⟨Or.inl ‹_›, hs⟩
  · rcases member_cases content part n with h | ⟨_, _, hs, h⟩ <;> rw [h]
    · trivial
    · exact ⟨Or.inr ‹_›, hs⟩
  · trivial
  · trivial
  · trivial
  · intro text htext
    exact ⟨Or.inl ‹_›, rfl, (Option.some.inj htext).symm⟩
  · intro text htext
    -- a template with a substitution has no text that is known
    simp only [Literal.staticString?, templateValue] at htext
    split at htext
    · cases htext
    · exact ⟨Or.inr ‹_›, rfl, (Option.some.inj htext).symm⟩
  · rintro _ ⟨⟩
  · rintro _ ⟨⟩
  · rintro _ ⟨⟩
  · rintro _ ⟨⟩
  · rintro _ ⟨⟩
  · trivial

end Lower

/-- An expression that can name something is read from a node below its parentheses. -/
theorem Expr.readFrom_ofTree (content : List Char) : ∀ (depth : Nat) (t : Tree),
    (∃ s, Expr.ofTree content depth t = .other s) ∨
      ∃ n ∈ t.preorder, ∃ d, Lower.ReadFrom content (Expr.ofTree content d) n (Expr.ofTree content depth t)
  | 0, t => Or.inl ⟨t.span, rfl⟩
  | depth + 1, t => by
      by_cases ht : t.kind = .parens
      · rw [ofTree_of_parens content depth ht]
        cases hf : t.firstNamed? with
        | none => exact Or.inl ⟨t.span, rfl⟩
        | some inner =>
          have hinner := mem_children_of_firstNamed? hf
          rw [Option.map_some, Option.getD_some]
          rcases readFrom_ofTree content depth inner with hother | ⟨n, hn, d, hread⟩
          · exact Or.inl hother
          · exact Or.inr ⟨n, mem_preorder.mpr (Or.inr ⟨inner, hinner, hn⟩), d, hread⟩
      · exact Or.inr ⟨t, mem_preorder_self t, depth, Lower.readFrom_node content _ ht⟩

/-- A node spells a name: in plain letters, or between quotes. -/
inductive Source.Tree.Spells (content : List Char) (name : String) (n : Tree) : Prop
  | plain (hk : n.kind ∈ [.identifier, .undefinedName, .propertyName]) (h : n.text content = name)
  | quoted (hk : n.kind ∈ [.string, .template]) (h : Lower.quotedText content n = name)

/-- A key whose text is known is spelled by a node. -/
theorem Expr.exists_spells_of_staticString? {content : List Char} {depth : Nat} {t : Tree} {name : String}
    (h : (Expr.ofTree content depth t).staticString? = some name) :
    ∃ n ∈ t.preorder, n.span = (Expr.ofTree content depth t).span ∧ n.Spells content name := by
  rcases readFrom_ofTree content depth t with ⟨s, hother⟩ | ⟨n, hn, d, hread⟩
  · rw [hother] at h
    cases h
  · cases he : Expr.ofTree content depth t with
    | literal l =>
      rw [he] at h hread
      obtain ⟨hk, hspan, htext⟩ := hread name h
      exact ⟨n, hn, hspan.symm, .quoted (by simpa using hk) htext.symm⟩
    | _ =>
      rw [he] at h
      cases h

/-- The operation of a recognised call is spelled by a node of its callee. -/
theorem Signature.exists_spells {content : List Char} {depth : Nat} {t : Tree} {ops : Operations} {call : Call}
    {s : Signature} (hreg : ∀ n ∈ t.preorder, n.Regular) (hc : call.callee = Expr.ofTree content depth t)
    (h : ofCall? ops call = some s) : ∃ n ∈ t.preorder, n.span = s.operationSpan ∧ n.Spells content s.operation := by
  have hread := Expr.readFrom_ofTree content depth t
  rw [← hc] at hread
  rcases ofCall?_cases h with ⟨i, hi, -, rfl⟩ | ⟨object, selector, at_, name, hm, hname, -, -, rfl⟩
  · rw [hi] at hread
    rcases hread with ⟨_, hother⟩ | ⟨n, hn, d, hk, rfl⟩
    · cases hother
    · refine ⟨n, hn, rfl, .plain ?_ rfl⟩
      rcases hk with hk | hk <;> simp [hk]
  · rw [hm] at hread
    rcases hread with ⟨_, hother⟩ | ⟨n, hn, d, hk, hs⟩
    · cases hother
    · unfold Lower.selector? at hs
      split at hs
      · -- the key in brackets
        obtain ⟨index, hindex, rfl⟩ := Option.map_eq_some_iff.mp hs
        obtain ⟨key, hkey, hspan, hspells⟩ := Expr.exists_spells_of_staticString? hname
        have hmem := mem_preorder_of_child (List.mem_of_find?_eq_some hindex) hn
        exact ⟨key, mem_preorder_trans hkey hmem, hspan, hspells⟩
      · -- the name after the dot
        next hne =>
        obtain ⟨p, hp, rfl⟩ := Option.map_eq_some_iff.mp hs
        have hmem := mem_preorder_of_child (List.mem_of_find?_eq_some hp) hn
        rcases (hreg n hn).named (hk.resolve_right hne) p hp with hpk | hpk
        · rw [if_neg (by rw [hpk]; decide)] at hname ⊢
          exact ⟨p, hmem, rfl, .plain (by simp [hpk]) (Option.some.inj hname)⟩
        · rw [if_pos hpk] at hname
          cases hname

/-! ### The token of a name -/

namespace Source.Tree.Spells

variable {content : List Char} {name : String} {n : Tree}

theorem sliceD_ne_nil (h : n.Spells content name) (hne : name ≠ "") : Text.sliceD content n.span ≠ [] := by
  intro hnil
  cases h with
  | plain _ h =>
    rw [text, hnil] at h
    exact hne h.symm
  | quoted _ h =>
    rw [Lower.quotedText, hnil] at h
    exact hne h.symm

/-- A node that spells a name is a single token of a regular tree, and no comment. -/
theorem singleToken (h : n.Spells content name) (hreg : n.Regular) : n.SingleToken ∧ n.isComment = false := by
  cases h with
  | plain hk _ =>
    simp only [List.mem_cons, List.not_mem_nil, or_false] at hk
    refine ⟨hreg.single ?_, ?_⟩ <;> rcases hk with hk | hk | hk <;> simp [isComment, hk, Kind.isComment]
  | quoted hk _ =>
    simp only [List.mem_cons, List.not_mem_nil, or_false] at hk
    refine ⟨hreg.single ?_, ?_⟩ <;> rcases hk with hk | hk <;> simp [isComment, hk, Kind.isComment]

end Source.Tree.Spells

/-- A quoted text that does not start as the name in it has the name between two equal marks. -/
theorem Lower.eq_of_unquoted {c : Char} {rest name : List Char} (hname : name.head? ≠ some c)
    (h : unquoted (c :: rest) = name) : c :: rest = c :: name ++ [c] := by
  simp only [unquoted] at h
  split at h
  · next hq =>
    obtain ⟨-, hlast⟩ := Bool.and_eq_true_iff.mp hq
    obtain ⟨init, rfl⟩ := List.getLast?_eq_some_iff.mp (of_decide_eq_true hlast)
    rw [List.dropLast_concat] at h
    rw [h, List.cons_append]
  · rw [← h] at hname
    exact absurd rfl hname

theorem Text.ofList_enclosed (c : Char) (name : String) :
    String.ofList (c :: name.toList ++ [c]) = String.ofList [c] ++ name ++ String.ofList [c] := by
  rw [← String.toList_inj]
  simp

/-- A token is replaced within its quotes. -/
theorem Suggestion.requoted?_eq {token : Token} (h : token.text ≠ "") (operation : String) :
    requoted? token operation = some (token.quote ++ operation ++ token.quote) := by
  obtain ⟨c, hhead⟩ : ∃ c, token.text.toList.head? = some c := by
    cases htext : token.text.toList with
    | nil => exact absurd (String.toList_eq_nil_iff.mp htext) h
    | cons c cs => exact ⟨c, rfl⟩
  unfold requoted? Token.quote
  rw [hhead]
  cases token.kind with
  | string => exact congrArg some (Text.ofList_enclosed c operation)
  | template => exact congrArg some (Text.ofList_enclosed c operation)
  | _ => simp

/-- The token of a name is the name between its quotes, unless the name starts with the quote itself. -/
theorem Source.Tree.Spells.text_toToken {content : List Char} {name : String} {n : Tree} (h : n.Spells content name)
    (hne : name ≠ "") (hq : (n.toToken content).quote.toList.head? ≠ name.toList.head?) :
    (n.toToken content).text = (n.toToken content).quote ++ name ++ (n.toToken content).quote := by
  have hnil := h.sliceD_ne_nil hne
  cases h with
  | plain hk h =>
    have hquote : (n.toToken content).quote = "" := by
      simp only [List.mem_cons, List.not_mem_nil, or_false] at hk
      rcases hk with hk | hk | hk <;> simp [Token.quote, toToken, hk, Kind.token]
    rw [hquote, String.empty_append, String.append_empty]
    exact h
  | quoted hk h =>
    obtain ⟨c, rest, hslice⟩ := List.exists_cons_of_ne_nil hnil
    have hquote : (n.toToken content).quote = String.ofList [c] := by
      simp only [List.mem_cons, List.not_mem_nil, or_false] at hk
      rcases hk with hk | hk <;> simp [Token.quote, toToken, hk, Kind.token, hslice]
    have hunquoted : Lower.unquoted (c :: rest) = name.toList := by
      rw [← hslice, ← h, Lower.quotedText, String.toList_ofList]
    have hhead : name.toList.head? ≠ some c := by
      rw [hquote, String.toList_ofList] at hq
      exact fun heq => hq heq.symm
    rw [hquote, ← Text.ofList_enclosed, ← Lower.eq_of_unquoted hhead hunquoted, ← hslice]
    rfl

/-! ### The changes and their places -/

/-- Every set that overwrites has an update that takes its place. -/
theorem Operations.updateVariant?_of_overwritingSets {call : Call} {s : Signature}
    (h : Signature.ofCall? overwritingSets call = some s) : ∃ update, updateVariant? s.operation = some update := by
  rcases Signature.ofCall?_cases h with ⟨i, -, hi, rfl⟩ | ⟨_, _, _, name, -, -, hname, -, rfl⟩
  · rw [List.mem_singleton.mp hi]
    exact ⟨"updateDoc", rfl⟩
  · rw [List.mem_singleton.mp hname]
    exact ⟨"update", rfl⟩

/-- No operation that has an update starts with a quotation mark. -/
theorem Operations.head?_ne_of_updateVariant? {operation update quote : String}
    (h : updateVariant? operation = some update) (hq : quote ∈ ["", "\"", "'", "`"]) :
    quote.toList.head? ≠ operation.toList.head? := by
  simp only [List.mem_cons, List.not_mem_nil, or_false] at hq
  unfold updateVariant? at h
  split at h
  · rcases hq with rfl | rfl | rfl | rfl <;> decide
  · rcases hq with rfl | rfl | rfl | rfl <;> decide
  · cases h

namespace Suggestion

/-- An update is offered in the place of the token that spells the operation. -/
theorem switchToUpdate?_eq {file : SourceFile} {s : Signature} {n : Tree} {update : String}
    (hw : file.tree.WellFormed) (hn : n ∈ file.tree.preorder) (hreg : n.Regular) (hspan : n.span = s.operationSpan)
    (hspells : n.Spells file.content s.operation) (hne : s.operation ≠ "")
    (hu : Operations.updateVariant? s.operation = some update) :
    switchToUpdate? file.view s = some (.replace (n.toToken file.content)
      ((n.toToken file.content).quote ++ update ++ (n.toToken file.content).quote)) := by
  obtain ⟨hsingle, hcomment⟩ := hspells.singleToken hreg
  have hslice := hspells.sliceD_ne_nil hne
  have htokens : file.view.tokens s.operationSpan = [n.toToken file.content] := by
    rw [← hspan]
    exact tokensOf_span hw hn hsingle hcomment (Text.start_lt_stop_of_sliceD hslice)
  have hfind : [n.toToken file.content].find? (fun t => t.span = s.operationSpan) = some (n.toToken file.content) :=
    List.find?_cons_of_pos (by simp [toToken, hspan])
  have htext : (n.toToken file.content).text ≠ "" := by
    intro hempty
    exact hslice (String.ofList_eq_empty_iff.mp hempty)
  simp only [switchToUpdate?, hu, htokens, hfind, requoted?_eq htext, Option.map_some]

/-- The merge option goes in front of a token behind the last argument. -/
theorem insertMergeOption?_cases {view : SourceView} {call : Call} {edit : TextEdit}
    (h : insertMergeOption? view call = some edit) :
    ∃ closing ∈ view.tokens (tail call), ∃ text, edit = .insertBefore closing text := by
  unfold insertMergeOption? at h
  split at h
  · cases h
  · next closing before htokens =>
    split at h
    · refine ⟨closing, ?_, _, (Option.some.inj h).symm⟩
      rw [← List.mem_reverse, htokens]
      exact List.mem_cons_self
    · cases h

/-- The one change that can be offered before an update is a merge option, where the payload is the last argument. -/
theorem forMerge_eq {view : SourceView} (call : Call) {s : Signature} {edit : TextEdit}
    (h : switchToUpdate? view s = some edit) : ∃ additions,
      forMerge view call s = additions ++ [⟨.changeToUpdate, edit⟩] ∧ additions.length ≤ 1 ∧
      ∀ offer ∈ additions, offer.message = .addMergeOption ∧ call.arguments.length = s.optionsIndex ∧
        ∃ closing ∈ view.tokens (tail call), offer.edit.range = Span.empty closing.span.start := by
  rw [forMerge, h]
  refine ⟨_, rfl, ?_, ?_⟩
  · split
    · cases insertMergeOption? view call <;> simp
    · exact Nat.zero_le 1
  · intro offer hoffer
    split at hoffer
    · next hlen =>
      obtain ⟨added, hadded, rfl⟩ := List.mem_map.mp hoffer
      obtain ⟨closing, hclosing, text, rfl⟩ := insertMergeOption?_cases (Option.mem_toList.mp hadded)
      exact ⟨rfl, hlen, closing, hclosing, rfl⟩
    · cases hoffer

/-- The tokens that a merge option can go in front of stand in the argument list, behind the arguments. -/
theorem tokens_tail_within {file : SourceFile} {t callee args : Tree} {call : Call} {s : Signature} {token : Token}
    (hnode : CallNode file.content t callee args call) (hw : t.WellFormed)
    (hlen : call.arguments.length = s.optionsIndex) (h : token ∈ file.view.tokens (tail call)) :
    args.span.start ≤ token.span.start ∧ token.span.start ≤ t.span.stop := by
  have hne : call.arguments ≠ [] := by
    intro hnil
    rw [hnil] at hlen
    cases hlen
  obtain ⟨hstart, hlt, hstop⟩ := tokensOf_within h
  have hlast : call.arguments.getLast? = some (call.arguments.getLast hne) := List.getLast?_eq_some_getLast hne
  have hwithin := hnode.argument_within hw (List.getLast_mem hne)
  simp only [tail, hlast, hnode.span_eq] at hstart hstop
  omega

end Suggestion

/-- The operation of a recognised call is spelled by a node between the start of the call and its argument list. -/
theorem CallNode.exists_operation {file : SourceFile} {t callee args : Tree} {call : Call} {ops : Operations}
    {s : Signature} (hnode : CallNode file.content t callee args call) (hw : file.tree.WellFormed)
    (hreg : ∀ n ∈ file.tree.preorder, n.Regular) (ht : t ∈ file.tree.preorder)
    (h : Signature.ofCall? ops call = some s) :
    ∃ n ∈ file.tree.preorder, n.span = s.operationSpan ∧ n.Spells file.content s.operation ∧
      t.span.start ≤ n.span.start ∧ n.span.start ≤ n.span.stop ∧ n.span.stop ≤ args.span.start := by
  have hcallee : ∀ n ∈ callee.preorder, n ∈ file.tree.preorder := fun n hn =>
    mem_preorder_trans hn (mem_preorder_of_child hnode.callee_mem ht)
  obtain ⟨n, hn, hspan, hspells⟩ := Signature.exists_spells (fun n hn => hreg n (hcallee n hn)) hnode.callee_eq h
  have hwt := hw.of_mem ht
  have hspelled := (hwt.child hnode.callee_mem).span_of_mem hn
  have hinside := hwt.nested.inside callee hnode.callee_mem
  have hordered := (hw.of_mem (hcallee n hn)).nested.ordered
  have hbehind := (hreg t ht).behind hnode.kind callee hnode.child_callee args hnode.child_arguments
  exact ⟨n, hcallee n hn, hspan, hspells, by omega, hordered, by omega⟩

/-- Every finding about a set offers an update as the last change, made at the token that spells the operation and
within its quotes. The only other change is a merge option; it is offered only where the payload is the last argument,
and goes in behind that token. Both changes are made within the call. -/
theorem Finding.suggestions_places {file : SourceFile} {call : Call} {finding : Finding}
    (hw : file.tree.WellFormed) (hreg : ∀ t ∈ file.tree.preorder, t.Regular) (hcall : call ∈ file.calls)
    (h : setRequireMerge? file.view call = some finding) :
    ∃ s update token additions,
      Signature.ofCall? Operations.overwritingSets call = some s ∧
      Operations.updateVariant? s.operation = some update ∧
      finding.suggestions = additions ++
        [⟨.changeToUpdate, .replace token (token.quote ++ update ++ token.quote)⟩] ∧
      (∃ n ∈ file.tree.preorder, n.isToken = true ∧ token = n.toToken file.content) ∧
      token.span = s.operationSpan ∧
      (token.quote ∈ ["", "\"", "'", "`"] → token.text = token.quote ++ s.operation ++ token.quote) ∧
      additions.length ≤ 1 ∧
      (∀ offer ∈ additions, offer.message = .addMergeOption ∧ call.arguments.length = s.optionsIndex ∧
        token.span.stop ≤ offer.edit.range.start) ∧
      ∀ offer ∈ finding.suggestions, finding.span.start ≤ offer.edit.range.start ∧
        offer.edit.range.start ≤ offer.edit.range.stop ∧ offer.edit.range.stop ≤ finding.span.stop := by
  obtain ⟨s, hs, -, hsuggestions⟩ := setRequireMerge?_cases h
  obtain ⟨update, hu⟩ := Operations.updateVariant?_of_overwritingSets hs
  obtain ⟨t, ht, callee, args, hnode⟩ := SourceFile.mem_calls hcall
  obtain ⟨n, hn, hspan, hspells, hstart, hordered, hstop⟩ := hnode.exists_operation hw hreg ht hs
  have hplace : finding.span = t.span := (setRequireMerge?_place h).2.trans hnode.span_eq
  have hinside := (hw.of_mem ht).nested.inside args hnode.args_mem
  have hne : s.operation ≠ "" := by
    intro hempty
    rw [hempty] at hu
    cases hu
  have hswitch := Suggestion.switchToUpdate?_eq hw hn (hreg n hn) hspan hspells hne hu
  obtain ⟨additions, hforMerge, hlength, hadditions⟩ := Suggestion.forMerge_eq call hswitch
  rw [hforMerge] at hsuggestions
  refine ⟨s, update, n.toToken file.content, additions, hs, hu, hsuggestions,
    ⟨n, hn, (hspells.singleToken (hreg n hn)).1.whole, rfl⟩, hspan, ?_, hlength, ?_, ?_⟩
  · intro hquote
    exact hspells.text_toToken hne (Operations.head?_ne_of_updateVariant? hu hquote)
  · intro offer hoffer
    obtain ⟨hmessage, hlen, closing, hclosing, hrange⟩ := hadditions offer hoffer
    have hbehind := (Suggestion.tokens_tail_within hnode (hw.of_mem ht) hlen hclosing).1
    rw [hrange]
    exact ⟨hmessage, hlen, Nat.le_trans hstop hbehind⟩
  · intro offer hoffer
    rw [hsuggestions, List.mem_append, List.mem_singleton] at hoffer
    rw [hplace]
    rcases hoffer with hoffer | rfl
    · obtain ⟨-, hlen, closing, hclosing, hrange⟩ := hadditions offer hoffer
      have hwithin := Suggestion.tokens_tail_within hnode (hw.of_mem ht) hlen hclosing
      simp only [hrange, Span.empty]
      omega
    · simp only [TextEdit.range, toToken]
      have hargs := (hw.of_mem (mem_preorder_of_child hnode.args_mem ht)).nested.ordered
      omega

/-- Both changes are offered for the inner set of the nested program: the merge option in front of its last parenthesis,
the update in the place of its key, which keeps the backticks. -/
theorem Finding.suggestions_places_nestedSets : ∃ call ∈ nestedSets.calls, ∃ finding,
    setRequireMerge? nestedSets.view call = some finding ∧
    finding.suggestions = [⟨.addMergeOption, .insertBefore ⟨.punctuator, ")", ⟨54, 55⟩⟩ ", \x7b merge: true \x7d"⟩,
      ⟨.changeToUpdate, .replace ⟨.template, "`set`", ⟨36, 41⟩⟩ "`update`"⟩] ∧
    ∃ update token additions,
      finding.suggestions = additions ++
        [⟨.changeToUpdate, .replace token (token.quote ++ update ++ token.quote)⟩] ∧
      (∀ offer ∈ additions, token.span.stop ≤ offer.edit.range.start) ∧
      ∀ offer ∈ finding.suggestions, finding.span.start ≤ offer.edit.range.start ∧
        offer.edit.range.stop ≤ finding.span.stop := by
  have hreg : ∀ t ∈ nestedSets.tree.preorder, t.Regular := by
    rw [nestedSets_eq]
    decide +kernel
  have hinner : ((nestedSets.calls.find? fun c => c.span = ⟨30, 55⟩).bind (setRequireMerge? nestedSets.view)).map
      Finding.suggestions =
        some [⟨.addMergeOption, .insertBefore ⟨.punctuator, ")", ⟨54, 55⟩⟩ ", \x7b merge: true \x7d"⟩,
          ⟨.changeToUpdate, .replace ⟨.template, "`set`", ⟨36, 41⟩⟩ "`update`"⟩] := by
    rw [nestedSets_eq]
    decide +kernel
  obtain ⟨finding, hfinding, hsuggestions⟩ := Option.map_eq_some_iff.mp hinner
  obtain ⟨call, hfind, hfinding⟩ := Option.bind_eq_some_iff.mp hfinding
  have hcall := List.mem_of_find?_eq_some hfind
  obtain ⟨s, update, token, additions, -, -, heq, -, -, -, -, hbefore, hinside⟩ :=
    suggestions_places wellFormed_nestedSets hreg hcall hfinding
  exact ⟨call, hcall, finding, hfinding, hsuggestions, update, token, additions, heq,
    fun offer hoffer => (hbefore offer hoffer).2.2,
    fun offer hoffer => ⟨(hinside offer hoffer).1, (hinside offer hoffer).2.2⟩⟩

end WriteGuard
