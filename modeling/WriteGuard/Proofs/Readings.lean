import WriteGuard.Source.Rule

/-!
What a rule can read. A reading is said here by its parts alone, without the order in which rules are tried and without
a bound on the nesting: each rule reads what its parts read, one behind the other. What the reader of a text gives is such
a reading, so that a fact about texts and their trees is proved by going through the parts of readings.
-/

namespace WriteGuard.Source.Rule

/-- What a rule can read at a place: trees, and the place behind them. -/
inductive Reads (grammar : Phrase → Rule) : Rule → Cursor → List Tree → Cursor → Prop
  /-- A leaf comes after the comments at the place. -/
  | leaf {kind : Kind} {scan : Scanner} {c start : Cursor} {before : List Tree} {n : Nat}
      (gap : remarks c = (before, start)) (found : scan start.rest = some n) :
      Reads grammar (.leaf kind scan) c
        (before ++ [.node kind none ⟨start.offset, (start.advance n).offset⟩ []]) (start.advance n)
  | sign {name : String} {scan : Scanner} {c start : Cursor} {before : List Tree} {n : Nat}
      (gap : remarks c = (before, start)) (found : scan start.rest = some n) :
      Reads grammar (.sign scan) c
        (before ++ [.node (.symbol name) none ⟨start.offset, (start.advance n).offset⟩ []]) (start.advance n)
  | glued {kind : Kind} {scan : Scanner} {c : Cursor} {n : Nat} (found : scan c.rest = some n) :
      Reads grammar (.glued kind scan) c [.node kind none ⟨c.offset, (c.advance n).offset⟩ []] (c.advance n)
  | remark {c : Cursor} {n : Nat} (found : Scanner.comment c.skipBlanks.rest = some n) :
      Reads grammar .remark c
        [.node .comment none ⟨c.skipBlanks.offset, (c.skipBlanks.advance n).offset⟩ []] (c.skipBlanks.advance n)
  | look {test : Context → List Char → Bool} {c : Cursor} : Reads grammar (.look test) c [] c
  | seqNil {c : Cursor} : Reads grammar (.seq []) c [] c
  | seqCons {r : Rule} {rs : List Rule} {c middle next : Cursor} {ts ts' : List Tree}
      (head : Reads grammar r c ts middle) (tail : Reads grammar (.seq rs) middle ts' next) :
      Reads grammar (.seq (r :: rs)) c (ts ++ ts') next
  | first {r : Rule} {rs : List Rule} {c next : Cursor} {ts : List Tree} (chosen : r ∈ rs)
      (inner : Reads grammar r c ts next) : Reads grammar (.first rs) c ts next
  | manyStop {r : Rule} {c : Cursor} : Reads grammar (.many r) c [] c
  | manyStep {r : Rule} {c middle next : Cursor} {ts ts' : List Tree} (head : Reads grammar r c ts middle)
      (tail : Reads grammar (.many r) middle ts' next) : Reads grammar (.many r) c (ts ++ ts') next
  | optStop {r : Rule} {c : Cursor} : Reads grammar (.opt r) c [] c
  | optStep {r : Rule} {c next : Cursor} {ts : List Tree} (inner : Reads grammar r c ts next) :
      Reads grammar (.opt r) c ts next
  | node {kind : Kind} {r : Rule} {c next : Cursor} {ts : List Tree} (inner : Reads grammar r c ts next) :
      Reads grammar (.node kind r) c (Tree.enclose kind c.offset ts) next
  | joined {kind : Kind} {r : Rule} {c next : Cursor} {ts : List Tree} (inner : Reads grammar r c ts next) :
      Reads grammar (.joined kind r) c (join kind c.offset ts) next
  | part {role : Role} {r : Rule} {c next : Cursor} {ts : List Tree} (inner : Reads grammar r c ts next) :
      Reads grammar (.part role r) c (ts.map (Tree.withRole role)) next
  | growStop {r : Rule} {tails : List (Kind × Role × Rule)} {c next : Cursor} {ts : List Tree}
      (inner : Reads grammar r c ts next) : Reads grammar (.grow r tails) c ts next
  /-- A tail makes all that was read before it the first part of a construct. -/
  | growStep {r tail : Rule} {tails : List (Kind × Role × Rule)} {kind : Kind} {role : Role}
      {c middle next : Cursor} {ts ts' : List Tree} (inner : Reads grammar (.grow r tails) c ts middle)
      (chosen : (kind, role, tail) ∈ tails) (more : Reads grammar tail middle ts' next) :
      Reads grammar (.grow r tails) c (Tree.enclose kind middle.offset (ts.map (Tree.withRole role) ++ ts')) next
  | within {change : Context → Context} {r : Rule} {c next : Cursor} {ts : List Tree}
      (inner : Reads grammar r c ts next) : Reads grammar (.within change r) c ts next
  | phrase {name : Phrase} {c next : Cursor} {ts : List Tree} (inner : Reads grammar (grammar name) c ts next) :
      Reads grammar (.phrase name) c ts next

theorem after_eq_ok {before trees : List Tree} {reach reach' : Nat} {o : Outcome} {next : Cursor}
    (h : o.after before reach = .ok trees next reach') :
    ∃ ts r, o = .ok ts next r ∧ trees = before ++ ts := by
  cases o with
  | ok ts n r =>
    obtain ⟨rfl, rfl, -⟩ := Outcome.ok.inj h
    exact ⟨ts, r, rfl, rfl⟩
  | fail r => cases h
  | halt ts => cases h

theorem map_eq_ok {f : List Tree → List Tree} {trees : List Tree} {reach : Nat} {o : Outcome} {next : Cursor}
    (h : o.map f = .ok trees next reach) : ∃ ts, o = .ok ts next reach ∧ trees = f ts := by
  cases o with
  | ok ts n r =>
    obtain ⟨rfl, rfl, rfl⟩ := Outcome.ok.inj h
    exact ⟨ts, rfl, rfl⟩
  | fail r => cases h
  | halt ts => cases h

theorem readLeaf_eq_ok {ctx : Context} {kind : Kind} {scan : Scanner} {before trees : List Tree} {start next : Cursor}
    {reach : Nat} (h : readLeaf ctx kind scan before start = .ok trees next reach) :
    ∃ n, scan start.rest = some n ∧ next = start.advance n ∧
      trees = before ++ [.node kind none ⟨start.offset, (start.advance n).offset⟩ []] := by
  rw [readLeaf] at h
  split at h
  · next n hscan =>
    obtain ⟨rfl, rfl, -⟩ := Outcome.ok.inj h
    exact ⟨n, hscan, rfl, rfl⟩
  · split at h
    · split at h <;> cases h
    · cases h

/-- With this fuel, what is read by a rule is a reading of it, and tails make a reading a longer one. -/
structure ReadsUpTo (grammar : Phrase → Rule) (fuel : Nat) : Prop where
  read {ctx : Context} {rule : Rule} {c next : Cursor} {trees : List Tree} {reach : Nat} :
    read grammar fuel ctx rule c = .ok trees next reach → Reads grammar rule c trees next
  tails {ctx : Context} {r : Rule} {all tails : List (Kind × Role × Rule)} {c middle next : Cursor}
      {ts trees : List Tree} {reach : Nat} : tails ⊆ all → Reads grammar (.grow r all) c ts middle →
    readTails grammar fuel ctx all tails ts middle = .ok trees next reach → Reads grammar (.grow r all) c trees next

theorem ReadsUpTo.tails_succ {grammar : Phrase → Rule} {fuel : Nat} (hfuel : ReadsUpTo grammar fuel) {ctx : Context}
    {r : Rule} {all tails : List (Kind × Role × Rule)} {c middle next : Cursor} {ts trees : List Tree} {reach : Nat}
    (htails : tails ⊆ all) (hts : Reads grammar (.grow r all) c ts middle)
    (h : readTails grammar (fuel + 1) ctx all tails ts middle = .ok trees next reach) :
    Reads grammar (.grow r all) c trees next := by
  cases tails with
  | nil =>
    obtain ⟨rfl, rfl, -⟩ := Outcome.ok.inj h
    exact hts
  | cons tail tails =>
    obtain ⟨kind, role, rule⟩ := tail
    rw [readTails] at h
    split at h
    · next hmore =>
      split at h
      · obtain ⟨rfl, rfl, -⟩ := Outcome.ok.inj h
        exact hts
      · obtain ⟨ts', _, htail, rfl⟩ := after_eq_ok h
        have hchosen : (kind, role, rule) ∈ all := htails List.mem_cons_self
        exact hfuel.tails (List.Subset.refl all) (.growStep hts hchosen (hfuel.read hmore)) htail
    · obtain ⟨ts', _, htail, rfl⟩ := after_eq_ok h
      exact hfuel.tails (List.subset_of_cons_subset htails) hts htail
    · cases h

theorem ReadsUpTo.read_succ {grammar : Phrase → Rule} {fuel : Nat} (hfuel : ReadsUpTo grammar fuel) {ctx : Context}
    {rule : Rule} {c next : Cursor} {trees : List Tree} {reach : Nat}
    (h : Rule.read grammar (fuel + 1) ctx rule c = .ok trees next reach) : Reads grammar rule c trees next := by
  cases rule with
  | leaf kind scan =>
    obtain ⟨n, hscan, rfl, rfl⟩ := readLeaf_eq_ok h
    exact .leaf rfl hscan
  | sign scan =>
    obtain ⟨n, hscan, rfl, rfl⟩ := readLeaf_eq_ok h
    exact .sign rfl hscan
  | glued kind scan =>
    obtain ⟨n, hscan, rfl, rfl⟩ := readLeaf_eq_ok h
    exact .glued hscan
  | remark =>
    simp only [Rule.read] at h
    split at h
    · cases h
    · next n hcomment =>
      obtain ⟨rfl, rfl, -⟩ := Outcome.ok.inj h
      exact .remark hcomment
  | look test =>
    simp only [Rule.read] at h
    split at h
    · obtain ⟨rfl, rfl, -⟩ := Outcome.ok.inj h
      exact .look
    · cases h
  | seq rules =>
    cases rules with
    | nil =>
      obtain ⟨rfl, rfl, -⟩ := Outcome.ok.inj h
      exact .seqNil
    | cons r rs =>
      simp only [Rule.read] at h
      split at h
      · next hhead =>
        obtain ⟨ts, _, htail, rfl⟩ := after_eq_ok h
        exact .seqCons (hfuel.read hhead) (hfuel.read htail)
      · next hother => exact absurd h (hother _ _ _)
  | first rules =>
    cases rules with
    | nil => cases h
    | cons r rs =>
      simp only [Rule.read] at h
      split at h
      · obtain ⟨ts, _, hrest, rfl⟩ := after_eq_ok h
        cases hfuel.read hrest with
        | first chosen inner => exact .first (List.mem_cons_of_mem r chosen) inner
      · exact .first List.mem_cons_self (hfuel.read h)
  | many r =>
    simp only [Rule.read] at h
    split at h
    · next hhead =>
      split at h
      · obtain ⟨rfl, rfl, -⟩ := Outcome.ok.inj h
        exact .manyStop
      · obtain ⟨ts, _, htail, rfl⟩ := after_eq_ok h
        exact .manyStep (hfuel.read hhead) (hfuel.read htail)
    · obtain ⟨rfl, rfl, -⟩ := Outcome.ok.inj h
      exact .manyStop
    · cases h
  | opt r =>
    simp only [Rule.read] at h
    split at h
    · obtain ⟨rfl, rfl, -⟩ := Outcome.ok.inj h
      exact .optStop
    · exact .optStep (hfuel.read h)
  | node kind r =>
    obtain ⟨ts, hinner, rfl⟩ := map_eq_ok h
    exact .node (hfuel.read hinner)
  | joined kind r =>
    obtain ⟨ts, hinner, rfl⟩ := map_eq_ok h
    exact .joined (hfuel.read hinner)
  | part role r =>
    obtain ⟨ts, hinner, rfl⟩ := map_eq_ok h
    exact .part (hfuel.read hinner)
  | grow r tails =>
    simp only [Rule.read] at h
    split at h
    · next hhead =>
      obtain ⟨ts, _, htails, rfl⟩ := after_eq_ok h
      exact hfuel.tails (List.Subset.refl tails) (.growStop (hfuel.read hhead)) htails
    · next hother => exact absurd h (hother _ _ _)
  | within change r => exact .within (hfuel.read h)
  | phrase name => exact .phrase (hfuel.read h)

theorem readsUpTo (grammar : Phrase → Rule) (fuel : Nat) : ReadsUpTo grammar fuel := by
  induction fuel with
  | zero =>
    refine ⟨fun h => ?_, fun _ hts h => ?_⟩
    · cases h
    · obtain ⟨rfl, rfl, -⟩ := Outcome.ok.inj h
      exact hts
  | succ fuel ih => exact ⟨ih.read_succ, ih.tails_succ⟩

/-- What is read by a rule is a reading of the rule. -/
theorem reads_of_read {grammar : Phrase → Rule} {fuel : Nat} {ctx : Context} {rule : Rule} {c next : Cursor}
    {trees : List Tree} {reach : Nat} (h : read grammar fuel ctx rule c = .ok trees next reach) :
    Reads grammar rule c trees next :=
  (readsUpTo grammar fuel).read h

end WriteGuard.Source.Rule
