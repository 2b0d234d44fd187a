import Mathlib.Data.List.Infix
import WriteGuard.Proofs.Classification
import WriteGuard.Proofs.LinePieces
import WriteGuard.Proofs.LintSelection
import WriteGuard.Report.Format

/-!
Reports as commands of a build service, and what the service reads back from them. Of all the signs that the commands
give a meaning, only the line feeds of messages are escaped. So the reports are read back as they are exactly if the
path, the rules and the messages have none of these signs where they count.
-/

namespace WriteGuard

namespace Report

/-- A command of a build service, as it is read. -/
structure BuildCommand where
  level : String
  properties : List (String × String)
  message : String
  deriving DecidableEq, Repr

namespace BuildCommand

/-! ### Escaped characters -/

/-- The character that two signs behind a percent sign stand for. -/
def decoded? : Char → Char → Option Char
  | '2', '5' => some '%'
  | '0', 'D' => some '\r'
  | '0', 'A' => some '\n'
  | '3', 'A' => some ':'
  | '2', 'C' => some ','
  | _, _ => none

/-- A text with its escaped characters put back. -/
def unescape : List Char → List Char
  | '%' :: a :: b :: rest =>
    match decoded? a b with
    | some c => c :: unescape rest
    | none => '%' :: unescape (a :: b :: rest)
  | c :: rest => c :: unescape rest
  | [] => []

/-- No escaped character is in a text. -/
def Uncoded (text : List Char) : Prop := ∀ a b, ['%', a, b] <:+: text → decoded? a b = none

theorem length_unescape_le (text : List Char) : (unescape text).length ≤ text.length := by
  fun_induction unescape text with
  | case1 a b rest c hc ih =>
    simp only [List.length_cons]
    omega
  | case2 a b rest hnone ih => simpa using ih
  | case3 c rest _ ih => simpa using ih
  | case4 => exact Nat.le_refl _

/-- A text no longer than what it stands for stands for itself. -/
theorem unescape_eq_self_of_length {text : List Char} (h : text.length ≤ (unescape text).length) :
    unescape text = text := by
  fun_induction unescape text with
  | case1 a b rest c hc ih =>
    have hle := length_unescape_le rest
    simp only [List.length_cons] at h
    omega
  | case2 a b rest hnone ih => rw [ih (by simpa using h)]
  | case3 c rest _ ih => rw [ih (by simpa using h)]
  | case4 => rfl

theorem Uncoded.of_cons {c : Char} {text : List Char} (h : Uncoded (c :: text)) : Uncoded text := fun a b hin =>
  h a b (hin.trans (List.suffix_cons c text).isInfix)

theorem Uncoded.of_not_mem {text : List Char} (h : '%' ∉ text) : Uncoded text := fun _ _ hin =>
  absurd (hin.subset List.mem_cons_self) h

/-- Exactly a text without escaped characters stands for itself. -/
theorem unescape_eq_self_iff (text : List Char) : unescape text = text ↔ Uncoded text := by
  fun_induction unescape text with
  | case1 a b rest c hc ih =>
    constructor
    · intro heq
      have hlength := congrArg List.length heq
      have hle := length_unescape_le rest
      simp only [List.length_cons] at hlength
      omega
    · intro h
      have hnone : decoded? a b = none := h a b (List.prefix_append ['%', a, b] rest).isInfix
      rw [hc] at hnone
      cases hnone
  | case2 a b rest hnone ih =>
    rw [List.cons_inj_right, ih]
    refine ⟨fun h x y hin => ?_, Uncoded.of_cons⟩
    rcases List.infix_cons_iff.mp hin with hfrom | hrest
    · simp only [List.cons_prefix_cons, true_and] at hfrom
      rw [hfrom.1, hfrom.2.1, hnone]
    · exact h x y hrest
  | case3 c rest hother ih =>
    rw [List.cons_inj_right, ih]
    refine ⟨fun h x y hin => ?_, Uncoded.of_cons⟩
    rcases List.infix_cons_iff.mp hin with hfrom | hrest
    · -- the code would begin with this very character
      obtain ⟨tail, htail⟩ := hfrom
      injection htail with hc hrest
      exact absurd hrest.symm (hother x y tail hc.symm)
    · exact h x y hrest
  | case4 =>
    refine iff_of_true rfl fun x y hin => ?_
    cases List.infix_nil.mp hin

instance (text : List Char) : Decidable (Uncoded text) := decidable_of_iff _ (unescape_eq_self_iff text)

/-- A character of a message, as it is written. -/
def onOneLine (c : Char) : List Char := if c = '\n' then "%0A".toList else [c]

theorem toList_oneLine (text : String) : (oneLine text).toList = text.toList.flatMap onOneLine := String.toList_ofList

theorem not_mem_flatMap_onOneLine (text : List Char) : '\n' ∉ text.flatMap onOneLine := by
  intro hmem
  obtain ⟨c, -, hc⟩ := List.mem_flatMap.mp hmem
  unfold onOneLine at hc
  split at hc
  · exact absurd hc (by decide)
  · rename_i hne
    exact hne (List.mem_singleton.mp hc).symm

/-- A character that begins no code stands for itself. -/
theorem unescape_cons {c : Char} {rest : List Char}
    (h : c = '%' → ∀ a b tail, rest = a :: b :: tail → decoded? a b = none) :
    unescape (c :: rest) = c :: unescape rest := by
  rw [unescape.eq_def]
  split
  · rename_i a b tail heq
    injection heq with hc hrest
    rw [h hc a b tail hrest, hc, hrest]
  · rename_i heq
    injection heq with hc hrest
    rw [hc, hrest]
  · contradiction

/-- Writing two characters of a message on one line makes no code of them. -/
theorem decoded?_of_flatMap_onOneLine {a b x y : Char} {rest tail : List Char} (hnone : decoded? a b = none)
    (heq : (a :: b :: rest).flatMap onOneLine = x :: y :: tail) : decoded? x y = none := by
  by_cases ha : a = '\n'
  · simp only [ha, onOneLine, List.flatMap_cons, if_true, String.reduceToList, List.cons_append] at heq
    injection heq with hx heq
    rw [← hx]
    rfl
  · by_cases hb : b = '\n'
    · simp [ha, hb, onOneLine] at heq
      obtain ⟨rfl, rfl, -⟩ := heq
      simp [decoded?]
    · simp [ha, hb, onOneLine] at heq
      rw [← heq.1, ← heq.2.1, hnone]

/-- Writing a message on one line changes nothing about what it stands for. -/
theorem unescape_flatMap_onOneLine (text : List Char) : unescape (text.flatMap onOneLine) = unescape text := by
  fun_induction unescape text with
  | case1 a b rest c hc ih =>
    have ha : a ≠ '\n' := by
      rintro rfl
      simp [decoded?] at hc
    have hb : b ≠ '\n' := by
      rintro rfl
      simp [decoded?] at hc
    simp [onOneLine, ha, hb, unescape, hc, ih]
  | case2 a b rest hnone ih =>
    rw [List.flatMap_cons, show onOneLine '%' = ['%'] from rfl, List.singleton_append,
      unescape_cons fun _ x y tail heq => decoded?_of_flatMap_onOneLine hnone heq, ih]
  | case3 c rest hother ih =>
    by_cases hc : c = '\n'
    · subst hc
      rw [List.flatMap_cons, ← ih]
      rfl
    · rw [List.flatMap_cons, onOneLine, if_neg hc, List.singleton_append, unescape_cons ?_, ih]
      rintro rfl x y tail heq
      -- at most one character follows
      cases rest with
      | nil => cases heq
      | cons a rest =>
        cases rest with
        | nil =>
          unfold onOneLine at heq
          rw [List.flatMap_singleton] at heq
          split at heq
          · obtain ⟨rfl, rfl, -⟩ : '%' = x ∧ '0' = y ∧ ['A'] = tail := by simpa using heq
            rfl
          · cases heq
        | cons b rest => exact absurd rfl (hother a b rest rfl)
  | case4 => rfl

/-! ### The parts of a command -/

/-- What stands before and behind the first two colons of a text. -/
def cut : List Char → Option (List Char × List Char)
  | ':' :: ':' :: rest => some ([], rest)
  | c :: rest => (cut rest).map fun (front, back) => (c :: front, back)
  | [] => none

theorem cut_eq_some_iff {text front back : List Char} :
    cut text = some (front, back) ↔ text = front ++ ':' :: ':' :: back ∧ ¬ [':', ':'] <:+: front ++ [':'] := by
  fun_induction cut text generalizing front with
  | case1 rest =>
    cases front with
    | nil =>
      have hone : ¬ [':', ':'] <:+: [':'] := by decide
      simpa using fun _ => hone
    | cons c front =>
      refine iff_of_false (by simp) ?_
      rintro ⟨heq, hfirst⟩
      injection heq with hc heq
      refine hfirst ?_
      cases front with
      | nil => exact ⟨[], [], by simp [← hc]⟩
      | cons c' front =>
        injection heq with hc' _
        exact ⟨[], front ++ [':'], by simp [← hc, ← hc']⟩
  | case2 c rest hother ih =>
    cases front with
    | nil =>
      refine iff_of_false (by simp) ?_
      rintro ⟨heq, -⟩
      injection heq with hc heq
      exact hother back hc heq
    | cons c' front =>
      simp only [Option.map_eq_some_iff, Prod.exists, Prod.mk.injEq, List.cons.injEq, List.cons_append]
      constructor
      · rintro ⟨front, back, hcut, ⟨rfl, rfl⟩, rfl⟩
        obtain ⟨hrest, hfirst⟩ := ih.mp hcut
        refine ⟨⟨rfl, hrest⟩, fun hin => ?_⟩
        rcases List.infix_cons_iff.mp hin with hfrom | hin
        · obtain ⟨hc, hfrom⟩ := List.cons_prefix_cons.mp hfrom
          cases front with
          | nil => exact hother _ hc.symm hrest
          | cons d front =>
            obtain rfl : ':' = d := (List.cons_prefix_cons.mp hfrom).1
            exact hother _ hc.symm hrest
        · exact hfirst hin
      · rintro ⟨⟨rfl, hrest⟩, hfirst⟩
        have hfirst' : ¬ [':', ':'] <:+: front ++ [':'] := fun hin =>
          hfirst (hin.trans (List.suffix_cons c _).isInfix)
        exact ⟨front, back, ih.mpr ⟨hrest, hfirst'⟩, ⟨rfl, rfl⟩, rfl⟩
  | case3 => simp

/-- The text before the first two colons ends at the latest where two colons are known to stand. -/
theorem prefix_of_cut {front back front' back' : List Char}
    (h : cut (front ++ ':' :: ':' :: back) = some (front', back')) : front' <+: front := by
  obtain ⟨heq, hfirst⟩ := cut_eq_some_iff.mp h
  rcases List.append_eq_append_iff.mp heq with ⟨middle, rfl, hmiddle⟩ | ⟨middle, rfl, -⟩
  · -- else two colons would stand before the first two
    cases middle with
    | nil => simp
    | cons c middle =>
      injection hmiddle with hc hmiddle
      refine absurd ?_ hfirst
      cases middle with
      | nil => exact ⟨front, [], by simp [← hc]⟩
      | cons c' middle =>
        injection hmiddle with hc' _
        exact ⟨front, middle ++ [':'], by simp [← hc, ← hc']⟩
  · exact List.prefix_append front' middle

/-- Two colons stand on one side of any other character. -/
theorem colons_infix_append_cons_iff {c : Char} (hc : c ≠ ':') (front back : List Char) :
    [':', ':'] <:+: front ++ c :: back ↔ [':', ':'] <:+: front ∨ [':', ':'] <:+: back := by
  constructor
  · intro h
    rcases List.infix_append_iff.mp h with hfront | hback | ⟨l₁, l₂, heq, hsuffix, hfrom⟩
    · exact Or.inl hfront
    · rcases List.infix_cons_iff.mp hback with hfrom | hback
      · exact absurd (List.cons_prefix_cons.mp hfrom).1.symm hc
      · exact Or.inr hback
    · cases l₂ with
      | nil =>
        rw [List.append_nil] at heq
        exact Or.inl (heq ▸ hsuffix.isInfix)
      | cons x xs =>
        have hx : x = c := (List.cons_prefix_cons.mp hfrom).1
        have hmem : x ∈ [':', ':'] := heq ▸ List.mem_append_right l₁ List.mem_cons_self
        simp only [List.mem_cons, List.not_mem_nil, or_false, or_self] at hmem
        exact absurd (hx.symm.trans hmem) hc
  · rintro (h | h)
    · exact h.trans (List.prefix_append front _).isInfix
    · exact h.trans ((List.suffix_cons c back).trans (List.suffix_append front _)).isInfix

/-- A property of a command: a key and the text behind the first equals sign. -/
def property? (piece : List Char) : Option (String × String) :=
  match piece.dropWhile (· ≠ '=') with
  | [] => none
  | _ :: value => some (String.ofList (piece.takeWhile (· ≠ '=')), String.ofList (unescape value))

/-- A property as it is written. -/
def written (p : String × String) : List Char := p.1.toList ++ '=' :: p.2.toList

/-- Properties as they are written, with commas between them. -/
def joined (ps : List (String × String)) : List Char := [','].intercalate (ps.map written)

theorem property?_append_cons {key : List Char} (hkey : '=' ∉ key) (value : List Char) :
    property? (key ++ '=' :: value) = some (String.ofList key, String.ofList (unescape value)) := by
  have hall : ∀ c ∈ key, decide (c ≠ '=') = true := by
    intro c hc
    refine decide_eq_true ?_
    rintro rfl
    exact hkey hc
  unfold property?
  rw [List.dropWhile_append_of_pos hall, List.takeWhile_append_of_pos hall]
  simp

theorem property?_eq_some_iff {piece : List Char} {p : String × String} :
    property? piece = some p ↔
      ∃ value, piece = p.1.toList ++ '=' :: value ∧ '=' ∉ p.1.toList ∧ unescape value = p.2.toList := by
  constructor
  · intro h
    by_cases hmem : '=' ∈ piece
    · obtain ⟨key, value, rfl, hkey⟩ := List.eq_append_cons_of_mem hmem
      rw [property?_append_cons hkey] at h
      obtain rfl := Option.some.inj h
      exact ⟨value, by simp, by simpa using hkey, by simp⟩
    · have hnil : piece.dropWhile (· ≠ '=') = [] := by
        refine List.dropWhile_eq_nil_iff.mpr fun c hc => decide_eq_true ?_
        rintro rfl
        exact hmem hc
      rw [property?, hnil] at h
      cases h
  · rintro ⟨value, rfl, hkey, hvalue⟩
    rw [property?_append_cons hkey, hvalue, String.ofList_toList, String.ofList_toList]

/-- A property that is read back as it is. -/
structure Readable (p : String × String) : Prop where
  comma : ',' ∉ written p
  equals : '=' ∉ p.1.toList
  codes : Uncoded p.2.toList

/-- What is read of a property is no longer than what stands there, and shorter if anything is unescaped. -/
theorem length_written_le {piece : List Char} {p : String × String} (h : property? piece = some p) :
    (written p).length ≤ piece.length ∧
      (piece.length ≤ (written p).length → piece = written p ∧ '=' ∉ p.1.toList ∧ Uncoded p.2.toList) := by
  obtain ⟨value, rfl, hkey, hvalue⟩ := property?_eq_some_iff.mp h
  have hle := length_unescape_le value
  rw [hvalue] at hle
  refine ⟨by simpa [written] using hle, fun hlength => ?_⟩
  have hself : unescape value = value := by
    refine unescape_eq_self_of_length ?_
    rw [hvalue]
    simpa [written] using hlength
  have huncoded := (unescape_eq_self_iff value).mp hself
  rw [← hvalue, hself]
  exact ⟨by rw [written, ← hvalue, hself], hkey, huncoded⟩

/-- The length of some pieces with a separator behind each. -/
def total : List (List Char) → Nat
  | [] => 0
  | piece :: pieces => piece.length + 1 + total pieces

theorem length_intercalate_succ {pieces : List (List Char)} (h : pieces ≠ []) :
    ([','].intercalate pieces).length + 1 = total pieces := by
  induction pieces with
  | nil => exact absurd rfl h
  | cons piece pieces ih =>
    cases pieces with
    | nil => rw [List.intercalate_singleton, total, total]
    | cons next pieces =>
      have hrest := ih (List.cons_ne_nil next pieces)
      rw [List.intercalate_cons_cons, List.length_append, List.length_append, Nat.add_assoc, hrest, List.length_singleton,
        total.eq_2 piece]

/-- What is read of properties is no longer than what stands there, and as long only if they are read as they are. -/
theorem total_written_le {pieces : List (List Char)} {ps : List (String × String)}
    (h : pieces.mapM property? = some ps) :
    total (ps.map written) ≤ total pieces ∧
      (total pieces ≤ total (ps.map written) →
        pieces = ps.map written ∧ ∀ p ∈ ps, '=' ∉ p.1.toList ∧ Uncoded p.2.toList) := by
  induction pieces generalizing ps with
  | nil =>
    obtain rfl : [] = ps := by simpa using h
    simp
  | cons piece pieces ih =>
    rw [List.mapM_cons] at h
    obtain ⟨p, hp, h⟩ := Option.bind_eq_some_iff.mp h
    obtain ⟨ps', hps', h⟩ := Option.bind_eq_some_iff.mp h
    obtain rfl : p :: ps' = ps := Option.some.inj h
    obtain ⟨hhead, hheadEq⟩ := length_written_le hp
    obtain ⟨htail, htailEq⟩ := ih hps'
    simp only [total, List.map_cons]
    refine ⟨by omega, fun hle => ?_⟩
    obtain ⟨hpiece, hread⟩ := hheadEq (by omega)
    obtain ⟨hpieces, hreads⟩ := htailEq (by omega)
    exact ⟨by rw [← hpiece, ← hpieces], List.forall_mem_cons.mpr ⟨hread, hreads⟩⟩

theorem not_mem_of_mem_splitOn {separator : Char} {text piece : List Char} (h : piece ∈ text.splitOn separator) :
    separator ∉ piece := by
  induction text generalizing piece with
  | nil =>
    rw [List.splitOn_nil, List.mem_singleton] at h
    simp [h]
  | cons c cs ih =>
    rw [List.splitOn_cons_eq_if_modifyHead] at h
    split at h
    · rcases List.mem_cons.mp h with rfl | h
      · exact List.not_mem_nil
      · exact ih h
    · rename_i hc
      cases hparts : cs.splitOn separator with
      | nil => exact absurd hparts (List.splitOn_ne_nil separator cs)
      | cons part parts =>
        rw [hparts] at h ih
        rcases List.mem_cons.mp h with rfl | h
        · rw [List.mem_cons, not_or]
          refine ⟨fun heq => hc (beq_iff_eq.mpr heq.symm), ih List.mem_cons_self⟩
        · exact ih (List.mem_cons_of_mem part h)

/-- A part of some written properties from which all of them are read is the whole, and they are read as they are. -/
theorem eq_joined_of_mapM {text : List Char} {ps : List (String × String)} (hps : ps ≠ []) (hfrom : text <+: joined ps)
    (h : (text.splitOn ',').mapM property? = some ps) : text = joined ps ∧ ∀ p ∈ ps, Readable p := by
  have hpieces : total (text.splitOn ',') ≤ total (ps.map written) := by
    rw [← length_intercalate_succ (List.splitOn_ne_nil ',' text), List.intercalate_splitOn,
      ← length_intercalate_succ (by simpa using hps)]
    exact Nat.succ_le_succ hfrom.length_le
  obtain ⟨heq, hread⟩ := (total_written_le h).2 hpieces
  refine ⟨by rw [joined, ← heq, List.intercalate_splitOn], fun p hp => ?_⟩
  have hcomma : ',' ∉ written p := by
    have hpiece : written p ∈ text.splitOn ',' := heq ▸ List.mem_map_of_mem hp
    exact not_mem_of_mem_splitOn hpiece
  exact ⟨hcomma, (hread p hp).1, (hread p hp).2⟩

theorem mapM_written {ps : List (String × String)} (h : ∀ p ∈ ps, Readable p) :
    (ps.map written).mapM property? = some ps := by
  induction ps with
  | nil => rfl
  | cons p ps ih =>
    have hp : property? (written p) = some p :=
      property?_eq_some_iff.mpr ⟨p.2.toList, rfl, (h p List.mem_cons_self).equals,
        (unescape_eq_self_iff _).mpr (h p List.mem_cons_self).codes⟩
    rw [List.map_cons, List.mapM_cons, hp, ih fun q hq => h q (List.mem_cons_of_mem p hq)]
    rfl

/-! ### Whole commands -/

/-- The command on a line, if it is one: a level, properties with commas between them and a message. -/
def read? : List Char → Option BuildCommand
  | ':' :: ':' :: rest =>
    (cut rest).bind fun (front, message) =>
      ((((front.dropWhile (· ≠ ' ')).drop 1).splitOn ',').mapM property?).map fun properties =>
        ⟨String.ofList (front.takeWhile (· ≠ ' ')), properties, String.ofList (unescape message)⟩
  | _ => none

/-- A command as it is written, with a message on one line. -/
def line (level : String) (ps : List (String × String)) (message : List Char) : List Char :=
  ':' :: ':' :: ((level.toList ++ ' ' :: joined ps) ++ ':' :: ':' :: message)

/-- A command is read back exactly if its properties are, no two colons end them early, and the message stands for
itself. -/
theorem read?_line_iff {level : String} {ps : List (String × String)} {message : List Char} {said : String}
    (hblank : ' ' ∉ level.toList) (hcolon : ':' ∉ level.toList) (hps : ps ≠ []) :
    read? (line level ps message) = some ⟨level, ps, said⟩ ↔
      (∀ p ∈ ps, Readable p) ∧ ¬ [':', ':'] <:+: joined ps ++ [':'] ∧ unescape message = said.toList := by
  simp only [line, read?]
  constructor
  · intro h
    obtain ⟨⟨front, back⟩, hcut, h⟩ := Option.bind_eq_some_iff.mp h
    obtain ⟨properties, hread, h⟩ := Option.map_eq_some_iff.mp h
    obtain ⟨hlevel, rfl, hsaid⟩ := BuildCommand.mk.inj h
    have hfront : level.toList ++ front.dropWhile (· ≠ ' ') = front := by
      rw [← hlevel, String.toList_ofList, List.takeWhile_append_dropWhile]
    have hfrom := prefix_of_cut hcut
    cases hdrop : front.dropWhile (· ≠ ' ') with
    | nil =>
      rw [hdrop] at hread
      cases hread
    | cons c rest =>
      rw [hdrop] at hfront hread
      rw [← hfront, List.prefix_append_right_inj, List.cons_prefix_cons] at hfrom
      obtain ⟨rfl, hrest⟩ := hfrom
      obtain ⟨rfl, hreadable⟩ := eq_joined_of_mapM hps hrest hread
      obtain ⟨heq, hfirst⟩ := cut_eq_some_iff.mp hcut
      rw [← hfront] at heq hfirst
      have hback : message = back := by simpa using heq
      refine ⟨hreadable, fun hin => hfirst ?_, by rw [hback, ← hsaid, String.toList_ofList]⟩
      rw [List.append_assoc]
      exact hin.trans ((List.suffix_cons ' ' _).trans (List.suffix_append _ _)).isInfix
  · rintro ⟨hreadable, hfirst, hsaid⟩
    have hcut : cut ((level.toList ++ ' ' :: joined ps) ++ ':' :: ':' :: message)
        = some (level.toList ++ ' ' :: joined ps, message) := by
      refine cut_eq_some_iff.mpr ⟨rfl, fun hin => ?_⟩
      rw [List.append_assoc, List.cons_append, colons_infix_append_cons_iff (by decide)] at hin
      rcases hin with hin | hin
      · exact hcolon (hin.subset List.mem_cons_self)
      · exact hfirst hin
    have hall : ∀ c ∈ level.toList, decide (c ≠ ' ') = true := by
      intro c hc
      refine decide_eq_true ?_
      rintro rfl
      exact hblank hc
    have hpieces : (joined ps).splitOn ',' = ps.map written := by
      refine List.splitOn_intercalate ',' ?_ (by simpa using hps)
      intro piece hpiece
      obtain ⟨p, hp, rfl⟩ := List.mem_map.mp hpiece
      exact (hreadable p hp).comma
    rw [hcut, Option.bind_some, List.dropWhile_append_of_pos hall, List.takeWhile_append_of_pos hall]
    simp [hpieces, mapM_written hreadable, hsaid]

/-- The commands on the lines of a text. -/
def readAll (text : List Char) : List (Option BuildCommand) := (text.splitOn '\n').dropLast.map read?

section Lines

variable {α : Type} (body : α → List Char)

/-- There are at least as many line feeds as lines, and no more exactly if no line holds one. -/
theorem count_flatMap_lines (items : List α) :
    items.length ≤ (items.flatMap fun item => body item ++ ['\n']).count '\n' ∧
      ((items.flatMap fun item => body item ++ ['\n']).count '\n' ≤ items.length →
        ∀ item ∈ items, '\n' ∉ body item) := by
  induction items with
  | nil => simp
  | cons item items ih =>
    simp only [List.flatMap_cons, List.count_append, List.count_singleton_self, List.length_cons]
    refine ⟨by omega, fun hle => List.forall_mem_cons.mpr ⟨?_, ih.2 (by omega)⟩⟩
    exact List.count_eq_zero.mp (by omega)

theorem splitOn_flatMap_lines {items : List α} (h : ∀ item ∈ items, '\n' ∉ body item) :
    (items.flatMap fun item => body item ++ ['\n']).splitOn '\n' = items.map body ++ [[]] := by
  induction items with
  | nil => rfl
  | cons item items ih =>
    rw [List.flatMap_cons, List.append_assoc, List.singleton_append,
      List.splitOn_append_cons_self_of_not_mem (h item List.mem_cons_self),
      ih fun other hother => h other (List.mem_cons_of_mem item hother)]
    rfl

/-- Lines are read back one for one exactly if none of them is broken and each is read back. -/
theorem readAll_flatMap_eq_iff (said : α → BuildCommand) (items : List α) :
    readAll (items.flatMap fun item => body item ++ ['\n']) = items.map (fun item => some (said item)) ↔
      ∀ item ∈ items, '\n' ∉ body item ∧ read? (body item) = some (said item) := by
  have hread (h : ∀ item ∈ items, '\n' ∉ body item) :
      readAll (items.flatMap fun item => body item ++ ['\n']) = items.map fun item => read? (body item) := by
    rw [readAll, splitOn_flatMap_lines body h, List.dropLast_concat, List.map_map]
    rfl
  constructor
  · intro h
    have hlength := congrArg List.length h
    rw [readAll, List.length_map, List.length_dropLast, Text.length_splitOn, Nat.add_sub_cancel, List.length_map]
      at hlength
    have hunbroken := (count_flatMap_lines body items).2 (Nat.le_of_eq hlength)
    rw [hread hunbroken, List.map_inj_left] at h
    exact fun item hitem => ⟨hunbroken item hitem, h item hitem⟩
  · intro h
    rw [hread fun item hitem => (h item hitem).1, List.map_inj_left]
    exact fun item hitem => (h item hitem).2

end Lines

/-! ### Reports as commands -/

/-- What the command for a report is to say. -/
def ofDiagnostic (path : String) (d : Diagnostic) : BuildCommand where
  level := githubLevel d.severity
  properties :=
    [("file", path), ("line", toString d.line), ("col", toString (d.column + 1)), ("endLine", toString d.endLine),
      ("endColumn", toString (d.endColumn + 1)), ("title", d.ruleId)]
  message := d.text

/-- The line for a report. -/
def lineOf (path : String) (d : Diagnostic) : List Char :=
  line (githubLevel d.severity) (ofDiagnostic path d).properties (d.text.toList.flatMap onOneLine)

theorem joined_properties (path : String) (d : Diagnostic) :
    joined (ofDiagnostic path d).properties = written ("file", path) ++ ',' ::
      (written ("line", toString d.line) ++ ',' :: (written ("col", toString (d.column + 1)) ++ ',' ::
        (written ("endLine", toString d.endLine) ++ ',' :: (written ("endColumn", toString (d.endColumn + 1)) ++ ',' ::
          written ("title", d.ruleId))))) := by
  simp only [joined, ofDiagnostic, List.map_cons, List.map_nil, List.intercalate_cons_cons, List.intercalate_singleton,
    List.append_assoc, List.singleton_append]

theorem toList_githubOne (path : String) (d : Diagnostic) :
    (githubOne path d).toList = lineOf path d ++ ['\n'] := by
  rw [lineOf, line, joined_properties]
  unfold githubOne
  simp only [String.toList_append, toList_oneLine, written, String.reduceToList, List.append_assoc, List.cons_append,
    List.nil_append]

theorem toList_github (path : String) (ds : List Diagnostic) :
    (github path ds).toList = ds.flatMap fun d => lineOf path d ++ ['\n'] := by
  rw [github, String.toList_join, List.flatMap_map]
  exact List.flatMap_congr fun d _ => toList_githubOne path d

theorem not_mem_toString {c : Char} (hc : c.isDigit = false) (n : Nat) : c ∉ (toString n).toList := by
  intro hmem
  rw [Nat.toString_eq_repr, Nat.toList_repr] at hmem
  have hdigit : c.isDigit = true := Nat.isDigit_of_mem_toDigits (by decide) (by decide) hmem
  rw [hc] at hdigit
  cases hdigit

/-- A text that stands for itself as the value of a property: no comma or line feed in it, no two colons next to each
other and no escaped character. -/
structure Plain (value : List Char) : Prop where
  comma : ',' ∉ value
  feed : '\n' ∉ value
  colons : ¬ [':', ':'] <:+: value
  codes : Uncoded value

instance (value : List Char) : Decidable (Plain value) :=
  decidable_of_iff (',' ∉ value ∧ '\n' ∉ value ∧ ¬ [':', ':'] <:+: value ∧ Uncoded value)
    ⟨fun h => ⟨h.1, h.2.1, h.2.2.1, h.2.2.2⟩, fun h => ⟨h.comma, h.feed, h.colons, h.codes⟩⟩

theorem Plain.of_not_mem {value : List Char} (hcomma : ',' ∉ value) (hfeed : '\n' ∉ value) (hcolon : ':' ∉ value)
    (hpercent : '%' ∉ value) : Plain value :=
  ⟨hcomma, hfeed, fun hin => hcolon (hin.subset List.mem_cons_self), Uncoded.of_not_mem hpercent⟩

theorem plain_toString (n : Nat) : Plain (toString n).toList :=
  Plain.of_not_mem (not_mem_toString (by decide) n) (not_mem_toString (by decide) n) (not_mem_toString (by decide) n)
    (not_mem_toString (by decide) n)

section Keys

variable {key : String} (hcomma : ',' ∉ key.toList) (hequals : '=' ∉ key.toList) (hcolon : ':' ∉ key.toList)
  (value : String)

include hcomma hequals in
theorem readable_iff : Readable (key, value) ↔ ',' ∉ value.toList ∧ Uncoded value.toList := by
  refine ⟨fun h => ⟨fun hmem => h.comma ?_, h.codes⟩, fun ⟨hvalue, hcodes⟩ => ⟨?_, hequals, hcodes⟩⟩
  · exact List.mem_append_right _ (List.mem_cons_of_mem '=' hmem)
  · simp [written, hcomma, hvalue]

include hcolon in
theorem colons_infix_written_append_iff (rest : List Char) :
    [':', ':'] <:+: written (key, value) ++ rest ↔ [':', ':'] <:+: value.toList ++ rest := by
  rw [written, List.append_assoc, List.cons_append, colons_infix_append_cons_iff (by decide), or_iff_right]
  exact fun hin => hcolon (hin.subset List.mem_cons_self)

include hcolon in
theorem colons_infix_written_cons_iff (rest : List Char) :
    [':', ':'] <:+: written (key, value) ++ ',' :: rest ↔ [':', ':'] <:+: value.toList ∨ [':', ':'] <:+: rest := by
  rw [colons_infix_written_append_iff hcolon, colons_infix_append_cons_iff (by decide)]

end Keys

theorem readable_properties_iff (path : String) (d : Diagnostic) :
    (∀ p ∈ (ofDiagnostic path d).properties, Readable p) ↔
      (',' ∉ path.toList ∧ Uncoded path.toList) ∧ ',' ∉ d.ruleId.toList ∧ Uncoded d.ruleId.toList := by
  have hnumber {key : String} (hcomma : ',' ∉ key.toList) (hequals : '=' ∉ key.toList) (n : Nat) :
      Readable (key, toString n) :=
    (readable_iff hcomma hequals _).mpr ⟨(plain_toString n).comma, (plain_toString n).codes⟩
  have hfile : Readable ("file", path) ↔ _ := readable_iff (by decide) (by decide) path
  have htitle : Readable ("title", d.ruleId) ↔ _ := readable_iff (by decide) (by decide) d.ruleId
  rw [← hfile, ← htitle]
  simp only [ofDiagnostic, List.forall_mem_cons]
  constructor
  · rintro ⟨hpath, -, -, -, -, hid, -⟩
    exact ⟨hpath, hid⟩
  · rintro ⟨hpath, hid⟩
    exact ⟨hpath, hnumber (by decide) (by decide) _, hnumber (by decide) (by decide) _, hnumber (by decide) (by decide) _,
      hnumber (by decide) (by decide) _, hid, fun _ hmem => absurd hmem List.not_mem_nil⟩

theorem colons_infix_properties_iff (path : String) (d : Diagnostic) :
    [':', ':'] <:+: joined (ofDiagnostic path d).properties ++ [':'] ↔
      [':', ':'] <:+: path.toList ∨ [':', ':'] <:+: d.ruleId.toList ++ [':'] := by
  have hnumber (n : Nat) : ¬ [':', ':'] <:+: (toString n).toList := (plain_toString n).colons
  rw [joined_properties]
  simp only [List.append_assoc, List.cons_append]
  rw [colons_infix_written_cons_iff (by decide), colons_infix_written_cons_iff (by decide), or_iff_right (hnumber _),
    colons_infix_written_cons_iff (by decide), or_iff_right (hnumber _), colons_infix_written_cons_iff (by decide),
    or_iff_right (hnumber _), colons_infix_written_cons_iff (by decide), or_iff_right (hnumber _),
    colons_infix_written_append_iff (by decide)]

theorem colons_infix_concat_iff (value : List Char) :
    [':', ':'] <:+: value ++ [':'] ↔ [':', ':'] <:+: value ∨ value.getLast? = some ':' := by
  rw [List.infix_concat_iff, or_comm, List.getLast?_eq_some_iff]
  refine or_congr Iff.rfl ⟨?_, ?_⟩
  · rintro ⟨front, h⟩
    have hfront : (front ++ [':']) ++ [':'] = value ++ [':'] := by simpa using h
    exact ⟨front, (List.append_cancel_right hfront).symm⟩
  · rintro ⟨front, rfl⟩
    exact ⟨front, by simp⟩

theorem feed_mem_lineOf_iff (path : String) (d : Diagnostic) :
    '\n' ∈ lineOf path d ↔ '\n' ∈ path.toList ∨ '\n' ∈ d.ruleId.toList := by
  have hnumber (n : Nat) : '\n' ∉ Nat.toDigits 10 n := by simpa using (plain_toString n).feed
  have hlevel : '\n' ∉ (githubLevel d.severity).toList := by cases d.severity <;> decide
  have hmessage : '\n' ∉ d.text.toList.flatMap onOneLine := not_mem_flatMap_onOneLine d.text.toList
  rw [lineOf, line, joined_properties]
  simp [written, hnumber, hlevel, hmessage, -List.mem_flatMap]

/-- A report that is read back wherever its path is: the rule stands for itself, also in front of the two colons
behind it, and no escaped character is in the message. -/
structure Clear (d : Diagnostic) : Prop where
  title : Plain d.ruleId.toList
  ending : d.ruleId.toList.getLast? ≠ some ':'
  message : Uncoded d.text.toList

instance (d : Diagnostic) : Decidable (Clear d) :=
  decidable_of_iff (Plain d.ruleId.toList ∧ d.ruleId.toList.getLast? ≠ some ':' ∧ Uncoded d.text.toList)
    ⟨fun h => ⟨h.1, h.2.1, h.2.2⟩, fun h => ⟨h.title, h.ending, h.message⟩⟩

/-- The line for a report is whole and read back exactly if the path stands for itself and the report is clear. -/
theorem read?_lineOf_iff (path : String) (d : Diagnostic) :
    '\n' ∉ lineOf path d ∧ read? (lineOf path d) = some (ofDiagnostic path d) ↔ Plain path.toList ∧ Clear d := by
  have hblank : ' ' ∉ (githubLevel d.severity).toList := by cases d.severity <;> decide
  have hcolon : ':' ∉ (githubLevel d.severity).toList := by cases d.severity <;> decide
  have hread : read? (lineOf path d) = some (ofDiagnostic path d) ↔ _ :=
    read?_line_iff hblank hcolon (List.cons_ne_nil _ _)
  rw [hread, feed_mem_lineOf_iff, readable_properties_iff, colons_infix_properties_iff, colons_infix_concat_iff,
    unescape_flatMap_onOneLine, unescape_eq_self_iff]
  simp only [not_or]
  constructor
  · rintro ⟨⟨hfeed, hfeed'⟩, ⟨⟨hcomma, hcodes⟩, hcomma', hcodes'⟩, ⟨hcolons, hcolons', hending⟩, hmessage⟩
    exact ⟨⟨hcomma, hfeed, hcolons, hcodes⟩, ⟨⟨hcomma', hfeed', hcolons', hcodes'⟩, hending, hmessage⟩⟩
  · rintro ⟨hpath, hclear⟩
    exact ⟨⟨hpath.feed, hclear.title.feed⟩, ⟨⟨hpath.comma, hpath.codes⟩, hclear.title.comma, hclear.title.codes⟩,
      ⟨hpath.colons, hclear.title.colons, hclear.ending⟩, hclear.message⟩

theorem readAll_github_eq_iff (path : String) (ds : List Diagnostic) :
    readAll (github path ds).toList = ds.map (fun d => some (ofDiagnostic path d)) ↔
      ds = [] ∨ Plain path.toList ∧ ∀ d ∈ ds, Clear d := by
  rw [toList_github, readAll_flatMap_eq_iff]
  simp only [read?_lineOf_iff]
  cases ds with
  | nil => simp
  | cons d ds =>
    simp only [reduceCtorEq, false_or]
    exact ⟨fun h => ⟨(h d List.mem_cons_self).1, fun e he => (h e he).2⟩, fun h e he => ⟨h.1, h.2 e he⟩⟩

/-! ### Reports of the linter -/

theorem rule_mem_all_of_mem_ofFile {objects : List String} {file : SourceFile} {f : Finding}
    (h : f ∈ Finding.ofFile objects file) : f.rule ∈ LintRule.all := by
  obtain ⟨call, -, hf⟩ := List.mem_flatMap.mp h
  rcases List.mem_append.mp hf with hf | hf
  · rw [(Finding.noUndefinedValues?_place (Option.mem_toList.mp hf)).1]
    exact List.mem_cons_self
  · rw [(Finding.setRequireMerge?_place (Option.mem_toList.mp hf)).1]
    exact List.mem_cons_of_mem _ List.mem_cons_self

theorem signs_not_mem_id {rule : LintRule} (h : rule ∈ LintRule.all) :
    ',' ∉ rule.id.toList ∧ '\n' ∉ rule.id.toList ∧ ':' ∉ rule.id.toList ∧ '%' ∉ rule.id.toList := by
  revert rule
  decide +kernel

theorem percent_not_mem_text (m : Message) : '%' ∉ m.text.toList := by
  cases m <;> decide +kernel

/-- The linter names only its own rules and says only its own messages. -/
theorem clear_of_mem_lint {o : LintOptions} {path content : List Char} {d : Diagnostic} (h : d ∈ o.lint path content) :
    Clear d := by
  unfold LintOptions.lint at h
  split at h
  · cases h
  · rw [LintOptions.lintFile_eq, LintOptions.lintUnder_eq] at h
    obtain ⟨f, hf, rfl⟩ := List.mem_map.mp h
    obtain ⟨hcomma, hfeed, hcolon, hpercent⟩ := signs_not_mem_id (rule_mem_all_of_mem_ofFile (List.mem_filter.mp hf).1)
    exact ⟨Plain.of_not_mem hcomma hfeed hcolon hpercent, fun hlast => hcolon (List.mem_of_getLast? hlast),
      Uncoded.of_not_mem (percent_not_mem_text f.message)⟩

/-- Of the commands for a list of reports there is one on each line, and it says the path, the places, the rule and the
message of its report, exactly if the path stands for itself and every report is clear. The reports of the linter are
all clear: for them, only the path counts. -/
theorem readAll_github_iff (path : String) (ds : List Diagnostic) :
    (readAll (github path ds).toList = ds.map (fun d => some (ofDiagnostic path d)) ↔
      ds = [] ∨ Plain path.toList ∧ ∀ d ∈ ds, Clear d) ∧
    ∀ (o : LintOptions) (file content : List Char), ds = o.lint file content →
      (readAll (github path ds).toList = ds.map (fun d => some (ofDiagnostic path d)) ↔ ds = [] ∨ Plain path.toList) := by
  refine ⟨readAll_github_eq_iff path ds, fun o file content hds => ?_⟩
  have hclear : ∀ d ∈ ds, Clear d := fun d hd => clear_of_mem_lint (hds ▸ hd)
  rw [readAll_github_eq_iff, and_iff_left hclear]

/-- The report about a set without options. -/
def bareSet : List Diagnostic := LintOptions.lint {} "a.js".toList "doc().set(\x7b\x7d)".toList

/-- A report with a message on two lines. -/
def twoLines : Diagnostic := { (default : Diagnostic) with ruleId := "set:merge", text := "Not merged,\n100%." }

/-- Single colons, blanks, percent signs in front of other signs and the line feeds of messages are read back. -/
theorem readAll_github_iff_twoLines :
    readAll (github "c:/50% done.js" [twoLines]).toList = [some (ofDiagnostic "c:/50% done.js" twoLines)] ∧
      bareSet ≠ [] ∧ readAll (github "c:/50% done.js" bareSet).toList =
        bareSet.map fun d => some (ofDiagnostic "c:/50% done.js" d) := by
  have hpath : Plain "c:/50% done.js".toList := by decide +kernel
  have hclear : ∀ d ∈ [twoLines], Clear d := by decide +kernel
  exact ⟨(readAll_github_iff _ _).1.mpr (Or.inr ⟨hpath, hclear⟩), by decide +kernel,
    ((readAll_github_iff _ bareSet).2 {} _ _ rfl).mpr (Or.inr hpath)⟩

/-- A comma ends the path early, and what follows it is no property. -/
theorem github_path_with_comma :
    github "a,b.js" bareSet = "::warning file=a,b.js,line=1,col=1,endLine=1,endColumn=14,"
        ++ "title=firestore-set-require-merge::Missing merge option parameter.\n" ∧
      readAll (github "a,b.js" bareSet).toList = [none] ∧
      readAll (github "a,b.js" bareSet).toList ≠ bareSet.map fun d => some (ofDiagnostic "a,b.js" d) := by
  decide +kernel

end BuildCommand

end Report

end WriteGuard
