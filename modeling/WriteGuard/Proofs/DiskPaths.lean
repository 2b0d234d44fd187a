import Mathlib.Data.List.Infix
import WriteGuard.Files.Tree
import WriteGuard.Proofs.PathNames

/-!
Where paths lead on a disk. The names of a path enter one directory after the other, from the root or from the current
directory, and two dots go up; a path is that of a file exactly if its names but the last enter a directory with a file of
the last name.
-/

namespace WriteGuard

namespace FileTree

/-- Whether names lead to a file. -/
def hasFile (root : FileTree) (names : List (List Char)) : Bool :=
  match root.at? names with
  | some (.file _) => true
  | _ => false

/-- Whether names lead to a directory. -/
def hasDirectory (root : FileTree) (names : List (List Char)) : Bool :=
  match root.at? names with
  | some (.directory _) => true
  | _ => false

/-- The directory that is entered by names one after the other from another directory; two dots go up. -/
def enter (root : FileTree) : List (List Char) → List (List Char) → Option (List (List Char))
  | dir, [] => if root.hasDirectory dir then some dir else none
  | dir, name :: names =>
    if root.hasDirectory dir then root.enter (if name = ['.', '.'] then dir.dropLast else dir ++ [name]) names else none

end FileTree

/-- The names of a place that is reached from a directory by the names of a path; two dots go up. -/
def Path.follow (dir names : List (List Char)) : List (List Char) :=
  names.foldl (fun dir name => if name = ['.', '.'] then dir.dropLast else dir ++ [name]) dir

namespace Disk

/-- The directory that a path starts from. -/
def origin (disk : Disk) (path : List Char) : List (List Char) := if Path.isAbsolute path then [] else disk.current

/-- The names of the place that a path means, from the root. -/
def location (disk : Disk) (path : List Char) : List (List Char) := Path.follow (disk.origin path) (Path.names path)

end Disk

/-! ### Entering directories -/

namespace FileTree

theorem at?_append (names names' : List (List Char)) (t : FileTree) :
    t.at? (names ++ names') = (t.at? names).bind (at? names') := by
  induction names generalizing t with
  | nil => rfl
  | cons name names ih =>
    rw [List.cons_append, at?, at?]
    cases t.entry? name with
    | none => rfl
    | some inner => exact ih inner

/-- What stands below a place stands in a directory. -/
theorem hasDirectory_of_at? {root t : FileTree} {dir : List (List Char)} {name : List Char}
    (h : root.at? (dir ++ [name]) = some t) : root.hasDirectory dir = true := by
  rw [at?_append] at h
  obtain ⟨inner, hinner, hentry⟩ := Option.bind_eq_some_iff.mp h
  rw [hasDirectory, hinner]
  cases inner with
  | directory entries => rfl
  | file content => cases hentry

theorem hasDirectory_of_append {root : FileTree} {dir names : List (List Char)}
    (h : root.hasDirectory (dir ++ names) = true) : root.hasDirectory dir = true := by
  induction names using List.reverseRecOn with
  | nil => simpa using h
  | append_singleton names name ih =>
    refine ih ?_
    rw [hasDirectory, ← List.append_assoc] at h
    cases hat : root.at? (dir ++ names ++ [name]) with
    | none => rw [hat] at h; cases h
    | some t => exact hasDirectory_of_at? hat

theorem hasDirectory_of_enter {root : FileTree} {dir names dir' : List (List Char)}
    (h : root.enter dir names = some dir') : root.hasDirectory dir = true := by
  cases names with
  | nil =>
    rw [enter] at h
    split at h
    · assumption
    · cases h
  | cons name names =>
    rw [enter] at h
    split at h
    · assumption
    · cases h

theorem eq_follow_of_enter {root : FileTree} {dir names dir' : List (List Char)}
    (h : root.enter dir names = some dir') : dir' = Path.follow dir names := by
  induction names generalizing dir with
  | nil =>
    rw [enter] at h
    split at h
    · exact (Option.some.inj h).symm
    · cases h
  | cons name names ih =>
    rw [enter] at h
    split at h
    · exact ih h
    · cases h

/-- Without two dots, names lead down to a directory if it is there. -/
theorem enter_of_not_mem {root : FileTree} {dir names : List (List Char)} (hdir : root.hasDirectory dir = true)
    (hup : ['.', '.'] ∉ names) :
    root.enter dir names = if root.hasDirectory (dir ++ names) then some (dir ++ names) else none := by
  induction names generalizing dir with
  | nil => rw [enter, List.append_nil]
  | cons name names ih =>
    rw [List.mem_cons, not_or] at hup
    rw [enter, if_pos hdir, if_neg (Ne.symm hup.1)]
    cases hnext : root.hasDirectory (dir ++ [name]) with
    | true => rw [ih hnext hup.2, List.append_assoc, List.singleton_append]
    | false =>
      have hnot : ¬ root.hasDirectory (dir ++ name :: names) = true := by
        rw [← List.singleton_append, ← List.append_assoc]
        intro hbelow
        rw [hasDirectory_of_append hbelow] at hnext
        cases hnext
      rw [if_neg hnot]
      cases henter : root.enter (dir ++ [name]) names with
      | none => rfl
      | some dir' =>
        rw [hasDirectory_of_enter henter] at hnext
        cases hnext

end FileTree

namespace Disk

/-- A path that ends in a name leads to what has this name in the directory that the names before it enter. -/
theorem walk_append_name {root t : FileTree} {dir front : List (List Char)} {name : List Char}
    (hname : Path.isName name = true) (hup : name ≠ ['.', '.']) :
    walk root dir (front ++ [name]) = .ok t ↔
      ∃ dir', root.enter dir (front.filter Path.isName) = some dir' ∧ root.at? (dir' ++ [name]) = some t := by
  induction front generalizing dir with
  | nil =>
    rw [List.nil_append, walk, List.filter_nil, FileTree.enter, FileTree.hasDirectory]
    cases hdir : root.at? dir with
    | none => simp
    | some inner =>
      cases inner with
      | file content => simp
      | directory entries =>
        simp only [Path.isName_eq, hname, Bool.not_true, Bool.false_eq_true, if_false, hup, walk, if_true, Option.some.injEq,
          exists_eq_left']
        cases root.at? (dir ++ [name]) <;> simp
  | cons piece front ih =>
    rw [List.cons_append, walk]
    cases hdir : root.at? dir with
    | none =>
      have hnone : root.hasDirectory dir = false := by rw [FileTree.hasDirectory, hdir]
      constructor
      · intro h
        cases h
      · rintro ⟨dir', henter, -⟩
        rw [FileTree.hasDirectory_of_enter henter] at hnone
        cases hnone
    | some inner =>
      cases inner with
      | file content =>
        have hfile : root.hasDirectory dir = false := by rw [FileTree.hasDirectory, hdir]
        constructor
        · intro h
          cases h
        · rintro ⟨dir', henter, -⟩
          rw [FileTree.hasDirectory_of_enter henter] at hfile
          cases hfile
      | directory entries =>
        have hdirectory : root.hasDirectory dir = true := by rw [FileTree.hasDirectory, hdir]
        simp only [Path.isName_eq]
        cases hpiece : Path.isName piece with
        | false => simpa [List.filter_cons, hpiece] using ih
        | true =>
          simp only [Bool.not_true, Bool.false_eq_true, if_false, List.filter_cons, hpiece, if_true, FileTree.enter,
            hdirectory]
          by_cases hdots : piece = ['.', '.']
          · simp only [hdots, if_true]
            exact ih
          · simp only [hdots, if_false]
            exact ih

/-- Only a path that ends in a name leads to a file. -/
theorem walk_eq_file {root : FileTree} {dir front : List (List Char)} {last : List Char} {content : Option (List Char)}
    (h : walk root dir (front ++ [last]) = .ok (.file content)) :
    Path.isName last = true ∧ last ≠ ['.', '.'] := by
  induction front generalizing dir with
  | nil =>
    rw [List.nil_append, walk] at h
    split at h
    · cases h
    · cases h
    · next entries hdir =>
      rw [Path.isName_eq] at h
      cases hlast : Path.isName last with
      | false => simp [hlast, walk, hdir] at h
      | true =>
        refine ⟨rfl, ?_⟩
        rintro rfl
        rcases List.eq_nil_or_concat dir with rfl | ⟨above, name, rfl⟩
        · simp [hlast, walk, hdir] at h
        · rw [List.concat_eq_append] at h hdir
          have habove := FileTree.hasDirectory_of_at? hdir
          rw [FileTree.hasDirectory] at habove
          simp only [hlast, Bool.not_true, Bool.false_eq_true, if_false, if_true, List.dropLast_concat, walk] at h
          split at habove
          · next inner hat =>
            rw [hat] at h
            cases h
          · cases habove
  | cons piece front ih =>
    rw [List.cons_append, walk] at h
    split at h
    · cases h
    · cases h
    · split at h
      · exact ih h
      · split at h
        · exact ih h
        · exact ih h

theorem isFile_join {disk : Disk} {path name : List Char} (hname : Path.isName name = true) (hup : name ≠ ['.', '.'])
    (hslash : '/' ∉ name) :
    disk.isFile (Path.join path name) = true ↔
      ∃ dir, disk.root.enter (disk.origin path) (Path.names path) = some dir ∧
        disk.root.hasFile (dir ++ [name]) = true := by
  obtain ⟨⟨front, hsplit, hfront⟩, habsolute, hne⟩ := Path.join_name hname hslash path
  have hwalk : ∀ t, disk.find (Path.join path name) = .ok t ↔
      ∃ dir, disk.root.enter (disk.origin path) (Path.names path) = some dir ∧
        disk.root.at? (dir ++ [name]) = some t := by
    intro t
    rw [find, if_neg hne]
    simp only [hsplit, habsolute]
    rw [walk_append_name hname hup, hfront, origin]
  constructor
  · intro h
    rw [isFile] at h
    split at h
    · next content hfind =>
      obtain ⟨dir, henter, hat⟩ := (hwalk _).mp hfind
      exact ⟨dir, henter, by rw [FileTree.hasFile, hat]⟩
    · cases h
  · rintro ⟨dir, henter, hfile⟩
    rw [FileTree.hasFile] at hfile
    split at hfile
    · next content hat => rw [isFile, (hwalk _).mpr ⟨dir, henter, hat⟩]
    · cases hfile

theorem location_join {disk : Disk} {path name : List Char} (hname : Path.isName name = true) (hup : name ≠ ['.', '.'])
    (hslash : '/' ∉ name) : disk.location (Path.join path name) = disk.location path ++ [name] := by
  obtain ⟨⟨front, hsplit, hfront⟩, habsolute, -⟩ := Path.join_name hname hslash path
  have hnames : Path.names (Path.join path name) = Path.names path ++ [name] := by
    rw [Path.names, hsplit, List.filter_append, hfront]
    simp [hname]
  simp only [location, origin, habsolute, hnames, Path.follow, List.foldl_append, List.foldl_cons, List.foldl_nil, hup,
    if_false]

end Disk

end WriteGuard
