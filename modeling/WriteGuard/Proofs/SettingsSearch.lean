import Mathlib.Data.List.Infix
import WriteGuard.Config.Discovery
import WriteGuard.Proofs.DiskPaths

/-!
Where settings are looked for. The search takes names off the end of a path, one after the other, and looks into the
directory that the rest of the path leads to. For an absolute path without two dots these are the directory of the path
and all directories above it. For a relative one they end at the current directory, and two dots bring in directories
that are not above the path at all.
-/

namespace WriteGuard

namespace FileTree

/-- The file with settings in a directory, the preferred one if there are two. -/
def settingsIn? (root : FileTree) (dir : List (List Char)) : Option (List (List Char)) :=
  (Project.fileNames.map fun name => dir ++ [name.toList]).find? root.hasFile

/-- The file with settings in the nearest directory that has one, from a directory up to the root. -/
def nearestSettings? (root : FileTree) (dir : List (List Char)) : Option (List (List Char)) :=
  dir.inits.reverse.findSome? root.settingsIn?

/-- Only a directory has a file with settings in it. -/
theorem settingsIn?_eq_none {root : FileTree} {dir : List (List Char)} (h : root.hasDirectory dir = false) :
    root.settingsIn? dir = none := by
  rw [settingsIn?, List.find?_eq_none]
  intro names hnames hfile
  obtain ⟨name, -, rfl⟩ := List.mem_map.mp hnames
  rw [hasFile] at hfile
  cases hat : root.at? (dir ++ [name.toList]) with
  | none => rw [hat] at hfile; cases hfile
  | some t =>
    rw [hasDirectory_of_at? hat] at h
    cases h

end FileTree

namespace Disk

/-- The directory of a path: that of a file, else the path itself. -/
def directoryOf (disk : Disk) (path : List Char) : List (List Char) :=
  if disk.isFile path then (disk.location path).dropLast else disk.location path

/-- The names of a path that lead to its directory. -/
def directoryNames (disk : Disk) (path : List Char) : List (List Char) :=
  if disk.isFile path then (Path.names path).dropLast else Path.names path

end Disk

/-! ### The search -/

namespace Project

theorem fileNames_plain {name : String} (h : name ∈ fileNames) :
    Path.isName name.toList = true ∧ name.toList ≠ ['.', '.'] ∧ '/' ∉ name.toList := by
  simp only [fileNames, List.mem_cons, List.not_mem_nil, or_false] at h
  rcases h with rfl | rfl <;> decide

/-- What is found in the directory of a path is the file with settings of the directory that its names enter. -/
theorem map_location_fileIn? (disk : Disk) (path : List Char) :
    (fileIn? disk path).map disk.location =
      (disk.root.enter (disk.origin path) (Path.names path)).bind disk.root.settingsIn? := by
  have hisFile : ∀ name ∈ fileNames, disk.isFile (Path.join path name.toList) = true ↔
      ∃ dir, disk.root.enter (disk.origin path) (Path.names path) = some dir ∧
        disk.root.hasFile (dir ++ [name.toList]) = true := by
    intro name hname
    obtain ⟨hplain, hup, hslash⟩ := fileNames_plain hname
    exact Disk.isFile_join hplain hup hslash
  rw [fileIn?]
  cases henter : disk.root.enter (disk.origin path) (Path.names path) with
  | none =>
    rw [Option.bind_none, Option.map_eq_none_iff, List.find?_eq_none]
    intro candidate hcandidate hfile
    obtain ⟨name, hname, rfl⟩ := List.mem_map.mp hcandidate
    obtain ⟨dir, hdir, -⟩ := (hisFile name hname).mp hfile
    rw [henter] at hdir
    cases hdir
  | some dir =>
    have hdir : dir = disk.location path := FileTree.eq_follow_of_enter henter
    rw [Option.bind_some, FileTree.settingsIn?]
    -- the two lists of candidates are searched side by side
    have hsearch : ∀ names ⊆ fileNames,
        ((names.map fun name => Path.join path name.toList).find? disk.isFile).map disk.location =
          (names.map fun name => dir ++ [name.toList]).find? disk.root.hasFile := by
      intro names
      induction names with
      | nil => intro _; rfl
      | cons name names ih =>
        intro hsub
        obtain ⟨hmem, hrest⟩ := List.cons_subset.mp hsub
        obtain ⟨hplain, hup, hslash⟩ := fileNames_plain hmem
        have hsame : disk.isFile (Path.join path name.toList) = disk.root.hasFile (dir ++ [name.toList]) := by
          rw [Bool.eq_iff_iff, hisFile name hmem, henter]
          simp
        rw [List.map_cons, List.map_cons, List.find?_cons, List.find?_cons, hsame]
        cases disk.root.hasFile (dir ++ [name.toList]) with
        | true => simp only [Option.map_some, Disk.location_join hplain hup hslash, hdir]
        | false => exact ih hrest
    exact hsearch fileNames (List.Subset.refl _)

/-- The directories that are entered by names, then by all but the last of them, and so on to none of them. -/
def searched (root : FileTree) (dir names : List (List Char)) : List (List (List Char)) :=
  names.inits.reverse.filterMap (root.enter dir)

theorem findSome?_searched_concat (root : FileTree) (dir names : List (List Char)) (name : List Char) :
    (searched root dir (names ++ [name])).findSome? root.settingsIn? =
      ((root.enter dir (names ++ [name])).bind root.settingsIn?).or
        ((searched root dir names).findSome? root.settingsIn?) := by
  rw [searched, List.inits_append]
  simp only [List.inits, List.map_cons, List.map_nil, List.tail_cons, List.reverse_append, List.reverse_cons,
    List.reverse_nil, List.nil_append, List.singleton_append, List.filterMap_cons]
  cases root.enter dir (names ++ [name]) with
  | none => rfl
  | some dir' =>
    rw [List.findSome?_cons, Option.bind_some]
    cases root.settingsIn? dir' <;> rfl

/-- What is found in the directory that all names enter is found before anything else. -/
theorem findSome?_searched_of_enter {root : FileTree} {dir names found : List (List Char)}
    (h : (root.enter dir names).bind root.settingsIn? = some found) :
    (searched root dir names).findSome? root.settingsIn? = some found := by
  rcases List.eq_nil_or_concat names with rfl | ⟨names, name, rfl⟩
  · obtain ⟨dir', henter, hsettings⟩ := Option.bind_eq_some_iff.mp h
    simp [searched, henter, hsettings]
  · rw [List.concat_eq_append] at h ⊢
    rw [findSome?_searched_concat, h]
    rfl

/-- The search up from a path finds the first file with settings in the directories that fewer and fewer of its names
enter. The induction is on the steps that are left, of which there are more than names. -/
theorem map_location_searchUp (disk : Disk) {fuel : Nat} {path : List Char} (hfuel : (Path.pieces path).length < fuel) :
    (searchUp disk fuel path).map disk.location =
      (searched disk.root (disk.origin path) (Path.names path)).findSome? disk.root.settingsIn? := by
  induction fuel generalizing path with
  | zero => cases hfuel
  | succ fuel ih =>
    have hhere := map_location_fileIn? disk path
    rw [searchUp]
    cases hfile : fileIn? disk path with
    | some found =>
      rw [hfile, Option.map_some] at hhere
      exact (findSome?_searched_of_enter hhere.symm).symm
    | none =>
      rw [hfile, Option.map_none] at hhere
      cases hparent : Path.parent? path with
      | none =>
        have hnames : Path.names path = [] := by
          rw [Path.names_eq_pieces, Path.parent?_eq_none hparent]
          rfl
        rw [hnames] at hhere ⊢
        rw [searched]
        cases henter : disk.root.enter (disk.origin path) [] with
        | none => simp [henter]
        | some dir =>
          rw [henter, Option.bind_some] at hhere
          simp [henter, ← hhere]
      | some above =>
        obtain ⟨⟨last, hpieces⟩, habsolute⟩ := Path.parent?_eq_some hparent
        have horigin : disk.origin above = disk.origin path := by rw [Disk.origin, Disk.origin, habsolute]
        have hlt : (Path.pieces above).length < fuel := by
          rw [hpieces, List.length_append, List.length_singleton] at hfuel
          omega
        simp only [ih hlt, horigin]
        -- a dot in front of a path is a piece, but no name
        have hnames : Path.names path = Path.names above ++ [last.name].filter Path.isName := by
          rw [Path.names_eq_pieces, Path.names_eq_pieces, hpieces, List.map_append, List.filter_append]
          rfl
        cases hlast : Path.isName last.name with
        | true =>
          rw [List.filter_cons_of_pos hlast, List.filter_nil] at hnames
          rw [hnames] at hhere ⊢
          rw [findSome?_searched_concat, ← hhere]
          rfl
        | false =>
          rw [List.filter_cons_of_neg (by rw [hlast]; exact Bool.false_ne_true), List.filter_nil,
            List.append_nil] at hnames
          rw [hnames]

/-- The parent of a path to a file goes through all of its names but the last. -/
theorem parent?_of_isFile {disk : Disk} {path : List Char} (h : disk.isFile path = true) :
    ∃ above last, Path.parent? path = some above ∧ disk.origin above = disk.origin path ∧ last ≠ ['.', '.'] ∧
      Path.names path = Path.names above ++ [last] := by
  have hfind : ∃ content, disk.find path = .ok (.file content) := by
    rw [Disk.isFile] at h
    split at h
    · next content hfind => exact ⟨content, hfind⟩
    · cases h
  obtain ⟨content, hfind⟩ := hfind
  rw [Disk.find] at hfind
  split at hfind
  · cases hfind
  · have hpieces : (Path.split [] 0 path).map Path.Piece.name ≠ [] := by simp [Path.split_ne_nil]
    obtain ⟨front, last, hsplit⟩ := (List.eq_nil_or_concat _).resolve_left hpieces
    rw [List.concat_eq_append] at hsplit
    simp only [hsplit] at hfind
    obtain ⟨hlast, hup⟩ := Disk.walk_eq_file hfind
    have hnames : Path.names path = front.filter Path.isName ++ [last] := by
      rw [Path.names, hsplit, List.filter_append]
      simp [hlast]
    cases hparent : Path.parent? path with
    | none =>
      rw [Path.names_eq_pieces, Path.parent?_eq_none hparent] at hnames
      simp at hnames
    | some above =>
      obtain ⟨⟨piece, hpieces⟩, habsolute⟩ := Path.parent?_eq_some hparent
      have habove : Path.names path = Path.names above ++ [piece.name].filter Path.isName := by
        rw [Path.names_eq_pieces, Path.names_eq_pieces, hpieces, List.map_append, List.filter_append]
        rfl
      cases hpiece : Path.isName piece.name with
      | true =>
        rw [List.filter_cons_of_pos hpiece, List.filter_nil] at habove
        obtain ⟨-, hsame⟩ := List.append_inj' (habove.symm.trans hnames) rfl
        refine ⟨above, piece.name, rfl, ?_, ?_, habove⟩
        · rw [Disk.origin, Disk.origin, habsolute]
        · rw [List.singleton_inj.mp hsame]
          exact hup
      | false =>
        -- the last piece would be a dot, and the only one
        have hnone : Path.pieces above = [] := by
          by_contra hne
          rw [Path.isName_of_pieces hpieces hne] at hpiece
          cases hpiece
        rw [Path.names_eq_pieces, hpieces, hnone] at hnames
        simp [hpiece] at hnames

/-- The search for a path goes through the directories that the names of its directory lead to. -/
theorem map_location_findFile? (disk : Disk) (path : List Char) :
    (findFile? disk path).map disk.location =
      (searched disk.root (disk.origin path) (disk.directoryNames path)).findSome? disk.root.settingsIn? := by
  rw [findFile?, Disk.directoryNames]
  by_cases hfile : disk.isFile path = true
  · obtain ⟨above, last, hparent, horigin, -, hnames⟩ := parent?_of_isFile hfile
    simp only [hfile, if_true, hparent, Option.bind_some]
    rw [map_location_searchUp disk (Nat.lt_succ_of_le (Path.length_pieces_le above)), horigin, hnames,
      List.dropLast_concat]
  · simp only [hfile]
    exact map_location_searchUp disk (Nat.lt_succ_of_le (Path.length_pieces_le path))

/-- What the search finds is a file. -/
theorem isFile_of_findFile? {disk : Disk} {path found : List Char} (h : findFile? disk path = some found) :
    disk.isFile found = true := by
  have hsearch : ∀ (fuel : Nat) (start : List Char), searchUp disk fuel start = some found →
      disk.isFile found = true := by
    intro fuel
    induction fuel with
    | zero => intro start h; cases h
    | succ fuel ih =>
      intro start h
      rw [searchUp] at h
      split at h
      · next candidate hfile =>
        obtain rfl := Option.some.inj h
        exact List.find?_some hfile
      · split at h
        · exact ih _ h
        · cases h
  rw [findFile?] at h
  obtain ⟨dir, -, h⟩ := Option.bind_eq_some_iff.mp h
  exact hsearch _ dir h

end Project

/-! ### The nearest settings -/

theorem Path.follow_of_not_mem {dir names : List (List Char)} (hup : ['.', '.'] ∉ names) :
    Path.follow dir names = dir ++ names := by
  induction names generalizing dir with
  | nil => simp [Path.follow]
  | cons name names ih =>
    rw [List.mem_cons, not_or] at hup
    have hrest := @ih (dir ++ [name]) hup.2
    rw [Path.follow] at hrest ⊢
    rw [List.foldl_cons, if_neg (Ne.symm hup.1), hrest, List.append_assoc, List.singleton_append]

theorem Disk.directoryOf_eq {disk : Disk} {path : List Char} (hup : ['.', '.'] ∉ Path.names path) :
    disk.directoryOf path = disk.origin path ++ disk.directoryNames path := by
  rw [directoryOf, directoryNames, location, Path.follow_of_not_mem hup]
  by_cases hfile : disk.isFile path = true
  · obtain ⟨above, last, -, -, -, hnames⟩ := Project.parent?_of_isFile hfile
    rw [if_pos hfile, if_pos hfile, hnames, ← List.append_assoc, List.dropLast_concat, List.dropLast_concat]
  · rw [if_neg hfile, if_neg hfile]

namespace FileTree

theorem enter_bind_settingsIn? {root : FileTree} {dir names : List (List Char)} (hdir : root.hasDirectory dir = true)
    (hup : ['.', '.'] ∉ names) : (root.enter dir names).bind root.settingsIn? = root.settingsIn? (dir ++ names) := by
  rw [enter_of_not_mem hdir hup]
  cases hhas : root.hasDirectory (dir ++ names) with
  | true => rfl
  | false => exact (settingsIn?_eq_none hhas).symm

theorem nearestSettings?_concat (root : FileTree) (dir : List (List Char)) (name : List Char) :
    root.nearestSettings? (dir ++ [name]) = (root.settingsIn? (dir ++ [name])).or (root.nearestSettings? dir) := by
  rw [nearestSettings?, List.inits_append]
  simp only [List.inits, List.map_cons, List.map_nil, List.tail_cons, List.reverse_append, List.reverse_cons,
    List.reverse_nil, List.nil_append, List.singleton_append, List.findSome?_cons]
  cases root.settingsIn? (dir ++ [name]) <;> rfl

/-- The file with settings in the nearest directory strictly above a directory. -/
def settingsAbove? (root : FileTree) (dir : List (List Char)) : Option (List (List Char)) :=
  if dir = [] then none else root.nearestSettings? dir.dropLast

theorem settingsAbove?_eq_none_iff {root : FileTree} {dir : List (List Char)} :
    root.settingsAbove? dir = none ↔ ∀ above, above <+: dir → above ≠ dir → root.settingsIn? above = none := by
  rcases List.eq_nil_or_concat dir with rfl | ⟨dir, name, rfl⟩
  · simp only [settingsAbove?, if_true, true_iff]
    intro above hpre hne
    exact absurd (List.prefix_nil.mp hpre) hne
  · rw [List.concat_eq_append, settingsAbove?, if_neg (by simp), List.dropLast_concat, nearestSettings?,
      List.findSome?_eq_none_iff]
    simp only [List.mem_reverse, List.mem_inits, List.prefix_concat_iff]
    constructor
    · intro h above hpre hne
      exact h above (hpre.resolve_left hne)
    · intro h above hpre
      refine h above (Or.inr hpre) ?_
      rintro rfl
      have hlength := hpre.length_le
      rw [List.length_append, List.length_singleton] at hlength
      omega

/-- From a directory up to the root, first come the directories down to another one, then those above that one. -/
theorem nearestSettings?_append {root : FileTree} {dir names : List (List Char)} (hdir : root.hasDirectory dir = true)
    (hup : ['.', '.'] ∉ names) :
    root.nearestSettings? (dir ++ names) =
      ((Project.searched root dir names).findSome? root.settingsIn?).or (root.settingsAbove? dir) := by
  induction names using List.reverseRecOn with
  | nil =>
    have hhere : (Project.searched root dir []).findSome? root.settingsIn? = root.settingsIn? dir := by
      simp [Project.searched, enter, hdir]
    rw [hhere, List.append_nil]
    rcases List.eq_nil_or_concat dir with rfl | ⟨dir, name, rfl⟩
    · simp [nearestSettings?, settingsAbove?]
    · rw [List.concat_eq_append, nearestSettings?_concat, settingsAbove?, if_neg (by simp), List.dropLast_concat]
  | append_singleton names name ih =>
    rw [List.mem_append, not_or] at hup
    rw [← List.append_assoc, nearestSettings?_concat, ih hup.1, Project.findSome?_searched_concat, List.append_assoc,
      enter_bind_settingsIn? hdir (by simpa using hup), Option.or_assoc]

/-- Between two directories settings are found if and only if one of the directories between them has some. -/
theorem isSome_findSome?_searched {root : FileTree} {dir names : List (List Char)} (hdir : root.hasDirectory dir = true)
    (hup : ['.', '.'] ∉ names) :
    ((Project.searched root dir names).findSome? root.settingsIn?).isSome = true ↔
      ∃ between, dir <+: between ∧ between <+: dir ++ names ∧ (root.settingsIn? between).isSome = true := by
  rw [List.findSome?_isSome_iff]
  constructor
  · rintro ⟨between, hmem, hsome⟩
    obtain ⟨front, hfront, henter⟩ := List.mem_filterMap.mp hmem
    have hpre : front <+: names := by simpa using hfront
    have hfollow := eq_follow_of_enter henter
    rw [Path.follow_of_not_mem fun hmem => hup (hpre.subset hmem)] at hfollow
    rw [hfollow] at hsome
    exact ⟨dir ++ front, List.prefix_append dir front, (List.prefix_append_right_inj dir).mpr hpre, hsome⟩
  · rintro ⟨between, ⟨front, rfl⟩, hpre, hsome⟩
    have hfront := (List.prefix_append_right_inj dir).mp hpre
    have hhas : root.hasDirectory (dir ++ front) = true := by
      by_contra hnot
      rw [settingsIn?_eq_none (Bool.eq_false_iff.mpr hnot)] at hsome
      cases hsome
    refine ⟨dir ++ front, List.mem_filterMap.mpr ⟨front, by simpa using hfront, ?_⟩, hsome⟩
    rw [enter_of_not_mem hdir fun hmem => hup (hfront.subset hmem), if_pos hhas]

end FileTree

namespace Project

/-- Where settings are found for a path. The search looks into the directories that the names of the path's directory
enter, then all but the last of them, and so on, and finds the first file with settings there. If the path has no two
dots, this is the file of the nearest directory from that of the path up to the root exactly if the path is absolute, or
one of the directories from that of the path to the current one has settings, or none above the current one does. -/
theorem findFile?_nearest_iff (disk : Disk) (hcurrent : disk.root.hasDirectory disk.current = true)
    (path : List Char) :
    (findFile? disk path).map disk.location =
      ((disk.directoryNames path).inits.reverse.filterMap (disk.root.enter (disk.origin path))).findSome?
        disk.root.settingsIn? ∧
    (∀ found ∈ findFile? disk path, disk.isFile found = true) ∧
    (['.', '.'] ∉ Path.names path →
      ((findFile? disk path).map disk.location = disk.root.nearestSettings? (disk.directoryOf path) ↔
        Path.isAbsolute path = true ∨
        (∃ dir, disk.current <+: dir ∧ dir <+: disk.directoryOf path ∧ (disk.root.settingsIn? dir).isSome = true) ∨
        ∀ above, above <+: disk.current → above ≠ disk.current → disk.root.settingsIn? above = none)) := by
  refine ⟨map_location_findFile? disk path, fun found hfound => isFile_of_findFile? hfound, ?_⟩
  intro hup
  have hnames : ['.', '.'] ∉ disk.directoryNames path := by
    rw [Disk.directoryNames]
    split
    · exact fun hmem => hup (List.dropLast_subset _ hmem)
    · exact hup
  rw [map_location_findFile?, Disk.directoryOf_eq hup]
  cases habsolute : Path.isAbsolute path with
  | true =>
    have horigin : disk.origin path = [] := by rw [Disk.origin, habsolute, if_pos rfl]
    have hroot : disk.root.hasDirectory [] = true := FileTree.hasDirectory_of_append (by simpa using hcurrent)
    rw [horigin, FileTree.nearestSettings?_append hroot hnames]
    simp [FileTree.settingsAbove?]
  | false =>
    have horigin : disk.origin path = disk.current := by rw [Disk.origin, habsolute, if_neg Bool.false_ne_true]
    rw [horigin, FileTree.nearestSettings?_append hcurrent hnames, ← FileTree.isSome_findSome?_searched hcurrent hnames,
      ← FileTree.settingsAbove?_eq_none_iff]
    cases (searched disk.root disk.current (disk.directoryNames path)).findSome? disk.root.settingsIn? <;>
      simp [eq_comm]

/-- A project in a home directory with settings, and with an old directory that has settings of its own. -/
def homeDisk : Disk where
  root := .directory [("home".toList, .directory [(".firestore-lint.toml".toList, .file (some [])),
    ("app".toList, .directory [("a.js".toList, .file (some [])),
      ("old".toList, .directory [("firestore-lint.toml".toList, .file (some []))])])])]
  current := ["home".toList, "app".toList]

/-- For an absolute path the settings of the home directory are found, past the dot in the path. -/
theorem findFile?_nearest_iff_absolute :
    findFile? homeDisk "/home/app/./a.js".toList = some "/home/.firestore-lint.toml".toList ∧
    (findFile? homeDisk "/home/app/./a.js".toList).map homeDisk.location =
      homeDisk.root.nearestSettings? (homeDisk.directoryOf "/home/app/./a.js".toList) :=
  ⟨by decide +kernel,
    ((findFile?_nearest_iff homeDisk (by decide +kernel) "/home/app/./a.js".toList).2.2 (by decide +kernel)).mpr
      (Or.inl (by decide))⟩

/-- The settings of the home directory are the nearest for the file of the project however its path is written. From the
project's own directory they are not found, and by way of the old directory the settings there are taken, although that
directory is not above the file. -/
theorem findFile?_not_nearest :
    homeDisk.root.nearestSettings? (homeDisk.directoryOf "a.js".toList) =
      some ["home".toList, ".firestore-lint.toml".toList] ∧
    findFile? homeDisk "a.js".toList = none ∧
    homeDisk.root.nearestSettings? (homeDisk.directoryOf "old/../a.js".toList) =
      some ["home".toList, ".firestore-lint.toml".toList] ∧
    findFile? homeDisk "old/../a.js".toList = some "old/firestore-lint.toml".toList := by
  refine ⟨?_, ?_, ?_, ?_⟩ <;> decide +kernel

end Project

end WriteGuard
