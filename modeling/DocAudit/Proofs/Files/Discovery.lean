import DocAudit.Proofs.Files.Walking
import Mathlib.Data.List.Nodup

/-!
# Files below a directory

Every source file that is found below a directory can be found again by its path: the path leads to the
file, through directories only, and with that path for a target nothing else is found. No file is found
twice, and none at all when a directory cannot be listed.

* `Sources.below`, `Sources.isOpen`: what there is below a directory, and whether it can be listed;
* `Sources.search_eq_ok_iff`: the search comes to all of it, or fails;
* `Sources.mem_below_iff`: what is found below a directory;
* `Sources.find_eq_singleton_of_mem`: what is found with the path of a file;
* `Sources.nodup_of_find`: nothing is found twice.
-/

namespace DocAudit

open DocAudit.Path

/-! ## What is found below a directory -/

namespace Sources

open FileTree

variable {entries : Directory} {names : List String}

/-- The source files in and below a directory, each as the names that lead to it. -/
def below : Directory → List (List String)
  | [] => []
  | (name, .directory inner) :: entries =>
    (if isSkipped name then [] else (below inner).map (name :: ·)) ++ below entries
  | (name, entry) :: entries =>
    (if entry.isFile && isSourceName name then [[name]] else []) ++ below entries

/-- The directory can be listed to its end, and so can those below it, but for the ones that are passed
over. -/
def isOpen : Directory → Bool
  | [] => true
  | (name, .directory inner) :: entries => (isSkipped name || isOpen inner) && isOpen entries
  | (name, .closedDirectory _) :: entries => isSkipped name && isOpen entries
  | (_, .untold _) :: _ => false
  | _ :: entries => isOpen entries

/-- Listing does not fail at an entry of a directory. -/
def isOpenAt : String × FileTree → Bool
  | (name, .directory inner) => isSkipped name || isOpen inner
  | (name, .closedDirectory _) => isSkipped name
  | (_, .untold _) => false
  | _ => true

theorem isOpen_eq_all (entries : Directory) : isOpen entries = entries.all isOpenAt := by
  induction entries with
  | nil => rw [isOpen, List.all_nil]
  | cons first entries ih =>
    obtain ⟨name, entry⟩ := first
    cases entry <;> simp [isOpen, isOpenAt, ih]

/-- The search of a directory that can be listed comes to all that there is. -/
theorem search_of_isOpen {path : String} (h : isOpen entries = true) :
    search path entries = .ok (below entries) := by
  fun_induction search path entries with
  | case1 path => rw [below]
  | case2 path name text entries ih | case3 path name cause entries ih =>
    rw [ih (by simpa [isOpen] using h)]
    simp only [below, isFile, Bool.true_and]
    rfl
  | case4 path name inner entries ihinner ih =>
    cases hskipped : isSkipped name with
    | true =>
      rw [ih (by simpa [isOpen, hskipped] using h), below, hskipped]
      rfl
    | false =>
      obtain ⟨hinner, hentries⟩ : isOpen inner = true ∧ isOpen entries = true := by
        simpa [isOpen, hskipped] using h
      rw [ih hentries, ihinner hinner, below, hskipped]
      rfl
  | case5 path name cause entries hskipped ih =>
    rw [ih (by simpa [isOpen, hskipped] using h)]
    simp [below, isFile]
  | case6 path name cause entries hskipped => simp [isOpen, hskipped] at h
  | case7 path name target entries ih =>
    rw [ih (by simpa [isOpen] using h)]
    simp [below, isFile]
  | case8 path name cause entries => simp [isOpen] at h

/-- The search of any other directory fails. -/
theorem exists_search_eq_error (path : String) (h : isOpen entries = false) :
    ∃ error, search path entries = .error error := by
  fun_induction search path entries with
  | case1 path => simp [isOpen] at h
  | case2 path name text entries ih | case3 path name cause entries ih =>
    obtain ⟨error, herror⟩ := ih (by simpa [isOpen] using h)
    exact ⟨error, by rw [herror]; rfl⟩
  | case4 path name inner entries ihinner ih =>
    cases hskipped : isSkipped name with
    | true =>
      obtain ⟨error, herror⟩ := ih (by simpa [isOpen, hskipped] using h)
      exact ⟨error, by rw [herror]; rfl⟩
    | false =>
      cases hinner : isOpen inner with
      | false =>
        obtain ⟨error, herror⟩ := ihinner hinner
        exact ⟨error, by rw [herror]; rfl⟩
      | true =>
        obtain ⟨error, herror⟩ := ih (by simpa [isOpen, hskipped, hinner] using h)
        exact ⟨error, by rw [search_of_isOpen hinner, herror]; rfl⟩
  | case5 path name cause entries hskipped ih => exact ih (by simpa [isOpen, hskipped] using h)
  | case6 path name cause entries hskipped => exact ⟨_, rfl⟩
  | case7 path name target entries ih => exact ih (by simpa [isOpen] using h)
  | case8 path name cause entries => exact ⟨_, rfl⟩

/-- The search comes to all that there is, or to nothing. -/
theorem search_eq_ok_iff {path : String} {found : List (List String)} :
    search path entries = .ok found ↔ isOpen entries = true ∧ found = below entries := by
  cases hopen : isOpen entries with
  | false =>
    obtain ⟨error, herror⟩ := exists_search_eq_error path hopen
    simp [herror]
  | true => simp [search_of_isOpen hopen, eq_comm]

/-- What is found at an entry of a directory. -/
def foundAt : String × FileTree → List (List String)
  | (name, .directory inner) => if isSkipped name then [] else (below inner).map (name :: ·)
  | (name, entry) => if entry.isFile && isSourceName name then [[name]] else []

theorem below_eq_flatMap (entries : Directory) : below entries = entries.flatMap foundAt := by
  induction entries with
  | nil => rw [below, List.flatMap_nil]
  | cons first entries ih =>
    obtain ⟨name, entry⟩ := first
    cases entry <;> simp only [below, foundAt, List.flatMap_cons, ih]

/-- What is found below a directory are its own source files, and what is found below those of its
directories that are not passed over. -/
theorem mem_below_iff :
    names ∈ below entries ↔
      (∃ name entry, (name, entry) ∈ entries ∧ entry.isFile = true ∧ isSourceName name = true ∧
        names = [name]) ∨
      ∃ name inner more, (name, FileTree.directory inner) ∈ entries ∧ isSkipped name = false ∧
        more ∈ below inner ∧ names = name :: more := by
  rw [below_eq_flatMap, List.mem_flatMap]
  constructor
  · rintro ⟨⟨name, entry⟩, hmem, h⟩
    cases entry with
    | directory inner =>
      obtain ⟨hname, more, hmore, rfl⟩ :
          isSkipped name = false ∧ ∃ more ∈ below inner, name :: more = names := by
        simpa [foundAt] using h
      exact Or.inr ⟨name, inner, more, hmem, hname, hmore, rfl⟩
    | _ =>
      simp only [foundAt, List.mem_ite_nil_right, List.mem_singleton, Bool.and_eq_true] at h
      exact Or.inl ⟨name, _, hmem, h.1.1, h.1.2, h.2⟩
  · rintro (⟨name, entry, hmem, hfile, hname, rfl⟩ | ⟨name, inner, more, hmem, hname, hmore, rfl⟩)
    · refine ⟨_, hmem, ?_⟩
      cases entry with
      | directory inner => cases hfile
      | _ => simp [foundAt, hfile, hname]
    · exact ⟨_, hmem, by simp [foundAt, hname, hmore]⟩

/-- What is found below a directory begins with the name of one of its entries. -/
theorem exists_cons_of_mem_below (h : names ∈ below entries) :
    ∃ entry ∈ entries, ∃ more, names = entry.1 :: more := by
  rcases mem_below_iff.1 h with
    ⟨name, file, hmem, -, -, rfl⟩ | ⟨name, inner, more, hmem, -, -, rfl⟩
  · exact ⟨_, hmem, [], rfl⟩
  · exact ⟨_, hmem, more, rfl⟩

theorem ne_nil_of_mem_below (h : names ∈ below entries) : names ≠ [] := by
  obtain ⟨_, _, _, rfl⟩ := exists_cons_of_mem_below h
  exact List.cons_ne_nil _ _

theorem isEntryName_of_mem_below (hproper : areProper entries = true) (h : names ∈ below entries) :
    ∀ name ∈ names, isEntryName name = true := by
  induction names generalizing entries with
  | nil => simp
  | cons first names ih =>
    rcases mem_below_iff.1 h with
      ⟨name, file, hmem, -, -, heq⟩ | ⟨name, inner, more, hmem, -, hmore, heq⟩
    · obtain ⟨rfl, rfl⟩ := List.cons.inj heq
      simpa using (lookup?_of_mem hproper hmem).1
    · obtain ⟨rfl, rfl⟩ := List.cons.inj heq
      obtain ⟨hname, hinner, -⟩ := lookup?_of_mem hproper hmem
      exact List.forall_mem_cons.2 ⟨hname, ih hinner hmore⟩

/-- The last name is that of a source file. -/
theorem exists_concat_of_mem_below (h : names ∈ below entries) :
    ∃ front last, names = front ++ [last] ∧ isSourceName last = true := by
  induction names generalizing entries with
  | nil => exact absurd rfl (ne_nil_of_mem_below h)
  | cons first names ih =>
    rcases mem_below_iff.1 h with
      ⟨name, file, -, -, hname, heq⟩ | ⟨name, inner, more, -, -, hmore, heq⟩
    · exact ⟨[], name, heq, hname⟩
    · obtain ⟨rfl, rfl⟩ := List.cons.inj heq
      obtain ⟨front, last, rfl, hlast⟩ := ih hmore
      exact ⟨first :: front, last, rfl, hlast⟩

/-- The names lead to a file, wherever the directory stands. -/
theorem exists_walk_of_mem_below (hproper : areProper entries = true) (h : names ∈ below entries) :
    ∃ file : FileTree, file.isFile = true ∧
      ∀ root links above, walk root links above entries names = .ok file := by
  induction names generalizing entries with
  | nil => exact absurd rfl (ne_nil_of_mem_below h)
  | cons first names ih =>
    rcases mem_below_iff.1 h with
      ⟨name, file, hmem, hfile, -, heq⟩ | ⟨name, inner, more, hmem, -, hmore, heq⟩
    · obtain ⟨rfl, rfl⟩ := List.cons.inj heq
      obtain ⟨hname, -, hlookup⟩ := lookup?_of_mem hproper hmem
      refine ⟨file, hfile, fun root links above => ?_⟩
      rw [walk_file (ne_here_of_isEntryName hname) (ne_parent_of_isEntryName hname) hlookup hfile]
      rfl
    · obtain ⟨rfl, rfl⟩ := List.cons.inj heq
      obtain ⟨hname, hinner, hlookup⟩ := lookup?_of_mem hproper hmem
      obtain ⟨file, hfile, hwalk⟩ := ih hinner hmore
      refine ⟨file, hfile, fun root links above => ?_⟩
      rw [walk_directory (ne_here_of_isEntryName hname) (ne_parent_of_isEntryName hname) hlookup,
        hwalk]

/-- What is found at an entry of a directory is not found again at a later one, when it begins with the
name of the entry. -/
theorem nodup_append_below {name : String} {entry : FileTree} {found : List (List String)}
    (hproper : areProper ((name, entry) :: entries) = true) (hfound : found.Nodup)
    (hhead : ∀ names ∈ found, ∃ more, names = name :: more) (hlater : (below entries).Nodup) :
    (found ++ below entries).Nodup := by
  rw [List.nodup_append]
  refine ⟨hfound, hlater, ?_⟩
  rintro names hnames _ hmem rfl
  -- No later entry has the name.
  obtain ⟨more, rfl⟩ := hhead names hnames
  obtain ⟨other, hother, _, heq⟩ := exists_cons_of_mem_below hmem
  exact (areProper_cons.1 hproper).2.1 other hother (List.cons.inj heq).1.symm

/-- No file is found twice below a directory. -/
theorem nodup_below (hproper : areProper entries = true) : (below entries).Nodup := by
  fun_induction below entries with
  | case1 => exact List.nodup_nil
  | case2 name inner entries ihinner ih =>
    obtain ⟨-, -, hinner, hmore⟩ := areProper_cons.1 hproper
    refine nodup_append_below hproper ?_ ?_ (ih hmore)
    · split
      · exact List.nodup_nil
      · -- The same name in front of different lists keeps them different.
        exact (ihinner hinner).map fun _ _ heq => (List.cons.inj heq).2
    · intro names hnames
      obtain ⟨-, more, -, rfl⟩ :
          isSkipped name = false ∧ ∃ more ∈ below inner, name :: more = names := by
        simpa using hnames
      exact ⟨more, rfl⟩
  | case3 name entry entries _ ih =>
    refine nodup_append_below hproper ?_ ?_ (ih (areProper_cons.1 hproper).2.2.2)
    · split <;> simp
    · intro names hnames
      exact ⟨[], (List.mem_ite_nil_right.1 hnames).2 |> List.mem_singleton.1⟩

/-! ## Finding files by their paths -/

variable {files : FileSystem} {target path : String} {paths : List String}

/-- A path below a directory is followed as the path of the directory is, and then along the
names. -/
theorem exists_resolve_pathBelow (hproper : areProper entries = true)
    (htarget : files.resolve target = .ok (.directory entries)) (h : names ∈ below entries) :
    ∃ file : FileTree, file.isFile = true ∧
      files.resolve (pathBelow target names) = .ok file := by
  have hnames := isEntryName_of_mem_below hproper h
  have hne := ne_nil_of_mem_below h
  obtain ⟨htargetNe, hwalk⟩ := FileSystem.walk_of_resolve htarget
  -- Both paths are followed from the same place.
  have habsolute : isAbsolute (pathBelow target names) = isAbsolute target := by
    rw [isAbsolute, isAbsolute, head?_toList_pathBelow htargetNe]
  obtain ⟨front, hfront⟩ : ∃ front, files.parts target = front ++ parts target ∧
      files.parts (pathBelow target names) = front ++ parts (pathBelow target names) := by
    simp only [FileSystem.parts, habsolute]
    split
    · exact ⟨[], rfl, rfl⟩
    · exact ⟨files.place, rfl, rfl⟩
  rw [hfront.1] at hwalk
  -- A slash at the end of the target is not in the way.
  have hbase : walk files.root linkLimit [] files.root (front ++ base target) =
      .ok (.directory entries) := by
    rw [base]
    split
    · next hslash =>
      obtain ⟨start, rfl⟩ := exists_append_slash (beq_iff_eq.1 hslash)
      rw [parts_append_slash_empty] at hwalk ⊢
      rw [List.dropLast_concat]
      exact walk_of_walk_concat_here (by rwa [List.append_assoc])
    · exact hwalk
  obtain ⟨links, above, hmore⟩ := exists_walk_append hbase
  obtain ⟨file, hfile, hfound⟩ := exists_walk_of_mem_below hproper h
  refine ⟨file, hfile, ?_⟩
  rw [FileSystem.resolve_of_ne (pathBelow_ne_empty htargetNe names), hfront.2,
    parts_pathBelow hne hnames, ← List.append_assoc, hmore, hfound]

/-- With the path of a file that is found for a target, the file is found, and nothing else. -/
theorem find_pathBelow (hproper : areProper entries = true)
    (htarget : files.resolve target = .ok (.directory entries)) (h : names ∈ below entries) :
    find files (pathBelow target names) = .ok [pathBelow target names] := by
  obtain ⟨file, hfile, hresolve⟩ := exists_resolve_pathBelow hproper htarget h
  obtain ⟨front, last, rfl, hlast⟩ := exists_concat_of_mem_below h
  have hname : fileName? (pathBelow target (front ++ [last])) = some last :=
    fileName?_pathBelow (isEntryName_of_mem_below hproper h)
  rw [find, hresolve]
  cases file with
  | file text => simp [hname, hlast]
  | closedFile cause => simp [hname, hlast]
  | _ => cases hfile

/-- A system of proper names leads to proper directories. -/
theorem areProper_of_resolve (hroot : areProper files.root = true)
    (h : files.resolve target = .ok (.directory entries)) : areProper entries = true :=
  FileSystem.isProper_of_resolve hroot h

/-- In a directory that can be listed, all is found that there is. -/
theorem find_of_isOpen (htarget : files.resolve target = .ok (.directory entries))
    (hopen : isOpen entries = true) :
    find files target = .ok ((sorted (below entries)).map (pathBelow target)) := by
  rw [find, htarget]
  dsimp only
  rw [search_of_isOpen hopen]
  rfl

/-- Files that are below a directory in the order of their paths are found in this order. -/
theorem find_of_pairwise {found : List (List String)}
    (htarget : files.resolve target = .ok (.directory entries)) (hopen : isOpen entries = true)
    (hbelow : below entries = found)
    (hordered : found.Pairwise fun names later => (Path.order names later).isLE = true) :
    find files target = .ok (found.map (pathBelow target)) := by
  rw [find_of_isOpen htarget hopen, hbelow, sorted, List.mergeSort_of_pairwise hordered]

variable (hroot : areProper files.root = true)
  (htarget : files.resolve target = .ok (.directory entries))
  (hfind : find files target = .ok paths)
include htarget hfind

/-- When anything is found in a directory, the directory can be listed. -/
theorem isOpen_of_find : isOpen entries = true := by
  rw [find, htarget] at hfind
  dsimp only at hfind
  cases hsearch : search target entries with
  | ok found => exact (search_eq_ok_iff.1 hsearch).1
  | error error =>
    rw [hsearch] at hfind
    cases hfind

theorem eq_of_find : paths = (sorted (below entries)).map (pathBelow target) := by
  have hopen := isOpen_of_find htarget hfind
  exact Except.ok.inj (hfind.symm.trans (find_of_isOpen htarget hopen))

theorem mem_of_find (h : path ∈ paths) : ∃ names ∈ below entries, path = pathBelow target names := by
  rw [eq_of_find htarget hfind] at h
  obtain ⟨names, hnames, rfl⟩ := List.mem_map.1 h
  exact ⟨names, List.mem_mergeSort.1 hnames, rfl⟩

include hroot

/-- With the path of a file that is found in a directory, the file is found, and nothing else. -/
theorem find_eq_singleton_of_mem (h : path ∈ paths) : find files path = .ok [path] := by
  obtain ⟨names, hnames, rfl⟩ := mem_of_find htarget hfind h
  exact find_pathBelow (areProper_of_resolve hroot htarget) htarget hnames

/-- The paths of the files that are found are different from one another. -/
theorem nodup_of_find : paths.Nodup := by
  have hproper := areProper_of_resolve hroot htarget
  rw [eq_of_find htarget hfind, sorted]
  apply List.Nodup.map_on
  · intro names hnames others hothers heq
    have hnames := List.mem_mergeSort.1 hnames
    have hothers := List.mem_mergeSort.1 hothers
    exact pathBelow_inj (ne_nil_of_mem_below hnames) (ne_nil_of_mem_below hothers)
      (isEntryName_of_mem_below hproper hnames) (isEntryName_of_mem_below hproper hothers) heq
  · exact (List.mergeSort_perm _ _).nodup_iff.2 (nodup_below hproper)

end Sources
end DocAudit
