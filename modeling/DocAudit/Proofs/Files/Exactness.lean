import DocAudit.Proofs.Files.Relisting
import DocAudit.Proofs.Finding.Order
import Mathlib.Data.List.Lex

/-!
# Which files are found below a directory

A file is found below a directory by what its path says about it, and by nothing else: its name has the
extension of C# files, and what stands on the way to it are directories, no links, that are neither
hidden nor hold build products. The paths ascend, and neither the name of the directory nor the order
in which directories list their entries makes a difference.

* `FileTree.entryAt?`: following names without following links;
* `Sources.IsSource`: what the names of a source file are like;
* `Sources.mem_below_iff_isSource`: the search finds these and no others;
* `Sources.exists_findsExactly`: what is found at a path that leads to a directory.
-/

namespace DocAudit

open DocAudit.Path Text

/-! ## Extensions -/

namespace Path

theorem extensionOf?_of_notMem {name : String} (h : '.' ∉ name.toList) :
    extensionOf? name = none := by
  rw [extensionOf?, splitAt_of_notMem (List.mem_reverse.not.2 h)]

/-- The extension is what stands behind the last dot, unless there is nothing in front of it. -/
theorem extensionOf?_append {stem extension : String} (h : '.' ∉ extension.toList) :
    extensionOf? (stem ++ "." ++ extension) = if stem = "" then none else some extension := by
  have hreverse : (stem ++ "." ++ extension).toList.reverse =
      extension.toList.reverse ++ '.' :: stem.toList.reverse := by
    simp
  rw [extensionOf?, hreverse, splitAt_append_cons (List.mem_reverse.not.2 h)]
  split_ifs with hstem
  · rw [hstem]
    rfl
  · have hjoin := joinWith_splitAt '.' stem.toList.reverse
    cases hpieces : splitAt '.' stem.toList.reverse with
    | nil => exact absurd hpieces (splitAt_ne_nil _ _)
    | cons piece pieces =>
      -- The stem is not a single piece without characters.
      match piece, pieces with
      | [], [] =>
        rw [hpieces] at hjoin
        exact absurd (String.toList_eq_nil_iff.1 (List.reverse_eq_nil_iff.1 hjoin.symm)) hstem
      | [], _ :: _ | _ :: _, _ => simp

/-- A text with a dot is parted by the last one. -/
theorem exists_append_dot {name : String} (h : '.' ∈ name.toList) :
    ∃ stem extension, '.' ∉ extension.toList ∧ name = stem ++ "." ++ extension := by
  -- The last dot of the name is the first one of the reversed name.
  obtain ⟨back, front, heq, hback⟩ := List.eq_append_cons_of_mem (List.mem_reverse.2 h)
  refine ⟨String.ofList front.reverse, String.ofList back.reverse, by simpa using hback, ?_⟩
  rw [← String.toList_inj, ← List.reverse_reverse name.toList, heq]
  simp

/-- A letter in lower case is the letter itself, or stands 32 places behind it. -/
theorem eq_or_toNat_add_eq_of_toLower {c d : Char} (h : c.toLower = d) :
    c = d ∨ c.toNat + 32 = d.toNat := by
  unfold Char.toLower at h
  split at h
  · next hupper =>
    -- The number of a capital letter is far below the one at which the sum would wrap.
    have hle : c.val.toNat ≤ 90 := UInt32.le_iff_toNat_le.1 hupper.2
    have hlt : c.val.toNat + 32 < 2 ^ 32 := by omega
    rw [← h]
    exact Or.inr (Eq.symm ((UInt32.toNat_add _ _).trans (Nat.mod_eq_of_lt hlt)))
  · exact Or.inl h

/-- The texts that are "cs" in lower case. -/
theorem lowercase_eq_cs_iff {text : String} :
    lowercase text = "cs" ↔ text ∈ ["cs", "cS", "Cs", "CS"] := by
  constructor
  · intro h
    have hlist : text.toList.map Char.toLower = ['c', 's'] := by
      simpa [lowercase] using congrArg String.toList h
    obtain ⟨c, more, htext, hc, hmore⟩ := List.map_eq_cons_iff.1 hlist
    obtain ⟨s, rest, rfl, hs, hrest⟩ := List.map_eq_cons_iff.1 hmore
    obtain rfl := List.map_eq_nil_iff.1 hrest
    -- There are two letters, and each can stand in either case.
    have hc : c = 'c' ∨ c = 'C' := (eq_or_toNat_add_eq_of_toLower hc).imp id fun h =>
      Char.toNat_inj.1 (Nat.add_right_cancel h)
    have hs : s = 's' ∨ s = 'S' := (eq_or_toNat_add_eq_of_toLower hs).imp id fun h =>
      Char.toNat_inj.1 (Nat.add_right_cancel h)
    rw [← String.ofList_toList (s := text), htext]
    rcases hc with rfl | rfl <;> rcases hs with rfl | rfl <;> decide
  · exact (by decide : ∀ text ∈ ["cs", "cS", "Cs", "CS"], lowercase text = "cs") text

/-! ## The order of paths -/

/-- A path comes before another one: its first part that differs comes first in the order of bytes, or
the other path goes on where it ends. -/
def Precedes (path later : String) : Prop :=
  List.Lex (fun part other => bytes part.toList < bytes other.toList) (parts path) (parts later)

theorem order_eq_compareLex : order = List.compareLex compare := by
  funext names others
  induction names generalizing others with
  | nil => cases others <;> rfl
  | cons name names ih =>
    cases others with
    | nil => rfl
    | cons other others => rw [order, ih, List.compareLex_cons_cons]

instance : Std.TransCmp order :=
  order_eq_compareLex ▸ inferInstanceAs (Std.TransCmp (List.compareLex compare))

instance : Std.LawfulEqCmp order :=
  order_eq_compareLex ▸ inferInstanceAs (Std.LawfulEqCmp (List.compareLex compare))

theorem lex_of_order {names others : List String} (h : order names others = .lt) :
    List.Lex (fun part other => bytes part.toList < bytes other.toList) names others := by
  induction names generalizing others with
  | nil =>
    cases others with
    | nil => cases h
    | cons => exact .nil
  | cons name names ih =>
    cases others with
    | nil => cases h
    | cons other others =>
      rw [order, Ordering.then_eq_lt] at h
      rcases h with hlt | ⟨heq, hlt⟩
      · exact .rel (Finding.bytes_lt_of_compare hlt)
      · rw [Std.LawfulEqCmp.eq_of_compare heq]
        exact .cons (ih hlt)

end Path

/-! ## Following names -/

namespace FileTree

/-- What names lead to from a directory, each name looked up in the directory that the names in front
of it lead to. A link is not followed, and no name stands for a directory itself or the one above. -/
def entryAt? (entries : Directory) : List String → Option FileTree
  | [] => some (.directory entries)
  | name :: names =>
    match lookup? entries name with
    | some (.directory inner) => entryAt? inner names
    | entry => if names.isEmpty then entry else none

variable {entries inner : Directory} {name : String} {names : List String} {entry : FileTree}

theorem lookup?_eq_some_iff (hproper : areProper entries = true) :
    lookup? entries name = some entry ↔ (name, entry) ∈ entries :=
  ⟨mem_of_lookup?, fun h => (lookup?_of_mem hproper h).2.2⟩

theorem entryAt?_singleton : entryAt? entries [name] = lookup? entries name := by
  rw [entryAt?]
  split
  · next inner hlookup => rw [entryAt?, hlookup]
  · rfl

theorem entryAt?_cons (h : lookup? entries name = some (.directory inner)) (names : List String) :
    entryAt? entries (name :: names) = entryAt? inner names := by
  rw [entryAt?, h]

/-- Names that lead somewhere in a proper tree are names of entries. -/
theorem isEntryName_of_entryAt? (hproper : areProper entries = true)
    (h : entryAt? entries names = some entry) : ∀ name ∈ names, isEntryName name = true := by
  have hname {entries : Directory} {name : String} {entry : FileTree}
      (hproper : areProper entries = true) (h : lookup? entries name = some entry) :
      isEntryName name = true :=
    (lookup?_of_mem hproper (mem_of_lookup? h)).1
  fun_induction entryAt? entries names with
  | case1 => simp
  | case2 entries name names inner hlookup ih =>
    exact List.forall_mem_cons.2
      ⟨hname hproper hlookup, ih (isProper_of_lookup? hproper hlookup) h⟩
  | case3 entries name names hend hlookup =>
    obtain rfl := List.isEmpty_iff.1 hend
    simpa using hname hproper h
  | case4 => cases h

end FileTree

/-! ## Source files by their names -/

namespace Sources

open FileTree

variable {entries inner : Directory} {name : String} {names : List String}

/-- The names of source files: something, a dot and "cs" in whatever case. -/
theorem isSourceName_iff :
    isSourceName name = true ↔ ∃ stem extension, stem ≠ "" ∧
      extension ∈ ["cs", "cS", "Cs", "CS"] ∧ name = stem ++ "." ++ extension := by
  have hdot : ∀ extension ∈ ["cs", "cS", "Cs", "CS"], '.' ∉ extension.toList := by decide
  constructor
  · intro h
    by_cases hname : '.' ∈ name.toList
    · obtain ⟨stem, extension, hlast, rfl⟩ := exists_append_dot hname
      rw [isSourceName, extensionOf?_append hlast] at h
      split_ifs at h with hstem
      · cases h
      · rw [Option.any_some, beq_iff_eq] at h
        exact ⟨stem, extension, hstem, lowercase_eq_cs_iff.1 h, rfl⟩
    · rw [isSourceName, extensionOf?_of_notMem hname] at h
      cases h
  · rintro ⟨stem, extension, hstem, hextension, rfl⟩
    rw [isSourceName, extensionOf?_append (hdot extension hextension), if_neg hstem,
      Option.any_some, beq_iff_eq]
    exact lowercase_eq_cs_iff.2 hextension

theorem singleton_mem_below_iff :
    [name] ∈ below entries ↔
      (∃ file : FileTree, file.isFile = true ∧ (name, file) ∈ entries) ∧
        isSourceName name = true := by
  rw [mem_below_iff]
  constructor
  · rintro (⟨first, file, hmem, hfile, hname, heq⟩ | ⟨first, inner, more, -, -, hmore, heq⟩)
    · obtain ⟨rfl, -⟩ := List.cons.inj heq
      exact ⟨⟨file, hfile, hmem⟩, hname⟩
    · obtain ⟨-, rfl⟩ := List.cons.inj heq
      exact absurd rfl (ne_nil_of_mem_below hmore)
  · rintro ⟨⟨file, hfile, hmem⟩, hname⟩
    exact Or.inl ⟨name, file, hmem, hfile, hname, rfl⟩

theorem cons_mem_below_iff (hnames : names ≠ []) :
    name :: names ∈ below entries ↔
      ∃ inner, (name, FileTree.directory inner) ∈ entries ∧ isSkipped name = false ∧
        names ∈ below inner := by
  rw [mem_below_iff]
  constructor
  · rintro (⟨first, file, -, -, -, heq⟩ | ⟨first, inner, more, hmem, hname, hmore, heq⟩)
    · exact absurd (List.cons.inj heq).2 hnames
    · obtain ⟨rfl, rfl⟩ := List.cons.inj heq
      exact ⟨inner, hmem, hname, hmore⟩
  · rintro ⟨inner, hmem, hname, hmore⟩
    exact Or.inr ⟨name, inner, names, hmem, hname, hmore, rfl⟩

/-- The names of directories that are searched. -/
theorem isSkipped_eq_false_iff :
    isSkipped name = false ↔ name.toList.head? ≠ some '.' ∧ name ≠ "bin" ∧ name ≠ "obj" := by
  simp [isSkipped, skippedDirectories]

/-- What the names that lead from a directory to a source file are like. -/
structure IsSource (entries : Directory) (names : List String) : Prop where
  /-- They lead to a file, whether or not it can be read. -/
  file : ∃ file : FileTree, file.isFile = true ∧ entryAt? entries names = some file
  /-- The last of them has the extension of C# files, in whatever case. -/
  extension : ∃ front stem extension, stem ≠ "" ∧ extension ∈ ["cs", "cS", "Cs", "CS"] ∧
    names = front ++ [stem ++ "." ++ extension]
  /-- What stands on the way is a directory, neither hidden nor one of build products. -/
  kept : ∀ front name back, names = front ++ name :: back → back ≠ [] →
    (∃ inner, entryAt? entries (front ++ [name]) = some (.directory inner)) ∧
      name.toList.head? ≠ some '.' ∧ name ≠ "bin" ∧ name ≠ "obj"

theorem not_isSource_nil : ¬IsSource entries [] := by
  rintro ⟨⟨file, hfile, hentry⟩, -, -⟩
  obtain rfl := Option.some.inj hentry
  cases hfile

/-- A single name leads to a source file by what it is itself. -/
theorem isSource_singleton :
    IsSource entries [name] ↔
      (∃ file : FileTree, file.isFile = true ∧ lookup? entries name = some file) ∧
        isSourceName name = true := by
  rw [isSourceName_iff]
  constructor
  · rintro ⟨⟨file, hfile, hentry⟩, ⟨front, stem, extension, hstem, hextension, heq⟩, -⟩
    obtain ⟨-, hname⟩ := List.append_singleton_inj.1 (show [] ++ [name] = _ from heq)
    rw [entryAt?_singleton] at hentry
    exact ⟨⟨file, hfile, hentry⟩, stem, extension, hstem, hextension, hname⟩
  · rintro ⟨⟨file, hfile, hentry⟩, stem, extension, hstem, hextension, rfl⟩
    refine ⟨⟨file, hfile, by rwa [entryAt?_singleton]⟩,
      ⟨[], stem, extension, hstem, hextension, rfl⟩, ?_⟩
    rintro front name back heq hback
    cases front <;> simp_all

/-- Further names lead to a source file from the directory that the first one leads to. -/
theorem isSource_cons (hnames : names ≠ []) :
    IsSource entries (name :: names) ↔
      ∃ inner, lookup? entries name = some (.directory inner) ∧ isSkipped name = false ∧
        IsSource inner names := by
  rw [isSkipped_eq_false_iff]
  constructor
  · rintro ⟨⟨file, hfile, hentry⟩, ⟨front, stem, extension, hstem, hextension, heq⟩, hkept⟩
    obtain ⟨⟨inner, hinner⟩, hname⟩ := hkept [] name names rfl hnames
    rw [List.nil_append, entryAt?_singleton] at hinner
    rw [entryAt?_cons hinner] at hentry
    refine ⟨inner, hinner, hname, ⟨file, hfile, hentry⟩, ?_, ?_⟩
    · cases front with
      | nil => exact absurd (List.cons.inj heq).2 hnames
      | cons first front => exact ⟨front, stem, extension, hstem, hextension, (List.cons.inj heq).2⟩
    · rintro front other back rfl hback
      obtain ⟨⟨found, hfound⟩, hother⟩ := hkept (name :: front) other back rfl hback
      rw [List.cons_append, entryAt?_cons hinner] at hfound
      exact ⟨⟨found, hfound⟩, hother⟩
  · rintro ⟨inner, hinner, hname, ⟨file, hfile, hentry⟩,
      ⟨front, stem, extension, hstem, hextension, rfl⟩, hkept⟩
    refine ⟨⟨file, hfile, by rwa [entryAt?_cons hinner]⟩,
      ⟨name :: front, stem, extension, hstem, hextension, rfl⟩, ?_⟩
    rintro front other back heq hback
    cases front with
    | nil =>
      obtain ⟨rfl, rfl⟩ := List.cons.inj heq
      exact ⟨⟨inner, by rwa [List.nil_append, entryAt?_singleton]⟩, hname⟩
    | cons first front =>
      obtain ⟨rfl, hmore⟩ := List.cons.inj heq
      rw [List.cons_append, entryAt?_cons hinner]
      exact hkept front other back hmore hback

/-- What is found below a directory are the source files, and no others. -/
theorem mem_below_iff_isSource (hproper : areProper entries = true) :
    names ∈ below entries ↔ IsSource entries names := by
  induction names generalizing entries with
  | nil => exact iff_of_false (fun h => ne_nil_of_mem_below h rfl) not_isSource_nil
  | cons name names ih =>
    -- The last name is that of the file, and any other one is that of a directory.
    rcases eq_or_ne names [] with rfl | hnames
    · simp only [isSource_singleton, singleton_mem_below_iff, lookup?_eq_some_iff hproper]
    · simp only [isSource_cons hnames, cons_mem_below_iff hnames, lookup?_eq_some_iff hproper]
      refine exists_congr fun inner => and_congr_right fun hmem => and_congr_right fun _ => ?_
      exact ih (lookup?_of_mem hproper hmem).2.1

/-- Neither a link nor anything that it leads to is a source file. -/
theorem not_isSource_of_link {link : String} (h : entryAt? entries names = some (.link link))
    (more : List String) : ¬IsSource entries (names ++ more) := by
  rintro ⟨⟨file, hfile, hentry⟩, -, hkept⟩
  cases more with
  | nil =>
    rw [List.append_nil, h] at hentry
    obtain rfl := Option.some.inj hentry
    cases hfile
  | cons next more =>
    -- The link would have to be one of the directories on the way.
    rcases List.eq_nil_or_concat' names with rfl | ⟨front, name, rfl⟩
    · cases h
    · obtain ⟨⟨inner, hinner⟩, -⟩ := hkept front name (next :: more) (by simp) (by simp)
      rw [h] at hinner
      cases hinner

/-! ## The paths that are found -/

theorem pairwise_isLE_sorted (places : List (List String)) :
    (sorted places).Pairwise fun names later => (Path.order names later).isLE = true :=
  List.pairwise_mergeSort (fun _ _ _ => Std.TransCmp.isLE_trans) (isLE_total Path.order) places

/-- The order of the places that are found does not depend on the order in which they are come
across. -/
theorem sorted_eq_of_perm {places others : List (List String)} (h : places.Perm others) :
    sorted places = sorted others := by
  apply List.Perm.eq_of_pairwise _ (pairwise_isLE_sorted places) (pairwise_isLE_sorted others)
  · exact ((List.mergeSort_perm places _).trans h).trans (List.mergeSort_perm others _).symm
  · intro names later _ _ hle hge
    exact Std.LawfulEqCmp.eq_of_compare (Std.OrientedCmp.isLE_antisymm hle hge)

/-- The places that are found ascend, and none is found twice. -/
theorem pairwise_lt_sorted_below (hproper : areProper entries = true) :
    (sorted (below entries)).Pairwise fun names later => Path.order names later = .lt := by
  have hnodup : (sorted (below entries)).Nodup :=
    (List.mergeSort_perm _ _).nodup_iff.2 (nodup_below hproper)
  -- The order tells any two lists of names apart, so none is at the same place as another.
  refine ((pairwise_isLE_sorted _).and hnodup).imp fun ⟨hle, hne⟩ => ?_
  rcases Ordering.isLE_iff_eq_lt_or_eq_eq.1 hle with hlt | heq
  · exact hlt
  · exact absurd (Std.LawfulEqCmp.eq_of_compare heq) hne

/-- Places in the order of their names give paths in the order of their parts. -/
theorem precedes_pathBelow {others : List String} (target : String)
    (hproper : areProper entries = true) (hnames : names ∈ below entries)
    (hothers : others ∈ below entries) (h : Path.order names others = .lt) :
    Precedes (pathBelow target names) (pathBelow target others) := by
  have hparts {names : List String} (h : names ∈ below entries) :
      parts (pathBelow target names) = base target ++ names :=
    parts_pathBelow (ne_nil_of_mem_below h) (isEntryName_of_mem_below hproper h)
  -- Both paths begin with the parts of the directory.
  rw [Precedes, hparts hnames, hparts hothers]
  exact (lex_of_order h).append_left _ _

/-- The path of a link, and any path that leads through one, is that of no source file. -/
theorem pathBelow_ne_of_link {link : String} {more others : List String} (target : String)
    (hproper : areProper entries = true) (hlink : entryAt? entries names = some (.link link))
    (hmore : ∀ name ∈ more, isEntryName name = true) (hothers : IsSource entries others) :
    pathBelow target (names ++ more) ≠ pathBelow target others := by
  intro heq
  have hnames : ∀ name ∈ names ++ more, isEntryName name = true :=
    List.forall_mem_append.2 ⟨isEntryName_of_entryAt? hproper hlink, hmore⟩
  have hmember := (mem_below_iff_isSource hproper).2 hothers
  have hne : names ++ more ≠ [] := by
    intro h
    rw [(List.append_eq_nil_iff.1 h).1] at hlink
    cases hlink
  -- A path belongs to a single list of names.
  obtain rfl := pathBelow_inj hne (ne_nil_of_mem_below hmember) hnames
    (isEntryName_of_mem_below hproper hmember) heq
  exact not_isSource_of_link hlink more hothers

/-- What is found at a path that leads to a directory. -/
structure FindsExactly (files : FileSystem) (target : String) (entries : Directory)
    (paths : List String) : Prop where
  /-- The paths are those of the source files below the directory, and no others. -/
  mem_iff : ∀ path, path ∈ paths ↔ ∃ names, IsSource entries names ∧ path = pathBelow target names
  /-- They ascend. -/
  ascending : paths.Pairwise Precedes
  /-- None is there twice. -/
  nodup : paths.Nodup
  /-- None is the path of a link below the directory, and none leads through one. -/
  unlinked : ∀ names link more, entryAt? entries names = some (.link link) →
    (∀ name ∈ more, isEntryName name = true) → pathBelow target (names ++ more) ∉ paths
  /-- They are found when directories list their entries in another order, too. -/
  relisted : ∀ root, Relisted files.root root → find { files with root } target = .ok paths

variable {files : FileSystem} {target : String}

/-- At every path that leads to a directory, the source files below it are found exactly, if the system
lists what is searched. It does where there are only files, directories that are not closed, and
links. -/
theorem exists_findsExactly (hroot : areProper files.root = true)
    (htarget : files.resolve target = .ok (.directory entries)) (hopen : isOpen entries = true) :
    ∃ paths, find files target = .ok paths ∧ FindsExactly files target entries paths := by
  have hproper := areProper_of_resolve hroot htarget
  have hfind := find_of_isOpen htarget hopen
  have hmem (path : String) : path ∈ (sorted (below entries)).map (pathBelow target) ↔
      ∃ names, IsSource entries names ∧ path = pathBelow target names := by
    simp only [List.mem_map, sorted, List.mem_mergeSort, mem_below_iff_isSource hproper,
      eq_comm (a := path)]
  refine ⟨_, hfind, hmem, ?ascending, nodup_of_find hroot htarget hfind, ?unlinked, ?relisted⟩
  case ascending =>
    rw [List.pairwise_map]
    refine (pairwise_lt_sorted_below hproper).imp_of_mem fun hnames hothers h => ?_
    exact precedes_pathBelow target hproper (List.mem_mergeSort.1 hnames)
      (List.mem_mergeSort.1 hothers) h
  case unlinked =>
    intro names link more hlink hmore hpath
    obtain ⟨others, hothers, heq⟩ := (hmem _).1 hpath
    exact pathBelow_ne_of_link target hproper hlink hmore hothers heq
  case relisted =>
    intro root h
    -- The other listing finds the same files in another order, and sorting takes that back.
    obtain ⟨listed, hlisted, hrelisted⟩ := h.exists_resolve hroot htarget
    rw [find_of_isOpen hlisted (hrelisted.isOpen_eq ▸ hopen),
      sorted_eq_of_perm hrelisted.below_perm]

/-- A hidden directory named as the target is searched, and hidden ones below it are not. -/
theorem exists_findsExactly_hidden :
    let entries := [("b.CS", file (some "")), ("a", directory [("c.cs", file none)]),
      (".a", directory [("c.cs", file none)]), ("obj", closedDirectory .permissionDenied),
      ("e.cs", link "b.CS"), ("f", link "/work/.git"), (".cs", file none)]
    let files : FileSystem := directory [(".git", directory [("bin", directory entries)])]
    areProper files.root = true ∧ files.resolve ".git/bin" = .ok (directory entries) ∧
      isOpen entries = true ∧
      find files ".git/bin" = .ok [".git/bin/a/c.cs", ".git/bin/b.CS"] ∧
      FindsExactly files ".git/bin" entries [".git/bin/a/c.cs", ".git/bin/b.CS"] := by
  intro entries files
  have hroot : areProper files.root = true := by decide +kernel
  have htarget : files.resolve ".git/bin" = .ok (directory entries) := by
    rw [FileSystem.resolve_around (by decide) (by decide),
      show parts ".git/bin" = [".git", "bin"] by decide +kernel,
      walk_directory (by decide) (by decide) rfl, walk_directory (by decide) (by decide) rfl,
      walk_nil]
  have hopen : isOpen entries = true := by
    simp [entries, isOpen, show isSkipped "obj" = true by decide +kernel]
  have hbelow : below entries = [["b.CS"], ["a", "c.cs"]] := by
    simp [entries, below, isFile, show isSourceName "b.CS" = true by decide +kernel,
      show isSourceName "c.cs" = true by decide +kernel,
      show isSourceName ".cs" = false by decide +kernel,
      show isSkipped "a" = false by decide +kernel, show isSkipped ".a" = true by decide +kernel]
  have hsorted : sorted [["b.CS"], ["a", "c.cs"]] = [["a", "c.cs"], ["b.CS"]] := by
    rw [sorted_eq_of_perm (.swap ["a", "c.cs"] ["b.CS"] []), sorted,
      List.mergeSort_of_pairwise (by decide +kernel)]
  have hpaths : [["a", "c.cs"], ["b.CS"]].map (pathBelow ".git/bin") =
      [".git/bin/a/c.cs", ".git/bin/b.CS"] := by decide +kernel
  have hfind : find files ".git/bin" = .ok [".git/bin/a/c.cs", ".git/bin/b.CS"] := by
    rw [find_of_isOpen htarget hopen, hbelow, hsorted, hpaths]
  obtain ⟨paths, hother, hexact⟩ := exists_findsExactly hroot htarget hopen
  obtain rfl := Except.ok.inj (hfind.symm.trans hother)
  exact ⟨hroot, htarget, hopen, hfind, hexact⟩

end Sources
end DocAudit
