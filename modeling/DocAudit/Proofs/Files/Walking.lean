import DocAudit.Proofs.Files.Paths

/-!
# Following paths

A path is followed one part at a time. Where it ends in a directory, it can go on from there, and the
names of a proper tree lead to proper trees. What a path leads to does not depend on what is written
behind its end to stay in place.

* `FileTree.areProper`: the names in a tree of files;
* `FileTree.walk_directory`, `FileTree.walk_link` and so on: one part of a path;
* `FileTree.exists_walk_append`: following a path that goes on behind a directory;
* `FileSystem.resolve_around`: following a path in a system that holds one directory.
-/

namespace DocAudit

open DocAudit.Path

/-! ## Following paths -/

namespace FileTree

mutual

/-- Every directory at or below an entry has proper names. -/
def isProper : FileTree → Bool
  | .directory entries => areProper entries
  | _ => true

/-- The names of the entries are names that entries may have, each of them once; and so in the
directories below. -/
def areProper : List (String × FileTree) → Bool
  | [] => true
  | (name, entry) :: entries =>
    isEntryName name && entries.all (·.1 != name) && isProper entry && areProper entries

end

variable {entries inner : Directory} {name : String} {entry : FileTree}

theorem areProper_cons :
    areProper ((name, entry) :: entries) = true ↔
      isEntryName name = true ∧ (∀ other ∈ entries, other.1 ≠ name) ∧ entry.isProper = true ∧
        areProper entries = true := by
  simp [areProper, and_assoc]

/-- An entry of a proper directory has a proper name, and is what its name leads to. -/
theorem lookup?_of_mem (hproper : areProper entries = true) (h : (name, entry) ∈ entries) :
    isEntryName name = true ∧ entry.isProper = true ∧ lookup? entries name = some entry := by
  induction entries with
  | nil => cases h
  | cons first entries ih =>
    obtain ⟨hname, hdistinct, hentry, hmore⟩ := areProper_cons.1 hproper
    rcases List.mem_cons.1 h with rfl | h
    · refine ⟨hname, hentry, ?_⟩
      simp [lookup?]
    · obtain ⟨hname, hentry, hlookup⟩ := ih hmore h
      refine ⟨hname, hentry, ?_⟩
      -- The first entry has another name.
      have hne : (first.1 == name) = false := by simpa using (hdistinct _ h).symm
      rw [← hlookup, lookup?, lookup?, List.find?_cons, hne]

/-- What a name leads to is an entry of that name. -/
theorem mem_of_lookup? (h : lookup? entries name = some entry) : (name, entry) ∈ entries := by
  obtain ⟨⟨found, tree⟩, hfind, rfl⟩ := Option.map_eq_some_iff.1 h
  obtain rfl : found = name := by simpa using List.find?_some hfind
  exact List.mem_of_find?_eq_some hfind

theorem isProper_of_lookup? (hproper : areProper entries = true)
    (h : lookup? entries name = some entry) : entry.isProper = true :=
  (lookup?_of_mem hproper (mem_of_lookup? h)).2.1

/-- The entry is a file, be it one that cannot be read. -/
def isFile : FileTree → Bool
  | file _ | closedFile _ => true
  | _ => false

/-! ### One part of a path -/

section Steps

variable {root : Directory} {links : Nat} {above : List Directory} {part : String}
  (parts : List String)

@[simp]
theorem walk_nil : walk root links above entries [] = .ok (.directory entries) := by
  rw [walk]

theorem walk_here :
    walk root links above entries (here :: parts) = walk root links above entries parts := by
  rw [walk.eq_def]
  simp

theorem walk_parent_top :
    walk root links [] entries (parent :: parts) = walk root links [] entries parts := by
  rw [walk.eq_def]
  simp [parent, here]

theorem walk_parent (outer : Directory) :
    walk root links (outer :: above) entries (parent :: parts) =
      walk root links above outer parts := by
  rw [walk.eq_def]
  simp [parent, here]

variable {parts} (hhere : part ≠ here) (hparent : part ≠ parent)
include hhere hparent

theorem walk_directory (h : lookup? entries part = some (.directory inner)) :
    walk root links above entries (part :: parts) =
      walk root links (entries :: above) inner parts := by
  rw [walk.eq_def]
  simp [hhere, hparent, h]

/-- What is no open directory and no link ends a path. -/
theorem walk_stop (h : lookup? entries part = some entry)
    (hdirectory : ∀ inner, entry ≠ .directory inner) (hlink : ∀ target, entry ≠ .link target)
    (huntold : ∀ cause, entry ≠ .untold cause) :
    walk root links above entries (part :: parts) =
      if parts.isEmpty then .ok entry else .error entry.barrier := by
  rw [walk.eq_def]
  cases entry with
  | directory inner => exact absurd rfl (hdirectory inner)
  | link target => exact absurd rfl (hlink target)
  | untold cause => exact absurd rfl (huntold cause)
  | _ => simp only [hhere, hparent, h, if_false]

theorem walk_file (h : lookup? entries part = some entry) (hfile : entry.isFile = true) :
    walk root links above entries (part :: parts) =
      if parts.isEmpty then .ok entry else .error entry.barrier :=
  walk_stop hhere hparent h (by rintro inner rfl; cases hfile) (by rintro target rfl; cases hfile)
    (by rintro cause rfl; cases hfile)

section Link

variable {target : String} (h : lookup? entries part = some (.link target))
  (htarget : ¬target.isEmpty = true)
include h htarget

theorem walk_link (hrelative : ¬isAbsolute target = true) :
    walk root (links + 1) above entries (part :: parts) =
      walk root links above entries (Path.parts target ++ parts) := by
  rw [walk.eq_def]
  simp only [hhere, hparent, h, if_false]
  rw [if_neg htarget, if_neg hrelative]

theorem walk_absoluteLink (habsolute : isAbsolute target = true) :
    walk root (links + 1) above entries (part :: parts) =
      walk root links [] root (Path.parts target ++ parts) := by
  rw [walk.eq_def]
  simp only [hhere, hparent, h, if_false]
  rw [if_neg htarget, if_pos habsolute]

end Link

end Steps

/-! ### Whole paths -/

/-- What a path leads to in a proper tree is proper. -/
theorem isProper_of_walk {root : Directory} {links : Nat} {above : List Directory}
    {parts : List String} {found : FileTree} (hroot : areProper root = true)
    (habove : ∀ outer ∈ above, areProper outer = true) (hproper : areProper entries = true)
    (h : walk root links above entries parts = .ok found) : found.isProper = true := by
  fun_induction walk root links above entries parts with
  | case1 links above entries =>
    cases h
    exact hproper
  | case2 links above entries parts ih => exact ih habove hproper h
  | case3 links entries parts hhere ih => exact ih (by simp) hproper h
  | case4 links entries parts hhere outer above ih =>
    obtain ⟨houter, habove⟩ := List.forall_mem_cons.1 habove
    exact ih habove houter h
  | case6 links above entries part parts hhere hparent inner hlookup ih =>
    have hinner := isProper_of_lookup? hproper hlookup
    exact ih (List.forall_mem_cons.2 ⟨hproper, habove⟩) hinner h
  | case9 above entries part parts hhere hparent target hlookup links htarget habsolute ih =>
    exact ih (by simp) hroot h
  | case10 above entries part parts hhere hparent target hlookup links htarget hrelative ih =>
    exact ih habove hproper h
  | case12 links above entries part parts hhere hparent entry hdirectory =>
    obtain rfl := Except.ok.inj h
    cases entry with
    | directory inner => exact absurd rfl (hdirectory inner)
    | _ => rfl
  -- Elsewhere the path leads nowhere.
  | _ => cases h

variable {root : Directory}

/-- A path that goes on behind a directory is followed from there, with the links that are left. -/
theorem exists_walk_append {links : Nat} {above : List Directory} {parts : List String}
    (h : walk root links above entries parts = .ok (.directory inner)) :
    ∃ links' above', ∀ more,
      walk root links above entries (parts ++ more) = walk root links' above' inner more := by
  fun_induction walk root links above entries parts with
  | case1 links above entries =>
    cases h
    exact ⟨links, above, fun more => rfl⟩
  | case2 links above entries parts ih =>
    simpa only [List.cons_append, walk_here] using ih h
  | case3 links entries parts hhere ih =>
    simpa only [List.cons_append, walk_parent_top] using ih h
  | case4 links entries parts outer above hhere ih =>
    simpa only [List.cons_append, walk_parent] using ih h
  | case6 links above entries part parts hhere hparent directory hlookup ih =>
    simpa only [List.cons_append, walk_directory hhere hparent hlookup] using ih h
  | case9 above entries part parts hhere hparent target hlookup links htarget habsolute ih =>
    simpa only [List.cons_append, Nat.succ_eq_add_one,
      walk_absoluteLink hhere hparent hlookup htarget habsolute, List.append_assoc] using ih h
  | case10 above entries part parts hhere hparent target hlookup links htarget hrelative ih =>
    simpa only [List.cons_append, Nat.succ_eq_add_one,
      walk_link hhere hparent hlookup htarget hrelative, List.append_assoc] using ih h
  | case12 links above entries part parts hhere hparent entry hdirectory =>
    exact absurd (Except.ok.inj h) (hdirectory inner)
  | _ => cases h

/-- Staying in place at the end of a path changes nothing. -/
theorem walk_of_walk_concat_here {links : Nat} {above : List Directory} {parts : List String}
    {found : FileTree} (h : walk root links above entries (parts ++ [here]) = .ok found) :
    walk root links above entries parts = .ok found := by
  fun_induction walk root links above entries parts with
  | case1 links above entries =>
    rwa [List.nil_append, walk_here, walk_nil] at h
  | case2 links above entries parts ih =>
    rw [List.cons_append, walk_here] at h
    exact ih h
  | case3 links entries parts hhere ih =>
    rw [List.cons_append, walk_parent_top] at h
    exact ih h
  | case4 links entries parts outer above hhere ih =>
    rw [List.cons_append, walk_parent] at h
    exact ih h
  | case6 links above entries part parts hhere hparent directory hlookup ih =>
    rw [List.cons_append, walk_directory hhere hparent hlookup] at h
    exact ih h
  | case9 above entries part parts hhere hparent target hlookup links htarget habsolute ih =>
    rw [List.cons_append, Nat.succ_eq_add_one,
      walk_absoluteLink hhere hparent hlookup htarget habsolute, ← List.append_assoc] at h
    exact ih h
  | case10 above entries part parts hhere hparent target hlookup links htarget hrelative ih =>
    rw [List.cons_append, Nat.succ_eq_add_one, walk_link hhere hparent hlookup htarget hrelative,
      ← List.append_assoc] at h
    exact ih h
  | case12 links above entries part parts hhere hparent entry hdirectory hlink huntold hlookup
  | case13 links above entries part parts hhere hparent entry hdirectory hlink huntold hlookup =>
    -- Nothing stays in place behind a file.
    rw [List.cons_append, walk_stop hhere hparent hlookup hdirectory hlink huntold] at h
    simp at h
  -- Elsewhere the longer path leads nowhere.
  | _ =>
    rw [List.cons_append, walk.eq_def] at h
    simp_all

end FileTree

/-! ## Systems -/

namespace FileSystem

open FileTree

variable {files : FileSystem} {path : String} {found : FileTree}

/-- A path that leads somewhere is not empty, and its parts are followed from the root. -/
theorem walk_of_resolve (h : files.resolve path = .ok found) :
    path ≠ "" ∧ walk files.root linkLimit [] files.root (files.parts path) = .ok found := by
  rw [resolve] at h
  split at h
  · cases h
  · next hne => exact ⟨mt String.isEmpty_iff.2 hne, h⟩

theorem resolve_of_ne (h : path ≠ "") :
    files.resolve path = walk files.root linkLimit [] files.root (files.parts path) := by
  rw [resolve, if_neg (mt String.isEmpty_iff.1 h)]

/-- A system of proper names leads to proper trees. -/
theorem isProper_of_resolve (hroot : areProper files.root = true)
    (h : files.resolve path = .ok found) : found.isProper = true :=
  isProper_of_walk hroot (by simp) hroot (walk_of_resolve h).2

/-- In a system that holds one directory, a path that is not absolute is followed from there. -/
theorem resolve_around {entries : Directory} (hne : path ≠ "") (h : ¬isAbsolute path = true) :
    (around (.directory entries)).resolve path =
      walk [(workName, .directory entries)] linkLimit [[(workName, .directory entries)]] entries
        (Path.parts path) := by
  rw [resolve_of_ne hne, parts, if_neg h]
  exact walk_directory (by decide) (by decide) (by simp [lookup?, around])

end FileSystem
end DocAudit
