import DocAudit.Proofs.Files.Discovery
import Mathlib.Data.List.Perm.Basic

/-!
# The order in which directories list their entries

A directory may list its entries in any order, and another one the next time. Paths lead to the same
places all the same, and the same source files are found below them, or none as before.

* `FileTree.Relisted`: a directory whose entries, and those below them, are listed in another order;
* `FileTree.Relisted.exists_walk`: following a path;
* `FileTree.Relisted.below_perm`, `FileTree.Relisted.isOpen_eq`: what there is below, and whether it can
  be listed.
-/

namespace DocAudit

open DocAudit.Path

namespace FileTree

/-- The same directory, with its entries and those of the directories below in another order. -/
inductive Relisted : Directory → Directory → Prop
  | nil : Relisted [] []
  /-- The first entry stays as it is. -/
  | cons (entry : String × FileTree) {entries others : Directory} :
      Relisted entries others → Relisted (entry :: entries) (entry :: others)
  /-- The first entry is a directory with its entries in another order. -/
  | inside (name : String) {inner outer entries others : Directory} :
      Relisted inner outer → Relisted entries others →
        Relisted ((name, .directory inner) :: entries) ((name, .directory outer) :: others)
  /-- The first two entries change places. -/
  | swap (first second : String × FileTree) (entries : Directory) :
      Relisted (first :: second :: entries) (second :: first :: entries)
  | trans {entries others more : Directory} :
      Relisted entries others → Relisted others more → Relisted entries more

/-- Two entries that are the same but for the order in which directories are listed. -/
inductive Alike : FileTree → FileTree → Prop
  | same (entry : FileTree) : Alike entry entry
  | directory {entries others : Directory} :
      Relisted entries others → Alike (.directory entries) (.directory others)

theorem Alike.trans {a b c : FileTree} (hab : a.Alike b) (hbc : b.Alike c) : a.Alike c := by
  cases hab with
  | same => exact hbc
  | directory h =>
    cases hbc with
    | same => exact .directory h
    | directory hmore => exact .directory (h.trans hmore)

theorem Relisted.refl (entries : Directory) : Relisted entries entries := by
  induction entries with
  | nil => exact nil
  | cons entry entries ih => exact cons entry ih

theorem Alike.exists_directory {entries : Directory} {other : FileTree}
    (h : (FileTree.directory entries).Alike other) :
    ∃ others, other = FileTree.directory others ∧ Relisted entries others := by
  cases h with
  | same => exact ⟨entries, rfl, .refl entries⟩
  | directory h => exact ⟨_, rfl, h⟩

namespace Relisted

variable {entries others : Directory}

/-- The names of the entries stay the same. -/
theorem names_perm (h : Relisted entries others) :
    (entries.map (·.1)).Perm (others.map (·.1)) := by
  induction h with
  | nil => exact .nil
  | cons entry _ ih => exact ih.cons entry.1
  | inside name _ _ _ ih => exact ih.cons name
  | swap first second entries => exact .swap second.1 first.1 _
  | trans _ _ ih ihmore => exact ih.trans ihmore

theorem forall_ne {name : String} (h : Relisted entries others)
    (hne : ∀ entry ∈ entries, entry.1 ≠ name) : ∀ entry ∈ others, entry.1 ≠ name := by
  rintro entry hentry rfl
  obtain ⟨first, hfirst, hname⟩ :=
    List.mem_map.1 (h.names_perm.mem_iff.2 (List.mem_map_of_mem hentry))
  exact hne first hfirst hname

/-- What stands under a name stays alike. -/
theorem exists_mem {name : String} {entry : FileTree} (h : Relisted entries others)
    (hmem : (name, entry) ∈ entries) : ∃ other, (name, other) ∈ others ∧ entry.Alike other := by
  induction h generalizing entry with
  | nil => cases hmem
  | cons first _ ih =>
    rcases List.mem_cons.1 hmem with rfl | hmem
    · exact ⟨entry, List.mem_cons_self, .same entry⟩
    · obtain ⟨other, hother, halike⟩ := ih hmem
      exact ⟨other, List.mem_cons_of_mem _ hother, halike⟩
  | inside first hinner _ _ ih =>
    rcases List.mem_cons.1 hmem with heq | hmem
    · obtain ⟨rfl, rfl⟩ := Prod.mk.inj heq
      exact ⟨_, List.mem_cons_self, .directory hinner⟩
    · obtain ⟨other, hother, halike⟩ := ih hmem
      exact ⟨other, List.mem_cons_of_mem _ hother, halike⟩
  | swap first second entries =>
    exact ⟨entry, (List.Perm.swap second first entries).mem_iff.1 hmem, .same entry⟩
  | trans _ _ ih ihmore =>
    obtain ⟨other, hother, halike⟩ := ih hmem
    obtain ⟨last, hlast, hmore⟩ := ihmore hother
    exact ⟨last, hlast, halike.trans hmore⟩

/-- Proper names stay proper. -/
theorem areProper (h : Relisted entries others) (hproper : areProper entries = true) :
    FileTree.areProper others = true := by
  induction h with
  | nil => rfl
  | cons entry h ih =>
    obtain ⟨hname, hdistinct, hentry, hmore⟩ := areProper_cons.1 hproper
    exact areProper_cons.2 ⟨hname, h.forall_ne hdistinct, hentry, ih hmore⟩
  | inside name _ h ihinner ih =>
    obtain ⟨hname, hdistinct, hinner, hmore⟩ := areProper_cons.1 hproper
    exact areProper_cons.2 ⟨hname, h.forall_ne hdistinct, ihinner hinner, ih hmore⟩
  | swap first second entries =>
    obtain ⟨hname, hdistinct, hentry, hrest⟩ := areProper_cons.1 hproper
    obtain ⟨hsecond, hlater, hother, hmore⟩ := areProper_cons.1 hrest
    obtain ⟨hne, hdistinct⟩ := List.forall_mem_cons.1 hdistinct
    exact areProper_cons.2 ⟨hsecond, List.forall_mem_cons.2 ⟨hne.symm, hlater⟩, hother,
      areProper_cons.2 ⟨hname, hdistinct, hentry, hmore⟩⟩
  | trans _ _ ih ihmore => exact ihmore (ih hproper)

/-- A name leads to what it led to. -/
theorem exists_lookup? {name : String} {entry : FileTree} (h : Relisted entries others)
    (hproper : FileTree.areProper entries = true) (hlookup : lookup? entries name = some entry) :
    ∃ other, lookup? others name = some other ∧ entry.Alike other := by
  obtain ⟨other, hother, halike⟩ := h.exists_mem (mem_of_lookup? hlookup)
  exact ⟨other, (lookup?_of_mem (h.areProper hproper) hother).2.2, halike⟩

/-- A path leads to what it led to. -/
theorem exists_walk {root rootOthers : Directory} {links : Nat} {above aboveOthers : List Directory}
    {parts : List String} {found : FileTree} (hroot : Relisted root rootOthers)
    (h : Relisted entries others) (habove : List.Forall₂ Relisted above aboveOthers)
    (hproperRoot : FileTree.areProper root = true) (hproper : FileTree.areProper entries = true)
    (hproperAbove : ∀ outer ∈ above, FileTree.areProper outer = true)
    (hwalk : walk root links above entries parts = .ok found) :
    ∃ other, walk rootOthers links aboveOthers others parts = .ok other ∧ found.Alike other := by
  -- A path may go back up, so the directories above have to be relisted along with this one.
  fun_induction walk root links above entries parts generalizing aboveOthers others with
  | case1 links above entries =>
    cases hwalk
    exact ⟨_, walk_nil, .directory h⟩
  | case2 links above entries parts ih =>
    rw [walk_here]
    exact ih h habove hproper hproperAbove hwalk
  | case3 links entries parts hhere ih =>
    cases habove
    rw [walk_parent_top]
    exact ih h .nil hproper hproperAbove hwalk
  | case4 links entries parts hhere outer above ih =>
    cases habove with
    | cons houter habove =>
      obtain ⟨hproperOuter, hproperAbove⟩ := List.forall_mem_cons.1 hproperAbove
      rw [walk_parent]
      exact ih houter habove hproperOuter hproperAbove hwalk
  | case6 links above entries part parts hhere hparent inner hlookup ih =>
    obtain ⟨_, hother, halike⟩ := h.exists_lookup? hproper hlookup
    obtain ⟨outer, rfl, hinner⟩ := halike.exists_directory
    -- The directory that is left is one of those above from here on.
    rw [walk_directory hhere hparent hother]
    apply ih hinner (.cons h habove) (isProper_of_lookup? hproper hlookup) _ hwalk
    exact List.forall_mem_cons.2 ⟨hproper, hproperAbove⟩
  | case9 above entries part parts hhere hparent target hlookup links htarget habsolute ih =>
    obtain ⟨other, hother, ⟨⟩⟩ := h.exists_lookup? hproper hlookup
    rw [walk_absoluteLink hhere hparent hother htarget habsolute]
    exact ih hroot .nil hproperRoot (by simp) hwalk
  | case10 above entries part parts hhere hparent target hlookup links htarget hrelative ih =>
    obtain ⟨other, hother, ⟨⟩⟩ := h.exists_lookup? hproper hlookup
    rw [walk_link hhere hparent hother htarget hrelative]
    exact ih h habove hproper hproperAbove hwalk
  | case12 links above entries part parts hhere hparent entry hdirectory hlink huntold hlookup hend =>
    obtain ⟨other, hother, halike⟩ := h.exists_lookup? hproper hlookup
    obtain rfl := Except.ok.inj hwalk
    cases halike with
    | same =>
      refine ⟨entry, ?_, .same entry⟩
      exact (walk_stop hhere hparent hother hdirectory hlink huntold).trans (if_pos hend)
    | directory => exact absurd rfl (hdirectory _)
  -- Elsewhere the path leads nowhere.
  | _ => cases hwalk

/-- The files found below a directory are the same, in whatever order. -/
theorem below_perm (h : Relisted entries others) :
    (Sources.below entries).Perm (Sources.below others) := by
  simp only [Sources.below_eq_flatMap]
  induction h with
  | nil => exact .nil
  | cons entry _ ih => exact ih.append_left _
  | inside name _ _ ihinner ih =>
    rw [List.flatMap_cons, List.flatMap_cons]
    refine .append ?_ ih
    rw [Sources.foundAt, Sources.foundAt]
    split
    · exact .refl _
    · rw [Sources.below_eq_flatMap, Sources.below_eq_flatMap]
      exact ihinner.map _
  | swap first second entries => exact (List.Perm.swap second first entries).flatMap_right _
  | trans _ _ ih ihmore => exact ih.trans ihmore

/-- Listing fails in both orders, or in neither. -/
theorem isOpen_eq (h : Relisted entries others) :
    Sources.isOpen entries = Sources.isOpen others := by
  simp only [Sources.isOpen_eq_all]
  induction h with
  | nil => rfl
  | cons entry _ ih => rw [List.all_cons, List.all_cons, ih]
  | inside name _ _ ihinner ih =>
    rw [List.all_cons, List.all_cons, ih, Sources.isOpenAt, Sources.isOpenAt, Sources.isOpen_eq_all,
      Sources.isOpen_eq_all, ihinner]
  | swap first second entries =>
    rw [List.all_cons, List.all_cons, List.all_cons, List.all_cons, Bool.and_left_comm]
  | trans _ _ ih ihmore => exact ih.trans ihmore

end Relisted

/-- A path leads to the same directory when the directories are listed in another order. -/
theorem Relisted.exists_resolve {files : FileSystem} {root entries : Directory} {path : String}
    (h : Relisted files.root root) (hroot : FileTree.areProper files.root = true)
    (hpath : files.resolve path = .ok (.directory entries)) :
    ∃ listed, ({ files with root } : FileSystem).resolve path = .ok (.directory listed) ∧
      Relisted entries listed := by
  obtain ⟨hne, hwalk⟩ := FileSystem.walk_of_resolve hpath
  obtain ⟨_, hfound, halike⟩ := h.exists_walk h .nil hroot hroot (by simp) hwalk
  obtain ⟨listed, rfl, hlisted⟩ := halike.exists_directory
  exact ⟨listed, (FileSystem.resolve_of_ne hne).trans hfound, hlisted⟩

end FileTree
end DocAudit
