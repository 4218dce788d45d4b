import DocAudit.Files.Sources
import DocAudit.Proofs.Text.Cuts
import Mathlib.Data.List.Basic

/-!
# Paths below a directory

The path of a file below a directory is the path of the directory with names behind it, each after a
slash. It is printed, given as an argument and followed again, so its parts must be those of the
directory and the names, whether or not the directory is written with a slash at its end.

* `Path.base`: the parts that a directory gives to the paths below it;
* `Sources.parts_pathBelow`: the parts of a path below a directory;
* `Sources.pathBelow_inj`: different names make different paths.
-/

namespace DocAudit

namespace Text

/-- A separator divides the pieces in front of it from those behind it. -/
theorem splitAt_append_separator (separator : Char) (xs ys : List Char) :
    splitAt separator (xs ++ separator :: ys) = splitAt separator xs ++ splitAt separator ys := by
  induction xs with
  | nil => exact if_pos rfl
  | cons x xs ih =>
    rw [List.cons_append, splitAt, splitAt]
    split
    · rw [ih, List.cons_append]
    · rw [ih]
      cases hpieces : splitAt separator xs with
      | nil => exact absurd hpieces (splitAt_ne_nil separator xs)
      | cons piece pieces => rfl

/-- A text without the separator is in one piece. -/
theorem splitAt_of_notMem {separator : Char} {piece : List Char} (h : separator ∉ piece) :
    splitAt separator piece = [piece] := by
  induction piece with
  | nil => rfl
  | cons c piece ih =>
    obtain ⟨hne, hmore⟩ := List.ne_and_not_mem_of_not_mem_cons h
    rw [splitAt, if_neg (Ne.symm hne), ih hmore]

end Text

namespace Path

open Text

/-- A name that an entry of a directory may have. -/
def isEntryName (name : String) : Bool :=
  name != "" && name != here && name != parent && !name.toList.contains '/'

variable {name directory : String}

theorem ne_here_of_isEntryName (h : isEntryName name = true) : name ≠ here := by
  simp only [isEntryName, Bool.and_eq_true, bne_iff_ne] at h
  exact h.1.1.2

theorem ne_parent_of_isEntryName (h : isEntryName name = true) : name ≠ parent := by
  simp only [isEntryName, Bool.and_eq_true, bne_iff_ne] at h
  exact h.1.2

theorem notMem_of_isEntryName (h : isEntryName name = true) : '/' ∉ name.toList := by
  simpa using (Bool.and_eq_true_iff.1 h).2

theorem toList_ne_nil_of_isEntryName (h : isEntryName name = true) : name.toList ≠ [] := by
  simp only [isEntryName, Bool.and_eq_true, bne_iff_ne] at h
  rw [Ne, String.toList_eq_nil_iff]
  exact h.1.1.1

/-! ## Parts -/

/-- The part that stands for a piece of a path. -/
theorem parts_of_notMem (h : '/' ∉ name.toList) (hne : name.toList ≠ []) : parts name = [name] := by
  simp [parts, splitAt_of_notMem h, hne]

theorem parts_append_slash (front back : String) :
    parts (front ++ "/" ++ back) = parts front ++ parts back := by
  have hlist : (front ++ "/" ++ back).toList = front.toList ++ '/' :: back.toList := by
    simp
  rw [parts, hlist, splitAt_append_separator, List.map_append]
  rfl

/-- The parts that a directory gives to the paths below it. A slash at the end of its path is the one
that names below it come after. -/
def base (directory : String) : List String :=
  if directory.toList.getLast? == some '/' then (parts directory).dropLast else parts directory

/-- A path that ends with a slash. -/
theorem exists_append_slash (h : directory.toList.getLast? = some '/') :
    ∃ front, directory = front ++ "/" := by
  obtain ⟨front, hfront⟩ := List.getLast?_eq_some_iff.1 h
  refine ⟨String.ofList front, ?_⟩
  rw [← String.toList_inj, hfront]
  simp

/-- A slash at the end of a path stays in place. -/
theorem parts_append_slash_empty (front : String) : parts (front ++ "/") = parts front ++ [here] := by
  have h := parts_append_slash front ""
  rwa [String.append_empty] at h

theorem parts_join (h : isEntryName name = true) :
    parts (join directory name) = base directory ++ [name] := by
  have hname := parts_of_notMem (notMem_of_isEntryName h) (toList_ne_nil_of_isEntryName h)
  by_cases hslash : directory.toList.getLast? = some '/'
  · obtain ⟨front, rfl⟩ := exists_append_slash hslash
    rw [join, base, if_pos (beq_iff_eq.2 hslash), if_pos (beq_iff_eq.2 hslash), parts_append_slash,
      parts_append_slash_empty, List.dropLast_concat, hname]
  · rw [join, base, if_neg (mt beq_iff_eq.1 hslash), if_neg (mt beq_iff_eq.1 hslash),
      parts_append_slash, hname]

/-- A path that ends with a name does not end with a slash. -/
theorem base_join (h : isEntryName name = true) :
    base (join directory name) = base directory ++ [name] := by
  rw [base, if_neg, parts_join h]
  have hlast : (join directory name).toList.getLast? = name.toList.getLast? := by
    rw [join]
    split <;>
      simp only [String.toList_append,
        List.getLast?_append_of_ne_nil _ (toList_ne_nil_of_isEntryName h)]
  rw [hlast, beq_iff_eq]
  intro hslash
  exact notMem_of_isEntryName h (List.mem_of_getLast? hslash)

end Path

namespace Sources

open DocAudit.Path

variable {target : String} {names : List String}

@[simp]
theorem pathBelow_cons (target name : String) (names : List String) :
    pathBelow target (name :: names) = pathBelow (join target name) names := rfl

/-- The parts of a path below a directory are those of the directory, and the names. -/
theorem parts_pathBelow (hne : names ≠ []) (hnames : ∀ name ∈ names, isEntryName name = true) :
    parts (pathBelow target names) = base target ++ names := by
  induction names generalizing target with
  | nil => exact absurd rfl hne
  | cons name names ih =>
    obtain ⟨hname, hmore⟩ := List.forall_mem_cons.1 hnames
    rw [pathBelow_cons]
    cases names with
    | nil => exact parts_join hname
    | cons next names =>
      rw [ih (List.cons_ne_nil _ _) hmore, base_join hname, List.append_assoc]
      rfl

/-- Different names make different paths. -/
theorem pathBelow_inj {others : List String} (hne : names ≠ []) (hne' : others ≠ [])
    (hnames : ∀ name ∈ names, isEntryName name = true)
    (hothers : ∀ name ∈ others, isEntryName name = true)
    (h : pathBelow target names = pathBelow target others) : names = others := by
  have hparts := congrArg parts h
  rw [parts_pathBelow hne hnames, parts_pathBelow hne' hothers] at hparts
  exact List.append_cancel_left hparts

/-- The last of the names is that of the file. -/
theorem fileName?_pathBelow {name : String}
    (hnames : ∀ other ∈ names ++ [name], isEntryName other = true) :
    fileName? (pathBelow target (names ++ [name])) = some name := by
  have hname := hnames name (by simp)
  have hlast : ([name].filter (· != here)) = [name] := by simp [ne_here_of_isEntryName hname]
  rw [fileName?, parts_pathBelow (by simp) hnames, ← List.append_assoc, List.filter_append, hlast,
    List.getLast?_concat]
  simp [ne_parent_of_isEntryName hname]

/-- A path below a directory begins with the path of the directory. -/
theorem exists_toList_pathBelow (target : String) (names : List String) :
    ∃ rest, (pathBelow target names).toList = target.toList ++ rest := by
  induction names generalizing target with
  | nil => exact ⟨[], (List.append_nil _).symm⟩
  | cons name names ih =>
    obtain ⟨rest, hrest⟩ := ih (join target name)
    rw [pathBelow_cons, hrest, join]
    split
    · exact ⟨name.toList ++ rest, by simp⟩
    · exact ⟨'/' :: name.toList ++ rest, by simp⟩

/-- So it begins with the same character. -/
theorem head?_toList_pathBelow (h : target ≠ "") (names : List String) :
    (pathBelow target names).toList.head? = target.toList.head? := by
  obtain ⟨rest, hrest⟩ := exists_toList_pathBelow target names
  rw [hrest, List.head?_append_of_ne_nil]
  rwa [Ne, String.toList_eq_nil_iff]

theorem pathBelow_ne_empty (h : target ≠ "") (names : List String) : pathBelow target names ≠ "" := by
  obtain ⟨rest, hrest⟩ := exists_toList_pathBelow target names
  intro hempty
  rw [hempty] at hrest
  exact h (String.toList_eq_nil_iff.1 (List.append_eq_nil_iff.1 hrest.symm).1)

end Sources
end DocAudit
