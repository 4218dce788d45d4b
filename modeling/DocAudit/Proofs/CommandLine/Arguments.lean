import DocAudit.CommandLine.Arguments
import Mathlib.Tactic.Common

/-!
# Words for arguments

Any target can be given on a command line, unless it begins with a hyphen: then it is taken for a flag
that is not known. All other arguments can be given with it.

* `Arguments.parse_words`: words that are understood as given arguments;
* `Arguments.head?_target_of_parse`: the targets that are understood.
-/

namespace DocAudit.CommandLine

namespace Words

variable {words result : Words}

/-- The target of the words, if there is one, does not begin as a flag does. -/
def IsPlain (words : Words) : Prop :=
  ∀ target ∈ words.target, target.toList.head? ≠ some '-'

/-- A path is taken if it does not begin as a flag does, and no other path was taken before. -/
theorem addPath_eq_ok_iff {path : String} :
    words.addPath path = .ok result ↔
      path.toList.head? ≠ some '-' ∧ words.target = none ∧
        { words with target := some path } = result := by
  rw [addPath]
  split
  · next hhead => simp [hhead]
  · next hhead =>
    split
    · next target htarget => simp [htarget]
    · next htarget => simp [hhead, htarget]

theorem addPath_of_head? {path : String} (h : path.toList.head? ≠ some '-')
    (hnone : words.target = none) : words.addPath path = .ok { words with target := some path } :=
  addPath_eq_ok_iff.2 ⟨h, hnone, rfl⟩

theorem isPlain_of_addPath {path : String} (h : words.addPath path = .ok result) :
    result.IsPlain := by
  obtain ⟨hhead, -, rfl⟩ := addPath_eq_ok_iff.1 h
  intro target htarget
  cases htarget
  exact hhead

/-- A path is read as the target. -/
theorem read_path {path : String} (h : path.toList.head? ≠ some '-') (hnone : words.target = none) :
    words.read [path] = .ok { words with target := some path } := by
  rw [read, addPath_of_head? h hnone]
  · rfl
  -- Every flag begins with a hyphen.
  all_goals
    intros
    subst path
    exact h (by decide)

theorem isPlain_of_read {list : List String} (hwords : words.IsPlain)
    (h : words.read list = .ok result) : result.IsPlain := by
  fun_induction read words list with
  | case1 words =>
    cases h
    exact hwords
  | case2 words rest ih => exact ih hwords h
  | case3 words rest ih => exact ih hwords h
  | case4 words rest ih => exact ih hwords h
  | case5 words rest ih => exact ih hwords h
  | case6 words => cases h
  | case7 words path rest ih => exact ih hwords h
  | case8 words path rest _ _ _ _ _ _ words' hadd ih => exact ih (isPlain_of_addPath hadd) h
  | case9 => cases h

end Words

namespace Arguments

/-- Words for arguments: the flags, the option file, and the target. -/
def words (arguments : Arguments) : List String :=
  (if arguments.json then ["--json"] else []) ++ (if arguments.verbose then ["--verbose"] else []) ++
    (if arguments.dumpTree then ["--dump-tree"] else []) ++
      (arguments.config.map fun path => ["--config", path]).getD [] ++ [arguments.target]

/-- Words tell arguments if they are read to the end with the target among them. -/
theorem parse_eq_ok_iff {list : List String} {arguments : Arguments} :
    parse list = .ok arguments ↔
      Words.read {} list = .ok ⟨some arguments.target, arguments.config, arguments.json,
        arguments.verbose, arguments.dumpTree⟩ := by
  rw [parse]
  obtain ⟨target, config, json, verbose, dumpTree⟩ := arguments
  cases hread : Words.read {} list with
  | error error => simp [bind, Except.bind]
  | ok result =>
    obtain ⟨target', config', json', verbose', dumpTree'⟩ := result
    cases target' with
    | none => simp [bind, Except.bind, throw, throwThe, MonadExceptOf.throw]
    | some target' => simp [bind, Except.bind, pure, Except.pure]

/-- The words for arguments are understood as these arguments. -/
theorem parse_words {arguments : Arguments} (h : arguments.target.toList.head? ≠ some '-') :
    parse arguments.words = .ok arguments := by
  rw [parse_eq_ok_iff]
  obtain ⟨target, config, json, verbose, dumpTree⟩ := arguments
  cases config <;> cases json <;> cases verbose <;> cases dumpTree <;>
    simp [words, Words.read, Words.read_path h]

theorem head?_target_of_parse {arguments : Arguments} {list : List String}
    (h : parse list = .ok arguments) : arguments.target.toList.head? ≠ some '-' :=
  Words.isPlain_of_read (by simp [Words.IsPlain]) (parse_eq_ok_iff.1 h) _ rfl

end Arguments
end DocAudit.CommandLine
