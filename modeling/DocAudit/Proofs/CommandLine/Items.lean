import DocAudit.Proofs.CommandLine.Arguments

/-!
# Items of a command line

A command line is read from left to right, one item at a time. An item is a flag, an option file
behind its sign, or a path. The sign of an option file takes the next word with it, whatever that
looks like, so that the same word is a flag in one place and the name of a file in another. Still, no
words can be told apart into items in two ways, and a line of items is understood if there is a
single path among them, in whatever order they come.

* `Item`, `Item.line`: items and their words;
* `Item.line_injective`: a line is one of these items and no others;
* `Words.read_words_append`, `Words.read_line_eq_ok_iff`: what one item adds, and what a line adds;
* `Words.exists_line_of_read`: only lines of items are read to the end;
* `Arguments.parse_line_eq_ok_iff`: what a line of items tells;
* `Arguments.keepsToGrammar`: which lines are understood, and as what.
-/

namespace DocAudit.CommandLine

/-- A word that stands for itself. -/
inductive Flag
  /-- The report is in JSON. -/
  | json
  /-- The log tells what each detector found. -/
  | verbose
  /-- The same in one letter. -/
  | shortVerbose
  /-- The tree of one file is shown. -/
  | dumpTree
deriving DecidableEq, Repr

/-- The word of a flag. -/
def Flag.word : Flag → String
  | json => "--json"
  | verbose => "--verbose"
  | shortVerbose => "-v"
  | dumpTree => "--dump-tree"

/-- A part of a command line that is understood by itself. -/
inductive Item
  /-- A flag. -/
  | flag (flag : Flag)
  /-- An option file. Its name may be any word. -/
  | config (name : String)
  /-- A path, which does not begin as a flag does. -/
  | path (name : String) (isPlain : name.toList.head? ≠ some '-')
deriving DecidableEq

/-- The word in front of an option file. -/
def configSign : String := "--config"

theorem Flag.head?_word (flag : Flag) : flag.word.toList.head? = some '-' := by
  cases flag <;> decide

theorem Flag.word_injective : Function.Injective Flag.word := by
  intro flag other h
  cases flag <;> cases other <;> first | rfl | exact absurd h (by decide)

theorem Flag.word_ne_configSign (flag : Flag) : flag.word ≠ configSign := by
  cases flag <;> decide

namespace Item

/-- The words of an item. -/
def words : Item → List String
  | flag f => [f.word]
  | config name => [configSign, name]
  | path name _ => [name]

/-- The words of items, one item behind the other. -/
def line (items : List Item) : List String :=
  items.flatMap words

/-- The option file, if the item names one. -/
def config? : Item → Option String
  | config name => some name
  | _ => none

/-- The path, if the item is one. -/
def path? : Item → Option String
  | path name _ => some name
  | _ => none

/-- The option files among the items. -/
def configs (items : List Item) : List String :=
  items.filterMap config?

/-- The paths among the items. -/
def paths (items : List Item) : List String :=
  items.filterMap path?

section Lists

variable (f : Flag) (name : String) (isPlain : name.toList.head? ≠ some '-') (items : List Item)

@[simp]
theorem configs_flag : configs (flag f :: items) = configs items := rfl

@[simp]
theorem configs_config : configs (config name :: items) = name :: configs items := rfl

@[simp]
theorem configs_path : configs (path name isPlain :: items) = configs items := rfl

@[simp]
theorem paths_flag : paths (flag f :: items) = paths items := rfl

@[simp]
theorem paths_config : paths (config name :: items) = paths items := rfl

@[simp]
theorem paths_path : paths (path name isPlain :: items) = name :: paths items := rfl

end Lists

/-! ## Items are told apart by their words -/

theorem ne_of_head? {name word : String} (hname : name.toList.head? ≠ some '-')
    (hword : word.toList.head? = some '-') : name ≠ word := by
  rintro rfl
  exact hname hword

/-- The first item is determined by the line, and so are the words behind it. -/
theorem words_append_inj {item other : Item} {rest more : List String}
    (h : item.words ++ rest = other.words ++ more) : item = other ∧ rest = more := by
  have hsign : configSign.toList.head? = some '-' := by decide
  cases item with
  | flag f =>
    cases other with
    | flag other =>
      obtain ⟨hword, hrest⟩ := List.cons.inj h
      exact ⟨congrArg Item.flag (Flag.word_injective hword), hrest⟩
    | config other => exact absurd (List.cons.inj h).1 f.word_ne_configSign
    | path other isPlain => exact absurd (List.cons.inj h).1.symm (ne_of_head? isPlain f.head?_word)
  | config name =>
    cases other with
    | flag other => exact absurd (List.cons.inj h).1.symm other.word_ne_configSign
    | config other =>
      -- The word behind the sign is the name, even if it is another sign.
      obtain ⟨rfl, hrest⟩ := List.cons.inj (List.cons.inj h).2
      exact ⟨rfl, hrest⟩
    | path other isPlain => exact absurd (List.cons.inj h).1.symm (ne_of_head? isPlain hsign)
  | path name isPlain =>
    cases other with
    | flag other => exact absurd (List.cons.inj h).1 (ne_of_head? isPlain other.head?_word)
    | config other => exact absurd (List.cons.inj h).1 (ne_of_head? isPlain hsign)
    | path other _ =>
      obtain ⟨rfl, hrest⟩ := List.cons.inj h
      exact ⟨rfl, hrest⟩

theorem words_ne_nil (item : Item) : item.words ≠ [] := by
  cases item <;> exact List.cons_ne_nil _ _

@[simp]
theorem line_nil : line [] = [] := rfl

@[simp]
theorem line_cons (item : Item) (items : List Item) :
    line (item :: items) = item.words ++ line items :=
  List.flatMap_cons

/-- A line is one of items in one way only. -/
theorem line_injective : Function.Injective line := by
  intro items
  induction items with
  | nil =>
    intro others h
    cases others with
    | nil => rfl
    | cons other others => exact absurd (List.append_eq_nil_iff.1 h.symm).1 other.words_ne_nil
  | cons item items ih =>
    intro others h
    cases others with
    | nil => exact absurd (List.append_eq_nil_iff.1 h).1 item.words_ne_nil
    | cons other others =>
      rw [line_cons, line_cons] at h
      obtain ⟨rfl, hmore⟩ := words_append_inj h
      rw [ih hmore]

end Item

/-! ## Reading a line of items -/

namespace Words

variable {words result : Words}

/-- The words with one more flag. -/
def addFlag (words : Words) : Flag → Words
  | .json => { words with json := true }
  | .verbose => { words with verbose := true }
  | .shortVerbose => { words with verbose := true }
  | .dumpTree => { words with dumpTree := true }

/-- The words with one more item. -/
def addItem (words : Words) : Item → Except ArgumentError Words
  | .flag flag => .ok (words.addFlag flag)
  | .config name => .ok { words with config := some name }
  | .path name _ => words.addPath name

/-- Reading a line is reading its first item, and then the rest. -/
theorem read_words_append (words : Words) (item : Item) (rest : List String) :
    words.read (item.words ++ rest) = words.addItem item >>= fun next => next.read rest := by
  cases item with
  | flag flag => cases flag <;> rfl
  | config name => rfl
  | path name isPlain =>
    show words.read (name :: rest) = _
    rw [read]
    · cases hadd : words.addPath name <;> simp [addItem, hadd] <;> rfl
    -- Every flag begins with a hyphen.
    all_goals
      intros
      subst name
      exact isPlain (by decide)

/-- What words come to with the items of a line: they keep one path at most, the last option file
counts, and a flag once raised stays so. -/
@[mk_iff]
structure Follows (words : Words) (items : List Item) (result : Words) : Prop where
  /-- The paths are the one before, if there was one, and those of the items. -/
  target : result.target.toList = words.target.toList ++ Item.paths items
  /-- The option file is the last of the items, or the one before. -/
  config : result.config = (Item.configs items).getLast?.or words.config
  /-- The report is in JSON. -/
  json : result.json = true ↔ words.json = true ∨ .flag .json ∈ items
  /-- The log tells what each detector found. -/
  verbose : result.verbose = true ↔
    words.verbose = true ∨ .flag .verbose ∈ items ∨ .flag .shortVerbose ∈ items
  /-- The tree of one file is shown. -/
  dumpTree : result.dumpTree = true ↔ words.dumpTree = true ∨ .flag .dumpTree ∈ items

theorem follows_nil_iff : words.Follows [] result ↔ words = result := by
  obtain ⟨target, config, json, verbose, dumpTree⟩ := words
  obtain ⟨target', config', json', verbose', dumpTree'⟩ := result
  have htarget : target'.toList = target.toList ↔ target = target' := by
    cases target <;> cases target' <;> simp [eq_comm]
  simp [follows_iff, Item.paths, Item.configs, htarget, eq_comm]

/-- A line of items adds its first item, if that can be added, and then the rest. -/
theorem follows_cons_iff {item : Item} {items : List Item} :
    words.Follows (item :: items) result ↔
      ∃ next, words.addItem item = .ok next ∧ next.Follows items result := by
  cases item with
  | flag f => cases f <;> simp [follows_iff, addItem, addFlag]
  | config name => simp [follows_iff, addItem, List.getLast?_cons]
  | path name isPlain =>
    cases htarget : words.target with
    | none => simp [follows_iff, addItem, addPath_of_head? isPlain htarget, htarget]
    | some target =>
      -- No words keep two paths.
      have htwo (more : List String) : result.target.toList ≠ target :: name :: more := by
        cases result.target <;> simp
      simp [follows_iff, addItem, addPath, isPlain, htarget, htwo]

/-- What reading a line of items comes to. -/
theorem read_line_eq_ok_iff {items : List Item} :
    words.read (Item.line items) = .ok result ↔ words.Follows items result := by
  induction items generalizing words with
  | nil => rw [Item.line_nil, read, Except.ok.injEq, follows_nil_iff]
  | cons item items ih =>
    rw [Item.line_cons, read_words_append, follows_cons_iff]
    cases hadd : words.addItem item with
    | error error => simp [bind, Except.bind]
    | ok next => simp [bind, Except.bind, ih]

/-- A list of words that is read to its end is a line of items. -/
theorem exists_line_of_read {list : List String} (h : words.read list = .ok result) :
    ∃ items, Item.line items = list := by
  fun_induction read words list with
  | case1 words => exact ⟨[], rfl⟩
  | case2 words rest ih =>
    obtain ⟨items, rfl⟩ := ih h
    exact ⟨.flag .json :: items, rfl⟩
  | case3 words rest ih =>
    obtain ⟨items, rfl⟩ := ih h
    exact ⟨.flag .verbose :: items, rfl⟩
  | case4 words rest ih =>
    obtain ⟨items, rfl⟩ := ih h
    exact ⟨.flag .shortVerbose :: items, rfl⟩
  | case5 words rest ih =>
    obtain ⟨items, rfl⟩ := ih h
    exact ⟨.flag .dumpTree :: items, rfl⟩
  | case6 words => cases h
  | case7 words name rest ih =>
    obtain ⟨items, rfl⟩ := ih h
    exact ⟨.config name :: items, rfl⟩
  | case8 words name rest _ _ _ _ _ _ next hadd ih =>
    obtain ⟨items, rfl⟩ := ih h
    exact ⟨.path name (addPath_eq_ok_iff.1 hadd).1 :: items, rfl⟩
  | case9 => cases h

end Words

/-! ## What a line tells -/

namespace Arguments

/-- What items tell. -/
@[mk_iff]
structure IsToldBy (arguments : Arguments) (items : List Item) : Prop where
  /-- The target is the only path among them. -/
  target : Item.paths items = [arguments.target]
  /-- The option file is the last one among them. -/
  config : arguments.config = (Item.configs items).getLast?
  /-- The report is in JSON if one of them says so. -/
  json : arguments.json = true ↔ .flag .json ∈ items
  /-- The log tells more if one of them says so. -/
  verbose : arguments.verbose = true ↔ .flag .verbose ∈ items ∨ .flag .shortVerbose ∈ items
  /-- The tree is shown if one of them says so. -/
  dumpTree : arguments.dumpTree = true ↔ .flag .dumpTree ∈ items

variable {arguments : Arguments} {items others : List Item}

/-- A line of items is understood as what they tell. -/
theorem parse_line_eq_ok_iff :
    parse (Item.line items) = .ok arguments ↔ arguments.IsToldBy items := by
  rw [parse_eq_ok_iff, Words.read_line_eq_ok_iff, Words.follows_iff, isToldBy_iff,
    eq_comm (a := Item.paths items)]
  simp

/-- Items with a single path among them tell something. -/
theorem exists_isToldBy {path : String} (h : Item.paths items = [path]) :
    ∃ arguments : Arguments, arguments.IsToldBy items :=
  ⟨{ target := path, config := (Item.configs items).getLast?, json := decide (.flag .json ∈ items)
     verbose := decide (.flag .verbose ∈ items ∨ .flag .shortVerbose ∈ items)
     dumpTree := decide (.flag .dumpTree ∈ items) },
    h, rfl, by simp, by simp, by simp⟩

/-- What items tell does not depend on their order, but for that of the option files. -/
theorem IsToldBy.of_perm (h : arguments.IsToldBy items) (hperm : items.Perm others)
    (hconfigs : Item.configs items = Item.configs others) : arguments.IsToldBy others where
  target := by
    have hpaths : (Item.paths items).Perm (Item.paths others) := hperm.filterMap Item.path?
    rw [h.target] at hpaths
    exact List.perm_singleton.1 hpaths.symm
  config := hconfigs ▸ h.config
  json := h.json.trans hperm.mem_iff
  verbose := h.verbose.trans (or_congr hperm.mem_iff hperm.mem_iff)
  dumpTree := h.dumpTree.trans hperm.mem_iff

/-- What is understood by words is what their items tell, in any order of these. -/
structure KeepsToGrammar (list : List String) : Prop where
  /-- Words are understood if they are a line of items with a single path among them. -/
  exists_parse_iff : (∃ arguments, parse list = .ok arguments) ↔
    ∃ items, Item.line items = list ∧ (Item.paths items).length = 1
  /-- They are understood as what these items tell. -/
  parse_eq_ok_iff : ∀ arguments, parse list = .ok arguments ↔
    ∃ items, Item.line items = list ∧ arguments.IsToldBy items
  /-- The words are a line of no other items. -/
  eq_of_line_eq : ∀ items others, Item.line items = list → Item.line others = list → items = others
  /-- The same is understood when the items come in another order, with the same order of the option
  files. -/
  reordered : ∀ items others, Item.line items = list → items.Perm others →
    Item.configs items = Item.configs others →
      ∀ arguments, parse (Item.line others) = .ok arguments ↔ parse list = .ok arguments

/-- Any words are understood so, or not at all. -/
theorem keepsToGrammar (list : List String) : KeepsToGrammar list := by
  have hparse (arguments : Arguments) : parse list = .ok arguments ↔
      ∃ items, Item.line items = list ∧ arguments.IsToldBy items := by
    constructor
    · intro h
      obtain ⟨items, rfl⟩ := Words.exists_line_of_read (Arguments.parse_eq_ok_iff.1 h)
      exact ⟨items, rfl, parse_line_eq_ok_iff.1 h⟩
    · rintro ⟨items, rfl, h⟩
      exact parse_line_eq_ok_iff.2 h
  refine ⟨⟨?_, ?_⟩, hparse, ?_, ?_⟩
  · rintro ⟨arguments, h⟩
    obtain ⟨items, hline, htold⟩ := (hparse arguments).1 h
    exact ⟨items, hline, by rw [htold.target]; rfl⟩
  · rintro ⟨items, hline, hlength⟩
    obtain ⟨path, hpath⟩ := List.length_eq_one_iff.1 hlength
    obtain ⟨arguments, htold⟩ := exists_isToldBy hpath
    exact ⟨arguments, (hparse arguments).2 ⟨items, hline, htold⟩⟩
  · intro items others hitems hothers
    exact Item.line_injective (hitems.trans hothers.symm)
  · rintro items others rfl hperm hconfigs arguments
    rw [parse_line_eq_ok_iff, parse_line_eq_ok_iff]
    exact ⟨fun h => h.of_perm hperm.symm hconfigs.symm, fun h => h.of_perm hperm hconfigs⟩

/-- Behind the sign of an option file, a flag is a name. -/
example : parse ["--config", "--json", "src", "--config", "-v"] =
    .ok { target := "src", config := some "-v" } := by decide +kernel

end Arguments
end DocAudit.CommandLine
