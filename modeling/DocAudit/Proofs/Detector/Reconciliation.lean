import DocAudit.Proofs.Detector.Apart
import DocAudit.Proofs.Text.Trimming
import Mathlib.Data.Finset.Card
import Mathlib.Data.List.Nodup

/-!
# Declared names against named tags

The tags of one name in a doc comment are gone through once, with the names of the earlier ones at
hand. What comes out can be told without that pass: the verdict on a tag depends on the declared names
and on the tags in front of it, and a declared name is missing if no tag at all has it.

* `NamedTags.faults_eq_flatMap`: the verdict on a tag by its index, without the pass;
* `NamedTags.unique_eq_eraseDupsBy`: the declared names without repetitions;
* `NamedTags.countP_faults`: how many tags of a name are duplicates;
* `NamedTags.Subject.tags`: the tags of a comment that give a name, picked out of its elements;
* `NamedTags.Family.reconciles`: what the detector of a family of tags reports of a file.
-/

namespace DocAudit

open Text

namespace NamedTags

/-! ## Tags in document order -/

section Tags

variable {smells : Smells} {declared : List String}

/-- Whether a tag is at fault is seen from the tags in front of it. -/
theorem faults_eq_flatMap (smells : Smells) (declared earlier : List String)
    (tags : List KeyedElement) :
    faults smells declared earlier tags = tags.zipIdx.flatMap fun (tag, i) =>
      ((fault? smells declared (earlier ++ (tags.take i).map (·.key)) tag).map
        fun smell => (tag, smell)).toList := by
  induction tags generalizing earlier with
  | nil => rfl
  | cons tag tags ih =>
    -- Behind the first tag every index is one more, and the first tag is one of those in front.
    rw [faults, ih, List.zipIdx_cons, List.flatMap_cons, List.zipIdx_succ, List.flatMap_map]
    simp

/-- The order in which faults are looked for, with the names as members of lists. -/
theorem fault?_eq (smells : Smells) (declared earlier : List String) (tag : KeyedElement) :
    fault? smells declared earlier tag =
      if tag.key ∉ declared then some smells.unknown
      else if tag.key ∈ earlier then some smells.duplicate
      else if tag.element.isMeaningful = false then some smells.empty
      else none := by
  simp [fault?]

/-- The four smells of a family are told apart. -/
structure Smells.AreDistinct (smells : Smells) : Prop where
  missing : smells.missing ∉ [smells.unknown, smells.duplicate, smells.empty]
  duplicate : smells.duplicate ∉ [smells.unknown, smells.empty]

/-- A tag is a duplicate exactly if its name is declared and an earlier tag has it. -/
theorem fault?_eq_duplicate_iff (hsmells : smells.AreDistinct) {earlier : List String}
    {tag : KeyedElement} :
    fault? smells declared earlier tag = some smells.duplicate ↔
      tag.key ∈ declared ∧ tag.key ∈ earlier := by
  obtain ⟨hunknown, hempty⟩ := not_or.1 (by simpa using hsmells.duplicate)
  rw [fault?_eq]
  split
  · simp [*, Ne.symm hunknown]
  · split
    · simp_all
    · split <;> simp_all [Ne.symm hempty]

/-- No tag is at fault for being missing. -/
theorem fault?_ne_missing (hsmells : smells.AreDistinct) (earlier : List String)
    (tag : KeyedElement) : fault? smells declared earlier tag ≠ some smells.missing := by
  obtain ⟨hunknown, hduplicate, hempty⟩ : smells.missing ≠ smells.unknown ∧
      smells.missing ≠ smells.duplicate ∧ smells.missing ≠ smells.empty := by
    simpa using hsmells.missing
  rw [fault?_eq]
  split
  · simpa using hunknown.symm
  · split
    · simpa using hduplicate.symm
    · split
      · simpa using hempty.symm
      · nofun

/-- Of the tags of a declared name all but the first are duplicates, whatever they say. -/
theorem countP_faults (declared : List String) (hsmells : smells.AreDistinct)
    (earlier : List String) (tags : List KeyedElement) (name : String) :
    (faults smells declared earlier tags).countP
        (fun fault => fault.2 = smells.duplicate ∧ fault.1.key = name) =
      if name ∈ declared then
        if name ∈ earlier then (tags.map (·.key)).count name else (tags.map (·.key)).count name - 1
      else 0 := by
  induction tags generalizing earlier with
  | nil => simp [faults]
  | cons tag tags ih =>
    have hfirst : ((fault? smells declared earlier tag).map fun smell => (tag, smell)).toList.countP
        (fun fault => fault.2 = smells.duplicate ∧ fault.1.key = name) =
        if fault? smells declared earlier tag = some smells.duplicate ∧ tag.key = name then 1
        else 0 := by
      cases fault? smells declared earlier tag <;> simp [List.countP_cons]
    simp only [fault?_eq_duplicate_iff hsmells] at hfirst
    rw [faults, List.countP_append, ih, hfirst, List.map_cons, List.count_cons]
    -- A tag of this name is a duplicate only behind another, but makes every later one a duplicate.
    by_cases hname : tag.key = name
    · subst hname
      by_cases hdeclared : tag.key ∈ declared <;> by_cases hearlier : tag.key ∈ earlier <;>
        simp [hdeclared, hearlier, Nat.add_comm]
    · have hne : ¬name = tag.key := fun h => hname h.symm
      simp [hname, hne]

end Tags

/-! ## Declared names without repetitions -/

section Names

/-- Names are left out before or after repetitions are. -/
theorem filter_unique (p : String → Bool) (names : List DeclaredName) :
    (unique names).filter (p ·.name) = unique (names.filter (p ·.name)) := by
  induction names with
  | nil => rfl
  | cons first names ih =>
    rw [unique, List.filter_cons, List.filter_cons, List.filter_filter]
    cases hp : p first.name with
    | true =>
      rw [if_pos rfl, if_pos rfl, unique, ← ih, List.filter_filter]
      simp only [Bool.and_comm]
    | false =>
      -- What `p` keeps is not spelled like the first name anyway.
      rw [if_neg (by simp), if_neg (by simp), ← ih]
      refine List.filter_congr fun name _ => ?_
      rw [Bool.and_eq_left_iff_imp]
      intro hname
      rw [bne_iff_ne]
      intro heq
      rw [heq, hp] at hname
      cases hname

/-- Each name is kept where it is first declared. -/
theorem unique_eq_eraseDupsBy (names : List DeclaredName) :
    unique names = names.eraseDupsBy (·.name == ·.name) := by
  induction hlength : names.length using Nat.strong_induction_on generalizing names with
  | _ length ih =>
    cases names with
    | nil => rfl
    | cons first names =>
      -- What is left without the first name is shorter, but not a tail, so the induction is on lengths.
      rw [unique, List.eraseDupsBy_cons, filter_unique (· != first.name)]
      have hle := List.length_filter_le (·.name != first.name) names
      rw [ih _ (by rw [← hlength]; exact Nat.lt_succ_of_le hle) _ rfl]
      have hkeep (name : DeclaredName) :
          (name.name != first.name) = decide ((name.name == first.name) = false) := by
        rw [bne]
        cases name.name == first.name <;> rfl
      simp only [hkeep]

/-- No two of the names that are kept are spelled alike. -/
theorem pairwise_unique (names : List DeclaredName) :
    (unique names).Pairwise (·.name ≠ ·.name) := by
  induction names with
  | nil => exact List.Pairwise.nil
  | cons first names ih =>
    refine List.pairwise_cons.2 ⟨fun name hname => ?_, ih.filter _⟩
    have hne := (List.mem_filter.1 hname).2
    exact fun heq => by simp [heq] at hne

/-- A name that is kept is found by its spelling. -/
theorem positionOf_unique {names : List DeclaredName} {name : DeclaredName} (anchor : Nat)
    (h : name ∈ unique names) : positionOf anchor (unique names) name.name = name.position := by
  have hpairwise := pairwise_unique names
  generalize unique names = kept at h hpairwise
  suffices hfind : kept.find? (·.name == name.name) = some name by
    rw [positionOf, hfind]
    rfl
  induction hpairwise with
  | nil => cases h
  | @cons first kept hfirst _ ih =>
    rcases List.mem_cons.1 h with rfl | h
    · simp
    · rw [List.find?_cons_of_neg (by simpa using hfirst name h), ih h]

end Names

/-! ## What is said about one declaration -/

/-- A tag gives a name unless the name is blank. -/
theorem givenName?_eq (tag : Markup.Tag) :
    tag.givenName? = (tag.attribute? "name").bind fun name =>
      if isBlank name.toList then none else some (String.ofList (trim name.toList)) := by
  rw [Markup.Tag.givenName?]
  cases tag.attribute? "name" with
  | none => rfl
  | some name =>
    have hempty : String.ofList (trim name.toList) = "" ↔ isBlank name.toList = true := by
      rw [← trim_eq_nil_iff, ← String.toList_eq_nil_iff, String.toList_ofList]
    cases hblank : isBlank name.toList <;> simp [Option.filter, hempty, hblank]

/-- A family of named tags. -/
inductive Family
  /-- Tags for parameters. -/
  | params
  /-- Tags for type parameters. -/
  | typeParams
deriving DecidableEq

namespace Family

/-- The detector that reconciles the tags of the family. -/
def detector : Family → Detector
  | params => .param
  | typeParams => .typeParam

/-- The smells by which the family is reported. -/
def smells : Family → Smells
  | params => paramSmells
  | typeParams => typeParamSmells

/-- The name of the tags. -/
def tagName : Family → String
  | params => "param"
  | typeParams => "typeparam"

/-- The names that tags of the family may have, for the declarations that can have such names. -/
def declared? (form : DeclarationForm) : Family → Option (List DeclaredName)
  | params => form.parameters?
  | typeParams => form.typeParameters?

theorem areDistinct_smells (family : Family) : family.smells.AreDistinct := by
  cases family <;> exact ⟨by decide, by decide⟩

end Family

/-- A declaration with names that its doc comment has to speak of. -/
structure Subject where
  /-- The tags that speak of the names. -/
  family : Family
  /-- The names as they are declared. -/
  declared : List DeclaredName
  /-- The doc comment. -/
  doc : DocComment

namespace Subject

variable (subject : Subject)

/-- The declared names without repetitions, each at the place where it is declared first. -/
def names : List DeclaredName :=
  subject.declared.eraseDupsBy (·.name == ·.name)

/-- The tags of the comment that give a name, at any depth and in document order, each with its name
without blanks around it. -/
def tags : List KeyedElement :=
  (subject.doc.elements.filter (·.tag.name == subject.family.tagName)).filterMap fun element =>
    (element.tag.attribute? "name").bind fun name =>
      if isBlank name.toList then none else some ⟨String.ofList (trim name.toList), element⟩

/-- What is wrong with a tag at an index. -/
def smell? (tag : KeyedElement) (i : Nat) : Option Smell :=
  if tag.key ∉ subject.names.map (·.name) then some subject.family.smells.unknown
  else if tag.key ∈ (subject.tags.take i).map (·.key) then some subject.family.smells.duplicate
  else if tag.element.isMeaningful = false then some subject.family.smells.empty
  else none

/-- The verdicts on the tags, in their order. -/
def tagVerdicts : List Verdict :=
  subject.tags.zipIdx.flatMap fun (tag, i) =>
    (subject.smell? tag i).toList.map fun smell =>
      .ofElement subject.doc tag.element smell [tag.key]

/-- The verdicts on the names that no tag has, in the order of their declaration. -/
def missingVerdicts : List Verdict :=
  (subject.names.filter fun name => name.name ∉ subject.tags.map (·.key)).map fun name =>
    { smell := subject.family.smells.missing, tagName := subject.family.tagName,
      position := name.position, excerpt := name.name.toList, details := [name.name] }

/-- The report on a declaration says of each tag what is wrong with it and then which names have no
tag. -/
structure IsReportedBy (path : String) (source : List Char) (findings : List Finding) : Prop where
  /-- The tags are the elements of their kind whose name is not blank, -/
  element_eq : subject.tags.map (·.element) = subject.doc.elements.filter fun element =>
    element.tag.name == subject.family.tagName &&
      (element.tag.attribute? "name").any fun name => name.toList.any (!isBlankChar ·)
  /-- and each speaks of its name without the blanks around it. -/
  trimsTo : ∀ tag ∈ subject.tags, ∃ name, tag.element.tag.attribute? "name" = some name ∧
    TrimsTo name.toList tag.key.toList
  /-- Nothing else is reported, and nothing twice. -/
  findings_eq : findings =
    (subject.tagVerdicts ++ subject.missingVerdicts).map (Finding.ofVerdict path source)
  /-- The names that are reported missing and those that tags have are all names. -/
  missing_add : findings.countP (·.smell = subject.family.smells.missing) +
      ((subject.tags.map (·.key)).toFinset ∩ (subject.names.map (·.name)).toFinset).card =
    subject.names.length
  /-- All tags of a declared name but one are reported as duplicates. -/
  duplicates : ∀ name, findings.countP
      (fun finding => finding.smell = subject.family.smells.duplicate ∧ finding.details = [name]) =
    if name ∈ subject.names.map (·.name) then (subject.tags.map (·.key)).count name - 1 else 0

/-- These are the tags that the check goes through. -/
theorem tags_eq : subject.tags = subject.doc.namedElements subject.family.tagName := by
  rw [tags, DocComment.namedElements, DocComment.keyedBy, DocComment.elementsNamed]
  refine List.filterMap_congr fun element _ => ?_
  rw [givenName?_eq]
  cases element.tag.attribute? "name" with
  | none => rfl
  | some name => cases hblank : isBlank name.toList <;> simp [hblank]

/-- The tags are the elements of their kind whose name is not blank. -/
theorem map_element_tags :
    subject.tags.map (·.element) = subject.doc.elements.filter fun element =>
      element.tag.name == subject.family.tagName &&
        (element.tag.attribute? "name").any fun name => name.toList.any (!isBlankChar ·) := by
  rw [tags_eq, DocComment.namedElements, DocComment.map_element_keyedBy, DocComment.elementsNamed,
    List.filter_filter]
  refine List.filter_congr fun element _ => ?_
  rw [Bool.and_comm, givenName?_eq]
  cases element.tag.attribute? "name" with
  | none => rfl
  | some name =>
    rw [Option.bind_some, Option.any_some, ← List.not_all_eq_any_not, ← isBlank]
    cases isBlank name.toList <;> rfl

theorem exists_trimsTo_of_mem_tags {tag : KeyedElement} (h : tag ∈ subject.tags) :
    ∃ name, tag.element.tag.attribute? "name" = some name ∧ TrimsTo name.toList tag.key.toList := by
  rw [tags_eq] at h
  have hkey := DocComment.key?_of_mem_keyedBy h
  rw [givenName?_eq] at hkey
  obtain ⟨name, hname, hkey⟩ := Option.bind_eq_some_iff.1 hkey
  obtain ⟨-, hkey⟩ := Option.ite_none_left_eq_some.1 hkey
  refine ⟨name, hname, ?_⟩
  rw [← Option.some.inj hkey, String.toList_ofList]
  exact trimsTo_trim name.toList

theorem tagVerdicts_eq :
    subject.tagVerdicts =
      (faults subject.family.smells (subject.names.map (·.name)) [] subject.tags).map
        fun (tag, smell) => .ofElement subject.doc tag.element smell [tag.key] := by
  rw [faults_eq_flatMap, List.map_flatMap, tagVerdicts]
  refine List.flatMap_congr fun ⟨tag, i⟩ _ => ?_
  have hsmell : fault? subject.family.smells (subject.names.map (·.name))
      ([] ++ (subject.tags.take i).map (·.key)) tag = subject.smell? tag i := fault?_eq _ _ _ _
  dsimp only
  rw [hsmell]
  cases subject.smell? tag i <;> rfl

/-- The check of a documented declaration finds what the report says. -/
theorem check_eq {declaration : Declaration} (hdeclared : subject.declared ≠ [])
    (hdoc : declaration.doc = some subject.doc) :
    check subject.family.smells subject.family.tagName (some subject.declared) declaration =
      subject.tagVerdicts ++ subject.missingVerdicts := by
  have hnames : subject.names = unique subject.declared := (unique_eq_eraseDupsBy _).symm
  have hcheck : check subject.family.smells subject.family.tagName (some subject.declared)
      declaration = reconcile subject.family.smells subject.family.tagName subject.doc
        (subject.names.map (·.name)) (positionOf declaration.anchor subject.names) := by
    obtain ⟨family, declared, doc⟩ := subject
    rw [hnames]
    cases declared with
    | nil => exact absurd rfl hdeclared
    | cons name names => simp only [check, hdoc]
  have hmissing : (missingNames (subject.names.map (·.name)) subject.tags) =
      (subject.names.filter fun name => name.name ∉ subject.tags.map (·.key)).map (·.name) := by
    rw [missingNames, List.filter_map]
    simp only [Function.comp_def, List.contains_eq_mem, decide_not]
  rw [hcheck, tagVerdicts_eq, missingVerdicts, reconcile, ← tags_eq]
  dsimp only
  rw [hmissing, List.map_map]
  congr 1
  -- Every name is reported missing at its own place.
  refine List.map_congr_left fun name hname => ?_
  have hmem : name ∈ unique subject.declared := hnames ▸ List.mem_of_mem_filter hname
  simp [hnames, positionOf_unique declaration.anchor hmem]

/-- No name is declared twice. -/
theorem nodup_names : (subject.names.map (·.name)).Nodup := by
  rw [List.nodup_iff_pairwise_ne, List.pairwise_map, names, ← unique_eq_eraseDupsBy]
  exact pairwise_unique subject.declared

/-- The names without a tag and those with one are all names. -/
theorem length_missingVerdicts_add :
    subject.missingVerdicts.length +
        ((subject.tags.map (·.key)).toFinset ∩ (subject.names.map (·.name)).toFinset).card =
      subject.names.length := by
  have hcovered : ((subject.tags.map (·.key)).toFinset ∩ (subject.names.map (·.name)).toFinset) =
      ((subject.names.map (·.name)).filter (· ∈ subject.tags.map (·.key))).toFinset := by
    ext name
    simp [and_comm]
  -- Each name either has a tag or has none, and is counted once.
  have hsplit := subject.names.length_eq_length_filter_add fun name =>
    name.name ∈ subject.tags.map (·.key)
  rw [hcovered, List.toFinset_card_of_nodup (subject.nodup_names.filter _), List.filter_map,
    List.length_map, missingVerdicts, List.length_map, Nat.add_comm, hsplit]
  simp only [Function.comp_def, decide_not]

/-- No tag is reported missing, and all names without one are. -/
theorem countP_missing :
    (subject.tagVerdicts ++ subject.missingVerdicts).countP
        (·.smell = subject.family.smells.missing) =
      subject.missingVerdicts.length := by
  have hdistinct := subject.family.areDistinct_smells
  rw [List.countP_append, Nat.add_eq_right.2, List.countP_eq_length]
  · intro verdict hverdict
    obtain ⟨name, -, rfl⟩ := List.mem_map.1 hverdict
    simp
  · rw [List.countP_eq_zero, tagVerdicts_eq]
    intro verdict hverdict hsmell
    obtain ⟨⟨tag, smell⟩, hfault, rfl⟩ := List.mem_map.1 hverdict
    obtain ⟨-, earlier, hfault⟩ := exists_fault?_of_mem_faults hfault
    obtain rfl : smell = subject.family.smells.missing := of_decide_eq_true hsmell
    exact fault?_ne_missing hdistinct earlier tag hfault

/-- A missing name is no duplicate, and all tags of a declared name but one are. -/
theorem countP_duplicate (name : String) :
    (subject.tagVerdicts ++ subject.missingVerdicts).countP
        (fun verdict =>
          verdict.smell = subject.family.smells.duplicate ∧ verdict.details = [name]) =
      if name ∈ subject.names.map (·.name) then (subject.tags.map (·.key)).count name - 1 else 0 := by
  have hdistinct := subject.family.areDistinct_smells
  have htags := countP_faults (subject.names.map (·.name)) hdistinct [] subject.tags name
  rw [List.countP_append, Nat.add_eq_left.2, tagVerdicts_eq, List.countP_map]
  · simpa [Function.comp_def, Verdict.ofElement] using htags
  · rw [List.countP_eq_zero]
    intro verdict hverdict
    obtain ⟨missing, -, rfl⟩ := List.mem_map.1 hverdict
    have hmissing := hdistinct.missing
    simp_all

theorem isReportedBy_check (path : String) (source : List Char) {declaration : Declaration}
    (hdeclared : subject.declared ≠ []) (hdoc : declaration.doc = some subject.doc) :
    subject.IsReportedBy path source
      ((check subject.family.smells subject.family.tagName (some subject.declared) declaration).map
        (Finding.ofVerdict path source)) := by
  rw [subject.check_eq hdeclared hdoc]
  refine ⟨subject.map_element_tags, fun _ => subject.exists_trimsTo_of_mem_tags, rfl, ?_,
    fun name => ?_⟩
  · rw [List.countP_map]
    exact (congrArg (· + _) subject.countP_missing).trans subject.length_missingVerdicts_add
  · rw [List.countP_map]
    exact subject.countP_duplicate name

end Subject

/-! ## What is said about a file -/

namespace Family

/-- What the detector of the family reports of one declaration. -/
def contribution (family : Family) (options : Options) (path : String) (source : List Char)
    (declaration : Declaration) : List Finding :=
  (family.detector.verdictsOn options source declaration).map (Finding.ofVerdict path source)

/-- The tags of a family are reconciled with the declared names, one declaration of a file after the
other. -/
structure Reconciles (family : Family) (options : Options) (path : String)
    (file : Code.SourceFile) : Prop where
  /-- The detector reports of each declaration by itself. -/
  findings_eq : family.detector.findings options path file =
    file.declarations.flatMap (family.contribution options path file.text)
  /-- A documented declaration that declares names is reported on. -/
  reported : ∀ declaration ∈ file.declarations, ∀ declared doc,
    family.declared? declaration.form = some declared → declared ≠ [] →
    declaration.doc = some doc →
    Subject.IsReportedBy ⟨family, declared, doc⟩ path file.text
      (family.contribution options path file.text declaration)
  /-- Nothing is said about any other declaration. -/
  nothingElse : ∀ declaration ∈ file.declarations,
    family.declared? declaration.form = none ∨ family.declared? declaration.form = some [] ∨
      declaration.doc = none →
    family.contribution options path file.text declaration = []

/-- The detector of a family checks one declaration at a time. -/
theorem verdictsOn_eq_check (family : Family) (options : Options) (source : List Char)
    (declaration : Declaration) :
    family.detector.verdictsOn options source declaration =
      check family.smells family.tagName (family.declared? declaration.form) declaration := by
  cases family <;> rfl

/-- Parameters and type parameters are reconciled with their tags, in every file. -/
theorem reconciles (family : Family) (options : Options) (path : String) (file : Code.SourceFile) :
    family.Reconciles options path file where
  findings_eq := by
    have hdetector : family.detector ≠ .wellFormed := by cases family <;> decide
    rw [Detector.findings, Detector.verdicts_eq_flatMap file hdetector, List.map_flatMap]
    rfl
  reported declaration _ declared doc hnames hdeclared hdoc := by
    have hreported := Subject.isReportedBy_check ⟨family, declared, doc⟩ path file.text hdeclared hdoc
    rw [contribution, verdictsOn_eq_check, hnames]
    exact hreported
  nothingElse declaration _ h := by
    rw [contribution, verdictsOn_eq_check]
    rcases h with h | h | h
    · simp [check, h]
    · simp [check, h]
    · simp [check, h]

end Family

end NamedTags
end DocAudit
