import DocAudit.Proofs.Declaration.Extent
import DocAudit.Proofs.Finding.Messages

/-!
# Findings on one line

A report gives every finding a line. Whether it is one depends on the words that its message shows as
they are written in the source: a value between quotes may go on over several lines, and so may the
name of a declaration. Nothing else in a message breaks a line, neither the templates nor the names of
tags.

* `Text.IsOneLine`: a text without line feeds and carriage returns;
* `Code.SourceFile.isOneLine_display_iff`: which findings stand on one line;
* `Code.SourceFile.words`: the words that messages take from the declarations of a file;
* `Code.SourceFile.isOneLine_or_mem_words`: all other details of findings are on one line;
* `Code.SourceFile.KeepsToLines`: no word goes on over several lines, so no finding does.
-/

namespace DocAudit

open Markup Text

/-! ## Texts on one line -/

namespace Text

/-- The text breaks no line. -/
def IsOneLine (cs : List Char) : Prop :=
  '\n' ∉ cs ∧ '\r' ∉ cs

instance (cs : List Char) : Decidable (IsOneLine cs) :=
  inferInstanceAs (Decidable (_ ∧ _))

variable {xs ys : List Char}

@[simp]
theorem isOneLine_nil : IsOneLine [] := by
  simp [IsOneLine]

@[simp]
theorem isOneLine_cons_iff {c : Char} : IsOneLine (c :: xs) ↔ c ≠ '\n' ∧ c ≠ '\r' ∧ IsOneLine xs := by
  simp only [IsOneLine, List.mem_cons, not_or, ne_eq, eq_comm (a := c)]
  tauto

@[simp]
theorem isOneLine_append_iff : IsOneLine (xs ++ ys) ↔ IsOneLine xs ∧ IsOneLine ys := by
  simp only [IsOneLine, List.mem_append, not_or]
  tauto

theorem isOneLine_flatMap_iff {α : Type} {items : List α} {f : α → List Char} :
    IsOneLine (items.flatMap f) ↔ ∀ item ∈ items, IsOneLine (f item) := by
  induction items with
  | nil => simp
  | cons item items ih => simp [ih]

/-- Part of a line is on one line. -/
theorem IsOneLine.of_subset (h : IsOneLine ys) (hsub : xs ⊆ ys) : IsOneLine xs :=
  ⟨fun hmem => h.1 (hsub hmem), fun hmem => h.2 (hsub hmem)⟩

/-- The blanks of markup include the ends of lines. -/
theorem isOneLine_of_isSpace (h : ∀ c ∈ xs, isSpace c = false) : IsOneLine xs :=
  ⟨fun hmem => absurd (h _ hmem) (by decide), fun hmem => absurd (h _ hmem) (by decide)⟩

theorem isOneLine_toDigits (n : Nat) : IsOneLine (Nat.toDigits 10 n) := by
  have hdigits : ∀ c ∈ Nat.toDigits 10 n, c.isDigit = true := fun c hc =>
    Nat.isDigit_of_mem_toDigits (by decide) (by decide) hc
  exact ⟨fun hmem => absurd (hdigits _ hmem) (by decide),
    fun hmem => absurd (hdigits _ hmem) (by decide)⟩

/-- What a text is made of decides, which is quicker to look at than the text. -/
theorem isOneLine_toList_ofList (h : IsOneLine xs) : IsOneLine (String.ofList xs).toList := by
  rwa [String.toList_ofList]

end Text

/-! ## Displays on one line -/

theorem Smell.isOneLine_id (smell : Smell) : IsOneLine smell.id.toList := by
  cases smell <;> exact isOneLine_toList_ofList (by decide)

theorem Smell.isOneLine_template (smell : Smell) : IsOneLine smell.template.toList := by
  cases smell
  -- The longest template is put together from two texts.
  case rethrowCannotInferException => decide +kernel
  all_goals exact isOneLine_toList_ofList (by decide)

namespace Finding

/-- The details that the message shows. -/
def shownDetails (finding : Finding) : List String :=
  finding.smell.pieces.filterMap fun piece =>
    match piece with
    | .char _ => none
    | .hole index => finding.details[index]?

variable {finding : Finding}

theorem mem_shownDetails_iff {detail : String} : detail ∈ finding.shownDetails ↔
    ∃ index, .hole index ∈ finding.smell.pieces ∧ finding.details[index]? = some detail := by
  rw [shownDetails, List.mem_filterMap]
  constructor
  · rintro ⟨piece, hpiece, hdetail⟩
    cases piece with
    | char c => cases hdetail
    | hole index => exact ⟨index, hpiece, hdetail⟩
  · rintro ⟨index, hpiece, hdetail⟩
    exact ⟨_, hpiece, hdetail⟩

/-- A message is on one line when all details are that it shows. -/
theorem IsFilledIn.isOneLine_message_iff (h : finding.IsFilledIn) :
    IsOneLine finding.message.toList ↔
      ∀ detail ∈ finding.shownDetails, IsOneLine detail.toList := by
  rw [h.message_eq, isOneLine_flatMap_iff]
  constructor
  · intro hpieces detail hdetail
    obtain ⟨index, hpiece, hindex⟩ := mem_shownDetails_iff.1 hdetail
    have hfill := hpieces _ hpiece
    rwa [Smell.Piece.fill, hindex] at hfill
  · intro hdetails piece hpiece
    cases piece with
    | char c =>
      -- A character that stands for itself is one of the template.
      have htemplate := finding.smell.isOneLine_template
      rw [h.template_eq, isOneLine_flatMap_iff] at htemplate
      exact htemplate _ hpiece
    | hole index =>
      have hindex := List.getElem?_eq_getElem (h.covered index hpiece)
      rw [Smell.Piece.fill, hindex]
      exact hdetails _ (mem_shownDetails_iff.2 ⟨index, hpiece, hindex⟩)

/-- A finding is on one line when its path is, and all details are that its message shows. -/
theorem IsFilledIn.isOneLine_display_iff (h : finding.IsFilledIn) :
    IsOneLine finding.display.toList ↔ IsOneLine finding.path.toList ∧
      ∀ detail ∈ finding.shownDetails, IsOneLine detail.toList := by
  rw [← h.isOneLine_message_iff]
  have hrule := finding.smell.isOneLine_id
  simp [display, ruleId, isOneLine_toDigits, hrule]

end Finding

/-! ## Names of tags -/

/-- What follows the first colon of a name is part of it. -/
theorem localName_subset (name : List Char) : localName name ⊆ name := by
  rw [localName]
  split
  · exact List.Subset.refl _
  · next rest hrest =>
    have hsuffix := List.dropWhile_suffix (· != ':') (l := name)
    rw [hrest] at hsuffix
    exact ((List.suffix_cons _ rest).trans hsuffix).subset

/-- The name of an element has no blanks, so it is on one line. -/
theorem Markup.Forest.isOneLine_name {cs : List Char} {element : Element}
    (h : element ∈ (Forest.read cs).elements) : IsOneLine element.tag.name.toList := by
  obtain ⟨reading, hreading, hopening⟩ := Forest.exists_reading_of_mem_elements h
  obtain ⟨k, hk⟩ := List.mem_iff_getElem?.1 hreading
  obtain ⟨_, _, _, -, -, -, hscan, -⟩ := exists_scan_of_getElem?_readAll hk
  have hspaced := Event.isSpaced_of_scan hscan
  obtain ⟨name, attributes, hevent, hname, -⟩ := Reading.exists_tag_of_opening? hopening
  have hplain : ∀ c ∈ name, isSpace c = false := by
    rw [hevent] at hspaced
    split at hspaced <;> exact hspaced.1
  have hlocal : element.tag.name = String.ofList (localName name) := hname
  rw [hlocal, String.toList_ofList]
  exact (isOneLine_of_isSpace hplain).of_subset (localName_subset name)

theorem DocComment.isOneLine_name {doc : DocComment} {element : Element}
    (h : element ∈ doc.elements) : IsOneLine element.tag.name.toList := by
  rw [elements, doc.forest_eq] at h
  exact Forest.isOneLine_name h

theorem Vocabulary.isOneLine_of_isContainer {name : String} (h : isContainer name = true) :
    IsOneLine name.toList := by
  have hall : ∀ container ∈ containerTags, IsOneLine container.toList := by decide +kernel
  exact hall name (List.contains_iff_mem.1 h)

theorem MemberKind.isOneLine_displayName (kind : MemberKind) : IsOneLine kind.displayName.toList := by
  cases kind <;> exact isOneLine_toList_ofList (by decide)

/-! ## Details of findings -/

/-- The words of a doc comment that messages show as they are written: the names given by tags for
parameters and type parameters, and the targets of tags for exceptions. -/
def DocComment.words (doc : DocComment) : List String :=
  (doc.namedElements "param" ++ doc.namedElements "typeparam" ++
    doc.targetedElements "exception").map (·.key)

namespace Declaration

/-- The words of a declaration that messages show as they are written: its name, the names of its
parameters and type parameters, and the words of its doc comment. -/
def words (declaration : Declaration) : List String :=
  declaration.name ::
    ((declaration.form.parameters?.getD [] ++ declaration.form.typeParameters?.getD []).map (·.name) ++
      (declaration.doc.map DocComment.words).getD [])

variable {declaration : Declaration}

theorem name_mem_words (declaration : Declaration) : declaration.name ∈ declaration.words :=
  List.mem_cons_self

theorem mem_words_of_lists {names : List DeclaredName} (h : declaration.Lists names)
    {name : DeclaredName} (hname : name ∈ names) : name.name ∈ declaration.words := by
  refine List.mem_cons_of_mem _ (List.mem_append_left _ (List.mem_map_of_mem ?_))
  rcases h with h | h
  · exact List.mem_append_left _ (by rwa [h])
  · exact List.mem_append_right _ (by rwa [h])

theorem mem_words_of_doc {doc : DocComment} (h : declaration.doc = some doc) {word : String}
    (hword : word ∈ doc.words) : word ∈ declaration.words := by
  refine List.mem_cons_of_mem _ (List.mem_append_right _ ?_)
  rwa [h]

end Declaration

/-- The words that messages take from the declarations of a file. -/
def Code.SourceFile.words (file : SourceFile) : List String :=
  file.declarations.flatMap Declaration.words

variable {verdict : Verdict}

/-- What is said about the markup of a doc comment shows names of tags only. -/
theorem DocComment.isOneLine_of_mem_markupVerdicts {doc : DocComment}
    (h : verdict ∈ doc.markupVerdicts) : ∀ detail ∈ verdict.details, IsOneLine detail.toList := by
  rcases List.mem_append.1 h with h | h
  · obtain ⟨element, helement, h⟩ := List.mem_flatMap.1 h
    have hname := isOneLine_name helement
    -- An unknown tag, a missing end tag, or a fault of its form, which has no details.
    rw [elementVerdicts, List.mem_append, List.mem_append] at h
    rcases h with (h | h) | h
    · split at h
      · cases h
      · obtain rfl := List.mem_singleton.1 h
        exact fun detail hdetail => List.mem_singleton.1 hdetail ▸ hname
    · split at h
      · obtain rfl := List.mem_singleton.1 h
        exact fun detail hdetail => List.mem_singleton.1 hdetail ▸ hname
      · cases h
    · obtain ⟨smell, -, rfl⟩ := Option.map_eq_some_iff.1 (Option.mem_toList.1 h)
      intro detail hdetail
      cases hdetail
  · -- The name is one of the vocabulary here, though it is read off the text.
    obtain ⟨tag, -, hunclosed, rfl⟩ := exists_tag_of_mem_rawVerdicts h
    simp only [RawTag.isUnclosed, Bool.and_eq_true] at hunclosed
    intro detail hdetail
    obtain rfl := List.mem_singleton.1 hdetail
    exact Vocabulary.isOneLine_of_isContainer hunclosed.1.1

namespace NamedTags

theorem mem_of_mem_unique {name : DeclaredName} {names : List DeclaredName}
    (h : name ∈ unique names) : name ∈ names := by
  induction names with
  | nil => cases h
  | cons first names ih =>
    rcases List.mem_cons.1 h with rfl | h
    · exact List.mem_cons_self
    · exact List.mem_cons_of_mem _ (ih (List.mem_filter.1 h).1)

/-- What is said about named tags shows a declared name or one that is given. -/
theorem exists_of_mem_check {smells : Smells} {tagName : String}
    {declared? : Option (List DeclaredName)} {declaration : Declaration}
    (h : verdict ∈ check smells tagName declared? declaration) :
    (∃ names, declared? = some names ∧ ∃ name ∈ names, verdict.details = [name.name]) ∨
      ∃ doc, declaration.doc = some doc ∧ ∃ tag ∈ doc.namedElements tagName,
        verdict.details = [tag.key] := by
  unfold check at h
  split at h
  · next first names doc hdoc =>
    rcases List.mem_append.1 h with h | h
    · obtain ⟨⟨tag, smell⟩, hfault, rfl⟩ := List.mem_map.1 h
      exact Or.inr ⟨doc, hdoc, tag, (exists_fault?_of_mem_faults hfault).1, rfl⟩
    · obtain ⟨word, hmissing, rfl⟩ := List.mem_map.1 h
      obtain ⟨name, hname, rfl⟩ := List.mem_map.1 (List.mem_filter.1 hmissing).1
      exact Or.inl ⟨_, rfl, name, mem_of_mem_unique hname, rfl⟩
  · cases h

end NamedTags

namespace Declaration

variable {declaration : Declaration} {source : List Char}

/-- The details of the verdict are words of the declaration, or on one line. -/
def Accounts (declaration : Declaration) (verdict : Verdict) : Prop :=
  ∀ detail ∈ verdict.details, IsOneLine detail.toList ∨ detail ∈ declaration.words

theorem accounts_of_details {word : String} (h : word ∈ declaration.words)
    (hdetails : verdict.details = [word]) : declaration.Accounts verdict := by
  intro detail hdetail
  rw [hdetails] at hdetail
  exact Or.inr (List.mem_singleton.1 hdetail ▸ h)

theorem accounts_of_mem_check {smells : NamedTags.Smells} {tagName : String}
    {declared? : Option (List DeclaredName)}
    (h : verdict ∈ NamedTags.check smells tagName declared? declaration)
    (hlists : ∀ names, declared? = some names → declaration.Lists names)
    (hwords : ∀ doc : DocComment, ∀ tag ∈ doc.namedElements tagName, tag.key ∈ doc.words) :
    declaration.Accounts verdict := by
  rcases NamedTags.exists_of_mem_check h with
    ⟨names, hnames, name, hname, hdetails⟩ | ⟨doc, hdoc, tag, htag, hdetails⟩
  · exact accounts_of_details (mem_words_of_lists (hlists names hnames) hname) hdetails
  · exact accounts_of_details (mem_words_of_doc hdoc (hwords doc tag htag)) hdetails

/-- What is said about a summary has no details. -/
theorem details_of_mem_summaryVerdicts {doc : DocComment} (h : verdict ∈ summaryVerdicts doc) :
    verdict.details = [] := by
  unfold summaryVerdicts at h
  split at h
  · obtain rfl := List.mem_singleton.1 h
    rfl
  · split at h
    · cases h
    · obtain rfl := List.mem_singleton.1 h
      rfl

theorem accounts_of_mem_documentationVerdicts {options : Options}
    (h : verdict ∈ declaration.documentationVerdicts options source) :
    declaration.Accounts verdict := by
  intro detail hdetail
  unfold documentationVerdicts at h
  split at h
  · cases h
  · split at h
    · obtain rfl := List.mem_singleton.1 h
      rcases List.mem_cons.1 hdetail with rfl | hdetail
      · exact Or.inl declaration.kind.isOneLine_displayName
      · exact Or.inr (List.mem_singleton.1 hdetail ▸ declaration.name_mem_words)
    · split at h
      · rw [details_of_mem_summaryVerdicts h] at hdetail
        cases hdetail
      · cases h

theorem accounts_of_mem_exceptionVerdicts (h : verdict ∈ declaration.exceptionVerdicts source) :
    declaration.Accounts verdict := by
  rcases List.mem_append.1 h with h | h
  · cases hdoc : declaration.doc with
    | none => rw [hdoc] at h; cases h
    | some doc =>
      rw [hdoc] at h
      have hwords {tag : KeyedElement} (htag : tag ∈ doc.targetedElements exceptionTag) :
          tag.key ∈ declaration.words :=
        mem_words_of_doc hdoc (List.mem_map_of_mem (List.mem_append_right _ htag))
      rcases List.mem_append.1 h with h | h
      · obtain ⟨tag, htag, rfl⟩ := List.mem_map.1 h
        exact accounts_of_details (hwords ((repeated_sublist [] _).subset htag)) rfl
      · obtain ⟨tag, htag, rfl⟩ := List.mem_map.1 h
        exact accounts_of_details (hwords (List.mem_filter.1 htag).1) rfl
  · obtain ⟨rethrow, -, rfl⟩ := Option.map_eq_some_iff.1 (Option.mem_toList.1 h)
    exact accounts_of_details declaration.name_mem_words rfl

theorem accounts_of_mem_memberTagVerdicts (h : verdict ∈ declaration.memberTagVerdicts) :
    declaration.Accounts verdict := by
  unfold memberTagVerdicts at h
  split at h
  · cases h
  · obtain ⟨element, helement, rfl⟩ := List.mem_map.1 h
    have hmem := DocComment.topLevel_sublist.subset (List.mem_filter.1 helement).1
    intro detail hdetail
    rcases List.mem_cons.1 hdetail with rfl | hdetail
    · exact Or.inl (DocComment.isOneLine_name hmem)
    · exact Or.inl (List.mem_singleton.1 hdetail ▸ declaration.kind.isOneLine_displayName)

/-- What is said about a declaration shows its words and otherwise breaks no line. -/
theorem accounts_of_mem_verdicts {options : Options}
    (h : verdict ∈ declaration.verdicts options source) : declaration.Accounts verdict := by
  -- One case for each detector that looks at declarations, in the order of their verdicts.
  simp only [verdicts, List.mem_append] at h
  rcases h with ((((h | h) | h) | h) | h) | h
  · exact accounts_of_mem_documentationVerdicts h
  · exact accounts_of_mem_check h (fun _ => Or.inl) fun _ _ htag =>
      List.mem_map_of_mem (List.mem_append_left _ (List.mem_append_left _ htag))
  · exact accounts_of_mem_check h (fun _ => Or.inr) fun _ _ htag =>
      List.mem_map_of_mem (List.mem_append_left _ (List.mem_append_right _ htag))
  · intro detail hdetail
    rw [details_of_mem_returnsVerdicts h] at hdetail
    cases hdetail
  · exact accounts_of_mem_exceptionVerdicts h
  · exact accounts_of_mem_memberTagVerdicts h

end Declaration

namespace Code.SourceFile

variable {file : SourceFile} {options : Options} {path : String} {finding : Finding}

/-- A detail of a finding that is not on one line is a word of the file. -/
theorem isOneLine_or_mem_words (h : finding ∈ file.findings options path) {detail : String}
    (hdetail : detail ∈ finding.details) : IsOneLine detail.toList ∨ detail ∈ file.words := by
  obtain ⟨detector, verdict, hverdict, rfl⟩ := exists_verdict_of_mem_findings h
  rcases Detector.mem_verdicts_cases hverdict with
    ⟨doc, -, hverdict⟩ | ⟨declaration, hdeclaration, hverdict⟩
  · exact Or.inl (DocComment.isOneLine_of_mem_markupVerdicts hverdict detail hdetail)
  · refine (Declaration.accounts_of_mem_verdicts hverdict detail hdetail).imp_right fun hword => ?_
    exact List.mem_flatMap.2 ⟨declaration, hdeclaration, hword⟩

/-- A finding is on one line when the path is, and all details are that its message shows. -/
theorem isOneLine_display_iff (h : finding ∈ file.findings options path) :
    IsOneLine finding.display.toList ↔ IsOneLine path.toList ∧
      ∀ detail ∈ finding.shownDetails, IsOneLine detail.toList := by
  rw [← path_of_mem_findings h]
  exact (isFilledIn_of_mem_findings h).isOneLine_display_iff

/-- No word that messages take from the file goes on over several lines. -/
def KeepsToLines (file : SourceFile) : Prop :=
  ∀ word ∈ file.words, IsOneLine word.toList

instance (file : SourceFile) : Decidable file.KeepsToLines :=
  inferInstanceAs (Decidable (∀ word ∈ file.words, IsOneLine word.toList))

/-- Then every finding is on one line. -/
theorem KeepsToLines.isOneLine_display (hfile : file.KeepsToLines) (hpath : IsOneLine path.toList)
    (h : finding ∈ file.findings options path) : IsOneLine finding.display.toList := by
  refine (isOneLine_display_iff h).2 ⟨hpath, fun detail hdetail => ?_⟩
  obtain ⟨index, -, hindex⟩ := Finding.mem_shownDetails_iff.1 hdetail
  exact (isOneLine_or_mem_words h (List.mem_of_getElem? hindex)).elim id (hfile detail)

end Code.SourceFile

end DocAudit
