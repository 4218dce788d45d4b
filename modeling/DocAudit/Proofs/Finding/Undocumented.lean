import DocAudit.Proofs.Detector.Apart
import DocAudit.Proofs.Detector.Rules
import DocAudit.Proofs.Finding.Merging

/-!
# Undocumented declarations

A declaration without a doc comment is reported for that, once, if the options ask for documentation
of its kind. Whatever is missing from a comment that is not there is not reported. Only a bare throw in
the body is, because it does not depend on the comment. So declarations that have neither may be left
out of the analysis: nothing changes but that they are no longer reported themselves.

* `IsInterleaving.flatMap_filter`: what some entries of a list contribute to a report, and what the
  others do;
* `Declaration.verdictsOn_of_doc_eq_none`: what an undocumented declaration contributes;
* `Code.SourceFile.reportsUndocumented`: what it costs in the analysis of a file.
-/

namespace DocAudit

open Code

/-! ## Reports in two parts -/

namespace IsInterleaving

variable {α β : Type} {left right merged : List α}

theorem cons_left {x : α} (h : IsInterleaving [left, right] merged) :
    IsInterleaving [x :: left, right] (x :: merged) :=
  cons (show IsInterleaving ([] ++ left :: [right]) merged from h)

theorem cons_right {x : α} (h : IsInterleaving [left, right] merged) :
    IsInterleaving [left, x :: right] (x :: merged) :=
  cons (show IsInterleaving ([left] ++ right :: []) merged from h)

/-- Two reports one after the other, each in two parts. -/
theorem append_pair {left' right' merged' : List α} (h : IsInterleaving [left, right] merged)
    (h' : IsInterleaving [left', right'] merged') :
    IsInterleaving [left ++ left', right ++ right'] (merged ++ merged') := by
  generalize hlists : [left, right] = lists at h
  induction h generalizing left right with
  | nil hempty =>
    subst hlists
    obtain rfl : left = [] := hempty left (by simp)
    obtain rfl : right = [] := hempty right (by simp)
    exact h'
  | @cons earlier later x list merged _ ih =>
    -- The next element comes from the left part or from the right one.
    rcases earlier with _ | ⟨first, _ | ⟨second, earlier⟩⟩
    · obtain ⟨rfl, rfl⟩ : left = x :: list ∧ [right] = later := by simpa using hlists
      exact cons_left (ih rfl)
    · obtain ⟨rfl, rfl, rfl⟩ : left = first ∧ right = x :: list ∧ [] = later := by
        simpa using hlists
      exact cons_right (ih rfl)
    · simp at hlists

theorem map (f : α → β) {lists : List (List α)} (h : IsInterleaving lists merged) :
    IsInterleaving (lists.map (List.map f)) (merged.map f) := by
  induction h with
  | nil hempty =>
    refine nil fun list hlist => ?_
    obtain ⟨source, hsource, rfl⟩ := List.mem_map.1 hlist
    rw [hempty source hsource, List.map_nil]
  | cons _ ih =>
    simp only [List.map_append, List.map_cons] at ih ⊢
    exact cons ih

theorem refl_left (left : List α) : IsInterleaving [left, []] left := by
  induction left with
  | nil => exact nil (by simp)
  | cons x left ih => exact cons_left ih

theorem refl_right (right : List α) : IsInterleaving [[], right] right := by
  induction right with
  | nil => exact nil (by simp)
  | cons x right ih => exact cons_right ih

/-- What the entries of a list contribute, in two parts for each of them. -/
theorem flatMap_pair {entries : List β} {leftOf rightOf mergedOf : β → List α}
    (h : ∀ entry ∈ entries, IsInterleaving [leftOf entry, rightOf entry] (mergedOf entry)) :
    IsInterleaving [entries.flatMap leftOf, entries.flatMap rightOf] (entries.flatMap mergedOf) := by
  induction entries with
  | nil => exact nil (by simp)
  | cons entry entries ih =>
    simp only [List.flatMap_cons]
    exact (h entry (by simp)).append_pair (ih fun other hother => h other (by simp [hother]))

/-- What some entries of a list contribute, and what the others do. -/
theorem flatMap_filter (entries : List β) (p : β → Bool) (f : β → List α) :
    IsInterleaving [(entries.filter p).flatMap f, (entries.filter (!p ·)).flatMap f]
      (entries.flatMap f) := by
  induction entries with
  | nil => exact nil (by simp)
  | cons entry entries ih =>
    cases hp : p entry with
    | true =>
      simp only [List.filter_cons, hp, Bool.not_true, if_true, Bool.false_eq_true, if_false,
        List.flatMap_cons]
      exact (refl_left (f entry)).append_pair ih
    | false =>
      simp only [List.filter_cons, hp, Bool.not_false, if_true, Bool.false_eq_true, if_false,
        List.flatMap_cons]
      exact (refl_right (f entry)).append_pair ih

end IsInterleaving

/-! ## What an undocumented declaration contributes -/

namespace Declaration

/-- The declaration has no doc comment, and the options ask for one. -/
def lacksDocumentation (options : Options) (declaration : Declaration) : Bool :=
  declaration.doc.isNone &&
    (declaration.kind != .enumMember || options.checkEnumMembers) &&
    (declaration.kind != .namespaceScope || options.requireDocumentationForNamespaces)

/-- The verdict that a declaration has no documentation. -/
def missingDocumentation (source : List Char) (declaration : Declaration) : Verdict :=
  { smell := .missingDocumentation, tagName := "", position := declaration.anchor,
    excerpt := declaration.heading source,
    details := [declaration.kind.displayName, declaration.name] }

/-- The first bare throw in the body. -/
def bareThrow? (declaration : Declaration) : Option Node :=
  declaration.form.body?.bind Rethrow.find?

/-- The verdict on a bare throw. -/
def uncheckedThrow (source : List Char) (declaration : Declaration) (rethrow : Node) : Verdict :=
  { smell := .rethrowCannotInferException, tagName := "exception", position := rethrow.start,
    excerpt := rethrow.text source, details := [declaration.name] }

/-- The declaration has neither a doc comment nor a bare throw. -/
def isIdle (declaration : Declaration) : Bool :=
  declaration.doc.isNone && declaration.bareThrow?.isNone

variable {options : Options} {source : List Char} {declaration : Declaration}

theorem covers_kind (options : Options) (kind : MemberKind) :
    options.covers kind = ((kind != .enumMember || options.checkEnumMembers) &&
      (kind != .namespaceScope || options.requireDocumentationForNamespaces)) := by
  cases kind <;> simp [Options.covers]

/-- Of documentation, the check of documentation reports that it is missing, if it is, and nothing
else. -/
theorem filter_documentationVerdicts (options : Options) (source : List Char)
    (declaration : Declaration) :
    (declaration.documentationVerdicts options source).filter (·.smell == .missingDocumentation) =
      if declaration.lacksDocumentation options then [declaration.missingDocumentation source]
      else [] := by
  unfold documentationVerdicts lacksDocumentation
  rw [Bool.and_assoc, ← covers_kind]
  cases hcovers : options.covers declaration.kind with
  | false => simp
  | true =>
    cases hdoc : declaration.doc with
    | none => simp [missingDocumentation]
    | some doc =>
      -- A comment that is there may be found wanting, but it is there.
      have hsummary : (summaryVerdicts doc).filter (·.smell == .missingDocumentation) = [] := by
        rw [List.filter_eq_nil_iff]
        unfold summaryVerdicts
        split
        · simp
        · split <;> simp [Verdict.ofElement]
      by_cases hneeds : options.needsSummary declaration.kind = true <;> simp [hneeds, hsummary]

/-- What an undocumented declaration contributes to the detectors: that its documentation is missing
and that there is a bare throw, as far as this is so. -/
theorem verdictsOn_of_doc_eq_none (h : declaration.doc = none) (detector : Detector) :
    detector.verdictsOn options source declaration =
      match detector with
      | .basic =>
        if declaration.lacksDocumentation options then [declaration.missingDocumentation source]
        else []
      | .exception => declaration.bareThrow?.toList.map (declaration.uncheckedThrow source)
      | _ => [] := by
  cases detector with
  | basic =>
    show declaration.documentationVerdicts options source = if _ then _ else _
    rw [← filter_documentationVerdicts, eq_comm, List.filter_eq_self]
    -- Without a comment there is nothing else to report.
    intro verdict hverdict
    simp only [documentationVerdicts, h] at hverdict
    split at hverdict
    · cases hverdict
    · obtain rfl := List.mem_singleton.1 hverdict
      rfl
  | exception =>
    simp only [Detector.verdictsOn, exceptionVerdicts, h, Option.map_none, Option.getD_none,
      List.nil_append, rethrowVerdict?, bareThrow?]
    cases declaration.form.body?.bind Rethrow.find? <;> rfl
  | wellFormed => rfl
  | memberTags => simp [Detector.verdictsOn, memberTagVerdicts, h]
  | returns => simp [Detector.verdictsOn, returnsVerdicts, h]
  | param => simp [Detector.verdictsOn, paramVerdicts, NamedTags.check, h]
  | typeParam => simp [Detector.verdictsOn, typeParamVerdicts, NamedTags.check, h]

end Declaration

/-! ## The analysis of a list of declarations -/

namespace Detector

/-- The verdicts of a detector on the given doc comments and declarations. -/
def verdictsOf (options : Options) (source : List Char) (docs : List DocComment)
    (declarations : List Declaration) : Detector → List Verdict
  | wellFormed => docs.flatMap (·.markupVerdicts)
  | detector => declarations.flatMap (detector.verdictsOn options source)

/-- The findings of all detectors on the given doc comments and declarations. -/
def analysis (options : Options) (path : String) (source : List Char) (docs : List DocComment)
    (declarations : List Declaration) : List Finding :=
  all.flatMap fun detector =>
    (detector.verdictsOf options source docs declarations).map (Finding.ofVerdict path source)

variable {options : Options} {path : String} {source : List Char}

theorem verdictsOf_eq_verdicts (detector : Detector) (file : SourceFile) :
    detector.verdictsOf options file.text file.docComments file.declarations =
      detector.verdicts options file := by
  cases detector <;> rfl

/-- What a detector makes of all declarations is what it makes of some of them and what it makes of
the others. -/
theorem isInterleaving_verdictsOf (detector : Detector) (options : Options) (source : List Char)
    (docs : List DocComment) (declarations : List Declaration) (p : Declaration → Bool) :
    IsInterleaving
      [detector.verdictsOf options source docs (declarations.filter p),
        (declarations.filter (!p ·)).flatMap (detector.verdictsOn options source)]
      (detector.verdictsOf options source docs declarations) := by
  cases detector with
  | wellFormed =>
    -- The markup is checked whatever is declared.
    have hnone : (declarations.filter (!p ·)).flatMap (wellFormed.verdictsOn options source) = [] := by
      simp [verdictsOn]
    rw [hnone]
    exact .refl_left _
  | _ => exact .flatMap_filter declarations p _

/-- Of several declarations that have neither a doc comment nor a bare throw, only that their
documentation is missing is reported. -/
theorem flatMap_verdictsOn_of_isIdle (detector : Detector) {declarations : List Declaration}
    (h : ∀ declaration ∈ declarations, declaration.isIdle = true) :
    declarations.flatMap (detector.verdictsOn options source) =
      if detector = basic then
        (declarations.filter (·.lacksDocumentation options)).map (·.missingDocumentation source)
      else [] := by
  induction declarations with
  | nil => simp
  | cons declaration declarations ih =>
    have hidle := h declaration (by simp)
    simp only [Declaration.isIdle, Bool.and_eq_true, Option.isNone_iff_eq_none] at hidle
    rw [List.flatMap_cons, ih fun other hother => h other (by simp [hother]),
      Declaration.verdictsOn_of_doc_eq_none hidle.1, hidle.2]
    cases detector <;> simp
    -- Only the check of documentation is left.
    cases hlacks : declaration.lacksDocumentation options <;> simp [hlacks]

/-- The analysis of all declarations is that of some of them, with the others reported for their
missing documentation, if these have neither a doc comment nor a bare throw. -/
theorem isInterleaving_analysis (options : Options) (path : String) (source : List Char)
    (docs : List DocComment) (declarations : List Declaration) :
    IsInterleaving
      [analysis options path source docs (declarations.filter (!·.isIdle)),
        (declarations.filter fun declaration =>
            declaration.isIdle && declaration.lacksDocumentation options).map
          fun declaration => Finding.ofVerdict path source (declaration.missingDocumentation source)]
      (analysis options path source docs declarations) := by
  have hparts := IsInterleaving.flatMap_pair fun detector (_ : detector ∈ all) =>
    (detector.isInterleaving_verdictsOf options source docs declarations (!·.isIdle)).map
      (Finding.ofVerdict path source)
  have hright : (all.flatMap fun detector =>
      ((declarations.filter (!!·.isIdle)).flatMap (detector.verdictsOn options source)).map
        (Finding.ofVerdict path source)) =
      (declarations.filter fun declaration =>
            declaration.isIdle && declaration.lacksDocumentation options).map
          fun declaration =>
            Finding.ofVerdict path source (declaration.missingDocumentation source) := by
    have hidle : ∀ declaration ∈ declarations.filter (!!·.isIdle), declaration.isIdle = true := by
      simp
    simp only [flatMap_verdictsOn_of_isIdle _ hidle]
    simp [all, List.filter_filter, Bool.and_comm, Function.comp_def]
  rw [← hright]
  exact hparts

end Detector

/-! ## The analysis of a file -/

namespace Code.SourceFile

/-- What undocumented declarations cost in the analysis of a file. -/
structure ReportsUndocumented (file : SourceFile) (options : Options) (path : String) : Prop where
  /-- The findings are those on the doc comments and the declarations of the file. -/
  findings_eq : file.findings options path =
    Detector.analysis options path file.text file.docComments file.declarations
  /-- Missing documentation is reported of the declarations that have none although the options ask
  for it, once for each of them and in their order, at the place that stands for the declaration. -/
  missing : (file.findings options path).filter (·.smell == .missingDocumentation) =
    (file.declarations.filter (·.lacksDocumentation options)).map fun declaration =>
      Finding.ofVerdict path file.text (declaration.missingDocumentation file.text)
  /-- That is all that a declaration without a doc comment contributes to any detector, but for a bare
  throw in its body. -/
  nothingElse : ∀ declaration ∈ file.declarations, declaration.doc = none →
    ∀ detector : Detector, detector.verdictsOn options file.text declaration =
      match detector with
      | .basic =>
        if declaration.lacksDocumentation options then
          [declaration.missingDocumentation file.text]
        else []
      | .exception => declaration.bareThrow?.toList.map (declaration.uncheckedThrow file.text)
      | _ => []
  /-- Without the declarations that have neither a doc comment nor a bare throw, the findings are the
  same but for those on the missing documentation of these declarations. -/
  removal : IsInterleaving
    [Detector.analysis options path file.text file.docComments
        (file.declarations.filter (!·.isIdle)),
      (file.declarations.filter fun declaration =>
          declaration.isIdle && declaration.lacksDocumentation options).map
        fun declaration =>
          Finding.ofVerdict path file.text (declaration.missingDocumentation file.text)]
    (file.findings options path)

variable {file : SourceFile} {options : Options} {path : String}

theorem findings_eq_analysis :
    file.findings options path =
      Detector.analysis options path file.text file.docComments file.declarations := by
  simp only [findings, Detector.findings, Detector.analysis, Detector.verdictsOf_eq_verdicts]

/-- No detector but that of documentation reports missing documentation. -/
theorem filter_verdicts_eq_nil {detector : Detector} (h : detector ≠ .basic) :
    (detector.verdicts options file).filter (·.smell == .missingDocumentation) = [] := by
  rw [List.filter_eq_nil_iff]
  intro verdict hverdict hsmell
  have hdetector := Detector.detector_of_mem_verdicts hverdict
  rw [eq_of_beq hsmell] at hdetector
  exact h hdetector.symm

theorem filter_verdicts_basic :
    (Detector.basic.verdicts options file).filter (·.smell == .missingDocumentation) =
      (file.declarations.filter (·.lacksDocumentation options)).map
        (·.missingDocumentation file.text) := by
  simp only [Detector.verdicts, List.filter_flatMap, Declaration.filter_documentationVerdicts]
  induction file.declarations with
  | nil => rfl
  | cons declaration declarations ih =>
    rw [List.flatMap_cons, ih]
    cases hlacks : declaration.lacksDocumentation options <;> simp [hlacks]

/-- An undocumented declaration costs one finding on its documentation, and no more. -/
theorem reportsUndocumented (file : SourceFile) (options : Options) (path : String) :
    file.ReportsUndocumented options path where
  findings_eq := findings_eq_analysis
  missing := by
    have hsmell (detector : Detector) :
        (detector.findings options path file).filter (·.smell == .missingDocumentation) =
          ((detector.verdicts options file).filter (·.smell == .missingDocumentation)).map
            (Finding.ofVerdict path file.text) := by
      rw [Detector.findings, List.filter_map]
      rfl
    simp only [findings, List.filter_flatMap, hsmell]
    -- Of the seven detectors, one has something to say.
    simp [Detector.all, filter_verdicts_eq_nil, filter_verdicts_basic]
  nothingElse declaration _ hdoc detector := Declaration.verdictsOn_of_doc_eq_none hdoc detector
  removal := by
    rw [findings_eq_analysis]
    exact Detector.isInterleaving_analysis options path file.text file.docComments file.declarations

end Code.SourceFile
end DocAudit
