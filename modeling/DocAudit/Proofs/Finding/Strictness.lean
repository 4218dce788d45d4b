import DocAudit.Proofs.Finding.Undocumented

/-!
# Stricter options

An option that is on adds findings and takes none away. What it adds are findings of the check of
documentation, on the declarations it is about: all of them for enumeration members and namespaces, and
those on the summary for fields, since a field without any documentation is reported under all options.
What the other detectors find does not depend on the options.

* `Options.differOn`: what two values of the options do not agree about;
* `Declaration.documentationVerdicts_eq_filter`: the verdicts on one declaration;
* `Code.SourceFile.addsFindings`: the findings on a file.
-/

namespace DocAudit

open Code

/-! ## Comparing options -/

namespace Options

/-- Options are stricter when they have every option on that is on in the others. -/
instance : LE Options :=
  ⟨fun lax strict => ∀ key, lax.get key = true → strict.get key = true⟩

/-- One of two values of the options wants a smell of declarations of this kind reported, the other
does not. -/
def differOn (lax strict : Options) (kind : MemberKind) (smell : Smell) : Bool :=
  match kind with
  | .enumMember => lax.checkEnumMembers != strict.checkEnumMembers
  | .namespaceScope =>
    lax.requireDocumentationForNamespaces != strict.requireDocumentationForNamespaces
  | .field | .eventField =>
    lax.requireSummaryForFields != strict.requireSummaryForFields &&
      (smell == .missingSummary || smell == .emptySummary)
  | _ => false

variable {lax strict : Options} {kind : MemberKind} {smell : Smell}

/-- What is checked under lax options is checked under strict ones. -/
theorem covers_of_le (h : lax ≤ strict) (hcovers : lax.covers kind = true) :
    strict.covers kind = true := by
  cases kind with
  | enumMember => exact h .checkEnumMembers hcovers
  | namespaceScope => exact h .requireDocumentationForNamespaces hcovers
  | _ => rfl

theorem needsSummary_of_le (h : lax ≤ strict) (hneeds : lax.needsSummary kind = true) :
    strict.needsSummary kind = true := by
  cases kind with
  | field => exact h .requireSummaryForFields hneeds
  | eventField => exact h .requireSummaryForFields hneeds
  | _ => rfl

/-- Kinds that only the strict options cover are those that the options differ on. -/
theorem differOn_of_not_covers (hlax : lax.covers kind = false)
    (hstrict : strict.covers kind = true) : lax.differOn strict kind smell = true := by
  cases kind <;> simp_all [covers, differOn]

/-- When both values of the options cover a kind, they may differ on summaries. -/
theorem differOn_of_covers (hlax : lax.covers kind = true) (hstrict : strict.covers kind = true) :
    lax.differOn strict kind smell =
      (lax.needsSummary kind != strict.needsSummary kind &&
        (smell == .missingSummary || smell == .emptySummary)) := by
  cases kind <;> simp_all [covers, needsSummary, differOn]

end Options

/-! ## Verdicts on one declaration -/

namespace Declaration

variable {lax strict : Options}

/-- What a summary can be reported for. -/
theorem smell_of_mem_summaryVerdicts {doc : DocComment} {verdict : Verdict}
    (h : verdict ∈ summaryVerdicts doc) :
    verdict.smell = .missingSummary ∨ verdict.smell = .emptySummary := by
  unfold summaryVerdicts at h
  split at h
  · obtain rfl := List.mem_singleton.1 h
    exact Or.inl rfl
  · split at h
    · cases h
    · obtain rfl := List.mem_singleton.1 h
      exact Or.inr rfl

/-- Under lax options the documentation of a declaration gets the verdicts it gets under strict ones,
without those that the options differ on. -/
theorem documentationVerdicts_eq_filter (h : lax ≤ strict) (source : List Char)
    (declaration : Declaration) :
    declaration.documentationVerdicts lax source =
      (declaration.documentationVerdicts strict source).filter fun verdict =>
        !lax.differOn strict declaration.kind verdict.smell := by
  unfold documentationVerdicts
  cases hlax : lax.covers declaration.kind with
  | false =>
    -- The declaration is not looked at, so all that is said of it under strict options is new.
    cases hstrict : strict.covers declaration.kind with
    | false => rfl
    | true =>
      symm
      rw [Bool.not_false, if_pos rfl, List.filter_eq_nil_iff]
      intro verdict _
      simp [Options.differOn_of_not_covers hlax hstrict]
  | true =>
    have hstrict := Options.covers_of_le h hlax
    simp only [hstrict, Bool.not_true, Bool.false_eq_true, if_false,
      Options.differOn_of_covers hlax hstrict]
    cases declaration.doc with
    | none => simp
    | some doc =>
      -- The comment is there, and at most its summary is reported.
      have hsummary : ∀ verdict ∈ summaryVerdicts doc,
          (verdict.smell == .missingSummary || verdict.smell == .emptySummary) = true := by
        intro verdict hverdict
        simpa using smell_of_mem_summaryVerdicts hverdict
      cases hneeds : lax.needsSummary declaration.kind with
      | true => simp [Options.needsSummary_of_le h hneeds]
      | false =>
        cases strict.needsSummary declaration.kind with
        | false => simp
        | true => simpa [or_iff_not_imp_left] using hsummary

end Declaration

/-! ## Findings on a file -/

/-- Each of the lists that are interleaved is a part of the result. -/
theorem IsInterleaving.sublist {α : Type} {lists : List (List α)} {list merged : List α}
    (h : IsInterleaving lists merged) (hlist : list ∈ lists) : list.Sublist merged := by
  induction h generalizing list with
  | nil hempty =>
    rw [hempty list hlist]
  | @cons earlier later x rest merged _ ih =>
    rcases List.mem_append.1 hlist with hlist | hlist
    · exact (ih (by simp [hlist])).cons x
    · rcases List.mem_cons.1 hlist with rfl | hlist
      · exact (ih (by simp)).cons_cons x
      · exact (ih (by simp [hlist])).cons x

/-- The entries of a list that satisfy a condition, and the others. -/
theorem IsInterleaving.filter_not {α : Type} (entries : List α) (p : α → Bool) :
    IsInterleaving [entries.filter (!p ·), entries.filter p] entries := by
  have h := flatMap_filter entries (!p ·) fun entry => [entry]
  simpa using h

namespace Code.SourceFile

/-- The findings on the documentation of declarations that are made under strict options and not
under lax ones. -/
def addedFindings (file : SourceFile) (lax strict : Options) (path : String) : List Finding :=
  file.declarations.flatMap fun declaration =>
    ((declaration.documentationVerdicts strict file.text).filter fun verdict =>
      lax.differOn strict declaration.kind verdict.smell).map (Finding.ofVerdict path file.text)

/-- What becomes of the findings on a file when the options get stricter. -/
structure AddsFindings (file : SourceFile) (lax strict : Options) (path : String) : Prop where
  /-- No finding goes away, and those that stay keep their order. -/
  sublist : (file.findings lax path).Sublist (file.findings strict path)
  /-- What is new are findings on the documentation of the declarations that the options differ
  on. -/
  added : IsInterleaving [file.findings lax path, file.addedFindings lax strict path]
    (file.findings strict path)
  /-- Every other detector makes the same findings. -/
  others : ∀ detector : Detector, detector ≠ .basic →
    detector.findings lax path file = detector.findings strict path file
  /-- In the report these are in the same order too. -/
  others_order :
    ((file.findings lax path).filter fun finding => finding.smell.detector != .basic) =
      (file.findings strict path).filter fun finding => finding.smell.detector != .basic

variable {lax strict : Options} {file : SourceFile} {path : String}

/-- The options matter for the check of documentation only. -/
theorem findings_eq_of_ne_basic {detector : Detector} (h : detector ≠ .basic) :
    detector.findings lax path file = detector.findings strict path file := by
  cases detector with
  | basic => exact absurd rfl h
  | _ => rfl

theorem isInterleaving_findings_basic (h : lax ≤ strict) :
    IsInterleaving
      [Detector.basic.findings lax path file, file.addedFindings lax strict path]
      (Detector.basic.findings strict path file) := by
  have hparts := IsInterleaving.flatMap_pair fun declaration (_ : declaration ∈ file.declarations) =>
    (IsInterleaving.filter_not (declaration.documentationVerdicts strict file.text) fun verdict =>
      lax.differOn strict declaration.kind verdict.smell).map (Finding.ofVerdict path file.text)
  simpa only [Detector.findings, Detector.verdicts, List.map_flatMap, addedFindings,
    Declaration.documentationVerdicts_eq_filter h] using hparts

theorem isInterleaving_findings (h : lax ≤ strict) :
    IsInterleaving [file.findings lax path, file.addedFindings lax strict path]
      (file.findings strict path) := by
  have hadded : (Detector.all.flatMap fun detector =>
      if detector = .basic then file.addedFindings lax strict path else []) =
      file.addedFindings lax strict path := by
    simp [Detector.all]
  rw [← hadded]
  apply IsInterleaving.flatMap_pair
  intro detector _
  by_cases hbasic : detector = .basic
  · rw [hbasic, if_pos rfl]
    exact isInterleaving_findings_basic h
  · rw [if_neg hbasic, findings_eq_of_ne_basic hbasic]
    exact .refl_left _

/-- The findings of one detector are those with its smells. -/
theorem filter_findings_eq (file : SourceFile) (lax strict : Options) (path : String)
    (detector : Detector) :
    ((detector.findings lax path file).filter fun finding => finding.smell.detector != .basic) =
      (detector.findings strict path file).filter fun finding => finding.smell.detector != .basic := by
  by_cases hbasic : detector = .basic
  · have hnone (options : Options) : ((Detector.basic.findings options path file).filter fun finding =>
        finding.smell.detector != .basic) = [] := by
      rw [List.filter_eq_nil_iff]
      intro finding hfinding
      obtain ⟨verdict, hverdict, rfl⟩ := List.mem_map.1 hfinding
      have hdetector : (Finding.ofVerdict path file.text verdict).smell.detector = .basic :=
        Detector.detector_of_mem_verdicts hverdict
      simp [hdetector]
    rw [hbasic, hnone, hnone]
  · rw [findings_eq_of_ne_basic hbasic]

/-- Stricter options add findings on the documentation of the declarations they are about, and change
nothing else. -/
theorem addsFindings (h : lax ≤ strict) (file : SourceFile) (path : String) :
    file.AddsFindings lax strict path where
  sublist := (isInterleaving_findings h).sublist (by simp)
  added := isInterleaving_findings h
  others _ hbasic := findings_eq_of_ne_basic hbasic
  others_order := by
    simp only [findings, List.filter_flatMap, filter_findings_eq file lax strict path]

/-- A namespace with a class that has a field with an empty comment and one without any comment, and
with an enumeration that has one member. -/
def mixedNamespace : SourceFile where
  text := "namespace N\x7bclass C\x7bint x;///\nint y;\x7denum E\x7bA\x7d\x7d".toList
  root :=
    .mk ⟨"compilation_unit", true, false, 0, 47, none⟩
      [.mk ⟨"namespace_declaration", true, false, 0, 47, none⟩
        [.mk ⟨"identifier", true, false, 10, 11, some "name"⟩ [],
          .mk ⟨"declaration_list", true, false, 11, 47, some "body"⟩
            [.mk ⟨"class_declaration", true, false, 12, 37, none⟩
              [.mk ⟨"identifier", true, false, 18, 19, some "name"⟩ [],
                .mk ⟨"declaration_list", true, false, 19, 37, some "body"⟩
                  [field 20 26, .mk ⟨"comment", true, false, 26, 29, none⟩ [], field 30 36]],
              .mk ⟨"enum_declaration", true, false, 37, 46, none⟩
                [.mk ⟨"identifier", true, false, 42, 43, some "name"⟩ [],
                  .mk ⟨"enum_member_declaration_list", true, false, 43, 46, some "body"⟩
                    [.mk ⟨"enum_member_declaration", true, false, 44, 45, none⟩
                      [.mk ⟨"identifier", true, false, 44, 45, some "name"⟩ []]]]]]]
  hasErrors := false
where
  /-- A field with a name of one letter in front of the sign that ends it. -/
  field (start stop : Nat) : Node :=
    .mk ⟨"field_declaration", true, false, start, stop, none⟩
      [.mk ⟨"variable_declaration", true, false, start, stop - 1, none⟩
        [.mk ⟨"predefined_type", true, false, start, start + 3, some "type"⟩ [],
          .mk ⟨"variable_declarator", true, false, stop - 2, stop - 1, none⟩
            [.mk ⟨"identifier", true, false, stop - 2, stop - 1, some "name"⟩ []]]]

/-- The three options together add a finding on the namespace, one on the summary of the field that has
a comment, and one on the enumeration member. The field without a comment is reported anyway. -/
theorem addsFindings_mixedNamespace :
    let lax : Options := ⟨false, false, false⟩
    let strict : Options := ⟨true, true, true⟩
    lax ≤ strict ∧ mixedNamespace.AddsFindings lax strict "a.cs" ∧
      (mixedNamespace.findings lax "a.cs").map Finding.display =
        ["a.cs(1,19): DOC100 Missing XML documentation for type 'C'.",
          "a.cs(1,25): DOC100 Missing XML documentation for field 'x'.",
          "a.cs(2,13): DOC100 Missing XML documentation for type 'E'."] ∧
      (mixedNamespace.addedFindings lax strict "a.cs").map Finding.display =
        ["a.cs(1,11): DOC100 Missing XML documentation for namespace 'N'.",
          "a.cs(1,27): DOC200 Missing <summary> in XML documentation.",
          "a.cs(2,15): DOC100 Missing XML documentation for enum member 'A'."] := by
  intro lax strict
  have hle : lax ≤ strict := by
    intro key h
    cases key <;> rfl
  exact ⟨hle, addsFindings hle mixedNamespace "a.cs", by decide +kernel, by decide +kernel⟩

end Code.SourceFile
end DocAudit
