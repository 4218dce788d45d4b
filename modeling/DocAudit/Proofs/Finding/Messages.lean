import DocAudit.Proofs.Detector.Rules
import DocAudit.Proofs.Finding.Places

/-!
# Messages

A message is made by filling the holes of a template one after the other, over the text that is already
filled: a hole that a detail brings along would be filled by a later detail. This never happens to a
finding. Only the last of its details comes from a source and may hold any text, and the details in
front of it are words of the vocabulary. So the message is what filling all holes at once gives.

* `Smell.pieces`: a template as characters and holes;
* `Smell.fillFrom_pieces`: when one hole after the other is as good as all at once;
* `Verdict.IsDetailed`: the details that detectors give;
* `Code.SourceFile.isFilledIn_of_mem_findings`: what the message of a finding says.
-/

namespace DocAudit

open Text

/-! ## Replacing a text that begins with a mark -/

namespace Text

variable {mark : Char} {pattern replacement xs ys : List Char}

theorem replaceFrom_length_append (pattern replacement xs ys : List Char) :
    replaceFrom pattern replacement xs.length (xs ++ ys) =
      replaceFrom pattern replacement 0 ys := by
  induction xs with
  | nil => rfl
  | cons x xs ih => exact ih

/-- An occurrence at the front gives way. -/
theorem replaceFrom_pattern_append (mark : Char) (pattern replacement ys : List Char) :
    replaceFrom (mark :: pattern) replacement 0 (mark :: pattern ++ ys) =
      replacement ++ replaceFrom (mark :: pattern) replacement 0 ys := by
  have hhead : dropHead? (mark :: pattern) (mark :: (pattern ++ ys)) = some ys :=
    dropHead?_eq_some_iff.2 rfl
  rw [List.cons_append, replaceFrom, hhead, Option.isSome_some, if_pos rfl, List.length_cons,
    Nat.add_sub_cancel, replaceFrom_length_append]

/-- What is no occurrence is kept. -/
theorem replaceFrom_cons_of_dropHead?_eq_none {c : Char} {cs : List Char}
    (h : dropHead? pattern (c :: cs) = none) :
    replaceFrom pattern replacement 0 (c :: cs) = c :: replaceFrom pattern replacement 0 cs := by
  rw [replaceFrom, h]
  rfl

/-- A text without the character that begins the pattern is kept, whatever comes behind it. -/
theorem replaceFrom_append_of_notMem (h : mark ∉ xs) (replacement ys : List Char) :
    replaceFrom (mark :: pattern) replacement 0 (xs ++ ys) =
      xs ++ replaceFrom (mark :: pattern) replacement 0 ys := by
  induction xs with
  | nil => rfl
  | cons x xs ih =>
    obtain ⟨hne, hmem⟩ := not_or.1 (mt List.mem_cons.2 h)
    have hhead : dropHead? (mark :: pattern) (x :: (xs ++ ys)) = none := by
      rw [dropHead?, if_neg hne]
    rw [List.cons_append, replaceFrom_cons_of_dropHead?_eq_none hhead, ih hmem, List.cons_append]

end Text

/-! ## Templates in pieces -/

namespace Smell

/-- A piece of a template. -/
inductive Piece
  /-- A character that stands for itself. -/
  | char (c : Char)
  /-- The place of a detail. -/
  | hole (index : Nat)
deriving DecidableEq, Repr

/-- The piece as the template has it. -/
def Piece.text : Piece → List Char
  | char c => [c]
  | hole index => Smell.hole index

/-- The piece with the details filled in. A hole without a detail stays as it is. -/
def Piece.fill (details : List String) : Piece → List Char
  | char c => [c]
  | hole index => ((details[index]?).map String.toList).getD (Smell.hole index)

/-- The number of the hole that begins a text. -/
def holeAt? (text : List Char) : Option Nat :=
  let index := Nat.ofDigitChars 10 ((text.drop 1).takeWhile Char.isDigit) 0
  if (dropHead? (hole index) text).isSome then some index else none

/-- The pieces of a text whose first `skip` characters belong to a hole already found. -/
def piecesFrom : (skip : Nat) → List Char → List Piece
  | _, [] => []
  | skip + 1, _ :: cs => piecesFrom skip cs
  | 0, c :: cs =>
    match holeAt? (c :: cs) with
    | some index => .hole index :: piecesFrom ((hole index).length - 1) cs
    | none => .char c :: piecesFrom 0 cs

/-- The template in pieces. -/
def pieces (smell : Smell) : List Piece :=
  piecesFrom 0 smell.template.toList

theorem eq_append_of_holeAt? {text : List Char} {index : Nat} (h : holeAt? text = some index) :
    ∃ rest, text = hole index ++ rest := by
  obtain ⟨hhead, hindex⟩ := Option.ite_none_right_eq_some.1 h
  obtain ⟨rest, hrest⟩ := Option.isSome_iff_exists.1 hhead
  exact ⟨rest, Option.some.inj hindex ▸ dropHead?_eq_some_iff.1 hrest⟩

theorem holeAt?_hole_append (index : Nat) (rest : List Char) :
    holeAt? (hole index ++ rest) = some index := by
  -- The digits end at the brace, and they are the number they came from.
  have hdigits : ∀ c ∈ Nat.toDigits 10 index, c.isDigit = true := fun c hc =>
    Nat.isDigit_of_mem_toDigits (by decide) (by decide) hc
  have htake : ((hole index ++ rest).drop 1).takeWhile Char.isDigit = Nat.toDigits 10 index := by
    simp [hole, List.takeWhile_append_of_pos hdigits, Char.isDigit]
  have hindex : Nat.ofDigitChars 10 (Nat.toDigits 10 index) 0 = index :=
    Nat.ofDigitChars_toDigits (by decide) (by decide)
  have hhead : dropHead? (hole index) (hole index ++ rest) = some rest :=
    dropHead?_eq_some_iff.2 rfl
  simp only [holeAt?, htake, hindex, hhead, Option.isSome_some, if_true]

/-- The pieces of a text make up the text. -/
theorem flatMap_text_piecesFrom (skip : Nat) (text : List Char) :
    (piecesFrom skip text).flatMap Piece.text = text.drop skip := by
  induction text generalizing skip with
  | nil => cases skip <;> rfl
  | cons c cs ih =>
    cases skip with
    | succ skip => exact ih skip
    | zero =>
      rw [piecesFrom]
      split
      · next index hindex =>
        obtain ⟨rest, hrest⟩ := eq_append_of_holeAt? hindex
        obtain ⟨rfl, rfl⟩ := List.cons.inj hrest
        rw [List.flatMap_cons, ih]
        simp [Piece.text, hole]
      · rw [List.flatMap_cons, ih]
        rfl

/-- There is a detail for every hole of the template if there are so many details, and all braces of
the template belong to its holes. -/
def isFilledBy (count : Nat) (smell : Smell) : Bool :=
  smell.pieces.all fun piece =>
    match piece with
    | .char c => c != '\x7b'
    | .hole index => index < count

/-! ## Filling one hole after the other -/

variable {details : List String} {pieces : List Piece}

/-- Another hole is kept. -/
theorem replaceFrom_hole_append {index other : Nat} (h : other ≠ index)
    (replacement ys : List Char) :
    replaceFrom (hole index) replacement 0 (hole other ++ ys) =
      hole other ++ replaceFrom (hole index) replacement 0 ys := by
  have hhead : dropHead? (hole index) (hole other ++ ys) = none := by
    rw [Option.eq_none_iff_forall_ne_some]
    intro rest hrest
    -- The number of a hole can be read off it.
    have hfirst := congrArg holeAt? (dropHead?_eq_some_iff.1 hrest)
    rw [holeAt?_hole_append, holeAt?_hole_append] at hfirst
    exact h (Option.some.inj hfirst)
  have hinside : '\x7b' ∉ Nat.toDigits 10 other ++ ['\x7d'] := by
    intro hmem
    rcases List.mem_append.1 hmem with hmem | hmem
    · have hdigit := Nat.isDigit_of_mem_toDigits (by decide) (by decide) hmem
      cases hdigit
    · cases List.mem_singleton.1 hmem
  refine (replaceFrom_cons_of_dropHead?_eq_none hhead).trans ?_
  exact congrArg _ (replaceFrom_append_of_notMem hinside replacement ys)

/-- One more detail is filled in, if those before it hold no brace. -/
theorem replaceAll_fill (hpieces : ∀ c, .char c ∈ pieces → c ≠ '\x7b')
    (hdetails : ∀ detail ∈ details, '\x7b' ∉ detail.toList) (detail : String) :
    replaceAll (hole details.length) detail.toList (pieces.flatMap (Piece.fill details)) =
      pieces.flatMap (Piece.fill (details ++ [detail])) := by
  rw [replaceAll]
  induction pieces with
  | nil => rfl
  | cons piece pieces ih =>
    have ih := ih fun c hc => hpieces c (List.mem_cons_of_mem _ hc)
    rw [List.flatMap_cons, List.flatMap_cons, ← ih]
    cases piece with
    | char c =>
      have hc : '\x7b' ∉ [c] := by simpa using (hpieces c List.mem_cons_self).symm
      exact replaceFrom_append_of_notMem hc _ _
    | hole index =>
      -- The hole is filled already, or its turn has come, or it is one of the later ones.
      rcases Nat.lt_trichotomy index details.length with hlt | rfl | hgt
      · have hplain := hdetails _ (List.getElem_mem hlt)
        simp only [Piece.fill, List.getElem?_append_left hlt, List.getElem?_eq_getElem hlt,
          Option.map_some, Option.getD_some]
        exact replaceFrom_append_of_notMem hplain _ _
      · simp only [Piece.fill, List.getElem?_concat_length, List.getElem?_eq_none le_rfl,
          Option.map_none, Option.getD_none, Option.map_some, Option.getD_some]
        exact replaceFrom_pattern_append ..
      · have hlong : (details ++ [detail]).length ≤ index := by
          rwa [List.length_append, List.length_singleton]
        simp only [Piece.fill, List.getElem?_eq_none hlong, List.getElem?_eq_none hgt.le,
          Option.map_none, Option.getD_none]
        exact replaceFrom_hole_append hgt.ne' _ _

/-- Filling one hole after the other fills all of them at once, when no detail but the last holds a
brace. -/
theorem fillFrom_pieces (hpieces : ∀ c, .char c ∈ pieces → c ≠ '\x7b') (before : List String)
    (hbefore : ∀ detail ∈ before, '\x7b' ∉ detail.toList)
    (hdetails : ∀ detail ∈ details.dropLast, '\x7b' ∉ detail.toList) :
    fillFrom before.length details (pieces.flatMap (Piece.fill before)) =
      pieces.flatMap (Piece.fill (before ++ details)) := by
  -- The details that are filled in move from the later ones to those before.
  induction details generalizing before with
  | nil => rw [fillFrom, List.append_nil]
  | cons detail details ih =>
    rw [fillFrom, replaceAll_fill hpieces hbefore]
    cases details with
    | nil => rfl
    | cons next details =>
      rw [List.dropLast_cons_of_ne_nil (List.cons_ne_nil _ _)] at hdetails
      obtain ⟨hplain, hlater⟩ := List.forall_mem_cons.1 hdetails
      have hfilled : ∀ other ∈ before ++ [detail], '\x7b' ∉ other.toList := by
        intro other hother
        rcases List.mem_append.1 hother with hother | hother
        · exact hbefore other hother
        · exact List.mem_singleton.1 hother ▸ hplain
      have hrest := ih (before ++ [detail]) hfilled hlater
      rwa [List.length_append, List.length_singleton, List.append_assoc] at hrest

variable {smell : Smell}

theorem template_eq (smell : Smell) : smell.template.toList = smell.pieces.flatMap Piece.text :=
  (flatMap_text_piecesFrom 0 smell.template.toList).symm

theorem ne_of_isFilledBy {count : Nat} (h : smell.isFilledBy count = true) {c : Char}
    (hc : .char c ∈ smell.pieces) : c ≠ '\x7b' := by
  simpa using List.all_eq_true.1 h _ hc

theorem lt_of_isFilledBy {count index : Nat} (h : smell.isFilledBy count = true)
    (hindex : .hole index ∈ smell.pieces) : index < count := by
  simpa using List.all_eq_true.1 h _ hindex

/-- The message of a smell, when there are details for all holes and only the last holds a brace. -/
theorem toList_message (hfilled : smell.isFilledBy details.length = true)
    (hdetails : ∀ detail ∈ details.dropLast, '\x7b' ∉ detail.toList) :
    (smell.message details).toList = smell.pieces.flatMap (Piece.fill details) := by
  -- At the start no hole is filled.
  have hempty : Piece.fill [] = Piece.text := by
    funext piece
    cases piece <;> rfl
  have hfill := fillFrom_pieces (fun c hc => ne_of_isFilledBy hfilled hc) [] (by simp) hdetails
  rw [hempty, ← template_eq] at hfill
  rw [message, String.toList_ofList]
  exact hfill

end Smell

/-! ## The details of verdicts -/

namespace Smell

/-- The number of details that come with a smell. -/
def detailCount : Smell → Nat
  | missingDocumentation | invalidTagOnMember => 2
  | unknownTag | missingEndTag | missingParamTag | emptyParamDescription | unknownParamTag
  | duplicateParamTag | missingTypeParamTag | emptyTypeParamDescription | unknownTypeParamTag
  | duplicateTypeParamTag | emptyExceptionDescription | duplicateExceptionTag
  | rethrowCannotInferException => 1
  | _ => 0

/-- So many details are enough for the template. -/
theorem isFilledBy_detailCount (smell : Smell) : smell.isFilledBy smell.detailCount = true := by
  cases smell <;> decide +kernel

end Smell

namespace Verdict

/-- The details of the verdict are those that its smell asks for. -/
structure IsDetailed (verdict : Verdict) : Prop where
  /-- There are as many as come with the smell. -/
  length_eq : verdict.details.length = verdict.smell.detailCount
  /-- Only the last may hold a brace. -/
  plain : ∀ detail ∈ verdict.details.dropLast, '\x7b' ∉ detail.toList

/-- A single detail may hold anything. -/
theorem isDetailed_of_length_le_one {verdict : Verdict}
    (hlength : verdict.details.length = verdict.smell.detailCount)
    (hle : verdict.details.length ≤ 1) : verdict.IsDetailed := by
  have hnone : verdict.details.dropLast = [] := by
    rw [← List.length_eq_zero_iff, List.length_dropLast]
    omega
  refine ⟨hlength, fun detail hdetail => ?_⟩
  rw [hnone] at hdetail
  cases hdetail

end Verdict

variable {verdict : Verdict}

namespace DocComment

variable {doc : DocComment}

theorem detailCount_of_formFault? {element : Markup.Element} {smell : Smell}
    (h : formFault? element = some smell) : smell.detailCount = 0 := by
  unfold formFault? at h
  split at h
  all_goals
    first
      | cases h
      | (split at h <;> cases h; rfl)

theorem isDetailed_of_mem_markupVerdicts (h : verdict ∈ doc.markupVerdicts) :
    verdict.IsDetailed := by
  rcases List.mem_append.1 h with h | h
  · obtain ⟨element, -, h⟩ := List.mem_flatMap.1 h
    rw [elementVerdicts, List.mem_append, List.mem_append] at h
    rcases h with (h | h) | h
    · split at h
      · cases h
      · obtain rfl := List.mem_singleton.1 h
        exact Verdict.isDetailed_of_length_le_one rfl (Nat.le_refl 1)
    · split at h
      · obtain rfl := List.mem_singleton.1 h
        exact Verdict.isDetailed_of_length_le_one rfl (Nat.le_refl 1)
      · cases h
    · obtain ⟨smell, hsmell, rfl⟩ := Option.map_eq_some_iff.1 (Option.mem_toList.1 h)
      exact Verdict.isDetailed_of_length_le_one (detailCount_of_formFault? hsmell).symm
        (Nat.zero_le 1)
  · obtain ⟨tag, -, -, rfl⟩ := exists_tag_of_mem_rawVerdicts h
    exact Verdict.isDetailed_of_length_le_one rfl (Nat.le_refl 1)

end DocComment

namespace NamedTags

/-- A verdict on named tags has the name for its only detail. -/
theorem length_details_of_mem_check {smells : Smells} {tagName : String}
    {declared? : Option (List DeclaredName)} {declaration : Declaration}
    (h : verdict ∈ check smells tagName declared? declaration) : verdict.details.length = 1 := by
  unfold check at h
  split at h
  · rcases List.mem_append.1 h with h | h
    · obtain ⟨fault, -, rfl⟩ := List.mem_map.1 h
      rfl
    · obtain ⟨name, -, rfl⟩ := List.mem_map.1 h
      rfl
  · cases h

end NamedTags

theorem Smell.detailCount_eq_one {smell : Smell}
    (h : smell.detector = .param ∨ smell.detector = .typeParam) : smell.detailCount = 1 := by
  cases smell <;> first | rfl | (rcases h with h | h <;> cases h)

theorem Smell.detailCount_eq_zero {smell : Smell} (h : smell.detector = .returns) :
    smell.detailCount = 0 := by
  cases smell <;> first | rfl | cases h

namespace Declaration

variable {declaration : Declaration} {source : List Char}

theorem notMem_displayName (kind : MemberKind) : '\x7b' ∉ kind.displayName.toList := by
  cases kind <;> decide

/-- The names of tags that are known hold no brace. -/
theorem notMem_of_isKnown {name : String} (h : Vocabulary.isKnown name = true) :
    '\x7b' ∉ name.toList := by
  have hknown : ∀ name ∈ Vocabulary.knownTags, '\x7b' ∉ name.toList := by decide +kernel
  exact hknown name (by simpa [Vocabulary.isKnown] using h)

theorem isDetailed_of_mem_documentationVerdicts {options : Options}
    (h : verdict ∈ declaration.documentationVerdicts options source) : verdict.IsDetailed := by
  unfold documentationVerdicts summaryVerdicts at h
  split at h
  · cases h
  · split at h
    · obtain rfl := List.mem_singleton.1 h
      refine ⟨rfl, fun detail hdetail => ?_⟩
      -- The word for the kind comes first, and the name of the declaration last.
      obtain rfl := List.mem_singleton.1 hdetail
      exact notMem_displayName declaration.kind
    · split at h
      · split at h
        · obtain rfl := List.mem_singleton.1 h
          exact Verdict.isDetailed_of_length_le_one rfl (Nat.zero_le 1)
        · split at h
          · cases h
          · obtain rfl := List.mem_singleton.1 h
            exact Verdict.isDetailed_of_length_le_one rfl (Nat.zero_le 1)
      · cases h

theorem details_of_returnsVerdict? {doc : DocComment} {shape : ReturnShape}
    {first? : Option Markup.Element}
    (h : returnsVerdict? source declaration doc shape first? = some verdict) :
    verdict.details = [] := by
  unfold returnsVerdict? at h
  split at h
  · obtain rfl := Option.some.inj h
    rfl
  · cases h
  · obtain rfl := Option.some.inj h
    rfl
  · split at h
    · cases h
    · obtain rfl := Option.some.inj h
      rfl

/-- No verdict on returns has any details. -/
theorem details_of_mem_returnsVerdicts (h : verdict ∈ declaration.returnsVerdicts source) :
    verdict.details = [] := by
  unfold returnsVerdicts at h
  split at h
  · rcases List.mem_append.1 h with h | h
    · obtain ⟨element, -, rfl⟩ := List.mem_map.1 h
      rfl
    · exact details_of_returnsVerdict? (Option.mem_toList.1 h)
  · cases h

theorem isDetailed_of_mem_returnsVerdicts (h : verdict ∈ declaration.returnsVerdicts source) :
    verdict.IsDetailed := by
  have hdetails := details_of_mem_returnsVerdicts h
  apply Verdict.isDetailed_of_length_le_one
  · rw [hdetails, Smell.detailCount_eq_zero (detector_of_mem_returnsVerdicts h)]
    rfl
  · rw [hdetails]
    exact Nat.zero_le 1

theorem isDetailed_of_mem_exceptionVerdicts (h : verdict ∈ declaration.exceptionVerdicts source) :
    verdict.IsDetailed := by
  rcases List.mem_append.1 h with h | h
  · cases hdoc : declaration.doc with
    | none => rw [hdoc] at h; cases h
    | some doc =>
      rw [hdoc] at h
      rcases List.mem_append.1 h with h | h
      · obtain ⟨tag, -, rfl⟩ := List.mem_map.1 h
        exact Verdict.isDetailed_of_length_le_one rfl (Nat.le_refl 1)
      · obtain ⟨tag, -, rfl⟩ := List.mem_map.1 h
        exact Verdict.isDetailed_of_length_le_one rfl (Nat.le_refl 1)
  · obtain ⟨rethrow, -, rfl⟩ := Option.map_eq_some_iff.1 (Option.mem_toList.1 h)
    exact Verdict.isDetailed_of_length_le_one rfl (Nat.le_refl 1)

theorem isDetailed_of_mem_memberTagVerdicts (h : verdict ∈ declaration.memberTagVerdicts) :
    verdict.IsDetailed := by
  unfold memberTagVerdicts at h
  split at h
  · cases h
  · obtain ⟨element, helement, rfl⟩ := List.mem_map.1 h
    refine ⟨rfl, fun detail hdetail => ?_⟩
    -- The name of the tag comes first, and only known tags are reported as misplaced.
    obtain rfl := List.mem_singleton.1 hdetail
    have hmisplaced := (List.mem_filter.1 helement).2
    exact notMem_of_isKnown (Bool.and_eq_true_iff.1 hmisplaced).1

/-- Every verdict on a declaration has the details that its smell asks for. -/
theorem isDetailed_of_mem_verdicts {options : Options}
    (h : verdict ∈ declaration.verdicts options source) : verdict.IsDetailed := by
  simp only [verdicts, List.mem_append] at h
  rcases h with ((((h | h) | h) | h) | h) | h
  · exact isDetailed_of_mem_documentationVerdicts h
  · have hdetector := NamedTags.detector_of_mem_check ⟨rfl, rfl, rfl, rfl⟩ h
    have hlength := NamedTags.length_details_of_mem_check h
    exact Verdict.isDetailed_of_length_le_one
      (hlength.trans (Smell.detailCount_eq_one (Or.inl hdetector)).symm) hlength.le
  · have hdetector := NamedTags.detector_of_mem_check ⟨rfl, rfl, rfl, rfl⟩ h
    have hlength := NamedTags.length_details_of_mem_check h
    exact Verdict.isDetailed_of_length_le_one
      (hlength.trans (Smell.detailCount_eq_one (Or.inr hdetector)).symm) hlength.le
  · exact isDetailed_of_mem_returnsVerdicts h
  · exact isDetailed_of_mem_exceptionVerdicts h
  · exact isDetailed_of_mem_memberTagVerdicts h

end Declaration

/-- Every verdict of a detector has the details that its smell asks for. -/
theorem Detector.isDetailed_of_mem_verdicts {options : Options} {file : Code.SourceFile}
    {detector : Detector} (h : verdict ∈ detector.verdicts options file) : verdict.IsDetailed := by
  rcases mem_verdicts_cases h with ⟨doc, -, h⟩ | ⟨declaration, -, h⟩
  · exact DocComment.isDetailed_of_mem_markupVerdicts h
  · exact Declaration.isDetailed_of_mem_verdicts h

/-! ## Messages of findings -/

/-- The message of a finding is the template of its smell with every hole filled in. -/
structure Finding.IsFilledIn (finding : Finding) : Prop where
  /-- The template is made of pieces, -/
  template_eq : finding.smell.template.toList = finding.smell.pieces.flatMap Smell.Piece.text
  /-- which tell all its holes: no brace stands for itself. -/
  ne_brace : ∀ c, .char c ∈ finding.smell.pieces → c ≠ '\x7b'
  /-- There is a detail for every hole. -/
  covered : ∀ index, .hole index ∈ finding.smell.pieces → index < finding.details.length
  /-- In the message each hole has given way to its detail, which stands there as it is. -/
  message_eq : finding.message.toList =
    finding.smell.pieces.flatMap (Smell.Piece.fill finding.details)

namespace Code.SourceFile

/-- The message of every finding is its template with every hole filled in, and no detail is changed
by what comes after it. -/
theorem isFilledIn_of_mem_findings {file : SourceFile} {options : Options} {path : String}
    {finding : Finding} (h : finding ∈ file.findings options path) : finding.IsFilledIn := by
  obtain ⟨detector, verdict, hverdict, rfl⟩ := exists_verdict_of_mem_findings h
  have hdetailed := Detector.isDetailed_of_mem_verdicts hverdict
  have hfilled : verdict.smell.isFilledBy verdict.details.length = true := by
    rw [hdetailed.length_eq]
    exact verdict.smell.isFilledBy_detailCount
  exact
    { template_eq := verdict.smell.template_eq
      ne_brace := fun _ hc => Smell.ne_of_isFilledBy hfilled hc
      covered := fun _ hindex => Smell.lt_of_isFilledBy hfilled hindex
      message_eq := Smell.toList_message hfilled hdetailed.plain }

/-- A target that looks like two holes is shown as it is written. -/
theorem isFilledIn_of_mem_findings_holesInTarget :
    let file := commentedClass "/// <exception cref='\x7b1\x7d\x7b0\x7d'/>"
    ∃ finding ∈ file.findings {} "a.cs", finding.smell = .emptyExceptionDescription ∧
      finding.message = "<exception> description for '\x7b1\x7d\x7b0\x7d' is empty." ∧
      finding.IsFilledIn := by
  intro file
  obtain ⟨finding, hmem, hsmell, hmessage⟩ : ∃ finding ∈ file.findings {} "a.cs",
      finding.smell = .emptyExceptionDescription ∧
        finding.message = "<exception> description for '\x7b1\x7d\x7b0\x7d' is empty." := by
    decide +kernel
  exact ⟨finding, hmem, hsmell, hmessage, isFilledIn_of_mem_findings hmem⟩

end Code.SourceFile
end DocAudit
