import DocAudit.Proofs.Detector.TagSearch
import DocAudit.Proofs.Finding.Uniqueness

/-!
# Tags without an end tag

A doc comment is said to lack an end tag where a container of its forest has none, and where its text
shows the start tag of a container that no end tag follows. A place at which both is the case is
reported once. So what is reported can be told from the elements and from the letters of the text.

* `DocComment.accusedPositions`: the places that are reported, in their order;
* `DocComment.map_position_atNewPlaces`: a place that is reported is not reported again;
* `Markup.Element.IsUnprefixed.exists_shows`: the text shows the start tags of the containers whose
  names are given without a prefix;
* `DocComment.reportsUnclosedTags`: what is reported, once and in which order.
-/

namespace DocAudit

open Markup Text

namespace RawTag

/-- The name of a container is one in running text too. -/
theorem continuesName_of_isContainer {name : List Char}
    (h : Vocabulary.isContainer (String.ofList name) = true) :
    name.head?.any startsName = true ∧ ∀ c ∈ name, continuesName c = true := by
  have hall : Vocabulary.containerTags.all (fun container =>
      container.toList.head?.any startsName && container.toList.all startsName) = true := by
    decide +kernel
  have hname := List.all_eq_true.1 hall _ (List.contains_iff_mem.1 h)
  rw [String.toList_ofList, Bool.and_eq_true, List.all_eq_true] at hname
  exact hname.imp_right fun hstarts c hc => continuesName_of_startsName (hstarts c hc)

/-- A blank of markup ends a name. -/
theorem continuesName_of_isSpace {c : Char} (h : isSpace c = true) : continuesName c = false := by
  simp only [isSpace, Bool.or_eq_true, beq_iff_eq] at h
  rcases h with ((rfl | rfl) | rfl) | rfl <;> decide

end RawTag

/-- The start tag of the element gives its name without a prefix. -/
def Markup.Element.IsUnprefixed (cs : List Char) (element : Element) : Prop :=
  ∃ reading ∈ (Forest.readings cs).1, reading.opening? cs = some element.tag.opening ∧
    ∃ name attributes, reading.event = .startTag name attributes ∧ ':' ∉ name

/-- Running text shows such a start tag of a container by its name. -/
theorem Markup.Element.IsUnprefixed.exists_shows {cs : List Char} {element : Element}
    (h : element.IsUnprefixed cs) (hmark : cs.head? ≠ some '\uFEFF')
    (hcontainer : Vocabulary.isContainer element.tag.name = true) :
    ∃ inside after,
      RawTag.Shows cs element.tag.span.start element.tag.name.toList inside after := by
  obtain ⟨reading, hreading, hopening, name, attributes, hevent, hprefix⟩ := h
  obtain ⟨before, xs, rest, rfl, hplace, hscan⟩ :=
    Forest.exists_scan_of_opening? hreading hopening hmark
  have htext := Event.isTagText_of_scan hscan
  have hspaced := Event.isSpaced_of_scan hscan
  rw [hevent] at htext hspaced
  have hname : element.tag.name = String.ofList name := by
    rw [← localName_of_notMem hprefix]
    exact Reading.name_of_opening? hevent hopening
  rw [hname] at hcontainer ⊢
  obtain ⟨hstarts, hcontinues⟩ := RawTag.continuesName_of_isContainer hcontainer
  -- A blank or the `>` of the tag ends the name.
  have hstop : ∀ c ∈ (attributes ++ '>' :: rest).head?, RawTag.continuesName c = false := by
    cases attributes with
    | nil =>
      intro c hc
      obtain rfl := Option.some.inj hc
      decide
    | cons first attributes =>
      exact fun c hc => RawTag.continuesName_of_isSpace (hspaced.2 c hc)
  obtain ⟨shown, inside, closing, after, hsplits⟩ :=
    RawTag.exists_splits (name ++ (attributes ++ '>' :: rest))
  have hshown : shown = name := by
    have hread := congrArg RawTag.name (hsplits.ofText_eq 0)
    rw [RawTag.name_ofText, takeWhile_append_stop hcontinues hstop] at hread
    exact hread.symm
  subst hshown
  rw [String.toList_ofList]
  refine ⟨inside, after, before, shown ++ (attributes ++ '>' :: rest), closing, hplace, ?_, hstarts,
    hsplits⟩
  rw [htext]
  simp

namespace DocComment

variable {doc : DocComment}

/-! ## The places that are reported -/

/-- The places at which the doc comment is said to lack an end tag, in the order of the verdicts. -/
def accusedPositions (doc : DocComment) : List Nat :=
  (doc.markupVerdicts.filter (·.smell == .missingEndTag)).map (·.position)

/-- A place is reported if it has not been before. -/
theorem map_position_atNewPlaces {places : List Nat} {verdicts : List Verdict}
    (h : (verdicts.map (·.position)).Nodup) :
    (atNewPlaces places verdicts).map (·.position) =
      (verdicts.map (·.position)).filter (· ∉ places) := by
  induction verdicts generalizing places with
  | nil => rfl
  | cons verdict verdicts ih =>
    rw [List.map_cons, List.nodup_cons] at h
    rw [atNewPlaces, List.map_cons]
    split
    · next hknown =>
      rw [List.filter_cons_of_neg (by simpa using hknown), ih h.2]
    · next hnew =>
      rw [List.filter_cons_of_pos (by simpa using hnew), List.map_cons, ih h.2]
      -- No later verdict is at the place that is reported now.
      refine congrArg _ (List.filter_congr fun position hposition => ?_)
      have hne : position ≠ verdict.position := fun heq => h.1 (heq ▸ hposition)
      simp [hne]

/-- The verdicts on an element include at most one on its end tag. -/
theorem filter_elementVerdicts (element : Element) :
    (doc.elementVerdicts element).filter (·.smell == .missingEndTag) =
      if isUnclosed element then [.ofElement doc element .missingEndTag [element.tag.name]]
      else [] := by
  have hform : (((formFault? element).map fun smell =>
      Verdict.ofElement doc element smell []).toList).filter (·.smell == .missingEndTag) = [] := by
    rw [List.filter_eq_nil_iff]
    intro verdict hverdict hsmell
    obtain ⟨smell, hfault, rfl⟩ := Option.map_eq_some_iff.1 (Option.mem_toList.1 hverdict)
    exact (formFault?_ne hfault).2 (beq_iff_eq.1 hsmell)
  rw [elementVerdicts, List.filter_append, List.filter_append, hform, List.append_nil]
  split <;> split <;> rfl

/-- For the elements, the places of the containers without an end tag are reported. -/
theorem map_position_filter_elementVerdicts (elements : List Element) :
    ((elements.flatMap doc.elementVerdicts).filter (·.smell == .missingEndTag)).map (·.position) =
      (elements.filter isUnclosed).map doc.positionOf := by
  induction elements with
  | nil => rfl
  | cons element elements ih =>
    rw [List.flatMap_cons, List.filter_append, List.map_append, ih, filter_elementVerdicts]
    cases hunclosed : isUnclosed element <;> simp [hunclosed, Verdict.ofElement]

/-- All verdicts on the text are on end tags. -/
theorem filter_rawVerdicts :
    doc.rawVerdicts.filter (·.smell == .missingEndTag) = doc.rawVerdicts := by
  rw [List.filter_eq_self]
  intro verdict hverdict
  obtain ⟨tag, -, -, rfl⟩ := exists_tag_of_mem_rawVerdicts hverdict
  rfl

/-- The offsets of the start tags that the text shows without an end tag. -/
def unclosedOffsets (doc : DocComment) : List Nat :=
  ((RawTag.all 0 doc.markup).filter RawTag.isUnclosed).map RawTag.start

section LiesIn

variable {source : List Char} (hlies : Comment.LiesIn source doc.start doc.stop doc.lines)
include hlies

/-- Different `<` have different places. -/
theorem sourceOffset_eq_iff {i j : Nat} (hi : StandsAt '<' i doc.markup)
    (hj : StandsAt '<' j doc.markup) : doc.sourceOffset i = doc.sourceOffset j ↔ i = j := by
  refine ⟨fun heq => ?_, fun heq => heq ▸ rfl⟩
  by_contra hne
  rcases Nat.lt_or_gt_of_ne hne with hlt | hgt
  · exact Nat.ne_of_lt (hlies.sourceOffset_lt doc.start (by decide) hi hlt) heq
  · exact Nat.ne_of_lt (hlies.sourceOffset_lt doc.start (by decide) hj hgt) heq.symm

/-- The start tags of the text have different places, in the order of the text. -/
theorem pairwise_sourceOffset_unclosedOffsets :
    (doc.unclosedOffsets.map doc.sourceOffset).Pairwise (· < ·) := by
  rw [unclosedOffsets, List.pairwise_map, List.pairwise_map]
  refine ((RawTag.pairwise_start_all 0 doc.markup).sublist List.filter_sublist).imp_of_mem ?_
  intro tag later htag _ hlt
  exact hlies.sourceOffset_lt doc.start (by decide)
    (RawTag.standsAt_of_mem_all (List.mem_filter.1 htag).1) hlt

theorem accusedPositions_eq : doc.accusedPositions = doc.unclosedPositions ++
    (doc.unclosedOffsets.map doc.sourceOffset).filter (· ∉ doc.unclosedPositions) := by
  have hnodup := (pairwise_sourceOffset_unclosedOffsets hlies).imp fun hlt => Nat.ne_of_lt hlt
  have hraw : (((RawTag.all 0 doc.markup).filter RawTag.isUnclosed).map doc.rawVerdict).map
      (·.position) = doc.unclosedOffsets.map doc.sourceOffset := by
    rw [unclosedOffsets, List.map_map, List.map_map]
    rfl
  rw [accusedPositions, markupVerdicts, List.filter_append, List.map_append,
    map_position_filter_elementVerdicts, filter_rawVerdicts, rawVerdicts,
    map_position_atNewPlaces (hraw ▸ hnodup), hraw, unclosedPositions]

end LiesIn

/-- What is said about the end tags of a doc comment. -/
structure ReportsUnclosedTags (doc : DocComment) : Prop where
  /-- First come the containers of the forest whose end tags never came. Then come the start tags that
  the text shows without an end tag, in the order of the text, but for those at the places of such
  containers. -/
  exists_offsets : ∃ offsets : List Nat,
    (∀ offset, offset ∈ offsets ↔ RawTag.IsUnclosedAt doc.markup offset) ∧
    offsets.Pairwise (· < ·) ∧ (offsets.map doc.sourceOffset).Pairwise (· < ·) ∧
    doc.accusedPositions = doc.unclosedPositions ++
      (offsets.map doc.sourceOffset).filter (· ∉ doc.unclosedPositions)
  /-- The containers come in document order. -/
  pairwise_unclosedPositions : doc.unclosedPositions.Pairwise (· < ·)
  /-- So all places of the two kinds are reported, and no others, -/
  mem_iff : ∀ position, position ∈ doc.accusedPositions ↔
    (∃ element ∈ doc.elements, Vocabulary.isContainer element.tag.name = true ∧
      element.tag.closing = .missing ∧ doc.positionOf element = position) ∨
    ∃ offset, RawTag.IsUnclosedAt doc.markup offset ∧ doc.sourceOffset offset = position
  /-- each of them once. -/
  nodup : doc.accusedPositions.Nodup
  /-- An element and a start tag of the text have one place if they have one offset. -/
  position_eq_iff : ∀ element ∈ doc.elements, ∀ offset, RawTag.IsUnclosedAt doc.markup offset →
    (doc.positionOf element = doc.sourceOffset offset ↔ element.tag.span.start = offset)
  /-- The text can be searched from the end of each tag that is found. -/
  search_eq : RawTag.search 0 doc.markup = RawTag.all 0 doc.markup
  /-- The start tag of a container, given without a prefix, is shown by the text. So the container is
  reported unless an end tag follows, also when it is left open where reading broke off. -/
  unprefixed : ∀ element ∈ doc.elements, Vocabulary.isContainer element.tag.name = true →
    element.IsUnprefixed doc.markup → ∃ inside after,
      RawTag.Shows doc.markup element.tag.span.start element.tag.name.toList inside after ∧
      (¬RawTag.EndsInSlash inside → ¬RawTag.HasEndTag element.tag.name.toList after →
        doc.positionOf element ∈ doc.accusedPositions)

theorem mem_unclosedPositions_iff {position : Nat} : position ∈ doc.unclosedPositions ↔
    ∃ element ∈ doc.elements, Vocabulary.isContainer element.tag.name = true ∧
      element.tag.closing = .missing ∧ doc.positionOf element = position := by
  simp only [unclosedPositions, List.mem_map, List.mem_filter, isUnclosed, Bool.and_eq_true,
    beq_iff_eq, and_assoc]

/-- The end tags of the doc comment that comments of a source make are reported exactly. -/
theorem reportsUnclosedTags {source : List Char} {comments : List Code.Node}
    (hdoc : ofNodes? source comments = some doc)
    (hplaces : ∀ comment ∈ comments, comment.start ≤ comment.stop ∧
      isBoundary comment.start source = true ∧ isBoundary comment.stop source = true)
    (hapart : comments.Pairwise fun comment later => comment.stop ≤ later.start)
    (hmark : doc.markup.head? ≠ some '\uFEFF') : doc.ReportsUnclosedTags := by
  have hlies := liesIn_of_ofNodes? hdoc hplaces hapart
  have haccused := accusedPositions_eq hlies
  have hoffsets : ∀ offset, offset ∈ doc.unclosedOffsets ↔ RawTag.IsUnclosedAt doc.markup offset :=
    fun _ => RawTag.mem_map_start_filter_iff
  have helements : doc.unclosedPositions.Pairwise (· < ·) :=
    List.pairwise_map.2 ((KeepsPlaces.of_liesIn hlies hmark).sublist List.filter_sublist)
  have htext := pairwise_sourceOffset_unclosedOffsets hlies
  have hmem : ∀ position, position ∈ doc.accusedPositions ↔
      position ∈ doc.unclosedPositions ∨
        ∃ offset, RawTag.IsUnclosedAt doc.markup offset ∧ doc.sourceOffset offset = position := by
    intro position
    simp only [haccused, List.mem_append, List.mem_filter, List.mem_map, hoffsets,
      decide_eq_true_eq]
    tauto
  refine ⟨⟨doc.unclosedOffsets, hoffsets, ?offsets, htext, haccused⟩, helements, ?mem, ?nodup,
    ?position, RawTag.search_eq_all 0 doc.markup, ?unprefixed⟩
  case offsets =>
    exact List.pairwise_map.2 ((RawTag.pairwise_start_all 0 doc.markup).sublist List.filter_sublist)
  case mem =>
    intro position
    rw [hmem, mem_unclosedPositions_iff]
  case nodup =>
    -- What the text adds is at none of the places of the elements.
    rw [haccused, List.nodup_append]
    refine ⟨helements.imp Nat.ne_of_lt, (htext.imp Nat.ne_of_lt).sublist List.filter_sublist, ?_⟩
    rintro position helement _ hfiltered rfl
    exact of_decide_eq_true (List.mem_filter.1 hfiltered).2 helement
  case position =>
    -- A `<` stands at both offsets.
    intro element helement offset hunclosed
    rw [elements, doc.forest_eq] at helement
    obtain ⟨tag, htag, rfl⟩ := List.mem_map.1 ((hoffsets offset).2 hunclosed)
    exact sourceOffset_eq_iff hlies (Forest.standsAt_start helement hmark)
      (RawTag.standsAt_of_mem_all (List.mem_filter.1 htag).1)
  case unprefixed =>
    -- The forest is not asked how the element ended: the text alone decides.
    intro element _ hcontainer hunprefixed
    obtain ⟨inside, after, hshows⟩ := hunprefixed.exists_shows hmark hcontainer
    refine ⟨inside, after, hshows, fun hslash hends => (hmem _).2 (Or.inr ?_)⟩
    rw [← String.ofList_toList (s := element.tag.name)] at hcontainer
    exact ⟨element.tag.span.start, ⟨_, inside, after, hshows, hcontainer, hslash, hends⟩, rfl⟩

/-- A comment whose first container lacks its end tag, and which breaks off in the tag of a third while
a second is open. -/
theorem reportsUnclosedTags_brokenTag :
    let source := "/// <summary><c>x</summary><para>y <b".toList
    let comments := [Code.Node.mk ⟨"comment", true, false, 0, 37, none⟩ []]
    ∃ doc, ofNodes? source comments = some doc ∧
      (∀ comment ∈ comments, comment.start ≤ comment.stop ∧
        isBoundary comment.start source = true ∧ isBoundary comment.stop source = true) ∧
      (comments.Pairwise fun comment later => comment.stop ≤ later.start) ∧
      doc.markup.head? ≠ some '\uFEFF' ∧ doc.elements.map (fun element => element.tag.closing) =
        [.endTag, .missing, .unknown] ∧
      doc.accusedPositions = [13, 27, 35] ∧ doc.ReportsUnclosedTags := by
  intro source comments
  have hplaces : ∀ comment ∈ comments, comment.start ≤ comment.stop ∧
      isBoundary comment.start source = true ∧ isBoundary comment.stop source = true := by
    decide
  have hapart : comments.Pairwise fun comment later => comment.stop ≤ later.start := by
    decide
  obtain ⟨doc, hdoc⟩ := Option.isSome_iff_exists.1
    (by decide +kernel : (ofNodes? source comments).isSome = true)
  have hread : (ofNodes? source comments).all (fun doc =>
      decide (doc.markup.head? ≠ some '\uFEFF' ∧
        doc.elements.map (fun element => element.tag.closing) = [.endTag, .missing, .unknown] ∧
        doc.accusedPositions = [13, 27, 35])) = true := by
    decide +kernel
  rw [hdoc, Option.all_some, decide_eq_true_iff] at hread
  obtain ⟨hmark, hclosings, haccused⟩ := hread
  exact ⟨doc, hdoc, hplaces, hapart, hmark, hclosings, haccused,
    reportsUnclosedTags hdoc hplaces hapart hmark⟩

end DocComment

end DocAudit
