import DocAudit.Proofs.Code.Tree
import DocAudit.Proofs.Detector.Rules

/-!
# Bare throws

The first bare throw of a body is pointed out, unless it stands in a function of its own. The search
goes down the tree and stops at such functions; what it finds is said without a search: of all places
of the body, in the order of the text, the first that a bare throw escapes from.

* `Rethrow.Escapes`: a bare throw with no function around it;
* `Rethrow.find?_eq_find?_places`: the search looks at the places of a tree one after the other;
* `Declaration.PointsOutRethrow`: what is said about a declaration for its body;
* `Code.SourceFile.reportsRethrows`: the search finds the first one, and there is one verdict for each
  declaration that has one.
-/

namespace DocAudit

open Code

namespace Rethrow

/-- At the place stands a throw without an operand, in no function other than the body itself. -/
structure Escapes (place : Place) : Prop where
  /-- The node is a throw statement. -/
  kind_eq : place.node.kind = "throw_statement"
  /-- All constructs in it are comments. -/
  bare : ∀ child ∈ place.node.children, child.label.isNamed = true → child.kind = "comment"
  /-- No node around it is a function. -/
  outside : ∀ outer ∈ place.ancestors, outer.kind ≠ "lambda_expression" ∧
    outer.kind ≠ "anonymous_method_expression" ∧ outer.kind ≠ "local_function_statement"

theorem isBare_iff {node : Node} :
    isBare node = true ↔ node.kind = "throw_statement" ∧
      ∀ child ∈ node.children, child.label.isNamed = true → child.kind = "comment" := by
  simp [isBare, Node.isComment, Node.commentKind]

theorem isBarrier_eq_false_iff {node : Node} :
    isBarrier node = false ↔ node.kind ≠ "lambda_expression" ∧
      node.kind ≠ "anonymous_method_expression" ∧ node.kind ≠ "local_function_statement" := by
  simp [isBarrier, barrierKinds]

/-- A bare throw, and nothing the search stops at around it. -/
theorem escapes_iff {place : Place} :
    Escapes place ↔ isBare place.node = true ∧ place.ancestors.any isBarrier = false := by
  have houtside : place.ancestors.any isBarrier = false ↔ ∀ outer ∈ place.ancestors,
      outer.kind ≠ "lambda_expression" ∧ outer.kind ≠ "anonymous_method_expression" ∧
        outer.kind ≠ "local_function_statement" := by
    simp only [List.any_eq_false, Bool.not_eq_true, isBarrier_eq_false_iff]
  rw [isBare_iff, houtside]
  exact ⟨fun h => ⟨⟨h.kind_eq, h.bare⟩, h.outside⟩, fun h => ⟨h.1.1, h.1.2, h.2⟩⟩

instance (place : Place) : Decidable (Escapes place) :=
  decidable_of_iff' _ escapes_iff

/-- Nothing escapes from inside a function. -/
theorem find?_placesAmong_of_barrier {ancestors earlier nodes : List Node}
    (h : ancestors.any isBarrier = true) :
    (Node.placesAmong ancestors earlier nodes).find? (Escapes ·) = none := by
  rw [List.find?_eq_none]
  intro place hplace hescapes
  obtain ⟨inner, hinner⟩ := Node.isSuffix_ancestors_of_mem_placesAmong hplace
  have houtside := (escapes_iff.1 (decide_eq_true_iff.1 hescapes)).2
  rw [← hinner, List.any_append, h, Bool.or_true] at houtside
  cases houtside

mutual

/-- The search of a tree outside of functions finds the first place a bare throw escapes from. -/
theorem find?_eq_find?_places {ancestors : List Node} (earlier : List Node) (node : Node)
    (h : ancestors.any isBarrier = false) :
    find? node = ((node.places ancestors earlier).find? (Escapes ·)).map Place.node := by
  cases node with
  | mk label children =>
    rw [find?, Node.places, List.find?_cons]
    -- A throw is looked at before it could stop the search.
    by_cases hbare : isBare (.mk label children) = true
    · have hescapes : Escapes ⟨ancestors, earlier, .mk label children⟩ :=
        escapes_iff.2 ⟨hbare, h⟩
      simp [hbare, hescapes]
    · have hnot : ¬Escapes ⟨ancestors, earlier, .mk label children⟩ :=
        fun hescapes => hbare (escapes_iff.1 hescapes).1
      simp only [hbare, hnot, decide_false]
      by_cases hbarrier : isBarrier (.mk label children) = true
      · rw [find?_placesAmong_of_barrier (by rw [List.any_cons, hbarrier, Bool.true_or])]
        simp [hbarrier]
      · rw [Bool.not_eq_true] at hbarrier
        have hinside : (Node.mk label children :: ancestors).any isBarrier = false := by
          rw [List.any_cons, hbarrier, h, Bool.false_or]
        have hchildren := findAmong?_eq_find?_placesAmong [] children hinside
        simp [hbarrier, hchildren]

/-- So does the search of siblings. -/
theorem findAmong?_eq_find?_placesAmong {ancestors : List Node} (earlier nodes : List Node)
    (h : ancestors.any isBarrier = false) :
    findAmong? nodes =
      ((Node.placesAmong ancestors earlier nodes).find? (Escapes ·)).map Place.node := by
  cases nodes with
  | nil => rfl
  | cons node nodes =>
    rw [findAmong?, Node.placesAmong, List.find?_append, Option.map_or,
      find?_eq_find?_places earlier node h, findAmong?_eq_find?_placesAmong (node :: earlier) nodes h]

end

/-- What the search of a body finds is what stands at the first place a bare throw escapes from. -/
theorem find?_eq_some_iff {body rethrow : Node} :
    find? body = some rethrow ↔
      ∃ before place after, body.places [] [] = before ++ place :: after ∧ place.node = rethrow ∧
        Escapes place ∧ ∀ other ∈ before, ¬Escapes other := by
  rw [find?_eq_find?_places [] body List.any_nil, Option.map_eq_some_iff]
  simp only [List.find?_eq_some_iff_append, decide_eq_true_eq, Bool.not_eq_true',
    decide_eq_false_iff_not]
  constructor
  · rintro ⟨place, ⟨hescapes, before, after, hplaces, hbefore⟩, hnode⟩
    exact ⟨before, place, after, hplaces, hnode, hescapes, hbefore⟩
  · rintro ⟨before, place, after, hplaces, hnode, hescapes, hbefore⟩
    exact ⟨place, ⟨hescapes, before, after, hplaces, hbefore⟩, hnode⟩

/-- The search finds nothing in a body that no bare throw escapes from. -/
theorem find?_eq_none_iff {body : Node} :
    find? body = none ↔ ∀ place ∈ body.places [] [], ¬Escapes place := by
  rw [find?_eq_find?_places [] body List.any_nil, Option.map_eq_none_iff]
  simp

end Rethrow

namespace Declaration

/-- The verdicts on bare throws among others. -/
def rethrowsAmong (verdicts : List Verdict) : List Verdict :=
  verdicts.filter (·.smell == .rethrowCannotInferException)

/-- What is said about the bare throws of a declaration: one verdict at the first that escapes from the
body, and none if there is no such. -/
structure PointsOutRethrow (source : List Char) (declaration : Declaration)
    (verdicts : List Verdict) : Prop where
  /-- If any escape from the body, the first of them is pointed out. -/
  first : ∀ body, declaration.form.body? = some body →
    (∃ place ∈ body.places [] [], Rethrow.Escapes place) →
      ∃ before place after, body.places [] [] = before ++ place :: after ∧ Rethrow.Escapes place ∧
        (∀ other ∈ before, ¬Rethrow.Escapes other) ∧
        verdicts =
          [{ smell := .rethrowCannotInferException, tagName := "exception",
             position := place.node.start, excerpt := place.node.text source,
             details := [declaration.name] }]
  /-- If none does there is nothing to say, nor without a body. -/
  none : (∀ body, declaration.form.body? = some body →
    ∀ place ∈ body.places [] [], ¬Rethrow.Escapes place) → verdicts = []

variable {source : List Char} {declaration : Declaration}

theorem pointsOutRethrow_rethrowVerdict? :
    PointsOutRethrow source declaration (rethrowVerdict? source declaration).toList where
  first := by
    rintro body hbody ⟨any, hany, hescapesAny⟩
    cases hfind : Rethrow.find? body with
    | none => exact absurd hescapesAny (Rethrow.find?_eq_none_iff.1 hfind any hany)
    | some rethrow =>
      obtain ⟨before, place, after, hplaces, rfl, hescapes, hbefore⟩ :=
        Rethrow.find?_eq_some_iff.1 hfind
      refine ⟨before, place, after, hplaces, hescapes, hbefore, ?_⟩
      simp [rethrowVerdict?, hbody, hfind, exceptionTag]
  none := by
    intro hnone
    cases hbody : declaration.form.body? with
    | none => simp [rethrowVerdict?, hbody]
    | some body =>
      have hfind := Rethrow.find?_eq_none_iff.2 (hnone body hbody)
      simp [rethrowVerdict?, hbody, hfind]

/-- No verdict on a documented exception is one on a bare throw. -/
theorem rethrowsAmong_exceptionTagVerdicts (doc : DocComment) :
    rethrowsAmong (exceptionTagVerdicts doc) = [] := by
  rw [rethrowsAmong, List.filter_eq_nil_iff]
  intro verdict hverdict
  rcases List.mem_append.1 hverdict with hverdict | hverdict <;>
    obtain ⟨tag, -, rfl⟩ := List.mem_map.1 hverdict <;>
      exact fun hsmell => by cases beq_iff_eq.1 hsmell

/-- Whatever a declaration is documented with, its body decides about bare throws. -/
theorem rethrowsAmong_exceptionVerdicts (source : List Char) (declaration : Declaration) :
    rethrowsAmong (declaration.exceptionVerdicts source) =
      (rethrowVerdict? source declaration).toList := by
  have htags : rethrowsAmong ((declaration.doc.map exceptionTagVerdicts).getD []) = [] := by
    cases declaration.doc with
    | none => rfl
    | some doc => exact rethrowsAmong_exceptionTagVerdicts doc
  have hthrow : rethrowsAmong (rethrowVerdict? source declaration).toList =
      (rethrowVerdict? source declaration).toList := by
    rw [rethrowsAmong, List.filter_eq_self]
    intro verdict hverdict
    obtain ⟨rethrow, -, rfl⟩ := Option.map_eq_some_iff.1 (Option.mem_toList.1 hverdict)
    rfl
  rw [exceptionVerdicts, rethrowsAmong, List.filter_append, ← rethrowsAmong, htags, ← rethrowsAmong,
    hthrow, List.nil_append]

end Declaration

/-- The search for bare throws finds the first one of a body, and it is reported once. -/
structure Code.SourceFile.ReportsRethrows (file : SourceFile) : Prop where
  /-- What is found in a body stands at the first place a bare throw escapes from. -/
  find?_eq_some_iff : ∀ body rethrow : Node, Rethrow.find? body = some rethrow ↔
    ∃ before place after, body.places [] [] = before ++ place :: after ∧ place.node = rethrow ∧
      Rethrow.Escapes place ∧ ∀ other ∈ before, ¬Rethrow.Escapes other
  /-- Nothing is found if there is no such place. -/
  find?_eq_none_iff : ∀ body : Node, Rethrow.find? body = none ↔
    ∀ place ∈ body.places [] [], ¬Rethrow.Escapes place
  /-- The places of a body are those of its nodes, in the order of the text, -/
  map_node_places : ∀ body : Node, (body.places [] []).map Place.node = body.preorder
  /-- and around each of them stand the nodes of the body that have it below them. -/
  liesBelow : ∀ body : Node, ∀ place ∈ body.places [] [], place.LiesBelow body
  /-- There is one verdict on each declaration whose body has such a place, and no other. -/
  pointsOut : ∀ declaration ∈ file.declarations, declaration.PointsOutRethrow file.text
    (Declaration.rethrowsAmong (declaration.exceptionVerdicts file.text))
  /-- The documentation makes no difference. -/
  independent : ∀ declaration ∈ file.declarations, ∀ doc : Option DocComment,
    Declaration.rethrowsAmong ({ declaration with doc }.exceptionVerdicts file.text) =
      Declaration.rethrowsAmong (declaration.exceptionVerdicts file.text)
  /-- The detector says no more than that, and says it of one declaration after the other. -/
  verdicts_eq : ∀ options : Options,
    Declaration.rethrowsAmong (Detector.exception.verdicts options file) =
      file.declarations.flatMap fun declaration =>
        Declaration.rethrowsAmong (declaration.exceptionVerdicts file.text)
  /-- No other detector says anything about bare throws. -/
  others : ∀ (options : Options) (detector : Detector), detector ≠ .exception →
    Declaration.rethrowsAmong (detector.verdicts options file) = []

/-- Bare throws are found first, found if there are any, and reported once for each declaration. -/
theorem Code.SourceFile.reportsRethrows (file : SourceFile) : file.ReportsRethrows where
  find?_eq_some_iff _ _ := Rethrow.find?_eq_some_iff
  find?_eq_none_iff _ := Rethrow.find?_eq_none_iff
  map_node_places body := Node.map_node_places [] [] body
  liesBelow _ _ hplace := Node.liesBelow_of_mem_places hplace
  pointsOut := by
    intro declaration _
    rw [Declaration.rethrowsAmong_exceptionVerdicts]
    exact Declaration.pointsOutRethrow_rethrowVerdict?
  independent := by
    intro declaration _ doc
    rw [Declaration.rethrowsAmong_exceptionVerdicts, Declaration.rethrowsAmong_exceptionVerdicts]
    rfl
  verdicts_eq _ := List.filter_flatMap
  others := by
    intro options detector hne
    rw [Declaration.rethrowsAmong, List.filter_eq_nil_iff]
    intro verdict hverdict hsmell
    -- The smell belongs to one detector.
    have hdetector := Detector.detector_of_mem_verdicts hverdict
    rw [beq_iff_eq.1 hsmell] at hdetector
    exact hne hdetector.symm

end DocAudit
