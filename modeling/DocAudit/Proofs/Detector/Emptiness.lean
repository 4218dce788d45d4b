import DocAudit.Proofs.Detector.Elements
import DocAudit.Proofs.Markup.References

/-!
# Emptiness and prose

An element is reported as empty only when no prose is left inside of it, at any depth, and no
reference with a target. What is left is all that was written, except for references that have no
end.

* `Markup.Node.anyMeaningful_of_anyHoldsProse`: prose makes an element meaningful;
* `DocComment.KeepsProse`: what becomes of the prose of a doc comment;
* `DocComment.keepsProse`: it becomes of every doc comment whose markup is well-formed.
-/

namespace DocAudit

open Markup Text

namespace Markup

namespace Piece

mutual

/-- Some text of the piece, at any depth, is not blank. -/
def holdsProse : Piece → Bool
  | text content => !isBlank content.toList
  | selfClosed _ _ => false
  | element _ _ children => anyHoldsProse children

/-- Some text of the pieces, at any depth, is not blank. -/
def anyHoldsProse : List Piece → Bool
  | [] => false
  | piece :: pieces => piece.holdsProse || anyHoldsProse pieces

end

/-- Texts that are joined hold the prose of each of them. -/
theorem anyHoldsProse_joined (piece : Piece) (pieces : List Piece) :
    anyHoldsProse (piece.joined pieces) = (piece.holdsProse || anyHoldsProse pieces) := by
  cases piece with
  | text content =>
    cases pieces with
    | nil => rfl
    | cons first pieces =>
      cases first with
      | text more =>
        simp only [joined, anyHoldsProse, holdsProse, isBlank, String.toList_append, List.all_append,
          Bool.not_and, Bool.or_assoc]
      | _ => rfl
  | _ => rfl

end Piece

namespace Node

mutual

/-- A node that shows a piece with prose in it is content that a reader sees. -/
theorem isMeaningful_of_holdsProse {node : Node} {piece : Piece} (h : node.piece? = some piece)
    (hprose : piece.holdsProse = true) : node.isMeaningful = true := by
  cases node with
  | text span content =>
    obtain rfl := Option.some.inj h
    exact hprose
  | element tag children =>
    rcases cases_of_piece?_element h with ⟨inside, hinside, rfl⟩ | ⟨-, rfl⟩
    · rw [isMeaningful, anyMeaningful_of_anyHoldsProse hinside hprose, Bool.or_true]
    · cases hprose

/-- A forest that shows pieces with prose in them holds content that a reader sees. -/
theorem anyMeaningful_of_anyHoldsProse {nodes : List Node} {pieces : List Piece}
    (h : pieces? nodes = some pieces) (hprose : Piece.anyHoldsProse pieces = true) :
    anyMeaningful nodes = true := by
  cases nodes with
  | nil =>
    obtain rfl := Option.some.inj h
    cases hprose
  | cons node nodes =>
    obtain ⟨piece, later, hpiece, hlater, rfl⟩ := exists_of_pieces?_cons h
    rw [Piece.anyHoldsProse_joined, Bool.or_eq_true] at hprose
    rw [anyMeaningful, Bool.or_eq_true]
    rcases hprose with hprose | hprose
    · exact Or.inl (isMeaningful_of_holdsProse hpiece hprose)
    · exact Or.inr (anyMeaningful_of_anyHoldsProse hlater hprose)

end

end Node
end Markup

namespace DocComment

/-- What becomes of the prose of a doc comment whose markup renders the given pieces. The elements
of the comment and the insides of the pieces are numbered in document order. -/
structure KeepsProse (doc : DocComment) (pieces : List Piece) : Prop where
  /-- The markup is read to its end. -/
  errorPosition : doc.forest.errorPosition = none
  /-- At each place is read what is left of the text written there. -/
  pieces_eq :
    Node.pieces? doc.forest.nodes = some (Piece.keepAll (withoutLoose false) pieces)
  /-- When the references of all texts end, that is all that was written. -/
  whole : Piece.allWellFormed isWholeProse pieces = true →
    Node.pieces? doc.forest.nodes = some pieces
  /-- Inside of each element is read what is left of what was written there. -/
  insides : doc.elements.map (fun element => Node.pieces? element.children) =
    (Piece.insidesOfAll pieces).map fun inside =>
      some (Piece.keepAll (withoutLoose false) inside)
  /-- An element in which prose is left is content that a reader sees. -/
  isMeaningful : ∀ (number : Nat) (element : Element) (inside : List Piece),
    doc.elements[number]? = some element → (Piece.insidesOfAll pieces)[number]? = some inside →
      Piece.anyHoldsProse (Piece.keepAll (withoutLoose false) inside) = true →
      element.isMeaningful = true
  /-- What a declaration with this comment has reported as empty is an element in which no prose is
  left. -/
  emptiness : ∀ (declaration : Declaration) (options : Options) (source : List Char)
    (verdict : Verdict), declaration.doc = some doc →
      verdict ∈ declaration.verdicts options source → verdict.smell.isEmptiness = true →
      ∃ (number : Nat) (element : Element) (inside : List Piece),
        doc.elements[number]? = some element ∧ (Piece.insidesOfAll pieces)[number]? = some inside ∧
          verdict = .ofElement doc element verdict.smell verdict.details ∧
          Piece.anyHoldsProse (Piece.keepAll (withoutLoose false) inside) = false

variable {doc : DocComment} {pieces : List Piece}

/-- Inside of each element is read what is left of what was written there. -/
theorem exists_inside_of_map_eq {number : Nat} {element : Element}
    (h : doc.elements.map (fun element => Node.pieces? element.children) =
      (Piece.insidesOfAll pieces).map fun inside =>
        some (Piece.keepAll (withoutLoose false) inside))
    (helement : doc.elements[number]? = some element) :
    ∃ inside, (Piece.insidesOfAll pieces)[number]? = some inside ∧
      Node.pieces? element.children = some (Piece.keepAll (withoutLoose false) inside) := by
  have hnumber := congrArg (·[number]?) h
  simp only [List.getElem?_map, helement, Option.map_some] at hnumber
  obtain ⟨inside, hinside, hread⟩ := Option.map_eq_some_iff.1 hnumber.symm
  exact ⟨inside, hinside, hread.symm⟩

/-- A doc comment whose markup is well-formed, with prose for texts, keeps the prose that is left
when references without an end are passed over, and no element that holds prose then is reported as
empty. -/
theorem keepsProse (hmarkup : doc.markup = Piece.renderAll pieces)
    (h : Piece.allWellFormed isProse pieces = true) (hmark : doc.markup.head? ≠ some '\uFEFF') :
    doc.KeepsProse pieces := by
  have hforest : doc.forest = Forest.read (Piece.renderAll pieces) := by
    rw [← hmarkup]
    exact doc.forest_eq
  rw [hmarkup] at hmark
  obtain ⟨herror, hpieces⟩ := Forest.pieces?_read_renderAll_of_prose h hmark
  rw [← hforest] at herror hpieces
  have hinsides : doc.elements.map (fun element => Node.pieces? element.children) =
      (Piece.insidesOfAll pieces).map fun inside =>
        some (Piece.keepAll (withoutLoose false) inside) := by
    rw [elements, Forest.elements, Node.map_elementsOfAll_of_pieces? hpieces,
      Piece.insidesOfAll_keepAll, List.map_map]
    rfl
  -- Elements and insides are counted alike, so what is left of an inside stands in its element.
  have hmeaningful {number : Nat} {element : Element} {inside : List Piece}
      (helement : doc.elements[number]? = some element)
      (hinside : (Piece.insidesOfAll pieces)[number]? = some inside)
      (hprose : Piece.anyHoldsProse (Piece.keepAll (withoutLoose false) inside) = true) :
      element.isMeaningful = true := by
    obtain ⟨found, hfound, hread⟩ := exists_inside_of_map_eq hinsides helement
    obtain rfl := Option.some.inj (hinside.symm.trans hfound)
    exact Node.anyMeaningful_of_anyHoldsProse hread hprose
  refine ⟨herror, hpieces, ?_, hinsides, fun _ _ _ => hmeaningful, ?_⟩
  · intro hwhole
    rw [hpieces, Piece.keepAll_withoutLoose hwhole]
  · intro declaration options source verdict hdoc hverdict hempty
    have hsmell : verdict.smell.isOnElement = true := Smell.isOnElement_of_isEmptiness hempty
    obtain ⟨found, hfound, element, helement, hof, hsilent⟩ :=
      Declaration.exists_isAbout_of_mem_verdicts hverdict hsmell
    obtain rfl := Option.some.inj (hdoc.symm.trans hfound)
    obtain ⟨number, hnumber⟩ := List.mem_iff_getElem?.1 helement
    obtain ⟨inside, hinside, -⟩ := exists_inside_of_map_eq hinsides hnumber
    refine ⟨number, element, inside, hnumber, hinside, hof, ?_⟩
    -- With prose left inside of it, the element would be meaningful.
    rw [Bool.eq_false_iff]
    intro hprose
    exact Bool.eq_false_iff.1 (hsilent hempty) (hmeaningful hnumber hinside hprose)

/-- A summary with a reference, a loose `&` in front of a tag and one at the end of a paragraph. -/
theorem keepsProse_references :
    let pieces := [.text " ", .element "summary" []
      [.text "a &amp; b &c d", .element "para" [] [.text "&e"], .selfClosed "see" [⟨"cref", "T"⟩]]]
    let doc := DocComment.ofLines 0 74 [⟨3, Piece.renderAll pieces⟩]
    doc.markup = Piece.renderAll pieces ∧ Piece.allWellFormed isProse pieces = true ∧
      doc.markup.head? ≠ some '\uFEFF' ∧ doc.KeepsProse pieces ∧
      Piece.keepAll (withoutLoose false) pieces =
        [.text " ", .element "summary" []
          [.text "a &amp; b ", .element "para" [] [], .selfClosed "see" [⟨"cref", "T"⟩]]] := by
  intro pieces doc
  have hwell : Piece.allWellFormed isProse pieces = true := by decide
  have hmark : doc.markup.head? ≠ some '\uFEFF' := by decide
  exact ⟨rfl, hwell, hmark, keepsProse rfl hwell hmark, rfl⟩

end DocComment
end DocAudit
