import DocAudit.Proofs.Markup.RoundTrip
import Mathlib.Data.List.TakeWhile

/-!
# Reading prose

A text in markup need not be read as one node: a reference or a bare `<` parts it. To compare what is
read with what is written, a forest is seen as pieces: the spans are forgotten, and texts that touch
are joined. Then content is read as it was written if each of its texts is, whatever kind of texts it
holds.

* `Node.pieces?`: the pieces a forest shows, if all its elements are complete;
* `Node.map_elementsOfAll_of_pieces?`: each of its elements shows what stands inside of that element;
* `ReadsAsText`: what is left of a text that is read as texts only;
* `Forest.pieces?_read_renderAll`: content is read as what is left of its texts.
-/

namespace DocAudit.Markup

open DocAudit.Text

namespace Piece

/-- A piece in front of others, joined to the first of them when both are texts. -/
def joined : Piece → List Piece → List Piece
  | text content, text more :: pieces => text (content ++ more) :: pieces
  | piece, pieces => piece :: pieces

mutual

/-- What is left of a piece, where `kept` says what is left of a text. An empty text is no piece. -/
def keep (kept : List Char → List Char) : Piece → List Piece
  | text content =>
    if (kept content.toList).isEmpty then [] else [text (String.ofList (kept content.toList))]
  | selfClosed name attributes => [selfClosed name attributes]
  | element name attributes children => [element name attributes (keepAll kept children)]

/-- What is left of pieces. -/
def keepAll (kept : List Char → List Char) : List Piece → List Piece
  | [] => []
  | piece :: pieces => piece.keep kept ++ keepAll kept pieces

end

theorem joined_of_not_isText {piece : Piece} {pieces : List Piece}
    (h : piece.isText = true → pieces.head?.any isText = false) :
    piece.joined pieces = piece :: pieces := by
  cases piece with
  | text content =>
    cases pieces with
    | nil => rfl
    | cons first pieces =>
      cases first with
      | text more => cases h rfl
      | _ => rfl
  | _ => rfl

/-- Texts are joined in any order. -/
theorem joined_text_joined_text (content more : String) (pieces : List Piece) :
    joined (text content) (joined (text more) pieces) = joined (text (content ++ more)) pieces := by
  cases pieces with
  | nil => rfl
  | cons first pieces =>
    cases first with
    | text last => simp only [joined, String.append_assoc]
    | _ => rfl

/-- Content that does not begin with a text still does not when texts are left out. -/
theorem head?_keepAll {kept : List Char → List Char} {pieces : List Piece}
    (h : pieces.head?.any isText = false) : (keepAll kept pieces).head?.any isText = false := by
  cases pieces with
  | nil => rfl
  | cons piece pieces =>
    cases piece with
    | text content => cases h
    | _ => rfl

section Self

variable {isContent : List Char → Bool} {kept : List Char → List Char}

mutual

/-- Where all is left of every text, all is left of a piece. -/
theorem keep_eq_self
    (hkept : ∀ content, isContent content = true → content ≠ [] ∧ kept content = content)
    (piece : Piece) (h : piece.isWellFormed isContent = true) : piece.keep kept = [piece] := by
  cases piece with
  | text content =>
    obtain ⟨hne, heq⟩ := hkept content.toList h
    rw [keep, heq, if_neg (by simpa using hne), String.ofList_toList]
  | selfClosed name attributes => rfl
  | element name attributes children =>
    rw [isWellFormed, Bool.and_eq_true, Bool.and_eq_true] at h
    rw [keep, keepAll_eq_self hkept children h.2]

/-- Where all is left of every text, all is left of pieces. -/
theorem keepAll_eq_self
    (hkept : ∀ content, isContent content = true → content ≠ [] ∧ kept content = content)
    (pieces : List Piece) (h : allWellFormed isContent pieces = true) :
    keepAll kept pieces = pieces := by
  cases pieces with
  | nil => rfl
  | cons piece pieces =>
    rw [allWellFormed, Bool.and_eq_true, Bool.and_eq_true] at h
    rw [keepAll, keep_eq_self hkept piece h.1.1, keepAll_eq_self hkept pieces h.2]
    rfl

end

end Self

mutual

/-- What stands inside of the elements of a piece, each of them by itself, in document order. -/
def insides : Piece → List (List Piece)
  | text _ => []
  | selfClosed _ _ => [[]]
  | element _ _ children => children :: insidesOfAll children

/-- What stands inside of the elements of pieces. -/
def insidesOfAll : List Piece → List (List Piece)
  | [] => []
  | piece :: pieces => piece.insides ++ insidesOfAll pieces

end

/-- Joining texts leaves the elements as they are. -/
theorem insidesOfAll_joined (piece : Piece) (pieces : List Piece) :
    insidesOfAll (piece.joined pieces) = piece.insides ++ insidesOfAll pieces := by
  cases piece with
  | text content =>
    cases pieces with
    | nil => rfl
    | cons first pieces => cases first <;> rfl
  | _ => rfl

theorem insidesOfAll_append (xs ys : List Piece) :
    insidesOfAll (xs ++ ys) = insidesOfAll xs ++ insidesOfAll ys := by
  induction xs with
  | nil => rfl
  | cons piece pieces ih => rw [List.cons_append, insidesOfAll, insidesOfAll, ih, List.append_assoc]

mutual

/-- What is left inside of an element is what is left of its inside. -/
theorem insidesOfAll_keep (kept : List Char → List Char) (piece : Piece) :
    insidesOfAll (piece.keep kept) = piece.insides.map (keepAll kept) := by
  cases piece with
  | text content =>
    rw [keep]
    split <;> rfl
  | selfClosed name attributes => rfl
  | element name attributes children =>
    rw [keep, insidesOfAll, insides, insidesOfAll_keepAll kept children, insides, List.map_cons,
      insidesOfAll, List.append_nil]

/-- What is left inside of the elements of pieces is what is left of their insides. -/
theorem insidesOfAll_keepAll (kept : List Char → List Char) (pieces : List Piece) :
    insidesOfAll (keepAll kept pieces) = (insidesOfAll pieces).map (keepAll kept) := by
  cases pieces with
  | nil => rfl
  | cons piece pieces =>
    rw [keepAll, insidesOfAll_append, insidesOfAll, List.map_append, insidesOfAll_keep kept piece,
      insidesOfAll_keepAll kept pieces]

end

end Piece

/-! ## The pieces of a forest -/

namespace Node

mutual

/-- The piece a node shows, if all elements in it are complete. -/
def piece? : Node → Option Piece
  | text _ content => some (.text content)
  | element tag children =>
    match tag.closing with
    | .endTag => (pieces? children).map (.element tag.name tag.attributes)
    | .selfClosing =>
      if children.isEmpty then some (.selfClosed tag.name tag.attributes) else none
    | _ => none

/-- The pieces a forest shows, with texts that touch joined, if all its elements are complete. -/
def pieces? : List Node → Option (List Piece)
  | [] => some []
  | node :: nodes => node.piece?.bind fun piece => (pieces? nodes).map piece.joined

end

/-- A forest that shows pieces begins with a node that shows one, and what follows shows others. -/
theorem exists_of_pieces?_cons {node : Node} {nodes : List Node} {pieces : List Piece}
    (h : pieces? (node :: nodes) = some pieces) :
    ∃ piece later, node.piece? = some piece ∧ pieces? nodes = some later ∧
      pieces = piece.joined later := by
  rw [pieces?] at h
  obtain ⟨piece, hpiece, h⟩ := Option.bind_eq_some_iff.1 h
  obtain ⟨later, hlater, rfl⟩ := Option.map_eq_some_iff.1 h
  exact ⟨piece, later, hpiece, hlater, rfl⟩

/-- An element that shows a piece is one with an end tag around what shows the inside of the piece,
or one that closes itself and holds nothing. -/
theorem cases_of_piece?_element {tag : Tag} {children : List Node} {piece : Piece}
    (h : piece? (element tag children) = some piece) :
    (∃ inside, pieces? children = some inside ∧ piece = .element tag.name tag.attributes inside) ∨
      (children = [] ∧ piece = .selfClosed tag.name tag.attributes) := by
  rw [piece?] at h
  split at h
  · obtain ⟨inside, hinside, rfl⟩ := Option.map_eq_some_iff.1 h
    exact Or.inl ⟨inside, hinside, rfl⟩
  · obtain ⟨hempty, hpiece⟩ := Option.ite_none_right_eq_some.1 h
    exact Or.inr ⟨List.isEmpty_iff.1 hempty, (Option.some.inj hpiece).symm⟩
  · cases h

mutual

/-- The elements of a node show the insides of the piece it shows. -/
theorem map_elements_of_piece? {node : Node} {piece : Piece} (h : node.piece? = some piece) :
    node.elements.map (fun element => pieces? element.children) = piece.insides.map some := by
  cases node with
  | text span content =>
    obtain rfl := Option.some.inj h
    rfl
  | element tag children =>
    -- The element itself comes before those inside of it.
    rw [elements, List.map_cons]
    rcases cases_of_piece?_element h with ⟨inside, hinside, rfl⟩ | ⟨rfl, rfl⟩
    · rw [hinside, map_elementsOfAll_of_pieces? hinside]
      rfl
    · rfl

/-- The elements of a forest show the insides of the pieces it shows. -/
theorem map_elementsOfAll_of_pieces? {nodes : List Node} {pieces : List Piece}
    (h : pieces? nodes = some pieces) :
    (elementsOfAll nodes).map (fun element => pieces? element.children) =
      (Piece.insidesOfAll pieces).map some := by
  cases nodes with
  | nil =>
    obtain rfl := Option.some.inj h
    rfl
  | cons node nodes =>
    obtain ⟨piece, later, hpiece, hlater, rfl⟩ := exists_of_pieces?_cons h
    rw [elementsOfAll, List.map_append, map_elements_of_piece? hpiece,
      map_elementsOfAll_of_pieces? hlater, Piece.insidesOfAll_joined, List.map_append]

end

/-- The nodes are texts, none of them empty, that make up the given text. -/
inductive AreTexts : List Node → List Char → Prop
  /-- No nodes make up the empty text. -/
  | nil : AreTexts [] []
  /-- A further text in front. -/
  | cons {nodes : List Node} {cs : List Char} (span : Span) {content : String}
      (hne : content.toList ≠ []) (h : AreTexts nodes cs) :
      AreTexts (text span content :: nodes) (content.toList ++ cs)

theorem AreTexts.append {xs ys : List Node} {cs ds : List Char} (hxs : AreTexts xs cs)
    (hys : AreTexts ys ds) : AreTexts (xs ++ ys) (cs ++ ds) := by
  induction hxs with
  | nil => exact hys
  | cons span hne h ih =>
    rw [List.append_assoc]
    exact .cons span hne ih

/-- Texts in front of a forest show as one piece, if they are not empty altogether. -/
theorem AreTexts.pieces?_append {nodes later : List Node} {cs : List Char} {pieces : List Piece}
    (h : AreTexts nodes cs) (hlater : pieces? later = some pieces) :
    pieces? (nodes ++ later) =
      some (if cs.isEmpty then pieces else Piece.joined (.text (String.ofList cs)) pieces) := by
  induction h with
  | nil => exact hlater
  | @cons nodes cs span content hne h ih =>
    have hwhole : (content.toList ++ cs).isEmpty = false :=
      List.isEmpty_eq_false_iff.2 (List.append_ne_nil_of_left_ne_nil hne cs)
    rw [List.cons_append, pieces?, piece?, Option.bind_some, ih, Option.map_some, hwhole,
      if_neg Bool.false_ne_true, String.ofList_append, String.ofList_toList]
    -- The first text is joined to the others, and alone if these make up nothing.
    by_cases hcs : cs.isEmpty = true
    · rw [if_pos hcs, List.isEmpty_iff.1 hcs, String.ofList_nil, String.append_empty]
    · rw [if_neg hcs, Piece.joined_text_joined_text]

end Node

namespace Piece

variable {isContent : List Char → Bool} {kept : List Char → List Char}
  {texts : String → Nat → List Node}

mutual

/-- The nodes of a piece show what is left of the piece, given that this holds of texts. -/
theorem pieces?_nodes_append
    (htexts : ∀ content : String, isContent content.toList = true → ∀ start,
      Node.AreTexts (texts content start) (kept content.toList))
    (piece : Piece) (h : piece.isWellFormed isContent = true) (start : Nat) {later : List Node}
    {pieces : List Piece} (hlater : Node.pieces? later = some pieces)
    (hapart : piece.isText = true → pieces.head?.any isText = false) :
    Node.pieces? (piece.nodes texts start ++ later) = some (piece.keep kept ++ pieces) := by
  cases piece with
  | text content =>
    -- No other text follows that it could be joined to.
    rw [nodes, keep, (htexts content h start).pieces?_append hlater]
    split
    · rfl
    · rw [joined_of_not_isText fun _ => hapart rfl, List.singleton_append]
  | selfClosed name attributes =>
    simp only [nodes, keep, List.singleton_append, Node.pieces?, Node.piece?, List.isEmpty_nil,
      if_true, Option.bind_some, hlater, Option.map_some]
    rw [joined_of_not_isText fun htext => by cases htext]
  | element name attributes children =>
    rw [isWellFormed, Bool.and_eq_true, Bool.and_eq_true] at h
    simp only [nodes, keep, List.singleton_append, Node.pieces?, Node.piece?,
      pieces?_nodesOfAll htexts children h.2, Option.bind_some, hlater, Option.map_some]
    rw [joined_of_not_isText fun htext => by cases htext]

/-- The nodes of pieces show what is left of them, given that this holds of texts. -/
theorem pieces?_nodesOfAll
    (htexts : ∀ content : String, isContent content.toList = true → ∀ start,
      Node.AreTexts (texts content start) (kept content.toList))
    (pieces : List Piece) (h : allWellFormed isContent pieces = true) (start : Nat) :
    Node.pieces? (nodesOfAll texts start pieces) = some (keepAll kept pieces) := by
  cases pieces with
  | nil => rfl
  | cons piece pieces =>
    rw [allWellFormed, Bool.and_eq_true, Bool.and_eq_true] at h
    obtain ⟨⟨hpiece, hapart⟩, hpieces⟩ := h
    rw [nodesOfAll, keepAll]
    refine pieces?_nodes_append htexts piece hpiece start (pieces?_nodesOfAll htexts pieces hpieces _)
      ?_
    intro htext
    rw [htext] at hapart
    exact head?_keepAll (by simpa using hapart)

end

end Piece

/-! ## Texts that are read as texts -/

/-- Wherever the text stands, if only what comes after it is as required, it is read as texts only,
and `kept` is what they make up. -/
def ReadsAsText (required : List Char → Prop) (xs kept : List Char) : Prop :=
  ∃ nodes, ReadsAs required xs nodes ∧ ∀ start, Node.AreTexts (nodes start) kept

/-- The text is at its end or at a mark. -/
def AtMark (cs : List Char) : Prop :=
  ∀ c ∈ cs.head?, isMark c = true

theorem AtMarkup.atMark {cs : List Char} (h : AtMarkup cs) : AtMark cs := by
  intro c hc
  rw [h c hc]
  rfl

/-- What is left from the first mark on begins with a mark, and if nothing is left, with what comes
after the text. -/
theorem AtMarkup.atMark_dropWhile_append {rest : List Char} (h : AtMarkup rest) (cs : List Char) :
    AtMark (cs.dropWhile (!isMark ·) ++ rest) := by
  have hhead := List.head?_dropWhile_not (!isMark ·) cs
  cases hdrop : cs.dropWhile (!isMark ·) with
  | nil => exact h.atMark
  | cons first more =>
    rw [hdrop] at hhead
    intro c hc
    obtain rfl := Option.some.inj hc
    simpa using hhead

namespace ReadsAsText

theorem nil (required : List Char → Prop) : ReadsAsText required [] [] :=
  ⟨fun _ => [], ReadsAs.nil required, fun _ => .nil⟩

/-- Two texts one after the other. -/
theorem append {required first : List Char → Prop} {xs ys xsKept ysKept : List Char}
    (hxs : ReadsAsText first xs xsKept) (hys : ReadsAsText required ys ysKept)
    (himp : ∀ rest, required rest → first (ys ++ rest)) :
    ReadsAsText required (xs ++ ys) (xsKept ++ ysKept) := by
  obtain ⟨f, hf, hfTexts⟩ := hxs
  obtain ⟨g, hg, hgTexts⟩ := hys
  exact ⟨_, hf.append hg himp, fun start => (hfTexts start).append (hgTexts _)⟩

/-- A text that is one event and goes into the forest as it stands. -/
theorem of_attachText {required : List Char → Prop} {xs : List Char} {event : Event}
    (hne : xs ≠ []) (hscan : ∀ rest, required rest → scan (xs ++ rest) = .found event rest)
    (hread : ∀ before rest builder,
      Builder.read (before ++ (xs ++ rest)) builder
          ⟨event, byteLength before, byteLength before + byteLength xs⟩ =
        builder.attachText (byteLength before) xs) :
    ReadsAsText required xs xs := by
  refine ⟨fun start => [.text ⟨start, start + byteLength xs⟩ (String.ofList xs)],
    ReadsAs.of_scan hscan ?_, ?_⟩
  · intro before rest builder
    rw [hread, Builder.attachText, if_neg (by simpa using hne)]
    rfl
  · intro start
    have htext := Node.AreTexts.cons ⟨start, start + byteLength xs⟩
      (by rwa [String.toList_ofList] : (String.ofList xs).toList ≠ []) .nil
    rwa [String.toList_ofList, List.append_nil] at htext

/-- A text that is one event and leaves the forest as it is. -/
theorem of_ignored {required : List Char → Prop} {xs : List Char} {event : Event}
    (hscan : ∀ rest, required rest → scan (xs ++ rest) = .found event rest)
    (hread : ∀ before rest builder,
      Builder.read (before ++ (xs ++ rest)) builder
        ⟨event, byteLength before, byteLength before + byteLength xs⟩ = builder) :
    ReadsAsText required xs [] := by
  refine ⟨fun _ => [], ReadsAs.of_scan hscan ?_, fun _ => .nil⟩
  intro before rest builder
  rw [hread]
  rfl

/-- A text without marks, up to a mark or to the end. -/
theorem plain {xs : List Char} (hplain : ∀ c ∈ xs, isMark c = false) :
    ReadsAsText AtMark xs xs := by
  by_cases hne : xs = []
  · rw [hne]
    exact nil AtMark
  · exact of_attachText hne (fun rest hrest => scan_text_append hne hplain hrest)
      fun before rest builder => rfl

/-- A text reads as its part up to the first mark, and as what is read from that mark on. -/
theorem of_dropWhile {cs kept : List Char}
    (h : ReadsAsText AtMarkup (cs.dropWhile (!isMark ·)) kept) :
    ReadsAsText AtMarkup cs (cs.takeWhile (!isMark ·) ++ kept) := by
  have hplain : ∀ c ∈ cs.takeWhile (!isMark ·), isMark c = false := by
    intro c hc
    simpa using List.mem_takeWhile_imp hc
  have hreads := (plain hplain).append h fun rest hrest => hrest.atMark_dropWhile_append cs
  rwa [List.takeWhile_append_dropWhile] at hreads

end ReadsAsText

namespace Forest

/-- Without a byte order mark, a text that reads as nodes wherever it stands is read as they are. -/
theorem read_eq_of_readsAs {cs : List Char} {nodes : Nat → List Node} (h : ReadsAs AtMarkup cs nodes)
    (hmark : cs.head? ≠ some '\uFEFF') :
    (read cs).errorPosition = none ∧ (read cs).nodes = nodes 0 := by
  obtain ⟨events, hevents, hbuild⟩ := h [] [] (by simp [AtMarkup])
  rw [List.append_nil, byteLength_nil, readAll_nil, List.append_nil,
    ← readings_eq_readAll hmark] at hevents
  have hnodes := hbuild .empty
  rw [List.append_nil, List.nil_append, byteLength_nil, Builder.attachAll_empty] at hnodes
  rw [read, hevents]
  refine ⟨rfl, ?_⟩
  -- Nothing is open at the end, so the nodes attached are those of the forest.
  show ofBuilder cs (events.foldl (Builder.read cs) .empty)
    (.finished (0 + byteLength cs)) = nodes 0
  rw [hnodes]
  rfl

/-- Content is read to its end, and what is read is what is left of its texts, each at its place. -/
theorem pieces?_read_renderAll {isContent : List Char → Bool} {kept : List Char → List Char}
    (htexts : ∀ content, isContent content = true → ReadsAsText AtMarkup content (kept content))
    {pieces : List Piece} (h : Piece.allWellFormed isContent pieces = true)
    (hmark : (Piece.renderAll pieces).head? ≠ some '\uFEFF') :
    (read (Piece.renderAll pieces)).errorPosition = none ∧
      Node.pieces? (read (Piece.renderAll pieces)).nodes = some (Piece.keepAll kept pieces) := by
  have hnodes : ∀ content : String, ∃ nodes : Nat → List Node, isContent content.toList = true →
      ReadsAs AtMarkup content.toList nodes ∧
        ∀ start, Node.AreTexts (nodes start) (kept content.toList) := by
    intro content
    by_cases hcontent : isContent content.toList = true
    · obtain ⟨nodes, hreads, hare⟩ := htexts content.toList hcontent
      exact ⟨nodes, fun _ => ⟨hreads, hare⟩⟩
    · exact ⟨fun _ => [], fun hcontent' => absurd hcontent' hcontent⟩
  -- One function gives the nodes of all texts, of those too that are no content.
  obtain ⟨texts, hreads⟩ := Classical.axiomOfChoice hnodes
  have hall := Piece.readsAs_renderAll (fun content hcontent => (hreads content hcontent).1) pieces h
  obtain ⟨herror, hread⟩ := read_eq_of_readsAs hall hmark
  refine ⟨herror, ?_⟩
  rw [hread]
  exact Piece.pieces?_nodesOfAll (fun content hcontent => (hreads content hcontent).2) pieces h 0

end Forest
end DocAudit.Markup
