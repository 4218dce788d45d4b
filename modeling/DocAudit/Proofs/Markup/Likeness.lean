import DocAudit.Comment.Content
import DocAudit.Proofs.Markup.Steps
import Mathlib.Data.List.Forall2

/-!
# Forests that look alike

Two forests look alike when they have the same elements, one inside of the other in the same way, and
text that is not blank at the same places. Where the nodes stand does not matter, nor does a blank
text, nor what a text says. A reader of the elements then sees no difference.

Forests under construction look alike when what is finished does and the same elements are open. Each
way to go on keeps it so, when it is done to both.

* `Node.LookAlike`: lists of nodes that look alike;
* `Node.LookAlike.forall₂_elements`: their elements agree;
* `Builder.LooksAs`: forests under construction that look alike.
-/

namespace DocAudit.Markup

open DocAudit.Text

/-! ## Nodes -/

/-- The nodes have the same elements, and text that is not blank at the same places. -/
inductive Node.LookAlike : List Node → List Node → Prop
  /-- There is nothing. -/
  | nil : LookAlike [] []
  /-- A blank text in the first list. -/
  | blankLeft (span : Span) {content : String} {nodes others : List Node}
      (hblank : isBlank content.toList = true) (hlater : LookAlike nodes others) :
      LookAlike (text span content :: nodes) others
  /-- A blank text in the second list. -/
  | blankRight (span : Span) {content : String} {nodes others : List Node}
      (hblank : isBlank content.toList = true) (hlater : LookAlike nodes others) :
      LookAlike nodes (text span content :: others)
  /-- A text in both lists that is not blank. -/
  | text (span other : Span) {content more : String} {nodes others : List Node}
      (hcontent : isBlank content.toList = false) (hmore : isBlank more.toList = false)
      (hlater : LookAlike nodes others) :
      LookAlike (text span content :: nodes) (text other more :: others)
  /-- An element in both lists. -/
  | element {tag other : Tag} {children inside nodes others : List Node}
      (hname : tag.name = other.name) (hattributes : tag.attributes = other.attributes)
      (hclosing : tag.closing = other.closing) (hinside : LookAlike children inside)
      (hlater : LookAlike nodes others) :
      LookAlike (element tag children :: nodes) (element other inside :: others)

/-- What a check sees of two elements is the same: the name, the attributes, the end, the number of
elements directly inside, and whether there is content. -/
structure Element.AgreesWith (element other : Element) : Prop where
  /-- The elements have the same name. -/
  name : element.tag.name = other.tag.name
  /-- The elements have the same attributes. -/
  attributes : element.tag.attributes = other.tag.attributes
  /-- The elements were terminated in the same way. -/
  closing : element.tag.closing = other.tag.closing
  /-- The elements have as many elements directly inside. -/
  length_childElements : element.childElements.length = other.childElements.length
  /-- Both elements have content, or none. -/
  isMeaningful : element.isMeaningful = other.isMeaningful

/-- The node of a text, unless there is no text. -/
def Node.ofText (start : Nat) (content : List Char) : List Node :=
  if content.isEmpty then []
  else [.text ⟨start, start + byteLength content⟩ (String.ofList content)]

namespace Node.LookAlike

variable {nodes others : List Node}

theorem append {later more : List Node} (h : LookAlike nodes others) (hlater : LookAlike later more) :
    LookAlike (nodes ++ later) (others ++ more) := by
  induction h with
  | nil => exact hlater
  | blankLeft span hblank _ ih => exact .blankLeft span hblank ih
  | blankRight span hblank _ ih => exact .blankRight span hblank ih
  | text span other hcontent hmore _ ih => exact .text span other hcontent hmore ih
  | element hname hattributes hclosing hinside _ _ ih =>
    exact .element hname hattributes hclosing hinside ih

theorem anyMeaningful_eq (h : LookAlike nodes others) :
    anyMeaningful nodes = anyMeaningful others := by
  induction h with
  | nil => rfl
  | blankLeft span hblank _ ih =>
    rw [anyMeaningful, isMeaningful, hblank, ih]
    rfl
  | blankRight span hblank _ ih =>
    rw [anyMeaningful, isMeaningful, hblank, ih]
    rfl
  | text span other hcontent hmore _ ih =>
    rw [anyMeaningful, anyMeaningful, isMeaningful, isMeaningful, hcontent, hmore, ih]
  | @element tag other _ _ _ _ hname hattributes _ _ _ ihInside ih =>
    -- An element may have content by its name and its attributes alone.
    have htarget : tag.namesTarget = other.namesTarget := by
      simp only [Tag.namesTarget, Tag.attribute?, hname, hattributes]
    rw [anyMeaningful, anyMeaningful, isMeaningful, isMeaningful, hname, htarget, ihInside, ih]

theorem length_filterMap_element? (h : LookAlike nodes others) :
    (nodes.filterMap element?).length = (others.filterMap element?).length := by
  induction h with
  | nil => rfl
  | blankLeft _ _ _ ih => exact ih
  | blankRight _ _ _ ih => exact ih
  | text _ _ _ _ _ ih => exact ih
  | element _ _ _ _ _ _ ih => exact congrArg (· + 1) ih

/-- The elements of nodes that look alike agree one by one, in document order. -/
theorem forall₂_elements (h : LookAlike nodes others) :
    List.Forall₂ Element.AgreesWith (elementsOfAll nodes) (elementsOfAll others) := by
  induction h with
  | nil => exact .nil
  | blankLeft _ _ _ ih => exact ih
  | blankRight _ _ _ ih => exact ih
  | text _ _ _ _ _ ih => exact ih
  | @element tag other children inside nodes others hname hattributes hclosing hinside _ ihInside
      ih =>
    show List.Forall₂ _ ((⟨tag, children⟩ :: elementsOfAll children) ++ elementsOfAll nodes)
      ((⟨other, inside⟩ :: elementsOfAll inside) ++ elementsOfAll others)
    refine List.rel_append (.cons ?_ ihInside) ih
    exact ⟨hname, hattributes, hclosing, hinside.length_filterMap_element?,
      hinside.anyMeaningful_eq⟩

/-- Texts look alike if both are blank, or neither. -/
theorem ofText (start place : Nat) {content more : List Char}
    (hblank : isBlank content = isBlank more) :
    LookAlike (Node.ofText start content) (Node.ofText place more) := by
  unfold Node.ofText
  cases hcontent : isBlank content with
  | true =>
    -- A text that is empty is blank, so either of the two may be no node at all.
    rw [hcontent] at hblank
    have hfirst : isBlank (String.ofList content).toList = true := by rwa [String.toList_ofList]
    have hsecond : isBlank (String.ofList more).toList = true := by
      rw [String.toList_ofList, ← hblank]
    split <;> split
    · exact .nil
    · exact .blankRight _ hsecond .nil
    · exact .blankLeft _ hfirst .nil
    · exact .blankLeft _ hfirst (.blankRight _ hsecond .nil)
  | false =>
    rw [hcontent] at hblank
    have hne {cs : List Char} (hcs : isBlank cs = false) : ¬cs.isEmpty = true := by
      intro hempty
      rw [List.isEmpty_iff.1 hempty] at hcs
      cases hcs
    rw [if_neg (hne hcontent), if_neg (hne hblank.symm)]
    exact .text _ _ (by rwa [String.toList_ofList]) (by rw [String.toList_ofList, ← hblank]) .nil

end Node.LookAlike

/-! ## Forests under construction -/

/-- The elements have the same start tag, and look alike so far. -/
structure OpenElement.LooksAs (element other : OpenElement) : Prop where
  /-- The elements have the same name. -/
  name : element.name = other.name
  /-- The elements have the same attributes. -/
  attributes : element.attributes = other.attributes
  /-- What was read inside of them looks alike. -/
  children : Node.LookAlike element.children other.children

namespace Builder

/-- What is finished looks alike, and the same elements are open. -/
structure LooksAs (builder other : Builder) : Prop where
  /-- What is outside of all open elements looks alike. -/
  roots : Node.LookAlike builder.roots other.roots
  /-- The open elements are the same, and look alike so far. -/
  pending : List.Forall₂ OpenElement.LooksAs builder.pending other.pending

theorem attachText_eq_attachAll (start : Nat) (content : List Char) (builder : Builder) :
    builder.attachText start content = builder.attachAll (Node.ofText start content) := by
  unfold attachText Node.ofText
  split <;> rfl

namespace LooksAs

variable {builder other : Builder}

theorem empty : empty.LooksAs empty := ⟨.nil, .nil⟩

/-- Nodes that look alike may be attached. -/
theorem attachAll (h : builder.LooksAs other) {nodes others : List Node}
    (hnodes : Node.LookAlike nodes others) :
    (builder.attachAll nodes).LooksAs (other.attachAll others) := by
  obtain ⟨roots, pending⟩ := builder
  obtain ⟨otherRoots, otherPending⟩ := other
  obtain ⟨hroots, hpending⟩ := h
  cases hpending with
  | nil =>
    -- Nothing is open, so that the nodes are finished ones.
    rw [attachAll_of_closed, attachAll_of_closed]
    exact ⟨hroots.append hnodes, .nil⟩
  | cons hfirst houter =>
    rw [attachAll_of_open, attachAll_of_open]
    exact ⟨hroots, .cons ⟨hfirst.name, hfirst.attributes, hfirst.children.append hnodes⟩ houter⟩

/-- Texts may be attached if both are blank, or neither. -/
theorem attachText (h : builder.LooksAs other) (start place : Nat) {content more : List Char}
    (hblank : isBlank content = isBlank more) :
    (builder.attachText start content).LooksAs (other.attachText place more) := by
  rw [attachText_eq_attachAll, attachText_eq_attachAll]
  exact h.attachAll (Node.LookAlike.ofText start place hblank)

/-- The same start tag may open an element. -/
theorem openElement (h : builder.LooksAs other) (name attributes : List Char) (start place : Nat) :
    (builder.openElement name attributes start).LooksAs
      (other.openElement name attributes place) :=
  ⟨h.roots, .cons ⟨rfl, rfl, .nil⟩ h.pending⟩

/-- The innermost open element may be finished in the same way. -/
theorem finish (h : builder.LooksAs other) (closing : Closing) (stop place : Nat) :
    (builder.finish closing stop).LooksAs (other.finish closing place) := by
  obtain ⟨roots, pending⟩ := builder
  obtain ⟨otherRoots, otherPending⟩ := other
  obtain ⟨hroots, hpending⟩ := h
  cases hpending with
  | nil => exact ⟨hroots, .nil⟩
  | @cons element opened outer otherOuter hfirst houter =>
    -- The element becomes a node of what is open around it.
    have hrest : LooksAs ⟨roots, outer⟩ ⟨otherRoots, otherOuter⟩ := ⟨hroots, houter⟩
    show LooksAs (Builder.attachAll [element.toNode closing stop] ⟨roots, outer⟩)
      (Builder.attachAll [opened.toNode closing place] ⟨otherRoots, otherOuter⟩)
    exact hrest.attachAll (.element hfirst.name hfirst.attributes rfl hfirst.children .nil)

theorem finishMany (h : builder.LooksAs other) (closing : Closing) (stop place count : Nat) :
    (builder.finishMany closing stop count).LooksAs (other.finishMany closing place count) := by
  induction count generalizing builder other with
  | zero => exact h
  | succ count ih => exact ih (h.finish closing stop place)

/-- The same end tag closes the same element. -/
theorem closeElement (h : builder.LooksAs other) (name : String) (start stop place last : Nat) :
    (builder.closeElement name start stop).LooksAs (other.closeElement name place last) := by
  -- The names alone decide which element is closed, and how many inside of it.
  have hdepth : builder.pending.findIdx? (·.name == name) =
      other.pending.findIdx? (·.name == name) := by
    have hnames := h.pending
    generalize builder.pending = pending at hnames
    generalize other.pending = others at hnames
    induction hnames with
    | nil => rfl
    | cons hfirst _ ih => rw [List.findIdx?_cons, List.findIdx?_cons, hfirst.name, ih]
  unfold Builder.closeElement
  rw [hdepth]
  split
  · exact h
  · exact (h.finishMany .missing start place _).finish .endTag stop last

/-- The same event of the same text may come next, wherever it stands. -/
theorem step (h : builder.LooksAs other) (start place : Nat) (xs : List Char) (event : Event) :
    (builder.step start xs event).LooksAs (other.step place xs event) := by
  cases event with
  | text content => exact h.attachText start place rfl
  | characterData content => exact h.attachText start place rfl
  | reference => exact h.attachText start place rfl
  | startTag name attributes =>
    show LooksAs (if (localName name).isEmpty then _ else _)
      (if (localName name).isEmpty then _ else _)
    split
    · exact h.attachText start place rfl
    · exact h.openElement name attributes start place
  | emptyTag name attributes =>
    show LooksAs (if (localName name).isEmpty then _ else _)
      (if (localName name).isEmpty then _ else _)
    split
    · exact h.attachText start place rfl
    · show LooksAs (Builder.attachAll [_] _) (Builder.attachAll [_] _)
      exact h.attachAll (.element rfl rfl rfl .nil .nil)
  | endTag name => exact h.closeElement _ _ _ _ _
  | aside => exact h
  | complaint => exact h

end LooksAs
end Builder

/-! ## Finished forests -/

/-- The ends of reading are the same, but for the place: broken markup starts further on. -/
inductive Ending.IsShifted (shift : Nat) : Ending → Ending → Prop
  /-- Everything was read. -/
  | finished (position other : Nat) : IsShifted shift (.finished position) (.finished other)
  /-- The same markup has no end. -/
  | broken (position : Nat) : IsShifted shift (.broken position) (.broken (position + shift))

/-- What is still open is finished in the same way. -/
theorem Builder.LooksAs.ofBuilder {builder other : Builder} (h : builder.LooksAs other) {shift : Nat}
    {ending last : Ending} (hending : ending.IsShifted shift last) (cs ds : List Char) :
    Node.LookAlike (Forest.ofBuilder cs builder ending) (Forest.ofBuilder ds other last) := by
  cases hending with
  | finished position place =>
    show Node.LookAlike (builder.finishMany _ _ _).roots (other.finishMany _ _ _).roots
    rw [h.pending.length_eq]
    exact (h.finishMany .missing _ _ _).roots
  | broken position =>
    show Node.LookAlike (builder.finishMany _ _ _).roots (other.finishMany _ _ _).roots
    rw [h.pending.length_eq]
    exact (h.finishMany .unknown _ _ _).roots

/-- The elements of two forests agree one by one, and reading broke off at the same markup, further on
in the second text. -/
structure Forest.AgreesWith (shift : Nat) (forest other : Forest) : Prop where
  /-- The elements agree, in document order. -/
  elements : List.Forall₂ Element.AgreesWith forest.elements other.elements
  /-- Markup without an end stands further on. -/
  errorPosition : other.errorPosition = forest.errorPosition.map (· + shift)

end DocAudit.Markup
