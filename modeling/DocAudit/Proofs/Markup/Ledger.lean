import DocAudit.Proofs.Markup.Construction

/-!
# Elements opened and closed

What the events of a text open and close can be told without a forest: a ledger lists what the tags
that begin elements say, and the numbers of the elements still open. An end tag closes the innermost
open element of its name; the elements inside that one are no longer open either.

* `Builder.read_of_closingName?`, `Builder.rows_read_of_opening?`, `Builder.rows_read_of_none`: the
  three things an event can do;
* `Builder.ledger_read`: one event does to the ledger of a forest under construction what it does to
  any ledger;
* `Builder.getElem?_rows_read`: an event leaves the elements there are as they stand, except for the
  closing marks its ledger names.
-/

namespace DocAudit.Markup

/-- What an event says about the element it begins, if it begins one. A tag without a name begins
none. -/
def Reading.opening? (cs : List Char) (reading : Reading) : Option Opening :=
  match reading.event with
  | .startTag name attributes =>
    if (localName name).isEmpty then none
    else
      some ⟨String.ofList (localName name), Attribute.parseAll attributes,
        markupStart cs reading.start, false⟩
  | .emptyTag name attributes =>
    if (localName name).isEmpty then none
    else
      some ⟨String.ofList (localName name), Attribute.parseAll attributes,
        markupStart cs reading.start, true⟩
  | _ => none

/-- The name of the elements that an event can close: the name of an end tag. -/
def Event.closingName? : Event → Option String
  | .endTag name => some (String.ofList (localName name))
  | _ => none

/-- An event that can close an element begins none. -/
theorem Reading.opening?_of_closingName? {cs : List Char} {reading : Reading} {name : String}
    (h : reading.event.closingName? = some name) : reading.opening? cs = none := by
  obtain ⟨event, start, stop⟩ := reading
  cases event with
  | endTag tagName => rfl
  | _ => cases h

/-- What is known of the elements of a text after some of its events. -/
@[ext]
structure Ledger where
  /-- What the tags that begin elements say, in the order of the text. -/
  openings : List Opening
  /-- The numbers of the elements still open, innermost first. -/
  pending : List Nat
deriving DecidableEq, Repr

namespace Ledger

/-- No events yet. -/
def empty : Ledger := ⟨[], []⟩

/-- The element of a number has the given name. -/
def isNamed (ledger : Ledger) (name : String) (number : Nat) : Bool :=
  ledger.openings[number]?.map Opening.name == some name

/-- The number of the element that an event closes: the innermost open element of the name of an end
tag. -/
def closedBy? (ledger : Ledger) (event : Event) : Option Nat :=
  event.closingName?.bind fun name => ledger.pending.find? (ledger.isNamed name)

/-- An event closes an element and all those inside it, or begins one, or does neither. -/
def read (cs : List Char) (ledger : Ledger) (reading : Reading) : Ledger :=
  match ledger.closedBy? reading.event with
  | some number => { ledger with pending := ledger.pending.filter (· < number) }
  | none =>
    match reading.opening? cs with
    | some opening =>
      ⟨ledger.openings ++ [opening],
        if opening.closesItself then ledger.pending
        else ledger.openings.length :: ledger.pending⟩
    | none => ledger

/-- The closing mark that an event gives to the element of a number. -/
def mark? (ledger : Ledger) (event : Event) (number : Nat) : Option Closing :=
  match ledger.closedBy? event with
  | some closed =>
    if number = closed then some .endTag
    else if closed < number ∧ number ∈ ledger.pending then some .missing
    else none
  | none => none

/-- What is known after the given events. -/
def after (cs : List Char) (events : List Reading) : Ledger :=
  events.foldl (Ledger.read cs) empty

/-- An end tag closes an open element of its name. -/
theorem isNamed_of_closedBy? {ledger : Ledger} {event : Event} {number : Nat}
    (h : ledger.closedBy? event = some number) :
    number ∈ ledger.pending ∧ event.closingName? = ledger.openings[number]?.map Opening.name := by
  obtain ⟨name, hname, hfind⟩ := Option.bind_eq_some_iff.1 h
  refine ⟨List.mem_of_find?_eq_some hfind, ?_⟩
  have hnamed : ledger.isNamed name number = true := List.find?_some hfind
  rw [hname, ← beq_iff_eq.1 hnamed]

/-- A closing mark goes to an open element. -/
theorem mem_pending_of_mark? {ledger : Ledger} {event : Event} {number : Nat} {closing : Closing}
    (h : ledger.mark? event number = some closing) : number ∈ ledger.pending := by
  unfold mark? at h
  split at h
  · next closed hclosed =>
    split at h
    · next heq => exact heq ▸ (isNamed_of_closedBy? hclosed).1
    · split at h
      · next hinside => exact hinside.2
      · cases h
  · cases h

/-- An end tag is what closes an element. -/
theorem mark?_eq_endTag_iff {ledger : Ledger} {event : Event} {number : Nat} :
    ledger.mark? event number = some .endTag ↔ ledger.closedBy? event = some number := by
  unfold mark?
  constructor
  · intro h
    split at h
    · next closed hclosed =>
      split at h
      · next heq => rw [hclosed, heq]
      · split at h <;> cases h
    · cases h
  · intro h
    simp [h]

/-- An element begins in any ledger where the event says so. -/
theorem openings_read (cs : List Char) (ledger : Ledger) (reading : Reading) :
    (ledger.read cs reading).openings = ledger.openings ++ (reading.opening? cs).toList := by
  unfold read
  split
  · next number h =>
    obtain ⟨name, hname, -⟩ := Option.bind_eq_some_iff.1 h
    simp [Reading.opening?_of_closingName? hname]
  · split
    · next hopening => simp [hopening]
    · next hopening => simp [hopening]

/-- No event makes it unknown what became of an element. -/
theorem mark?_ne_unknown {ledger : Ledger} {event : Event} {number : Nat} :
    ledger.mark? event number ≠ some .unknown := by
  unfold mark?
  split
  · split
    · simp
    · split <;> simp
  · simp

theorem length_openings_read (cs : List Char) (ledger : Ledger) (reading : Reading) :
    (ledger.read cs reading).openings.length ≤ ledger.openings.length + 1 := by
  rw [openings_read, List.length_append]
  cases reading.opening? cs <;> simp

/-- The elements are those that the events begin. -/
theorem openings_after (cs : List Char) (events : List Reading) :
    (after cs events).openings = events.filterMap (Reading.opening? cs) := by
  suffices ∀ ledger : Ledger, (events.foldl (Ledger.read cs) ledger).openings =
      ledger.openings ++ events.filterMap (Reading.opening? cs) by
    simpa [after, empty] using this empty
  induction events with
  | nil => simp
  | cons reading events ih =>
    intro ledger
    rw [List.foldl_cons, ih, openings_read, List.append_assoc]
    cases h : reading.opening? cs <;> simp [h]

/-- More events do not change what is known of the elements there are. -/
theorem getElem?_openings_take {cs : List Char} {events : List Reading} {k number : Nat}
    (h : number < (after cs (events.take k)).openings.length) :
    (after cs (events.take k)).openings[number]? =
      (events.filterMap (Reading.opening? cs))[number]? := by
  have hsplit : events.filterMap (Reading.opening? cs) =
      (events.take k).filterMap (Reading.opening? cs) ++
        (events.drop k).filterMap (Reading.opening? cs) := by
    rw [← List.filterMap_append, List.take_append_drop]
  rw [openings_after] at h ⊢
  rw [hsplit, List.getElem?_append_left h]

end Ledger

namespace Builder

/-- What is known of the elements of a forest under construction. -/
def ledger (builder : Builder) : Ledger :=
  ⟨builder.rows.map Row.opening, builder.numbers⟩

theorem ledger_empty : empty.ledger = Ledger.empty := by
  simp [ledger, Ledger.empty]

/-- An open element and its number have the same name. -/
theorem findIdx?_pending (builder : Builder) (name : String) :
    builder.pending.findIdx? (·.name == name) =
      builder.numbers.findIdx? (builder.ledger.isNamed name) := by
  have hopenings := congrArg (List.findIdx? fun opening => opening.map Opening.name == some name)
    builder.map_numbers
  rw [List.findIdx?_map, List.findIdx?_map] at hopenings
  have hnumbers : builder.ledger.isNamed name =
      (fun opening : Option Opening => opening.map Opening.name == some name) ∘
        fun number => builder.rows[number]?.map Row.opening := by
    ext number
    simp [Ledger.isNamed, ledger]
  rw [hnumbers, hopenings]
  apply congrArg fun p => List.findIdx? p builder.pending
  ext element
  exact (Bool.eq_iff_iff.2 (by simp [OpenElement.opening])).symm

/-- The numbers above a number of a decreasing list are those in front of it. -/
private theorem filter_lt_eq_drop {numbers : List Nat} (h : numbers.Pairwise (· > ·)) {depth : Nat}
    (hdepth : depth < numbers.length) :
    numbers.filter (· < numbers[depth]) = numbers.drop (depth + 1) := by
  induction numbers generalizing depth with
  | nil => exact absurd hdepth (Nat.not_lt_zero _)
  | cons number numbers ih =>
    obtain ⟨hfirst, hrest⟩ := List.pairwise_cons.1 h
    cases depth with
    | zero => simpa using hfirst
    | succ depth =>
      have hdepth : depth < numbers.length := Nat.lt_of_succ_lt_succ hdepth
      have hlater := hfirst _ (List.getElem_mem hdepth)
      rw [List.getElem_cons_succ, List.filter_cons_of_neg (by simpa using Nat.le_of_lt hlater),
        ih hrest hdepth, List.drop_succ_cons]

/-- The numbers below a place of a decreasing list are smaller, and no others. -/
private theorem mem_take_iff {numbers : List Nat} (h : numbers.Pairwise (· > ·)) {depth : Nat}
    (hdepth : depth < numbers.length) (number : Nat) :
    number ∈ numbers.take depth ↔ numbers[depth] < number ∧ number ∈ numbers := by
  induction numbers generalizing depth with
  | nil => exact absurd hdepth (Nat.not_lt_zero _)
  | cons innermost numbers ih =>
    obtain ⟨hfirst, hrest⟩ := List.pairwise_cons.1 h
    cases depth with
    | zero =>
      rw [List.take_zero, List.getElem_cons_zero, List.mem_cons]
      refine ⟨fun hmem => (List.not_mem_nil hmem).elim, ?_⟩
      rintro ⟨hlt, hmem⟩
      rcases hmem with rfl | hmem
      · exact absurd hlt (Nat.lt_irrefl _)
      · exact absurd (hfirst _ hmem) (Nat.lt_asymm hlt)
    | succ depth =>
      have hdepth : depth < numbers.length := Nat.lt_of_succ_lt_succ hdepth
      have hlater := hfirst _ (List.getElem_mem hdepth)
      rw [List.take_succ_cons, List.getElem_cons_succ, List.mem_cons, List.mem_cons,
        ih hrest hdepth]
      constructor
      · rintro (rfl | ⟨hlt, hmem⟩)
        · exact ⟨hlater, Or.inl rfl⟩
        · exact ⟨hlt, Or.inr hmem⟩
      · rintro ⟨hlt, rfl | hmem⟩
        · exact Or.inl rfl
        · exact Or.inr ⟨hlt, hmem⟩

/-- An end tag closes the element that the ledger names. -/
theorem closedBy?_eq_bind (builder : Builder) {event : Event} {name : String}
    (h : event.closingName? = some name) :
    builder.ledger.closedBy? event =
      (builder.pending.findIdx? (·.name == name)).bind (builder.numbers[·]?) := by
  rw [Ledger.closedBy?, h, Option.bind_some, List.find?_eq_bind_findIdx?_getElem?,
    findIdx?_pending]
  rfl

/-- Where an end tag finds its element: so many open elements are inside it. -/
theorem getElem_numbers_of_findIdx? {builder : Builder} {name : String} {depth : Nat}
    (h : builder.pending.findIdx? (·.name == name) = some depth) :
    ∃ hdepth : depth < builder.numbers.length, ∀ {event : Event},
      event.closingName? = some name →
        builder.ledger.closedBy? event = some builder.numbers[depth] := by
  have hdepth : depth < builder.numbers.length := by
    rw [length_numbers]
    exact (List.findIdx?_eq_some_iff_getElem.1 h).1
  refine ⟨hdepth, ?_⟩
  intro event hname
  rw [closedBy?_eq_bind builder hname, h, Option.bind_some, List.getElem?_eq_getElem hdepth]

/-- An end tag leaves open what is around the element it closes. -/
theorem numbers_closeElement (builder : Builder) (event : Event) {name : String} (start stop : Nat)
    (h : event.closingName? = some name) :
    (builder.closeElement name start stop).numbers =
      match builder.ledger.closedBy? event with
      | some number => builder.numbers.filter (· < number)
      | none => builder.numbers := by
  unfold closeElement
  split
  · next hnone => rw [closedBy?_eq_bind builder h, hnone]; rfl
  · next depth hfound =>
    obtain ⟨hdepth, hclosed⟩ := getElem_numbers_of_findIdx? hfound
    rw [hclosed h, numbers_finish, numbers_finishMany, List.tail_drop]
    exact (filter_lt_eq_drop builder.pairwise_numbers hdepth).symm

/-- An end tag sets the closing marks that the ledger names. -/
theorem getElem?_rows_closeElement (builder : Builder) (event : Event) {name : String}
    (start stop : Nat) (h : event.closingName? = some name) (number : Nat) :
    (builder.closeElement name start stop).rows[number]? =
      builder.rows[number]?.map (Row.mark (builder.ledger.mark? event number)) := by
  unfold closeElement Ledger.mark?
  split
  · next hnone =>
    rw [closedBy?_eq_bind builder h, hnone]
    simp
  · next depth hfound =>
    obtain ⟨hdepth, hclosed⟩ := getElem_numbers_of_findIdx? hfound
    have hnumbers : (builder.finishMany .missing start depth).numbers =
        builder.numbers[depth] :: builder.numbers.drop (depth + 1) := by
      rw [numbers_finishMany, List.drop_eq_getElem_cons hdepth]
    have hpending : builder.ledger.pending = builder.numbers := rfl
    rw [hclosed h, rows_finish stop hnumbers rfl, List.getElem?_modify,
      getElem?_rows_finishMany start depth builder rfl]
    simp only [mem_take_iff builder.pairwise_numbers hdepth, hpending]
    -- The element found gets its end tag, the open ones inside it go without.
    by_cases hnumber : number = builder.numbers[depth]
    · subst hnumber
      simp [Row.mark_some]
    · simp only [hnumber, Ne.symm hnumber, if_false]
      split <;> simp [Row.mark_some]

/-- An element that is not closed by an event keeps the ledger's openings. -/
theorem openings_ledger_of_getElem? {builder next : Builder} {marks : Nat → Option Closing}
    (h : ∀ number, next.rows[number]? = builder.rows[number]?.map (Row.mark (marks number))) :
    next.ledger.openings = builder.ledger.openings := by
  apply List.ext_getElem?
  intro number
  simp only [ledger, List.getElem?_map, h, Option.map_map]
  rfl

/-! ## One event -/

/-- An end tag closes the innermost open element of its name. -/
theorem read_of_closingName? (cs : List Char) (builder : Builder) {reading : Reading}
    {name : String} (h : reading.event.closingName? = some name) :
    builder.read cs reading =
      builder.closeElement name (markupStart cs reading.start) reading.stop := by
  obtain ⟨event, start, stop⟩ := reading
  cases event with
  | endTag tagName =>
    obtain rfl : String.ofList (localName tagName) = name := Option.some.inj h
    rfl
  | _ => cases h

/-- A tag that begins an element adds it at the end, and the element is open unless the tag closes
itself. -/
theorem rows_read_of_opening? {cs : List Char} (builder : Builder) {reading : Reading}
    {opening : Opening} (h : reading.opening? cs = some opening) :
    (builder.read cs reading).rows =
        builder.rows ++ [Row.begun builder.pending.length opening] ∧
      (builder.read cs reading).numbers =
        if opening.closesItself then builder.numbers
        else builder.rows.length :: builder.numbers := by
  obtain ⟨event, start, stop⟩ := reading
  cases event with
  | startTag name attributes =>
    by_cases hname : (localName name).isEmpty = true
    · simp [Reading.opening?, hname] at h
    · obtain rfl : _ = opening := by simpa [Reading.opening?, hname] using h
      simp [read, hname, rows_openElement, numbers_openElement, Row.begun]
  | emptyTag name attributes =>
    by_cases hname : (localName name).isEmpty = true
    · simp [Reading.opening?, hname] at h
    · obtain rfl : _ = opening := by simpa [Reading.opening?, hname] using h
      simp [read, hname, rows_attach, selfClosed, Node.listed, Row.ofListed, Tag.opening, Row.begun]
  | _ => cases h

/-- Any other event leaves the elements as they are. -/
theorem rows_read_of_none {cs : List Char} (builder : Builder) {reading : Reading}
    (hname : reading.event.closingName? = none) (hopening : reading.opening? cs = none) :
    (builder.read cs reading).rows = builder.rows ∧
      (builder.read cs reading).numbers = builder.numbers := by
  obtain ⟨event, start, stop⟩ := reading
  cases event with
  | endTag name => cases hname
  | startTag name attributes =>
    -- A tag without a name is text.
    by_cases hempty : (localName name).isEmpty = true
    · simp [read, hempty]
    · simp [Reading.opening?, hempty] at hopening
  | emptyTag name attributes =>
    by_cases hempty : (localName name).isEmpty = true
    · simp [read, hempty]
    · simp [Reading.opening?, hempty] at hopening
  | _ => simp [read]

/-- One event does to the ledger of a forest under construction what it does to any ledger. -/
theorem ledger_read (cs : List Char) (builder : Builder) (reading : Reading) :
    (builder.read cs reading).ledger = builder.ledger.read cs reading := by
  cases hname : reading.event.closingName? with
  | some name =>
    have hopenings := openings_ledger_of_getElem? (getElem?_rows_closeElement builder reading.event
      (markupStart cs reading.start) reading.stop hname)
    have hnumbers := numbers_closeElement builder reading.event (markupStart cs reading.start)
      reading.stop hname
    rw [read_of_closingName? cs builder hname, Ledger.read, Reading.opening?_of_closingName? hname]
    -- The ledger decides whether there is an element to close.
    cases hclosed : builder.ledger.closedBy? reading.event with
    | none =>
      rw [hclosed] at hnumbers
      exact Ledger.ext hopenings hnumbers
    | some number =>
      rw [hclosed] at hnumbers
      exact Ledger.ext hopenings hnumbers
  | none =>
    have hclosed : builder.ledger.closedBy? reading.event = none := by
      rw [Ledger.closedBy?, hname, Option.bind_none]
    rw [Ledger.read, hclosed]
    cases hopening : reading.opening? cs with
    | none =>
      obtain ⟨hrows, hnumbers⟩ := rows_read_of_none builder hname hopening
      rw [ledger, hrows, hnumbers, ledger]
    | some opening =>
      obtain ⟨hrows, hnumbers⟩ := rows_read_of_opening? builder hopening
      rw [ledger, hrows, hnumbers]
      simp [ledger, Row.begun]

/-- An event leaves the elements there are as they stand, except for the closing marks that the
ledger names. -/
theorem getElem?_rows_read (cs : List Char) (builder : Builder) (reading : Reading) {number : Nat}
    (hnumber : number < builder.rows.length) :
    (builder.read cs reading).rows[number]? =
      builder.rows[number]?.map (Row.mark (builder.ledger.mark? reading.event number)) := by
  cases hname : reading.event.closingName? with
  | some name =>
    rw [read_of_closingName? cs builder hname]
    exact getElem?_rows_closeElement builder reading.event _ reading.stop hname number
  | none =>
    have hmark : builder.ledger.mark? reading.event number = none := by
      rw [Ledger.mark?, Ledger.closedBy?, hname, Option.bind_none]
    rw [hmark, Row.mark_none, Option.map_id]
    cases hopening : reading.opening? cs with
    | none => rw [(rows_read_of_none builder hname hopening).1, id]
    | some opening =>
      rw [(rows_read_of_opening? builder hopening).1, List.getElem?_append_left hnumber, id]

/-- The element that an event begins is open unless its tag closes itself. -/
theorem closing_of_opening? (cs : List Char) (builder : Builder) (reading : Reading) {row : Row}
    (h : (builder.read cs reading).rows[builder.rows.length]? = some row) :
    row.closing = if row.opening.closesItself then some .selfClosing else none := by
  have habsent : builder.rows[builder.rows.length]? = none :=
    List.getElem?_eq_none (Nat.le_refl _)
  cases hname : reading.event.closingName? with
  | some name =>
    rw [read_of_closingName? cs builder hname, getElem?_rows_closeElement builder reading.event _ _
      hname, habsent] at h
    cases h
  | none =>
    cases hopening : reading.opening? cs with
    | none =>
      rw [(rows_read_of_none builder hname hopening).1, habsent] at h
      cases h
    | some opening =>
      rw [(rows_read_of_opening? builder hopening).1, List.getElem?_concat_length] at h
      obtain rfl := Option.some.inj h
      rfl

/-- The forest under construction after the given events of a text. -/
def after (cs : List Char) (events : List Reading) : Builder :=
  events.foldl (Builder.read cs) .empty

@[simp]
theorem after_nil (cs : List Char) : after cs [] = .empty := rfl

theorem after_concat (cs : List Char) (events : List Reading) (reading : Reading) :
    after cs (events ++ [reading]) = (after cs events).read cs reading := by
  simp [after]

/-- The events of a text do to the ledger of a forest under construction what they do to any. -/
theorem ledger_after (cs : List Char) (events : List Reading) :
    (after cs events).ledger = Ledger.after cs events := by
  suffices ∀ builder : Builder, (events.foldl (Builder.read cs) builder).ledger =
      events.foldl (Ledger.read cs) builder.ledger by
    simpa [after, Ledger.after, ledger_empty] using this empty
  induction events with
  | nil => exact fun builder => rfl
  | cons reading events ih =>
    intro builder
    rw [List.foldl_cons, List.foldl_cons, ih, ledger_read]

/-- The elements after some events are still there after more, as deep as before. -/
theorem getElem?_rows_after_append (cs : List Char) (events more : List Reading) {number : Nat}
    {row : Row} (h : (after cs events).rows[number]? = some row) :
    ∃ later, (after cs (events ++ more)).rows[number]? = some later ∧ later.depth = row.depth := by
  rw [after, List.foldl_append]
  show ∃ later, (more.foldl (Builder.read cs) (after cs events)).rows[number]? = some later ∧ _
  generalize after cs events = builder at h
  induction more generalizing builder row with
  | nil => exact ⟨row, h, rfl⟩
  | cons reading more ih =>
    have hread := getElem?_rows_read cs builder reading (List.getElem?_eq_some_iff.1 h).1
    rw [h, Option.map_some] at hread
    obtain ⟨later, hlater, hdepth⟩ := ih _ hread
    exact ⟨later, hlater, hdepth⟩

end Builder
end DocAudit.Markup
