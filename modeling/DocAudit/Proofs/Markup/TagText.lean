import DocAudit.Proofs.Markup.RoundTrip
import DocAudit.Proofs.Markup.StackDiscipline
import DocAudit.Proofs.Text.Cuts
import DocAudit.Proofs.Text.Lines
import Mathlib.Data.List.TakeWhile

/-!
# The text of a tag

A tag says its name and its attributes just as they stand between its angle brackets. So the text of
every tag can be told from the event it is read as, and an element starts at a `<`.

* `tagBody?_append`: a tag ends where it does whatever comes after it;
* `Event.isTagText_of_scan`: a tag is written as what it says;
* `Event.isSpaced_of_scan`: the name of a tag goes up to the first blank;
* `exists_scan_of_getElem?_readAll`: each event of a text is read at a place of its own;
* `Forest.standsAt_start`: an element starts at a `<`.
-/

namespace DocAudit.Markup

open DocAudit.Text

/-! ## The inside of a tag -/

/-- A character ends a tag, or it belongs to the inside whatever follows. -/
theorem tagBody?_cons_cases (quote : Option Char) (c : Char) :
    (quote = none ∧ c = '>') ∨
      ∃ next, ∀ cs, tagBody? quote (c :: cs) =
        (tagBody? next cs).map fun (body, rest) => (c :: body, rest) := by
  cases quote with
  | none =>
    by_cases hc : c = '>'
    · exact Or.inl ⟨rfl, hc⟩
    · refine Or.inr ⟨if c = '"' ∨ c = '\'' then some c else none, ?_⟩
      intro cs
      rw [tagBody?, if_neg hc]
  | some quote =>
    -- Behind a quote nothing ends the tag.
    exact Or.inr ⟨_, fun cs => rfl⟩

/-- A tag ends with the `>` behind its inside. -/
theorem eq_append_of_tagBody? {quote : Option Char} {cs body rest : List Char}
    (h : tagBody? quote cs = some (body, rest)) : cs = body ++ '>' :: rest := by
  induction cs generalizing quote body with
  | nil => cases quote <;> cases h
  | cons c cs ih =>
    rcases tagBody?_cons_cases quote c with ⟨rfl, rfl⟩ | ⟨next, hinside⟩
    · rw [tagBody?, if_pos rfl] at h
      obtain ⟨rfl, rfl⟩ := Prod.mk.inj (Option.some.inj h)
      rfl
    · rw [hinside] at h
      obtain ⟨⟨front, back⟩, hbody, heq⟩ := Option.map_eq_some_iff.1 h
      obtain ⟨rfl, rfl⟩ := Prod.mk.inj heq
      rw [List.cons_append, ← ih hbody]

/-- A tag ends where it does whatever comes after it. -/
theorem tagBody?_append {quote : Option Char} {cs body rest : List Char}
    (h : tagBody? quote cs = some (body, rest)) (later : List Char) :
    tagBody? quote (body ++ '>' :: later) = some (body, later) := by
  induction cs generalizing quote body rest with
  | nil => cases quote <;> cases h
  | cons c cs ih =>
    rcases tagBody?_cons_cases quote c with ⟨rfl, rfl⟩ | ⟨next, hinside⟩
    · rw [tagBody?, if_pos rfl] at h
      obtain ⟨rfl, -⟩ := Prod.mk.inj (Option.some.inj h)
      rw [List.nil_append, tagBody?, if_pos rfl]
    · rw [hinside] at h
      obtain ⟨⟨front, back⟩, hbody, heq⟩ := Option.map_eq_some_iff.1 h
      obtain ⟨rfl, -⟩ := Prod.mk.inj heq
      rw [List.cons_append, hinside, ih hbody]
      rfl

/-! ## The text of an event -/

/-- The text is that of the tag. An event that is no tag may have any text. -/
def Event.IsTagText (xs : List Char) : Event → Prop
  | .startTag name attributes => xs = '<' :: (name ++ (attributes ++ ['>']))
  | .emptyTag name attributes => xs = '<' :: (name ++ (attributes ++ ['/', '>']))
  | .endTag name =>
    ∃ blanks, (∀ c ∈ blanks, isSpace c = true) ∧ xs = '<' :: '/' :: (name ++ (blanks ++ ['>']))
  | _ => True

namespace Event

/-- The inside of a tag is its name, its attributes, and the slash of a tag that closes itself. -/
theorem isTagText_ofTagBody (body : List Char) :
    (ofTagBody body).IsTagText ('<' :: (body ++ ['>'])) := by
  rw [ofTagBody]
  split
  · next inside hinside =>
    have hsplit : inside.takeWhile (!isSpace ·) ++ inside.dropWhile (!isSpace ·) = inside :=
      List.takeWhile_append_dropWhile
    rw [IsTagText, eq_append_of_dropTail? hinside, ← List.append_assoc (inside.takeWhile _), hsplit,
      List.append_assoc]
    rfl
  · have hsplit : body.takeWhile (!isSpace ·) ++ body.dropWhile (!isSpace ·) = body :=
      List.takeWhile_append_dropWhile
    rw [IsTagText, ← List.append_assoc (body.takeWhile _), hsplit]

/-- What follows `<!` is no tag, so that there is nothing to say of its text. -/
theorem isTagText_of_scanBang {cs rest : List Char} {event : Event}
    (h : scanBang cs = .found event rest) (xs : List Char) : event.IsTagText xs := by
  unfold scanBang at h
  split at h
  · split at h
    · cases h; trivial
    · cases h
  · split at h
    · split at h
      · cases h; trivial
      · cases h
    · split at h
      · next body _ _ =>
        cases h
        split <;> trivial
      · cases h

theorem isTagText_of_scanMarkup {xs rest : List Char} {event : Event}
    (h : scanMarkup (xs ++ rest) = .found event rest) : event.IsTagText ('<' :: xs) := by
  unfold scanMarkup at h
  split at h
  · cases h
  · exact isTagText_of_scanBang h _
  · split at h
    · cases h; trivial
    · cases h
  · -- The name of an end tag is its inside without the blanks at the end.
    next inside hinside =>
    split at h
    · next body left hbody =>
      cases h
      have htext : xs = '/' :: (body ++ ['>']) := by
        rw [eq_append_of_tagBody? hbody] at hinside
        refine List.append_cancel_right (?_ : xs ++ rest = '/' :: (body ++ ['>']) ++ rest)
        rw [hinside, List.cons_append, List.append_assoc, List.singleton_append]
      refine ⟨(body.reverse.takeWhile isSpace).reverse, ?_, ?_⟩
      · intro c hc
        exact List.mem_takeWhile_imp (List.mem_reverse.1 hc)
      · have hbody : dropEndWhile isSpace body ++ (body.reverse.takeWhile isSpace).reverse =
            body := by
          rw [dropEndWhile, ← List.reverse_append, List.takeWhile_append_dropWhile,
            List.reverse_reverse]
        rw [htext, ← List.append_assoc, hbody]
    · cases h
  · split at h
    · next body left hbody =>
      cases h
      have htext : xs = body ++ ['>'] := by
        refine List.append_cancel_right (?_ : xs ++ rest = body ++ ['>'] ++ rest)
        rw [eq_append_of_tagBody? hbody, List.append_assoc, List.singleton_append]
      rw [htext]
      exact isTagText_ofTagBody body
    · cases h

/-- A tag is written as what it says. -/
theorem isTagText_of_scan {xs rest : List Char} {event : Event}
    (h : scan (xs ++ rest) = .found event rest) : event.IsTagText xs := by
  obtain ⟨first, more, rfl⟩ := List.exists_cons_of_ne_nil (ne_nil_of_scan h)
  unfold scan at h
  split at h
  · cases h
  · next heq =>
    obtain ⟨rfl, rfl⟩ := List.cons.inj heq
    exact isTagText_of_scanMarkup h
  · -- What follows an ampersand is no tag.
    unfold scanReference at h
    split at h <;> cases h <;> trivial
  · obtain ⟨rfl, -⟩ := Scan.found.inj h
    trivial

/-- The name of a tag that begins an element goes up to the first blank. -/
def IsSpaced : Event → Prop
  | .startTag name attributes | .emptyTag name attributes =>
    (∀ c ∈ name, isSpace c = false) ∧ ∀ c ∈ attributes.head?, isSpace c = true
  | _ => True

theorem isSpaced_ofTagBody (body : List Char) : (ofTagBody body).IsSpaced := by
  have hname (inside : List Char) : ∀ c ∈ inside.takeWhile (!isSpace ·), isSpace c = false :=
    fun c hc => by simpa using List.mem_takeWhile_imp hc
  have hattributes (inside : List Char) :
      ∀ c ∈ (inside.dropWhile (!isSpace ·)).head?, isSpace c = true := by
    intro c hc
    have hhead := List.head?_dropWhile_not (!isSpace ·) inside
    rw [Option.mem_def.1 hc] at hhead
    simpa using hhead
  rw [ofTagBody]
  split
  · next inside _ => exact ⟨hname inside, hattributes inside⟩
  · exact ⟨hname body, hattributes body⟩

/-- The name of every tag goes up to the first blank. -/
theorem isSpaced_of_scan {cs rest : List Char} {event : Event} (h : scan cs = .found event rest) :
    event.IsSpaced := by
  unfold scan at h
  split at h
  · cases h
  · -- Only what follows a `<` can be a tag.
    unfold scanMarkup at h
    split at h
    · cases h
    · -- What follows `<!` is not, since it could have any text.
      have htext := isTagText_of_scanBang h []
      cases event with
      | startTag name attributes => cases htext
      | emptyTag name attributes => cases htext
      | _ => trivial
    · split at h <;> cases h
      trivial
    · split at h <;> cases h
      trivial
    · split at h <;> cases h
      exact isSpaced_ofTagBody _
  · unfold scanReference at h
    split at h <;> cases h <;> trivial
  · obtain ⟨rfl, -⟩ := Scan.found.inj h
    trivial

/-- A tag that begins an element begins with a `<`. -/
theorem exists_cons_of_isTagText {cs xs : List Char} {reading : Reading} {opening : Opening}
    (hopening : reading.opening? cs = some opening) (h : reading.event.IsTagText xs) :
    ∃ more, xs = '<' :: more := by
  obtain ⟨event, start, stop⟩ := reading
  cases event with
  | startTag name attributes => exact ⟨_, h⟩
  | emptyTag name attributes => exact ⟨_, h⟩
  | _ => cases hopening

end Event

/-! ## Events at their places -/

/-- Each event of a text is read at a place of its own, and the later ones come from what is left
there. -/
theorem exists_scan_of_getElem?_readAll {position k : Nat} {cs : List Char} {reading : Reading}
    (h : (readAll position cs).1[k]? = some reading) :
    ∃ before xs rest, cs = before ++ (xs ++ rest) ∧
      reading.start = position + byteLength before ∧ reading.stop = reading.start + byteLength xs ∧
      scan (xs ++ rest) = .found reading.event rest ∧
      (readAll position cs).1.drop (k + 1) = (readAll reading.stop rest).1 := by
  induction k generalizing position cs with
  | zero =>
    cases hscan : scan cs with
    | finished => rw [readAll, hscan] at h; cases h
    | broken => rw [readAll, hscan] at h; cases h
    | found event rest =>
      obtain ⟨xs, rfl⟩ := scan_isSuffix hscan
      rw [readAll_append position hscan] at h ⊢
      obtain rfl := Option.some.inj h
      exact ⟨[], xs, rest, rfl, rfl, rfl, hscan, rfl⟩
  | succ k ih =>
    cases hscan : scan cs with
    | finished => rw [readAll, hscan] at h; cases h
    | broken => rw [readAll, hscan] at h; cases h
    | found event rest =>
      -- The event comes from what the first one leaves.
      obtain ⟨first, rfl⟩ := scan_isSuffix hscan
      rw [readAll_append position hscan, List.getElem?_cons_succ] at h
      obtain ⟨before, xs, left, rfl, hstart, hstop, hfound, hlater⟩ := ih h
      rw [readAll_append position hscan, List.drop_succ_cons]
      refine ⟨first ++ before, xs, left, by rw [List.append_assoc], ?_, hstop, hfound, hlater⟩
      rw [hstart, byteLength_append, Nat.add_assoc]

/-- Where an event starts in the text. Events do not count a byte order mark at the beginning. -/
def Reading.placeIn (cs : List Char) (reading : Reading) : Nat :=
  byteLength cs - byteLength (Forest.withoutMark cs) + reading.start

/-- The number of the element that the event of number `k` begins, if it begins one. -/
def elementNumber (cs : List Char) (events : List Reading) (k : Nat) : Nat :=
  ((events.take k).filterMap (Reading.opening? cs)).length

/-- The element that an event begins is the one of its number. -/
theorem getElem?_openings_elementNumber {cs : List Char} {events : List Reading} {k : Nat}
    {reading : Reading} {opening : Opening} (hreading : events[k]? = some reading)
    (hopening : reading.opening? cs = some opening) :
    (events.filterMap (Reading.opening? cs))[elementNumber cs events k]? = some opening := by
  have hsplit : events.filterMap (Reading.opening? cs) =
      (events.take k).filterMap (Reading.opening? cs) ++
        opening :: (events.drop (k + 1)).filterMap (Reading.opening? cs) := by
    obtain ⟨hk, rfl⟩ := List.getElem?_eq_some_iff.1 hreading
    rw [← List.filterMap_cons_some hopening, ← List.drop_eq_getElem_cons hk, ← List.filterMap_append,
      List.take_append_drop]
  rw [hsplit, elementNumber, List.getElem?_append_right (Nat.le_refl _), Nat.sub_self,
    List.getElem?_cons_zero]

/-- An end tag comes after the tag that begins the element it closes. -/
theorem lt_of_closedBy {cs : List Char} {events : List Reading} {k l : Nat}
    (h : ClosedBy cs events l (elementNumber cs events k)) : k < l := by
  have hlt := lt_length_of_mem_pending h.innermost.1
  rw [Ledger.openings_after, elementNumber] at hlt
  rcases Nat.lt_or_ge k l with hkl | hle
  · exact hkl
  · -- The events up to the end tag would begin no more elements than those up to the start tag.
    have hsublist : (events.take l).Sublist (events.take k) :=
      (List.take_prefix_take_left hle).sublist
    have hlength := (hsublist.filterMap (Reading.opening? cs)).length_le
    omega

/-- An event that can close an element is an end tag. -/
theorem Event.exists_endTag_of_closingName? {event : Event} {name : String}
    (h : event.closingName? = some name) : ∃ tagName, event = .endTag tagName := by
  cases event with
  | endTag tagName => exact ⟨tagName, rfl⟩
  | _ => cases h

/-- A complete element that does not close itself has an end tag. -/
theorem Tag.closing_eq_endTag {tag : Tag} (hcomplete : tag.closing.isComplete = true)
    (hself : tag.opening.closesItself = false) : tag.closing = .endTag := by
  rw [Tag.opening, beq_eq_false_iff_ne] at hself
  cases hclosing : tag.closing with
  | endTag => rfl
  | selfClosing => exact absurd hclosing hself
  | missing => rw [hclosing] at hcomplete; cases hcomplete
  | unknown => rw [hclosing] at hcomplete; cases hcomplete

/-- What a tag says about the element it begins: its name, where it starts, and whether the tag
closes itself. -/
theorem Reading.exists_tag_of_opening? {cs : List Char} {reading : Reading} {opening : Opening}
    (h : reading.opening? cs = some opening) :
    ∃ name attributes,
      reading.event = (if opening.closesItself then .emptyTag name attributes
        else .startTag name attributes) ∧
      opening.name = String.ofList (localName name) ∧
      opening.start = markupStart cs reading.start := by
  obtain ⟨event, start, stop⟩ := reading
  cases event with
  | startTag name attributes =>
    obtain ⟨-, hopening⟩ := Option.ite_none_left_eq_some.1 h
    obtain rfl := Option.some.inj hopening
    exact ⟨name, attributes, rfl, rfl, rfl⟩
  | emptyTag name attributes =>
    obtain ⟨-, hopening⟩ := Option.ite_none_left_eq_some.1 h
    obtain rfl := Option.some.inj hopening
    exact ⟨name, attributes, rfl, rfl, rfl⟩
  | _ => cases h

/-- A start tag gives its element the name after the first colon. -/
theorem Reading.name_of_opening? {cs : List Char} {reading : Reading} {opening : Opening}
    {name attributes : List Char} (hevent : reading.event = .startTag name attributes)
    (h : reading.opening? cs = some opening) : opening.name = String.ofList (localName name) := by
  rw [Reading.opening?, hevent] at h
  obtain ⟨-, hopening⟩ := Option.ite_none_left_eq_some.1 h
  obtain rfl := Option.some.inj hopening
  rfl

namespace Forest

/-- A byte order mark is all that reading passes over. -/
theorem withoutMark_isSuffix (cs : List Char) : withoutMark cs <:+ cs := by
  unfold withoutMark
  split
  · exact List.suffix_cons _ _
  · exact List.suffix_refl _

/-- An element begins with a tag of its text. -/
theorem exists_reading_of_mem_elements {cs : List Char} {element : Element}
    (h : element ∈ (read cs).elements) :
    ∃ reading ∈ (readings cs).1, reading.opening? cs = some element.tag.opening := by
  have hmem : element.tag.opening ∈ (read cs).elements.map (·.tag.opening) :=
    List.mem_map_of_mem h
  rw [map_opening_elements] at hmem
  exact List.mem_filterMap.1 hmem

/-- Without a byte order mark, a tag is read where the element it begins starts. -/
theorem exists_scan_of_opening? {cs : List Char} {reading : Reading} {opening : Opening}
    (hreading : reading ∈ (readings cs).1) (hopening : reading.opening? cs = some opening)
    (hmark : cs.head? ≠ some '\uFEFF') :
    ∃ before xs rest, cs = before ++ (xs ++ rest) ∧ byteLength before = opening.start ∧
      scan (xs ++ rest) = .found reading.event rest := by
  rw [readings_eq_readAll hmark] at hreading
  obtain ⟨k, hk⟩ := List.mem_iff_getElem?.1 hreading
  obtain ⟨before, xs, rest, rfl, hstart, -, hscan, -⟩ := exists_scan_of_getElem?_readAll hk
  obtain ⟨more, rfl⟩ := Event.exists_cons_of_isTagText hopening (Event.isTagText_of_scan hscan)
  -- The reader is at the `<` already, so that nothing has to be made up for.
  have hplace : opening.start = byteLength before := by
    rw [← markupStart_append before (more ++ rest), ← Nat.zero_add (byteLength before), ← hstart]
    obtain ⟨-, -, -, -, hopens⟩ := Reading.exists_tag_of_opening? hopening
    exact hopens
  exact ⟨before, '<' :: more, rest, rfl, hplace.symm, hscan⟩

/-- Without a byte order mark, an element starts at a `<`. -/
theorem standsAt_start {cs : List Char} {element : Element} (h : element ∈ (read cs).elements)
    (hmark : cs.head? ≠ some '\uFEFF') : StandsAt '<' element.tag.span.start cs := by
  obtain ⟨reading, hreading, hopening⟩ := exists_reading_of_mem_elements h
  obtain ⟨before, xs, rest, rfl, hplace, hscan⟩ := exists_scan_of_opening? hreading hopening hmark
  obtain ⟨more, rfl⟩ := Event.exists_cons_of_isTagText hopening (Event.isTagText_of_scan hscan)
  exact ⟨before, more ++ rest, rfl, hplace⟩

/-- Each event of a text stands at a place of its own, and the later events stand behind it. -/
theorem exists_around_of_getElem?_readings {cs : List Char} {k : Nat} {reading : Reading}
    (h : (readings cs).1[k]? = some reading) :
    ∃ before xs rest, cs = before ++ (xs ++ rest) ∧ byteLength before = reading.placeIn cs ∧
      reading.event.IsTagText xs ∧
      ∀ l later, (readings cs).1[l]? = some later → k < l →
        ∃ between ys left, rest = between ++ (ys ++ left) ∧ later.event.IsTagText ys := by
  obtain ⟨before, xs, rest, htext, hstart, -, hscan, hdrop⟩ := exists_scan_of_getElem?_readAll h
  -- The mark that reading passes over stands in front of all events.
  obtain ⟨mark, hmark⟩ := withoutMark_isSuffix cs
  refine ⟨mark ++ before, xs, rest, ?_, ?_, Event.isTagText_of_scan hscan, ?_⟩
  · rw [List.append_assoc, ← htext, hmark]
  · have hlength : byteLength mark + byteLength (withoutMark cs) = byteLength cs := by
      rw [← byteLength_append, hmark]
    rw [Reading.placeIn, byteLength_append, hstart]
    omega
  · intro l later hlater hlt
    obtain ⟨place, rfl⟩ := Nat.exists_eq_add_of_le (Nat.succ_le_of_lt hlt)
    -- The later event is one of those read from what the earlier one leaves.
    have hrest : (readAll reading.stop rest).1[place]? = some later := by
      rw [← hdrop, List.getElem?_drop]
      exact hlater
    obtain ⟨between, ys, left, rfl, -, -, hscan', -⟩ := exists_scan_of_getElem?_readAll hrest
    exact ⟨between, ys, left, rfl, Event.isTagText_of_scan hscan'⟩

/-- An element with an end tag is closed by one of the events. -/
theorem exists_closedBy_of_closing_eq {cs : List Char} {number : Nat} {element : Element}
    (h : (read cs).elements[number]? = some element) (hclosing : element.tag.closing = .endTag) :
    ∃ l, ClosedBy cs (readings cs).1 l number := by
  obtain ⟨-, row, -, -, hrow, -, hrowClosing⟩ := exists_row_of_getElem?_elements h
  have hmark : row.closing = some .endTag := by
    -- The end of reading gives no end tag to an element that has none.
    rw [hclosing] at hrowClosing
    cases hmark : row.closing with
    | none =>
      rw [hmark, Option.getD_none] at hrowClosing
      cases hending : (readings cs).2 <;> rw [hending] at hrowClosing <;> cases hrowClosing
    | some closing =>
      rw [hmark, Option.getD_some] at hrowClosing
      rw [hrowClosing]
  rcases (Builder.closing_eq_some_iff hrow .endTag).1 hmark with ⟨hself, -⟩ | ⟨l, hmarked⟩
  · cases hself
  · exact ⟨l, markedBy_endTag_iff.1 hmarked⟩

end Forest
end DocAudit.Markup
