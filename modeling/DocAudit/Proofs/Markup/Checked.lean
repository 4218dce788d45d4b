import DocAudit.Proofs.Markup.Origins
import DocAudit.Proofs.Text.Checked

/-!
# Reading with checked cuts

Where a forest is read from the bytes of a text, the text is cut at the offsets between which the
events stand, and at the offset of the `<` in front of an event. All of these are boundaries, as long
as no byte order mark has been passed over: then they would all be three bytes short.

* `markupStartChecked_eq`: going back to the `<` of a piece of markup;
* `Builder.readChecked_eq`: one event;
* `Forest.readChecked_eq_ite`: reading stops with a fault exactly if the text is not aligned;
* `Forest.readChecked_eq`: so it never does without a byte order mark, and gives the forest of the text;
* `Forest.isBoundary_stop`: elements stop at boundaries, whatever finishes them.
-/

namespace DocAudit

open Text

namespace Markup

/-! ## The sign in front of an event -/

/-- The offset of the `<` of the markup read at `position`: that very place, or the place of the last
`<` in front of it when only blanks stand between the two. -/
def markupStartChecked (cs : List Char) (position : Nat) : Checked Nat := do
  let rest ← sliceChecked position (byteLength cs) cs
  if rest.head? = some '<' then return position
  else
    let front ← sliceChecked 0 position cs
    match lastIndex? '<' front with
    | none => return position
    | some start =>
      let between ← sliceChecked start position cs
      return if byteLength (trim between) ≤ 1 then start else position

/-- The text from a `<` on is the `<` alone, up to blanks, if only blanks follow; and otherwise what
comes last in it is no `<`. -/
theorem trim_angle_cases (back : List Char) (h : '<' ∉ back) :
    (trim ('<' :: back) = ['<'] ∧
        ∀ front : List Char, (front ++ '<' :: back).reverse.dropWhile isBlankChar =
          '<' :: front.reverse) ∨
      (1 < byteLength (trim ('<' :: back)) ∧
        ∀ front : List Char, ∃ c rest, c ≠ '<' ∧
          (front ++ '<' :: back).reverse.dropWhile isBlankChar = c :: rest) := by
  have hangle : isBlankChar '<' = false := by decide
  have hstart : trimStart ('<' :: back) = '<' :: back := by
    rw [trimStart, List.dropWhile_cons_of_neg (by simp [hangle])]
  have htrim : trim ('<' :: back) = ((back.reverse ++ ['<']).dropWhile isBlankChar).reverse := by
    rw [trim, hstart, trimEnd, dropEndWhile, List.reverse_cons]
  have hreverse (front : List Char) :
      (front ++ '<' :: back).reverse = back.reverse ++ '<' :: front.reverse := by simp
  -- Seen from behind, the blanks go back as far as the `<`, or some other character is in between.
  cases hback : back.reverse.dropWhile isBlankChar with
  | nil =>
    refine Or.inl ⟨?_, fun front => ?_⟩
    · rw [htrim, List.dropWhile_append, hback, List.isEmpty_nil, if_pos rfl,
        List.dropWhile_cons_of_neg (by simp [hangle])]
      rfl
    · rw [hreverse, List.dropWhile_append, hback, List.isEmpty_nil, if_pos rfl,
        List.dropWhile_cons_of_neg (by simp [hangle])]
  | cons c more =>
    have hmem : c ∈ back := by
      rw [← List.mem_reverse]
      exact (List.dropWhile_suffix isBlankChar).subset (hback ▸ List.mem_cons_self)
    refine Or.inr ⟨?_, fun front => ⟨c, more ++ '<' :: front.reverse, ?_, ?_⟩⟩
    · have hpositive := c.utf8Size_pos
      have hsize : '<'.utf8Size = 1 := by decide
      rw [htrim, List.dropWhile_append, hback, List.isEmpty_cons, if_neg Bool.false_ne_true,
        byteLength_reverse, List.cons_append, byteLength_cons, byteLength_append, byteLength_cons]
      omega
    · rintro rfl
      exact h hmem
    · rw [hreverse, List.dropWhile_append, hback, List.isEmpty_cons, if_neg Bool.false_ne_true,
        List.cons_append]

/-- Going back to the `<` needs no forbidden cut, and leads to a boundary that is not further on. -/
theorem exists_markupStart (before after : List Char) :
    ∃ front back, before = front ++ back ∧
      markupStart (before ++ after) (byteLength before) = byteLength front ∧
      markupStartChecked (before ++ after) (byteLength before) = .ok (byteLength front) := by
  rw [markupStart, markupStartChecked, dropBytes_append, takeBytes_append, sliceChecked_back,
    sliceChecked_front, Checked.ok_bind, Checked.ok_bind]
  by_cases hhead : after.head? = some '<'
  · refine ⟨before, [], (List.append_nil _).symm, ?_, ?_⟩
    · rw [if_pos hhead]
    · rw [if_pos hhead]
      rfl
  rw [if_neg hhead, if_neg hhead]
  by_cases hmem : '<' ∈ before
  · -- The last `<` is the first one from behind.
    obtain ⟨behind, inFront, hsplit, hlast⟩ := List.eq_append_cons_of_mem (List.mem_reverse.2 hmem)
    obtain ⟨front, back, rfl, hback⟩ : ∃ front back, before = front ++ '<' :: back ∧ '<' ∉ back := by
      refine ⟨inFront.reverse, behind.reverse, ?_, by simpa using hlast⟩
      rw [← List.reverse_reverse before, hsplit]
      simp
    have hbetween : sliceChecked (byteLength front) (byteLength (front ++ '<' :: back))
        (front ++ '<' :: back ++ after) = .ok ('<' :: back) := by
      rw [byteLength_append, List.append_assoc, sliceChecked_middle]
    rw [lastIndex?_append_cons front hback]
    dsimp only
    rw [hbetween, Checked.ok_bind]
    rcases trim_angle_cases back hback with ⟨htrim, hdrop⟩ | ⟨htrim, hdrop⟩
    · refine ⟨front, '<' :: back, rfl, ?_, ?_⟩
      · rw [hdrop]
        exact byteLength_reverse front
      · rw [htrim, if_pos (by decide)]
        rfl
    · obtain ⟨c, rest, hc, hdrop⟩ := hdrop front
      refine ⟨front ++ '<' :: back, [], (List.append_nil _).symm, ?_, ?_⟩
      · rw [hdrop]
        split
        · next heq => exact absurd (List.cons.inj heq).1 hc
        · rfl
      · rw [if_neg (Nat.not_le.2 htrim)]
        rfl
  · refine ⟨before, [], (List.append_nil _).symm, ?_, ?_⟩
    · split
      · next front heq =>
        have hangle : '<' ∈ before.reverse :=
          (List.dropWhile_suffix isBlankChar).subset (heq ▸ List.mem_cons_self)
        exact absurd (List.mem_reverse.1 hangle) hmem
      · rfl
    · rw [lastIndex?_of_notMem hmem]
      rfl

section MarkupStart

variable {cs : List Char} {position : Nat} (h : isBoundary position cs = true)
include h

theorem markupStartChecked_eq :
    markupStartChecked cs position = .ok (markupStart cs position) := by
  obtain ⟨before, after, rfl, rfl⟩ := exists_append_of_isBoundary h
  obtain ⟨front, back, -, hstart, hchecked⟩ := exists_markupStart before after
  rw [hchecked, hstart]

theorem isBoundary_markupStart : isBoundary (markupStart cs position) cs = true := by
  obtain ⟨before, after, rfl, rfl⟩ := exists_append_of_isBoundary h
  obtain ⟨front, back, rfl, hstart, -⟩ := exists_markupStart before after
  rw [hstart, List.append_assoc]
  exact isBoundary_append front _

theorem markupStart_le : markupStart cs position ≤ position := by
  obtain ⟨before, after, rfl, rfl⟩ := exists_append_of_isBoundary h
  obtain ⟨front, back, hsplit, hstart, -⟩ := exists_markupStart before after
  rw [hstart, hsplit, byteLength_append]
  exact Nat.le_add_right _ _

omit h in
theorem markupStartChecked_of_not_isBoundary (h : isBoundary position cs = false) :
    markupStartChecked cs position = .error .slice := by
  rw [markupStartChecked, sliceChecked_of_not_isBoundary h]
  rfl

omit h in
theorem stopsOnlyWith_markupStartChecked :
    (markupStartChecked cs position).StopsOnlyWith .slice := by
  refine (stopsOnlyWith_sliceChecked _ _ _).bind fun rest => ?_
  split
  · exact .ok _
  · refine (stopsOnlyWith_sliceChecked _ _ _).bind fun front => ?_
    split
    · exact .ok _
    · exact (stopsOnlyWith_sliceChecked _ _ _).bind fun between => .ok _

end MarkupStart

/-! ## One event -/

/-- One event of a text goes into the forest. The offsets of the event are not trusted to be inside of
the text. -/
def Builder.readChecked (cs : List Char) (builder : Builder) (reading : Reading) :
    Checked Builder := do
  let first := min reading.start (byteLength cs)
  let stop := min reading.stop (byteLength cs)
  let start ← markupStartChecked cs first
  match reading.event with
  | .text content => return builder.attachText first content
  | .characterData content => return builder.attachText first content
  | .reference =>
    let raw ← sliceChecked first (max stop first) cs
    return builder.attachText first (raw.takeWhile (· != '<'))
  | .startTag name attributes =>
    if (localName name).isEmpty then
      let raw ← sliceChecked start (max stop start) cs
      return builder.attachText start raw
    else return builder.openElement name attributes start
  | .emptyTag name attributes =>
    if (localName name).isEmpty then
      let raw ← sliceChecked start (max stop start) cs
      return builder.attachText start raw
    else return builder.attach (selfClosed name attributes start stop)
  | .endTag name => return builder.closeElement (String.ofList (localName name)) start stop
  | .aside => return builder
  | .complaint => return builder

/-- An event between two boundaries is read without a fault. -/
theorem Builder.readChecked_eq {cs : List Char} {reading : Reading} (builder : Builder)
    (hle : reading.start ≤ reading.stop) (hstart : isBoundary reading.start cs = true)
    (hstop : isBoundary reading.stop cs = true) :
    builder.readChecked cs reading = .ok (builder.read cs reading) := by
  -- Only a tag without a name is cut out from its `<` on.
  have hmarkup := markupStart_le hstart
  have hnameless : sliceChecked (markupStart cs reading.start) reading.stop cs =
      .ok (slice (markupStart cs reading.start) reading.stop cs) :=
    sliceChecked_eq (Nat.le_trans hmarkup hle) (isBoundary_markupStart hstart) hstop
  rw [readChecked, Nat.min_eq_left (le_byteLength_of_isBoundary hstart),
    Nat.min_eq_left (le_byteLength_of_isBoundary hstop), markupStartChecked_eq hstart,
    Checked.ok_bind, Nat.max_eq_left hle, Nat.max_eq_left (Nat.le_trans hmarkup hle), hnameless,
    sliceChecked_eq hle hstart hstop, read]
  cases reading.event with
  | startTag name attributes => dsimp only; split <;> rfl
  | emptyTag name attributes => dsimp only; split <;> rfl
  | _ => rfl

/-- An event that does not start at a boundary cannot be read. -/
theorem Builder.readChecked_of_not_isBoundary {cs : List Char} {reading : Reading}
    (builder : Builder) (hle : reading.start ≤ byteLength cs)
    (hstart : isBoundary reading.start cs = false) :
    builder.readChecked cs reading = .error .slice := by
  rw [readChecked, Nat.min_eq_left hle, markupStartChecked_of_not_isBoundary hstart]
  rfl

/-- Whatever the offsets of an event are, only a cut can be wrong. -/
theorem Builder.stopsOnlyWith_readChecked (cs : List Char) (builder : Builder)
    (reading : Reading) : (builder.readChecked cs reading).StopsOnlyWith .slice := by
  refine stopsOnlyWith_markupStartChecked.bind fun start => ?_
  cases reading.event with
  | reference => exact (stopsOnlyWith_sliceChecked _ _ _).bind fun raw => .ok _
  | startTag name attributes =>
    dsimp only
    split
    · exact (stopsOnlyWith_sliceChecked _ _ _).bind fun raw => .ok _
    · exact .ok _
  | emptyTag name attributes =>
    dsimp only
    split
    · exact (stopsOnlyWith_sliceChecked _ _ _).bind fun raw => .ok _
    · exact .ok _
  | _ => exact .ok _

/-! ## A whole text -/

/-- The forest under construction after all events of a text. The `<` is looked for in front of the
end as well, although nothing is made of it. -/
def Builder.readAllChecked (cs : List Char) (builder : Builder) (events : List Reading)
    (ending : Ending) : Checked Builder := do
  let last ← events.foldlM (Builder.readChecked cs) builder
  let _ ← markupStartChecked cs (min ending.position (byteLength cs))
  return last

/-- Events that follow one another, up to the end of reading, start at boundaries. -/
def areAligned (cs : List Char) (events : List Reading) (ending : Ending) : Bool :=
  events.all (isBoundary ·.start cs) && isBoundary ending.position cs

/-- The first of the boundaries is the place where reading starts. -/
theorem isBoundary_of_areAligned {whole cs : List Char} {position : Nat}
    (h : areAligned whole (readAll position cs).1 (readAll position cs).2 = true) :
    isBoundary position whole = true := by
  cases hscan : scan cs with
  | finished =>
    rw [readAll, hscan] at h
    simpa [areAligned, Ending.position] using h
  | broken =>
    rw [readAll, hscan] at h
    simpa [areAligned, Ending.position] using h
  | found event rest =>
    obtain ⟨xs, rfl⟩ := scan_isSuffix hscan
    rw [readAll_append position hscan, areAligned, List.all_cons, Bool.and_assoc,
      Bool.and_eq_true] at h
    exact h.1

theorem Builder.readAllChecked_cons (cs : List Char) (builder : Builder) (reading : Reading)
    (events : List Reading) (ending : Ending) :
    builder.readAllChecked cs (reading :: events) ending =
      builder.readChecked cs reading >>= fun next => next.readAllChecked cs events ending := by
  rw [readAllChecked, List.foldlM_cons, bind_assoc]
  rfl

/-- Where reading ends, only the search for the `<` can go wrong. -/
theorem Builder.readAllChecked_nil {cs : List Char} (builder : Builder) {ending : Ending}
    (hle : ending.position ≤ byteLength cs) :
    builder.readAllChecked cs [] ending =
      if areAligned cs [] ending then .ok builder else .error .slice := by
  rw [areAligned, List.all_nil, Bool.true_and, readAllChecked, Nat.min_eq_left hle]
  cases hboundary : isBoundary ending.position cs with
  | true =>
    rw [markupStartChecked_eq hboundary]
    rfl
  | false =>
    rw [markupStartChecked_of_not_isBoundary hboundary]
    rfl

/-- Wherever the events of `cs` are taken to stand in a text, they can be read exactly if all of them
start at boundaries. -/
theorem Builder.readAllChecked_eq {whole cs : List Char} {position : Nat} (builder : Builder)
    (hlength : position + byteLength cs ≤ byteLength whole) :
    builder.readAllChecked whole (readAll position cs).1 (readAll position cs).2 =
      if areAligned whole (readAll position cs).1 (readAll position cs).2 then
        .ok ((readAll position cs).1.foldl (Builder.read whole) builder)
      else .error .slice := by
  have hle : position ≤ byteLength whole := Nat.le_trans (Nat.le_add_right _ _) hlength
  induction cs using scan_induction generalizing position builder with
  | finished cs hscan =>
    rw [readAll, hscan]
    exact builder.readAllChecked_nil hle
  | broken cs hscan =>
    rw [readAll, hscan]
    exact builder.readAllChecked_nil hle
  | found xs rest event hscan ih =>
    rw [byteLength_append, ← Nat.add_assoc] at hlength
    have hrest := fun next => ih next hlength (Nat.le_trans (Nat.le_add_right _ _) hlength)
    rw [readAll_append position hscan, readAllChecked_cons]
    cases hstart : isBoundary position whole with
    | false =>
      rw [builder.readChecked_of_not_isBoundary hle hstart, areAligned, List.all_cons, hstart]
      rfl
    | true =>
      have haligned : areAligned whole
          (⟨event, position, position + byteLength xs⟩ ::
            (readAll (position + byteLength xs) rest).1)
          (readAll (position + byteLength xs) rest).2 =
          areAligned whole (readAll (position + byteLength xs) rest).1
            (readAll (position + byteLength xs) rest).2 := by
        rw [areAligned, List.all_cons, hstart, Bool.true_and, areAligned]
      rw [haligned, List.foldl_cons]
      cases hlater : areAligned whole (readAll (position + byteLength xs) rest).1
        (readAll (position + byteLength xs) rest).2 with
      | true =>
        -- The event stops where the next one starts, or where reading ends.
        rw [builder.readChecked_eq (Nat.le_add_right _ _) hstart (isBoundary_of_areAligned hlater),
          Checked.ok_bind, hrest, hlater]
      | false =>
        -- If this event can be read, a later one cannot.
        cases hstep : builder.readChecked whole ⟨event, position, position + byteLength xs⟩ with
        | error fault =>
          rw [builder.stopsOnlyWith_readChecked whole _ fault hstep]
          rfl
        | ok next => rw [Checked.ok_bind, hrest, hlater]; rfl

namespace Forest

/-- The nodes of a text, and where the markup starts that has no end, if there is such. -/
def readChecked (cs : List Char) : Checked (List Node × Option Nat) := do
  let (events, ending) := readings cs
  let builder ← Builder.empty.readAllChecked cs events ending
  match ending with
  | .finished _ =>
    return ((builder.finishMany .missing (byteLength cs) builder.pending.length).roots, none)
  | .broken position =>
    let position := min position (byteLength cs)
    return ((builder.finishMany .unknown position builder.pending.length).roots, some position)

/-- A text is read without a fault exactly if every event starts between two characters. -/
theorem readChecked_eq_ite (cs : List Char) :
    readChecked cs =
      if (read cs).isAligned then .ok ((read cs).nodes, (read cs).errorPosition)
      else .error .slice := by
  have hlength : 0 + byteLength (withoutMark cs) ≤ byteLength cs := by
    rw [Nat.zero_add]
    exact byteLength_le_of_isSuffix (withoutMark_isSuffix cs)
  have hevents := Builder.empty.readAllChecked_eq hlength
  have haligned : (read cs).isAligned = areAligned cs (readings cs).1 (readings cs).2 := rfl
  rw [haligned, readChecked, read, readings]
  generalize readAll 0 (withoutMark cs) = result at hevents
  obtain ⟨events, ending⟩ := result
  dsimp only at hevents ⊢
  rw [hevents]
  cases hboundaries : areAligned cs events ending with
  | false => rfl
  | true =>
    cases ending with
    | finished position => rfl
    | broken position =>
      rw [areAligned, Bool.and_eq_true] at hboundaries
      have hposition : min position (byteLength cs) = position :=
        Nat.min_eq_left (le_byteLength_of_isBoundary hboundaries.2)
      rw [if_pos rfl, Checked.ok_bind]
      dsimp only
      rw [hposition]
      rfl

/-- Behind a byte order mark the offsets are three bytes short, and may fall inside a character. -/
example : (readChecked "\uFEFFéaa<b/>".toList).toBool = false := by decide +kernel

/-- Without a byte order mark, a text is read without a fault. -/
theorem readChecked_eq {cs : List Char} (hmark : cs.head? ≠ some '\uFEFF') :
    readChecked cs = .ok ((read cs).nodes, (read cs).errorPosition) := by
  rw [readChecked_eq_ite, isAligned_read hmark]
  rfl

end Forest

/-! ## Where elements start and stop -/

namespace Forest

variable {cs : List Char} {element : Element} (hmark : cs.head? ≠ some '\uFEFF')
  (h : element ∈ (read cs).elements)
include hmark h

/-- Without a byte order mark, every element starts at a boundary. -/
theorem isBoundary_start : isBoundary element.tag.span.start cs = true :=
  (standsAt_start h hmark).isBoundary

/-- Without a byte order mark, every element stops at a boundary, whatever finishes it. -/
theorem isBoundary_stop : isBoundary element.tag.span.stop cs = true := by
  obtain ⟨reading, -, hcomes⟩ := exists_comesFrom hmark (Node.standsIn_of_mem_elementsOfAll h)
  cases hcomes with
  | element _ _ _ _ _ hboundary => exact hboundary

end Forest
end Markup
end DocAudit
