import DocAudit.Proofs.Markup.TagText

/-!
# Reading step by step

What an event does to a forest under construction depends on where it starts and on its own text, and
not on the text around it. So reading is a walk along the text: each step takes an event off what is
left, and the forest is what the steps make of it.

* `Builder.step`, `Builder.read_eq_step`: what one event does;
* `scan_induction`: what holds at both ends of reading and in front of every event holds of all texts;
* `Builder.readOn_found`: reading a text is reading its first event, and then the rest;
* `Forest.nodes_eq_ofBuilder`: without a byte order mark, the forest of a text is read so.
-/

namespace DocAudit.Markup

open DocAudit.Text

/-! ## The text of an event -/

/-- What stands in front of a pattern is cut off with it. -/
theorem eq_append_of_cut? {pattern cs before rest : List Char}
    (h : cut? pattern cs = some (before, rest)) : cs = before ++ (pattern ++ rest) := by
  induction cs generalizing before with
  | nil => cases h
  | cons c cs ih =>
    rw [cut?] at h
    split at h
    · next found =>
      obtain ⟨rfl, rfl⟩ := Prod.mk.inj (Option.some.inj h)
      rw [dropHead?_eq_some_iff.1 found, List.nil_append]
    · obtain ⟨⟨front, back⟩, hcut, heq⟩ := Option.map_eq_some_iff.1 h
      obtain ⟨rfl, rfl⟩ := Prod.mk.inj heq
      rw [ih hcut, List.cons_append]

/-- The text that a reading event gives to the forest, if its content stands for itself. -/
def Event.content? : Event → Option (List Char)
  | .text content => some content
  | .characterData content => some content
  | _ => none

/-- A suffix takes no more bytes than the whole. -/
theorem byteLength_le_of_isSuffix {xs ys : List Char} (h : xs <:+ ys) :
    byteLength xs ≤ byteLength ys := by
  obtain ⟨front, rfl⟩ := h
  rw [byteLength_append]
  exact Nat.le_add_left _ _

/-- What follows `<!` gives no more text than it has. -/
theorem byteLength_content_of_scanBang {cs rest content : List Char} {event : Event}
    (h : scanBang cs = .found event rest) (hcontent : event.content? = some content) :
    byteLength content + byteLength rest ≤ byteLength cs := by
  unfold scanBang at h
  split at h
  · split at h
    · cases h
      cases hcontent
    · cases h
  · split at h
    · next inside keyword =>
      split at h
      · next front back found =>
        cases h
        obtain rfl := Option.some.inj hcontent
        -- The keyword stands in front of the section, and the sign of its end behind the content.
        have hinside := byteLength_le_of_isSuffix (dropKeyword?_isSuffix keyword)
        rw [eq_append_of_cut? found, byteLength_append, byteLength_append] at hinside
        omega
      · cases h
    · split at h
      · next body _ _ =>
        cases h
        split at hcontent <;> cases hcontent
      · cases h

/-- No event gives more text to the forest than its own. -/
theorem byteLength_content_le {xs rest content : List Char} {event : Event}
    (h : scan (xs ++ rest) = .found event rest) (hcontent : event.content? = some content) :
    byteLength content ≤ byteLength xs := by
  suffices byteLength content + byteLength rest ≤ byteLength (xs ++ rest) by
    rw [byteLength_append] at this
    omega
  generalize xs ++ rest = cs at h
  unfold scan at h
  split at h
  · cases h
  · next inside =>
    -- Of all markup, only a section of character data gives text.
    refine Nat.le_trans ?_ (Nat.le_add_left _ _)
    unfold scanMarkup at h
    split at h
    · cases h
    · refine Nat.le_trans (byteLength_content_of_scanBang h hcontent) ?_
      exact Nat.le_add_left _ _
    · split at h
      · cases h; cases hcontent
      · cases h
    · split at h
      · cases h; cases hcontent
      · cases h
    · split at h
      · next body _ _ =>
        cases h
        unfold Event.ofTagBody at hcontent
        split at hcontent <;> cases hcontent
      · cases h
  · unfold scanReference at h
    split at h <;> cases h <;> cases hcontent
  · obtain ⟨rfl, rfl⟩ := Scan.found.inj h
    obtain rfl := Option.some.inj hcontent
    rw [← byteLength_append, List.takeWhile_append_dropWhile]

/-- Markup is no reference. -/
theorem scanMarkup_ne_reference {cs rest : List Char} :
    scanMarkup cs ≠ .found .reference rest := by
  intro h
  unfold scanMarkup at h
  split at h
  · cases h
  · unfold scanBang at h
    split at h
    · split at h <;> cases h
    · split at h
      · split at h <;> cases h
      · split at h
        · next body left _ =>
          obtain ⟨hevent, -⟩ := Scan.found.inj h
          split at hevent <;> cases hevent
        · cases h
  · split at h <;> cases h
  · split at h <;> cases h
  · split at h
    · next body left _ =>
      obtain ⟨hevent, -⟩ := Scan.found.inj h
      unfold Event.ofTagBody at hevent
      split at hevent <;> cases hevent
    · cases h

/-- A reference holds no `<`. -/
theorem takeWhile_of_reference {xs rest : List Char}
    (h : scan (xs ++ rest) = .found .reference rest) : xs.takeWhile (· != '<') = xs := by
  refine List.takeWhile_eq_self_iff.2 ?_
  unfold scan at h
  split at h
  · cases h
  · exact absurd h scanMarkup_ne_reference
  · next cs hcs =>
    unfold scanReference at h
    split at h
    · next left hleft =>
      obtain ⟨-, rfl⟩ := Scan.found.inj h
      -- The reference is the `&`, what comes up to the semicolon, and the semicolon.
      have hxs : xs = '&' :: (cs.takeWhile (fun c => c != ';' && !isMark c) ++ [';']) := by
        refine List.append_cancel_right (?_ : xs ++ left = _ ++ left)
        rw [hcs, List.cons_append, List.append_assoc, List.singleton_append, ← hleft,
          List.takeWhile_append_dropWhile]
      rw [hxs]
      intro c hc
      rw [bne_iff_ne]
      rintro rfl
      rcases List.mem_cons.1 hc with hc | hc
      · cases hc
      · rcases List.mem_append.1 hc with hc | hc
        · exact absurd (List.mem_takeWhile_imp hc) (by decide)
        · cases List.mem_singleton.1 hc
    · cases h
  · cases h

/-! ## One event -/

namespace Builder

/-- What an event of the text `xs` that starts at `start` makes of a forest under construction. -/
def step (start : Nat) (xs : List Char) (event : Event) (builder : Builder) : Builder :=
  match event with
  | .text content => builder.attachText start content
  | .characterData content => builder.attachText start content
  | .reference => builder.attachText start xs
  | .startTag name attributes =>
    if (localName name).isEmpty then builder.attachText start xs
    else builder.openElement name attributes start
  | .emptyTag name attributes =>
    if (localName name).isEmpty then builder.attachText start xs
    else builder.attach (selfClosed name attributes start (start + byteLength xs))
  | .endTag name =>
    builder.closeElement (String.ofList (localName name)) start (start + byteLength xs)
  | .aside | .complaint => builder

/-- Reading an event is a step, wherever the text of the event stands. -/
theorem read_eq_step {xs rest : List Char} {event : Event}
    (h : scan (xs ++ rest) = .found event rest) (before : List Char) (builder : Builder) :
    builder.read (before ++ (xs ++ rest))
        ⟨event, byteLength before, byteLength before + byteLength xs⟩ =
      builder.step (byteLength before) xs event := by
  have htag := Event.isTagText_of_scan h
  -- A tag begins with its `<`, so that the reader has not to go back for it.
  have hmarkup (more : List Char) (hxs : xs = '<' :: more) :
      markupStart (before ++ (xs ++ rest)) (byteLength before) = byteLength before := by
    rw [hxs]
    exact markupStart_append before (more ++ rest)
  cases event with
  | text content => rfl
  | characterData content => rfl
  | reference => rw [read, slice_middle, takeWhile_of_reference h, step]
  | startTag name attributes => simp only [read, hmarkup _ htag, slice_middle, step]
  | emptyTag name attributes => simp only [read, hmarkup _ htag, slice_middle, step]
  | endTag name =>
    obtain ⟨blanks, -, hxs⟩ := htag
    simp only [read, hmarkup _ hxs, step]
  | aside => rfl
  | complaint => rfl

end Builder

/-! ## Event by event -/

/-- What holds of the texts at which reading ends, and in front of every event if it holds behind it,
holds of all texts. -/
@[elab_as_elim]
theorem scan_induction {motive : List Char → Prop} (cs : List Char)
    (finished : ∀ cs, scan cs = .finished → motive cs)
    (broken : ∀ cs, scan cs = .broken → motive cs)
    (found : ∀ xs rest event, scan (xs ++ rest) = .found event rest → motive rest →
      motive (xs ++ rest)) : motive cs := by
  induction hlength : cs.length using Nat.strongRecOn generalizing cs with
  | ind length ih =>
    cases hscan : scan cs with
    | finished => exact finished cs hscan
    | broken => exact broken cs hscan
    | found event rest =>
      have hshorter : rest.length < length := hlength ▸ scan_length hscan
      obtain ⟨xs, rfl⟩ := scan_isSuffix hscan
      exact found xs rest event hscan (ih rest.length hshorter rest rfl)

namespace Builder

/-- The forest under construction after all events of `cs`, which stands behind `before`, and how
reading ended. -/
def readOn (before cs : List Char) (builder : Builder) : Builder × Ending :=
  ((readAll (byteLength before) cs).1.foldl (Builder.read (before ++ cs)) builder,
    (readAll (byteLength before) cs).2)

theorem readOn_finished {cs : List Char} (h : scan cs = .finished) (before : List Char)
    (builder : Builder) : builder.readOn before cs = (builder, .finished (byteLength before)) := by
  rw [readOn, readAll, h]
  rfl

theorem readOn_broken {cs : List Char} (h : scan cs = .broken) (before : List Char)
    (builder : Builder) : builder.readOn before cs = (builder, .broken (byteLength before)) := by
  rw [readOn, readAll, h]
  rfl

/-- Reading a text is reading its first event, and then the rest. -/
theorem readOn_found {xs rest : List Char} {event : Event}
    (h : scan (xs ++ rest) = .found event rest) (before : List Char) (builder : Builder) :
    builder.readOn before (xs ++ rest) =
      (builder.step (byteLength before) xs event).readOn (before ++ xs) rest := by
  rw [readOn, readAll_append _ h, List.foldl_cons, read_eq_step h, readOn, byteLength_append,
    List.append_assoc]

end Builder

namespace Forest

/-- Without a byte order mark, the nodes of a text are those that its events make. -/
theorem nodes_eq_ofBuilder {cs : List Char} (h : cs.head? ≠ some '\uFEFF') :
    (read cs).nodes = ofBuilder cs (Builder.empty.readOn [] cs).1 (Builder.empty.readOn [] cs).2 := by
  rw [read, readings_eq_readAll h, Builder.readOn, byteLength_nil, List.nil_append]

/-- The offset of the markup that has no end is where reading broke off. -/
theorem errorPosition_eq {cs : List Char} (h : cs.head? ≠ some '\uFEFF') :
    (read cs).errorPosition =
      match (Builder.empty.readOn [] cs).2 with
      | .finished _ => none
      | .broken position => some position := by
  rw [read, readings_eq_readAll h]
  rfl

end Forest
end DocAudit.Markup
