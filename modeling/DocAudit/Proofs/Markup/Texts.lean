import DocAudit.Proofs.Markup.Origins

/-!
# What the stretches of texts hold

A text keeps the stretch of the markup it was read from. The stretch holds the text, byte for byte,
whether it was read as plain text, as a reference, or as a tag without a name. Only a section of
character data is no such text: its stretch is counted from the `<` of the sign that opens the section,
although the text stands behind that sign.

* `Event.eq_of_scan_text`, `Event.exists_sign_of_scan`: where the content of an event stands in its
  own text;
* `Forest.DenotesTexts`: what the stretches of the texts of a forest hold;
* `Forest.read_denotesTexts`: that is how it is for all texts without a byte order mark.
-/

namespace DocAudit.Markup

open DocAudit.Text

/-! ## Content in the text of an event -/

/-- A character whose upper case takes one byte takes one byte. -/
theorem utf8Size_of_utf8Size_toUpper {c : Char} (h : c.toUpper.utf8Size = 1) : c.utf8Size = 1 := by
  unfold Char.toUpper at h
  split at h
  · next hlower => exact Char.utf8Size_eq_one_iff.2 (UInt32.le_trans hlower.2 (by decide))
  · exact h

/-- A head takes as many bytes in any case, if each of its characters takes one. -/
theorem exists_head_of_dropKeyword? {keyword cs rest : List Char}
    (h : dropKeyword? keyword cs = some rest)
    (hkeyword : keyword.all (·.utf8Size == 1) = true) :
    ∃ head, cs = head ++ rest ∧ byteLength head = keyword.length := by
  induction keyword generalizing cs with
  | nil =>
    obtain rfl := Option.some.inj h
    exact ⟨[], rfl, rfl⟩
  | cons k keyword ih =>
    obtain ⟨hk, hmore⟩ := Bool.and_eq_true_iff.1 hkeyword
    cases cs with
    | nil => cases h
    | cons c cs =>
      rw [dropKeyword?] at h
      split at h
      · next hc =>
        obtain ⟨head, rfl, hlength⟩ := ih h hmore
        have hsize : c.utf8Size = 1 := utf8Size_of_utf8Size_toUpper (hc ▸ beq_iff_eq.1 hk)
        refine ⟨c :: head, rfl, ?_⟩
        rw [byteLength_cons, hlength, hsize, List.length_cons, Nat.add_comm]
      · cases h

namespace Event

/-- The event is a section of character data. -/
def isSection : Event → Bool
  | .characterData _ => true
  | _ => false

/-- Of all markup, only a section has content, and it stands behind eight bytes of its sign. -/
theorem exists_sign_of_scanMarkup {cs rest content : List Char} {event : Event}
    (h : scanMarkup cs = .found event rest) (hcontent : event.content? = some content) :
    event = .characterData content ∧
      ∃ sign more, cs = sign ++ (content ++ more) ∧ byteLength sign = 8 := by
  unfold scanMarkup at h
  split at h
  · cases h
  · unfold scanBang at h
    split at h
    · split at h <;> cases h
      cases hcontent
    · split at h
      · next inside hkeyword =>
        split at h
        · next hcut =>
          cases h
          obtain rfl := Option.some.inj hcontent
          obtain ⟨head, rfl, hlength⟩ := exists_head_of_dropKeyword? hkeyword (by decide)
          refine ⟨rfl, '!' :: head, "]]>".toList ++ rest, ?_, ?_⟩
          · rw [eq_append_of_cut? hcut, List.cons_append]
          · rw [byteLength_cons, hlength]
            decide
        · cases h
      · split at h
        · cases h
          split at hcontent <;> cases hcontent
        · cases h
  · split at h <;> cases h
    cases hcontent
  · split at h <;> cases h
    cases hcontent
  · split at h
    · cases h
      unfold ofTagBody at hcontent
      split at hcontent <;> cases hcontent
    · cases h

/-- Plain text is its own content. -/
theorem eq_of_scan_text {xs rest content : List Char}
    (h : scan (xs ++ rest) = .found (.text content) rest) : content = xs := by
  generalize hcs : xs ++ rest = cs at h
  unfold scan at h
  split at h
  · cases h
  · exact absurd (exists_sign_of_scanMarkup h rfl).1 nofun
  · unfold scanReference at h
    split at h <;> cases h
  · obtain ⟨hevent, hrest⟩ := Scan.found.inj h
    obtain rfl := Event.text.inj hevent
    refine List.append_cancel_right (?_ : _ ++ rest = xs ++ rest)
    rw [hcs, ← hrest, List.takeWhile_append_dropWhile]

/-- The content of a section stands behind a sign of nine bytes. -/
theorem exists_sign_of_scan {cs rest content : List Char}
    (h : scan cs = .found (.characterData content) rest) :
    ∃ sign more, cs = '<' :: sign ++ (content ++ more) ∧ byteLength ('<' :: sign) = 9 := by
  unfold scan at h
  split at h
  · cases h
  · obtain ⟨-, sign, more, rfl, hlength⟩ := exists_sign_of_scanMarkup h rfl
    refine ⟨sign, more, rfl, ?_⟩
    rw [byteLength_cons, hlength]
    decide
  · unfold scanReference at h
    split at h <;> cases h
  · cases h

end Event

/-! ## Stretches and texts -/

/-- The stretch of a text holds a content. -/
def Span.Holds (cs : List Char) (span : Span) (content : String) : Prop :=
  slice span.start span.stop cs = content.toList

/-- What the stretch of a text has to do with the text that an event gave. -/
structure Reading.GivesText (cs : List Char) (reading : Reading) (span : Span) (content : String) :
    Prop where
  /-- The stretch starts where the event does. -/
  start : reading.start = span.start
  /-- It is as long as the text. -/
  stop : span.stop = span.start + byteLength content.toList
  /-- It holds the text, unless the event is a section. -/
  holds : reading.event.isSection = false → span.Holds cs content
  /-- The text of a section stands nine bytes further on. -/
  behindSign : reading.event.isSection = true →
    Span.Holds cs ⟨span.start + 9, span.stop + 9⟩ content
  /-- So its stretch does not hold it, at least when it begins with another character than the
  section. -/
  not_holds : reading.event.isSection = true → ∀ c, content.toList.head? = some c → c ≠ '<' →
    ¬span.Holds cs content

namespace Forest

variable {cs : List Char}

/-- A text that comes from an event stands as the event says. -/
theorem givesText_of_comesFrom {reading : Reading} {span : Span} {content : String}
    (hmark : cs.head? ≠ some '\uFEFF') (hreading : reading ∈ (readings cs).1)
    (h : (Node.text span content).ComesFrom cs reading) : reading.GivesText cs span content := by
  obtain ⟨before, xs, rest, hcs, hstart, hstop, hscan⟩ := exists_scan_of_mem_readings hmark hreading
  obtain ⟨event, start, stop⟩ := reading
  obtain rfl : start = byteLength before := hstart
  obtain rfl : stop = byteLength before + byteLength xs := hstop
  cases h with
  | @content chars hcontent =>
    cases event with
    | text plain =>
      -- Plain text is all of its event.
      obtain rfl : plain = chars := Option.some.inj hcontent
      obtain rfl := Event.eq_of_scan_text hscan
      refine ⟨rfl, by rw [String.toList_ofList], fun _ => ?_, nofun, nofun⟩
      rw [Span.Holds, hcs, slice_middle, String.toList_ofList]
    | characterData inside =>
      obtain rfl : inside = chars := Option.some.inj hcontent
      obtain ⟨sign, more, hsection, hsign⟩ := Event.exists_sign_of_scan hscan
      refine ⟨rfl, by rw [String.toList_ofList], nofun, fun _ => ?_, fun _ c hhead hc => ?_⟩
      · have hsplit : cs = before ++ '<' :: sign ++ (inside ++ more) := by
          rw [hcs, hsection, List.append_assoc]
        have hplace : byteLength (before ++ '<' :: sign) = byteLength before + 9 := by
          rw [byteLength_append, hsign]
        have hend : byteLength before + byteLength inside + 9 =
            byteLength before + 9 + byteLength inside := by omega
        rw [Span.Holds, String.toList_ofList, hend, ← hplace, hsplit, slice_middle]
      · rw [String.toList_ofList] at hhead
        rw [Span.Holds, String.toList_ofList]
        intro hholds
        -- The stretch begins with the `<` of the section.
        obtain ⟨tail, rfl⟩ : ∃ tail, inside = c :: tail := List.head?_eq_some_iff.1 hhead
        have hpositive := c.utf8Size_pos
        obtain ⟨n, hn⟩ : ∃ n, byteLength (c :: tail) = n + 1 :=
          ⟨byteLength (c :: tail) - 1, by rw [byteLength_cons]; omega⟩
        rw [slice, Nat.add_sub_cancel_left, hcs, dropBytes_append, hsection, hn, List.cons_append,
          takeBytes] at hholds
        exact hc (List.cons.inj hholds).1.symm
    | _ => cases hcontent
  | written hcontent =>
    have hslice : slice (byteLength before) (byteLength before + byteLength xs) cs = xs := by
      rw [hcs, slice_middle]
    rw [hslice]
    refine ⟨rfl, by rw [String.toList_ofList], fun _ => ?_, ?_, ?_⟩
    · rw [Span.Holds, hslice, String.toList_ofList]
    · intro hsection
      cases event <;> cases hsection
      cases hcontent
    · intro hsection
      cases event <;> cases hsection
      cases hcontent

/-- The texts of a forest, at any depth, and the stretches they were read from. -/
structure DenotesTexts (cs : List Char) (forest : Forest) : Prop where
  /-- Every text was given by one of the events. -/
  given : ∀ span content, (Node.text span content).StandsIn forest.nodes →
    ∃ reading ∈ (readings cs).1, reading.GivesText cs span content
  /-- Where no section is read, the stretch of every text holds the text. -/
  holds : (∀ reading ∈ (readings cs).1, reading.event.isSection = false) →
    ∀ span content, (Node.text span content).StandsIn forest.nodes → span.Holds cs content

/-- Without a byte order mark, the stretch of every text that no section gave holds the text. -/
theorem read_denotesTexts (hmark : cs.head? ≠ some '\uFEFF') : DenotesTexts cs (read cs) := by
  have hgiven : ∀ span content, (Node.text span content).StandsIn (read cs).nodes →
      ∃ reading ∈ (readings cs).1, reading.GivesText cs span content := by
    intro span content hstands
    obtain ⟨reading, hreading, hcomes⟩ := exists_comesFrom hmark hstands
    exact ⟨reading, hreading, givesText_of_comesFrom hmark hreading hcomes⟩
  refine ⟨hgiven, fun hplain span content hstands => ?_⟩
  obtain ⟨reading, hreading, hgives⟩ := hgiven span content hstands
  exact hgives.holds (hplain reading hreading)

/-- Plain text, a tag without a name and two references, whose stretches hold them, and a section of
one character, whose stretch is that of its first `<`. -/
theorem read_denotesTexts_section :
    let cs := "é < >&lt;<a>&amp;<![CDATA[b]]></a>".toList
    cs.head? ≠ some '\uFEFF' ∧ DenotesTexts cs (read cs) ∧
      (read cs).nodes.map Node.span = [⟨0, 3⟩, ⟨3, 6⟩, ⟨6, 10⟩, ⟨10, 35⟩] ∧
      (read cs).elements.map (fun element => element.children.map Node.span) =
        [[⟨13, 18⟩, ⟨18, 19⟩]] := by
  intro cs
  have hmark : cs.head? ≠ some '\uFEFF' := by decide
  exact ⟨hmark, read_denotesTexts hmark, by decide +kernel, by decide +kernel⟩

end Forest
end DocAudit.Markup
