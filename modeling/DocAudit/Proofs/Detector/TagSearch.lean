import DocAudit.Proofs.Detector.RawTags

/-!
# The search for start tags

The text of a comment is searched for start tags and, behind each of them, for an end tag of its name.
What the search finds is said here by the letters of the text alone: where a `<` and a name stand, how
far the name goes, what comes up to the next angle bracket, and whether an end tag follows.

* `RawTag.Shows`: the text shows a start tag at an offset;
* `RawTag.exists_mem_all_iff`: the search finds all that the text shows, and nothing else;
* `RawTag.search_eq_all`: a search that goes on behind each tag misses none of them;
* `RawTag.HasEndTag`: the letters of an end tag stand in a text;
* `RawTag.isUnclosed_iff`: which start tags are taken for unclosed.
-/

namespace DocAudit

open Markup Text

namespace RawTag

/-! ## Start tags by their letters -/

/-- What follows a `<` is a name as long as it can be, what comes up to the next angle bracket, that
bracket if it is a `>`, and a rest. -/
structure Splits (cs name inside closing after : List Char) : Prop where
  /-- These parts make up the text. -/
  text_eq : cs = name ++ (inside ++ (closing ++ after))
  /-- The name has characters of names only, -/
  continues : ∀ c ∈ name, continuesName c = true
  /-- and none follows it. -/
  longest : ∀ c ∈ inside.head?, continuesName c = false
  /-- Nothing up to the next angle bracket is one. -/
  noBracket : ∀ c ∈ inside, c ≠ '<' ∧ c ≠ '>'
  /-- A `<` that cuts the tag off, or the end of the text, is no part of the tag. -/
  closes : closing = ['>'] ∨ closing = [] ∧ ∀ c ∈ after.head?, c = '<'

/-- At the offset the text shows a start tag, which is a `<` and a name that begins with a letter or an
underscore, with what comes up to the next angle bracket. -/
def Shows (cs : List Char) (offset : Nat) (name inside after : List Char) : Prop :=
  ∃ before rest closing, byteLength before = offset ∧ cs = before ++ '<' :: rest ∧
    name.head?.any startsName = true ∧ Splits rest name inside closing after

theorem isInside_iff {c : Char} : isInside c = true ↔ c ≠ '<' ∧ c ≠ '>' := by
  simp [isInside]

/-- Letters come early among all characters. -/
theorem toNat_lt_of_isAlpha {c : Char} (h : c.isAlpha = true) : c.toNat < 128 := by
  have hcode : c.toNat = c.val.toNat := rfl
  have hupper : 'Z'.val.toNat = 90 := rfl
  have hlower : 'z'.val.toNat = 122 := rfl
  rcases Bool.or_eq_true_iff.1 h with h | h
  · have hle := UInt32.le_iff_toNat_le.1 (of_decide_eq_true h).2
    omega
  · have hle := UInt32.le_iff_toNat_le.1 (of_decide_eq_true (Bool.and_eq_true_iff.1 h).2)
    omega

/-- What begins a name can go on in it. -/
theorem continuesName_of_startsName {c : Char} (h : startsName c = true) :
    continuesName c = true := by
  rw [startsName, Bool.or_eq_true, beq_iff_eq] at h
  rcases h with h | rfl
  · have hsmall : ∀ n < 128, (Char.ofNat n).isAlpha = true → continuesName (Char.ofNat n) = true := by
      decide +kernel
    have hlt := toNat_lt_of_isAlpha h
    have hofNat : Char.ofNat c.toNat = c := Char.ofNat_toNat c
    rw [← hofNat] at h ⊢
    exact hsmall c.toNat hlt h
  · decide

theorem Splits.stop_of_mem_head? {cs name inside closing after : List Char}
    (h : Splits cs name inside closing after) :
    ∀ c ∈ (closing ++ after).head?, continuesName c = false ∧ isInside c = false := by
  intro c hc
  have hbracket : c = '>' ∨ c = '<' := by
    rcases h.closes with rfl | ⟨rfl, hafter⟩
    · exact Or.inl (Option.some.inj hc).symm
    · exact Or.inr (hafter c hc)
  rcases hbracket with rfl | rfl <;> decide

/-- A name goes as far as it can. -/
theorem Splits.continuesName_eq_false {cs name inside closing after : List Char}
    (h : Splits cs name inside closing after) :
    ∀ c ∈ (inside ++ (closing ++ after)).head?, continuesName c = false := by
  have hlongest := h.longest
  cases inside with
  | nil => exact fun c hc => (h.stop_of_mem_head? c hc).1
  | cons first inside => exact hlongest

/-- The start tag that is read off a text has its parts. -/
theorem Splits.ofText_eq {cs name inside closing after : List Char}
    (h : Splits cs name inside closing after) (start : Nat) :
    ofText start cs = ⟨start, name, inside, '<' :: name ++ inside ++ closing, after⟩ := by
  have hstopName := h.continuesName_eq_false
  have hstopInside : ∀ c ∈ (closing ++ after).head?, isInside c = false :=
    fun c hc => (h.stop_of_mem_head? c hc).2
  have hinside : ∀ c ∈ inside, isInside c = true := fun c hc => isInside_iff.2 (h.noBracket c hc)
  rw [h.text_eq, ofText, takeWhile_append_stop h.continues hstopName,
    dropWhile_append_stop h.continues hstopName, takeWhile_append_stop hinside hstopInside,
    dropWhile_append_stop hinside hstopInside]
  rcases h.closes with rfl | ⟨rfl, hafter⟩
  · rfl
  · -- Without a `>` in front, the rest is all that follows.
    cases after with
    | nil => simp
    | cons first after =>
      obtain rfl := hafter first rfl
      simp

/-- What comes first when a class of characters is dropped is not of the class. -/
theorem of_mem_head?_dropWhile (p : Char → Bool) (cs : List Char) :
    ∀ c ∈ (cs.dropWhile p).head?, p c = false := by
  intro c hc
  have hhead := List.head?_dropWhile_not p cs
  rw [Option.mem_def.1 hc] at hhead
  simpa using hhead

/-- Every text splits. -/
theorem exists_splits (cs : List Char) :
    ∃ name inside closing after, Splits cs name inside closing after := by
  obtain ⟨closing, after, hrest, hcloses⟩ : ∃ closing after,
      (cs.dropWhile continuesName).dropWhile isInside = closing ++ after ∧
        (closing = ['>'] ∨ closing = [] ∧ ∀ c ∈ after.head?, c = '<') := by
    have hstop := of_mem_head?_dropWhile isInside (cs.dropWhile continuesName)
    cases hrest : (cs.dropWhile continuesName).dropWhile isInside with
    | nil => exact ⟨[], [], rfl, Or.inr ⟨rfl, nofun⟩⟩
    | cons first after =>
      rw [hrest] at hstop
      have hfirst := hstop first rfl
      by_cases hbracket : first = '>'
      · exact ⟨['>'], after, by rw [hbracket]; rfl, Or.inl rfl⟩
      · refine ⟨[], first :: after, rfl, Or.inr ⟨rfl, fun c hc => ?_⟩⟩
        obtain rfl := Option.some.inj hc
        simpa [isInside, hbracket] using hfirst
  refine ⟨cs.takeWhile continuesName, (cs.dropWhile continuesName).takeWhile isInside, closing, after,
    ?_, fun c hc => List.mem_takeWhile_imp hc, ?_,
    fun c hc => isInside_iff.1 (List.mem_takeWhile_imp hc), hcloses⟩
  · rw [← hrest, List.takeWhile_append_dropWhile, List.takeWhile_append_dropWhile]
  · intro c hc
    apply of_mem_head?_dropWhile _ _ c
    -- What is taken of a text begins as the text does.
    obtain ⟨more, hmore⟩ := List.head?_eq_some_iff.1 hc
    rw [← List.takeWhile_append_dropWhile (p := isInside) (l := cs.dropWhile continuesName), hmore]
    rfl

/-! ## The search finds what the text shows -/

/-- The search finds the start tags behind the places where a `<` stands in front of a name. -/
theorem mem_all_iff {offset : Nat} {cs : List Char} {tag : RawTag} :
    tag ∈ all offset cs ↔ ∃ before rest, cs = before ++ '<' :: rest ∧
      rest.head?.any startsName = true ∧ tag = ofText (offset + byteLength before) rest := by
  refine ⟨exists_of_mem_all, ?_⟩
  rintro ⟨before, rest, rfl, hname, rfl⟩
  induction before generalizing offset with
  | nil =>
    rw [List.nil_append, all, if_pos ⟨rfl, hname⟩]
    exact List.mem_append_left _ List.mem_cons_self
  | cons c before ih =>
    rw [List.cons_append, all, byteLength_cons, ← Nat.add_assoc]
    exact List.mem_append_right _ ih

/-- If a name begins a text, it is the name of its start tag. -/
theorem Splits.head?_eq {cs name inside closing after : List Char}
    (h : Splits cs name inside closing after) (hname : cs.head?.any startsName = true) :
    name.head? = cs.head? := by
  have hstop := h.continuesName_eq_false
  rw [h.text_eq] at hname ⊢
  cases name with
  | cons c name => rfl
  | nil =>
    rw [List.nil_append] at hname ⊢
    cases hhead : (inside ++ (closing ++ after)).head? with
    | none => rfl
    | some c =>
      rw [hhead, Option.any_some] at hname
      cases (hstop c hhead).symm.trans (continuesName_of_startsName hname)

/-- The search finds exactly the start tags that the text shows. -/
theorem exists_mem_all_iff {cs : List Char} {offset : Nat} {name inside after : List Char} :
    (∃ tag ∈ all 0 cs, tag.start = offset ∧ tag.name = name ∧ tag.inside = inside ∧
      tag.after = after) ↔ Shows cs offset name inside after := by
  constructor
  · rintro ⟨tag, hmem, rfl, rfl, rfl, rfl⟩
    obtain ⟨before, rest, rfl, hname, rfl⟩ := mem_all_iff.1 hmem
    obtain ⟨name, inside, closing, after, hsplits⟩ := exists_splits rest
    rw [hsplits.ofText_eq, Nat.zero_add]
    exact ⟨before, rest, closing, rfl, rfl, hsplits.head?_eq hname ▸ hname, hsplits⟩
  · rintro ⟨before, rest, closing, rfl, rfl, hname, hsplits⟩
    refine ⟨ofText (byteLength before) rest, mem_all_iff.2 ⟨before, rest, rfl, ?_, ?_⟩, ?_⟩
    · rw [hsplits.text_eq]
      cases name with
      | nil => cases hname
      | cons c name => exact hname
    · rw [Nat.zero_add]
    · rw [hsplits.ofText_eq]
      exact ⟨rfl, rfl, rfl, rfl⟩

/-- The start tags are found in the order of the text. -/
theorem pairwise_start_all (offset : Nat) (cs : List Char) :
    (all offset cs).Pairwise fun tag later => tag.start < later.start := by
  induction cs generalizing offset with
  | nil => exact List.Pairwise.nil
  | cons c cs ih =>
    rw [all]
    refine List.pairwise_append.2 ⟨?_, ih _, ?_⟩
    · split
      · exact List.pairwise_singleton _ _
      · exact List.Pairwise.nil
    · intro tag htag later hlater
      split at htag
      · obtain rfl := List.mem_singleton.1 htag
        obtain ⟨before, rest, -, -, rfl⟩ := exists_of_mem_all hlater
        have hpos := c.utf8Size_pos
        rw [start_ofText, start_ofText]
        omega
      · cases htag

/-! ## A search that goes on behind each tag -/

/-- No start tag is found in a text without a `<`. -/
theorem all_append_of_notMem {front : List Char} (h : '<' ∉ front) (offset : Nat)
    (rest : List Char) : all offset (front ++ rest) = all (offset + byteLength front) rest := by
  induction front generalizing offset with
  | nil => rfl
  | cons c front ih =>
    have hne : c ≠ '<' := fun hc => h (hc ▸ List.mem_cons_self)
    rw [List.cons_append, all, if_neg fun hc => hne hc.1, List.nil_append,
      ih fun hmem => h (List.mem_cons_of_mem _ hmem), byteLength_cons, Nat.add_assoc]

theorem Splits.notMem {cs name inside closing after : List Char}
    (h : Splits cs name inside closing after) : '<' ∉ name ++ (inside ++ closing) := by
  intro hmem
  rcases List.mem_append.1 hmem with hmem | hmem
  · exact absurd (h.continues _ hmem) (by decide)
  · rcases List.mem_append.1 hmem with hmem | hmem
    · exact (h.noBracket _ hmem).1 rfl
    · rcases h.closes with rfl | ⟨rfl, -⟩
      · exact absurd (List.mem_singleton.1 hmem) (by decide)
      · cases hmem

/-- What follows a start tag is shorter than the text it was read off. -/
theorem length_after_ofText_le (start : Nat) (cs : List Char) :
    (ofText start cs).after.length ≤ cs.length := by
  obtain ⟨name, inside, closing, after, h⟩ := exists_splits cs
  rw [h.ofText_eq, h.text_eq]
  simp only [List.length_append]
  omega

/-- The start tags of a text that begins at the given offset, when the search goes on behind each tag
that is found. -/
def search (offset : Nat) : List Char → List RawTag
  | [] => []
  | c :: cs =>
    if c = '<' ∧ cs.head?.any startsName = true then
      let tag := ofText offset cs
      tag :: search (offset + byteLength tag.text) tag.after
    else search (offset + c.utf8Size) cs
termination_by cs => cs.length
decreasing_by
  · exact Nat.lt_succ_of_le (length_after_ofText_le offset cs)
  · exact Nat.lt_succ_self _

/-- Nothing is missed by going on behind a tag: inside of it stands no `<`. -/
theorem search_eq_all (offset : Nat) (cs : List Char) : search offset cs = all offset cs := by
  fun_induction search offset cs with
  | case1 offset => rfl
  | case2 offset c cs hfound tag ih =>
    obtain ⟨rfl, hname⟩ := hfound
    obtain ⟨name, inside, closing, after, h⟩ := exists_splits cs
    rw [ih, all, if_pos ⟨rfl, hname⟩, List.singleton_append]
    have htag : tag = ⟨offset, name, inside, '<' :: name ++ inside ++ closing, after⟩ :=
      h.ofText_eq offset
    congr 1
    have htext : cs = (name ++ (inside ++ closing)) ++ after := by
      rw [h.text_eq]
      simp only [List.append_assoc]
    rw [htext, all_append_of_notMem h.notMem, htag]
    simp [Nat.add_assoc]
  | case3 offset c cs hnone ih => rw [ih, all, if_neg hnone, List.nil_append]

/-! ## End tags by their letters -/

/-- An end tag of the name stands in the text, perhaps with blanks before its `>`. -/
def HasEndTag (name cs : List Char) : Prop :=
  ∃ before blanks after, cs = before ++ '<' :: '/' :: (name ++ (blanks ++ '>' :: after)) ∧
    ∀ c ∈ blanks, isBlankChar c = true

theorem endsAt_iff {name cs : List Char} : endsAt name cs = true ↔
    ∃ blanks after, cs = '<' :: '/' :: (name ++ (blanks ++ '>' :: after)) ∧
      ∀ c ∈ blanks, isBlankChar c = true := by
  rw [endsAt, Option.any_eq_true]
  constructor
  · rintro ⟨rest, hrest, hhead⟩
    obtain ⟨after, hafter⟩ := List.head?_eq_some_iff.1 (beq_iff_eq.1 hhead)
    refine ⟨rest.takeWhile isBlankChar, after, ?_, fun c hc => List.mem_takeWhile_imp hc⟩
    rw [dropHead?_eq_some_iff.1 hrest, ← hafter, trimStart, List.takeWhile_append_dropWhile]
    rfl
  · rintro ⟨blanks, after, rfl, hblanks⟩
    refine ⟨blanks ++ '>' :: after, dropHead?_eq_some_iff.2 (by simp), ?_⟩
    rw [trimStart, dropWhile_append_stop hblanks (by simp; decide)]
    rfl

/-- The search for an end tag finds one if there is one. -/
theorem hasEndTag_iff {name cs : List Char} : hasEndTag name cs = true ↔ HasEndTag name cs := by
  constructor
  · intro h
    induction cs with
    | nil => cases h
    | cons c cs ih =>
      rw [hasEndTag, Bool.or_eq_true] at h
      rcases h with h | h
      · obtain ⟨blanks, after, htext, hblanks⟩ := endsAt_iff.1 h
        exact ⟨[], blanks, after, htext, hblanks⟩
      · obtain ⟨before, blanks, after, rfl, hblanks⟩ := ih h
        exact ⟨c :: before, blanks, after, rfl, hblanks⟩
  · rintro ⟨before, blanks, after, rfl, hblanks⟩
    exact hasEndTag_of_isSuffix (List.suffix_append _ _)
      (endsAt_iff.2 ⟨blanks, after, rfl, hblanks⟩)

/-- The text ends with a slash and blanks, if any. -/
def EndsInSlash (cs : List Char) : Prop :=
  ∃ front blanks, cs = front ++ '/' :: blanks ∧ ∀ c ∈ blanks, isBlankChar c = true

theorem getLast?_trimEnd_eq_iff {cs : List Char} :
    (trimEnd cs).getLast? = some '/' ↔ EndsInSlash cs := by
  rw [trimEnd, dropEndWhile, List.getLast?_reverse]
  constructor
  · intro h
    obtain ⟨more, hmore⟩ := List.head?_eq_some_iff.1 h
    refine ⟨more.reverse, (cs.reverse.takeWhile isBlankChar).reverse, ?_, fun c hc =>
      List.mem_takeWhile_imp (List.mem_reverse.1 hc)⟩
    have hsplit := List.takeWhile_append_dropWhile (p := isBlankChar) (l := cs.reverse)
    rw [hmore] at hsplit
    simpa using (congrArg List.reverse hsplit).symm
  · rintro ⟨front, blanks, rfl, hblanks⟩
    rw [List.reverse_append, List.reverse_cons, List.append_assoc,
      dropWhile_append_stop (fun c hc => hblanks c (List.mem_reverse.1 hc)) (by simp; decide)]
    rfl

/-- Which start tags are taken for unclosed. -/
theorem isUnclosed_iff {tag : RawTag} : tag.isUnclosed = true ↔
    Vocabulary.isContainer (String.ofList tag.name) = true ∧ ¬EndsInSlash tag.inside ∧
      ¬HasEndTag tag.name tag.after := by
  rw [← getLast?_trimEnd_eq_iff, ← hasEndTag_iff]
  simp [isUnclosed, and_assoc]

/-- At the offset the text shows a start tag of a container that does not close itself, and no end tag
of its name follows. -/
def IsUnclosedAt (cs : List Char) (offset : Nat) : Prop :=
  ∃ name inside after, Shows cs offset name inside after ∧
    Vocabulary.isContainer (String.ofList name) = true ∧ ¬EndsInSlash inside ∧
    ¬HasEndTag name after

/-- The search singles out the start tags without an end tag. -/
theorem mem_map_start_filter_iff {cs : List Char} {offset : Nat} :
    offset ∈ ((all 0 cs).filter isUnclosed).map start ↔ IsUnclosedAt cs offset := by
  rw [List.mem_map]
  constructor
  · rintro ⟨tag, hmem, rfl⟩
    obtain ⟨hmem, hunclosed⟩ := List.mem_filter.1 hmem
    exact ⟨tag.name, tag.inside, tag.after, exists_mem_all_iff.1 ⟨tag, hmem, rfl, rfl, rfl, rfl⟩,
      isUnclosed_iff.1 hunclosed⟩
  · rintro ⟨name, inside, after, hshows, hunclosed⟩
    obtain ⟨tag, hmem, rfl, rfl, rfl, rfl⟩ := exists_mem_all_iff.2 hshows
    exact ⟨tag, List.mem_filter.2 ⟨hmem, isUnclosed_iff.2 hunclosed⟩, rfl⟩

end RawTag

end DocAudit
