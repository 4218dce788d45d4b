import DocAudit.Proofs.Markup.Scan

/-!
# The written form of markup

Tags as someone writes them: a name, attributes with their values in double quotes, and nothing else
that means anything to the reader. What is written so is read as it was written.

* `scan_startTag_append`, `scan_emptyTag_append`, `scan_endTag_append`: each tag is one event,
  whatever comes after it;
* `Attribute.parseAll_renderAll`: the attributes of a tag are read as they were written.
-/

namespace DocAudit.Markup

open DocAudit.Text

/-! ## Names and values -/

/-- Characters of a class up to one outside of it are all that is taken. -/
theorem takeWhile_append_stop {p : Char → Bool} {xs rest : List Char} (h : ∀ c ∈ xs, p c = true)
    (hrest : ∀ c ∈ rest.head?, p c = false) : (xs ++ rest).takeWhile p = xs := by
  rw [List.takeWhile_append_of_pos h]
  cases rest with
  | nil => simp
  | cons c rest => simp [hrest c rfl]

/-- Characters of a class up to one outside of it are all that is dropped. -/
theorem dropWhile_append_stop {p : Char → Bool} {xs rest : List Char} (h : ∀ c ∈ xs, p c = true)
    (hrest : ∀ c ∈ rest.head?, p c = false) : (xs ++ rest).dropWhile p = rest := by
  rw [List.dropWhile_append_of_pos h]
  cases rest with
  | nil => simp
  | cons c rest => simp [hrest c rfl]

/-- The character can begin a name. -/
def isNameStart (c : Char) : Bool :=
  c.isAlpha || c == '_'

/-- The character can stand in a name after its beginning. -/
def isNameRest (c : Char) : Bool :=
  c.isAlphanum || c == '_' || c == '.' || c == '-'

/-- The text is the name of an element or an attribute. -/
def isName : List Char → Bool
  | [] => false
  | c :: cs => isNameStart c && cs.all isNameRest

/-- The text can stand between the quotes of an attribute. -/
def isValue (cs : List Char) : Bool :=
  cs.all fun c => c != '"' && c != '<' && c != '>' && c != '&'

/-- The character means something to the reader inside of a tag. -/
def isTagSign (c : Char) : Bool :=
  c == '>' || c == '"' || c == '\'' || c == '/' || c == '=' || c == ':' || isSpace c

theorem isTagSign_eq_false_of_isNameRest {c : Char} (h : isNameRest c = true) :
    isTagSign c = false := by
  rw [Bool.eq_false_iff]
  intro hsign
  simp only [isTagSign, isSpace, Bool.or_eq_true, beq_iff_eq] at hsign
  rcases hsign with (((((rfl | rfl) | rfl) | rfl) | rfl) | rfl) | (((rfl | rfl) | rfl) | rfl) <;>
    exact absurd h (by decide)

theorem isSpace_of_isTagSign {c : Char} (h : isTagSign c = false) : isSpace c = false := by
  rw [isTagSign, Bool.or_eq_false_iff] at h
  exact h.2

theorem isNameChar_of_isTagSign {c : Char} (h : isTagSign c = false) : isNameChar c = true := by
  have hspace := isSpace_of_isTagSign h
  simp only [isTagSign, Bool.or_eq_false_iff, beq_eq_false_iff_ne] at h
  simp [isNameChar, hspace, h.1.1.2]

theorem isNameRest_of_isNameStart {c : Char} (h : isNameStart c = true) : isNameRest c = true := by
  rw [isNameStart, Bool.or_eq_true] at h
  rcases h with h | h <;> simp [isNameRest, Char.isAlphanum, h]

/-- A name begins with a character. -/
theorem exists_cons_of_isName {name : List Char} (h : isName name = true) :
    ∃ first more, name = first :: more := by
  cases name with
  | nil => cases h
  | cons first more => exact ⟨first, more, rfl⟩

/-- A value does not end its own quotation. -/
theorem ne_quote_of_mem_value {value : List Char} (h : isValue value = true) {c : Char}
    (hc : c ∈ value) : c ≠ '"' := by
  rw [isValue, List.all_eq_true] at h
  rintro rfl
  exact absurd (h _ hc) (by decide)

/-- No character of a name means anything to the reader inside of a tag. -/
theorem isTagSign_of_mem_name {name : List Char} (h : isName name = true) {c : Char}
    (hc : c ∈ name) : isTagSign c = false := by
  cases name with
  | nil => cases hc
  | cons first more =>
    rw [isName, Bool.and_eq_true, List.all_eq_true] at h
    rcases List.mem_cons.1 hc with rfl | hc
    · exact isTagSign_eq_false_of_isNameRest (isNameRest_of_isNameStart h.1)
    · exact isTagSign_eq_false_of_isNameRest (h.2 c hc)

/-- A name without a colon is its own local name. -/
theorem localName_of_notMem {name : List Char} (h : ':' ∉ name) : localName name = name := by
  have hdrop : name.dropWhile (· != ':') = [] := by
    rw [← List.append_nil name]
    refine dropWhile_append_stop ?_ (by simp)
    intro c hc
    have hne : c ≠ ':' := fun hcolon => h (hcolon ▸ hc)
    simpa using hne
  rw [localName, hdrop]

theorem localName_of_isName {name : List Char} (h : isName name = true) :
    localName name = name := by
  refine localName_of_notMem fun hc => ?_
  have hsign := isTagSign_of_mem_name h hc
  cases hsign

/-! ## Attributes -/

namespace Attribute

/-- The attribute as it stands in a tag, with a blank in front of it. -/
def render (attr : Attribute) : List Char :=
  ' ' :: (attr.name.toList ++ '=' :: '"' :: (attr.value.toList ++ ['"']))

/-- The name is a name, and the value can stand between quotes. -/
def isWritten (attr : Attribute) : Bool :=
  isName attr.name.toList && isValue attr.value.toList

/-- The attributes of a tag. -/
def renderAll (attributes : List Attribute) : List Char :=
  attributes.flatMap render

/-- One name, equals sign and quoted value make one attribute. -/
theorem parseAll_cons {first : Char} {more value : List Char} (rest : List Char)
    (hfirst : isSpace first = false) (hmore : ∀ c ∈ more, isNameChar c = true)
    (hvalue : ∀ c ∈ value, c ≠ '"') :
    parseAll (' ' :: first :: (more ++ '=' :: '"' :: (value ++ '"' :: rest))) =
      ⟨String.ofList (localName (first :: more)), String.ofList value⟩ :: parseAll rest := by
  have hblank : (' ' :: first :: (more ++ '=' :: '"' :: (value ++ '"' :: rest))).dropWhile isSpace =
      first :: (more ++ '=' :: '"' :: (value ++ '"' :: rest)) := by
    rw [List.dropWhile_cons_of_pos (by decide), List.dropWhile_cons_of_neg (by simp [hfirst])]
  have hname : (more ++ '=' :: '"' :: (value ++ '"' :: rest)).dropWhile isNameChar =
      '=' :: '"' :: (value ++ '"' :: rest) :=
    dropWhile_append_stop hmore (by simp [isNameChar])
  have htake : (more ++ '=' :: '"' :: (value ++ '"' :: rest)).takeWhile isNameChar = more :=
    takeWhile_append_stop hmore (by simp [isNameChar])
  have hquote : ('"' :: (value ++ '"' :: rest)).dropWhile isSpace = '"' :: (value ++ '"' :: rest) :=
    List.dropWhile_cons_of_neg (by decide)
  have hsign : ('=' :: '"' :: (value ++ '"' :: rest)).dropWhile isSpace =
      '=' :: '"' :: (value ++ '"' :: rest) :=
    List.dropWhile_cons_of_neg (by decide)
  have hinside : (value ++ '"' :: rest).dropWhile (· != '"') = '"' :: rest :=
    dropWhile_append_stop (by simpa using hvalue) (by simp)
  have htext : (value ++ '"' :: rest).takeWhile (· != '"') = value :=
    takeWhile_append_stop (by simpa using hvalue) (by simp)
  rw [parseAll]
  -- The reader goes over the name, the sign and the value as they were written.
  split
  · next h => rw [hblank] at h; cases h
  · next h =>
    rw [hblank] at h
    obtain ⟨rfl, rfl⟩ := List.cons.inj h
    split
    · next h => rw [hname, hsign] at h; cases h
    · next h =>
      rw [hname, hsign] at h
      obtain ⟨-, rfl⟩ := List.cons.inj h
      split
      · next h => rw [hquote] at h; cases h
      · next h =>
        rw [hquote] at h
        obtain ⟨rfl, rfl⟩ := List.cons.inj h
        rw [if_pos (Or.inl rfl)]
        split
        · next h => rw [hinside] at h; cases h
        · next h =>
          rw [hinside] at h
          obtain ⟨-, rfl⟩ := List.cons.inj h
          rw [htake, htext]
    · next hnot h =>
      rw [hname, hsign] at h
      exact (hnot (List.cons.inj h).1.symm).elim

/-- An attribute is read as it was written, whatever comes after it. -/
theorem parseAll_render_append {attr : Attribute} (h : attr.isWritten = true)
    (rest : List Char) :
    parseAll (attr.render ++ rest) = attr :: parseAll rest := by
  obtain ⟨name, value⟩ := attr
  rw [isWritten, Bool.and_eq_true] at h
  obtain ⟨hname, hvalue⟩ : isName name.toList = true ∧ isValue value.toList = true := h
  obtain ⟨first, more, hsplit⟩ := exists_cons_of_isName hname
  rw [hsplit] at hname
  have hfirst : isSpace first = false :=
    isSpace_of_isTagSign (isTagSign_of_mem_name hname List.mem_cons_self)
  have hmore : ∀ c ∈ more, isNameChar c = true := by
    intro c hc
    exact isNameChar_of_isTagSign (isTagSign_of_mem_name hname (List.mem_cons_of_mem _ hc))
  have hparse := parseAll_cons rest hfirst hmore fun c hc => ne_quote_of_mem_value hvalue hc
  rw [localName_of_isName hname, ← hsplit, String.ofList_toList, String.ofList_toList] at hparse
  rw [render, hsplit]
  simpa using hparse

/-- The attributes of a tag are read as they were written. -/
theorem parseAll_renderAll {attributes : List Attribute}
    (h : attributes.all isWritten = true) : parseAll (renderAll attributes) = attributes := by
  induction attributes with
  | nil => rw [renderAll, List.flatMap_nil, parseAll]; rfl
  | cons attr attributes ih =>
    rw [List.all_cons, Bool.and_eq_true] at h
    rw [renderAll, List.flatMap_cons, parseAll_render_append h.1, ← renderAll, ih h.2]

end Attribute

/-! ## Tags -/

/-- The inside of a tag: its name and its attributes. -/
def tagInside (name : String) (attributes : List Attribute) : List Char :=
  name.toList ++ Attribute.renderAll attributes

/-- A tag goes on after characters that are neither its end nor quotes. -/
theorem tagBody?_append_of_plain {xs : List Char} (ys : List Char)
    (h : ∀ c ∈ xs, c ≠ '>' ∧ c ≠ '"' ∧ c ≠ '\'') :
    tagBody? none (xs ++ ys) = (tagBody? none ys).map fun (body, rest) => (xs ++ body, rest) := by
  induction xs with
  | nil => simp
  | cons c cs ih =>
    obtain ⟨hend, hdouble, hsingle⟩ := h c List.mem_cons_self
    rw [List.cons_append, tagBody?, if_neg hend, if_neg (by simp [hdouble, hsingle]),
      ih fun c hc => h c (List.mem_cons_of_mem _ hc), Option.map_map]
    rfl

/-- A tag goes on after what stands between quotes. -/
theorem tagBody?_append_of_quoted {value : List Char} (ys : List Char) (h : ∀ c ∈ value, c ≠ '"') :
    tagBody? (some '"') (value ++ '"' :: ys) =
      (tagBody? none ys).map fun (body, rest) => (value ++ '"' :: body, rest) := by
  induction value with
  | nil => simp [tagBody?]
  | cons c cs ih =>
    rw [List.cons_append, tagBody?, if_neg (h c List.mem_cons_self),
      ih fun c hc => h c (List.mem_cons_of_mem _ hc), Option.map_map]
    rfl

/-- No character of a name ends a tag or begins a quotation. -/
theorem plain_of_mem_name {name : List Char} (h : isName name = true) {c : Char} (hc : c ∈ name) :
    c ≠ '>' ∧ c ≠ '"' ∧ c ≠ '\'' := by
  have hsign := isTagSign_of_mem_name h hc
  simp only [isTagSign, Bool.or_eq_false_iff, beq_eq_false_iff_ne] at hsign
  obtain ⟨⟨⟨⟨⟨⟨hend, hdouble⟩, hsingle⟩, -⟩, -⟩, -⟩, -⟩ := hsign
  exact ⟨hend, hdouble, hsingle⟩

theorem tagBody?_append_of_attribute {attr : Attribute} (ys : List Char)
    (h : attr.isWritten = true) :
    tagBody? none (attr.render ++ ys) =
      (tagBody? none ys).map fun (body, rest) => (attr.render ++ body, rest) := by
  rw [Attribute.isWritten, Bool.and_eq_true] at h
  -- Up to its value an attribute is plain, and the value stands between quotes.
  have hname : ∀ c ∈ ' ' :: (attr.name.toList ++ ['=']), c ≠ '>' ∧ c ≠ '"' ∧ c ≠ '\'' := by
    intro c hc
    rcases List.mem_cons.1 hc with rfl | hc
    · decide
    · rcases List.mem_append.1 hc with hc | hc
      · exact plain_of_mem_name h.1 hc
      · rw [List.mem_singleton.1 hc]
        decide
  have hvalue : ∀ c ∈ attr.value.toList, c ≠ '"' := by
    intro c hc
    exact ne_quote_of_mem_value h.2 hc
  have hrender : ∀ zs, attr.render ++ zs =
      (' ' :: (attr.name.toList ++ ['='])) ++ '"' :: (attr.value.toList ++ '"' :: zs) := by
    intro zs
    simp [Attribute.render]
  rw [hrender, tagBody?_append_of_plain _ hname, tagBody?, if_neg (by decide),
    if_pos (Or.inl rfl), tagBody?_append_of_quoted _ hvalue, Option.map_map, Option.map_map]
  refine congrArg (Option.map · _) (funext fun pair => ?_)
  simp [hrender]

/-- A tag goes on after its name and its attributes. -/
theorem tagBody?_append_of_tagInside {name : String} {attributes : List Attribute} (ys : List Char)
    (hname : isName name.toList = true) (hattributes : attributes.all Attribute.isWritten = true) :
    tagBody? none (tagInside name attributes ++ ys) =
      (tagBody? none ys).map fun (body, rest) => (tagInside name attributes ++ body, rest) := by
  have hall : tagBody? none (Attribute.renderAll attributes ++ ys) =
      (tagBody? none ys).map fun (body, rest) =>
        (Attribute.renderAll attributes ++ body, rest) := by
    induction attributes with
    | nil => simp [Attribute.renderAll]
    | cons attr attributes ih =>
      rw [List.all_cons, Bool.and_eq_true] at hattributes
      rw [Attribute.renderAll, List.flatMap_cons, ← Attribute.renderAll, List.append_assoc,
        tagBody?_append_of_attribute _ hattributes.1, ih hattributes.2, Option.map_map]
      simp [Function.comp_def]
  rw [tagInside, List.append_assoc,
    tagBody?_append_of_plain _ fun c hc => plain_of_mem_name hname hc, hall, Option.map_map]
  simp [Function.comp_def]

theorem dropTail?_singleton_append (c d : Char) (cs : List Char) :
    dropTail? [c] (cs ++ [d]) = if c = d then some cs else none := by
  rw [dropTail?, List.reverse_append, List.reverse_singleton, List.reverse_singleton,
    List.singleton_append, dropHead?]
  split <;> simp [dropHead?]

/-- The inside of a tag ends with a character that does not close the tag itself. -/
theorem exists_eq_concat_tagInside {name : String} (attributes : List Attribute)
    (hname : isName name.toList = true) :
    ∃ cs c, tagInside name attributes = cs ++ [c] ∧ c ≠ '/' := by
  rcases List.eq_nil_or_concat attributes with rfl | ⟨earlier, attr, rfl⟩
  · rcases List.eq_nil_or_concat name.toList with hnil | ⟨cs, c, hconcat⟩
    · rw [hnil] at hname
      cases hname
    · refine ⟨cs, c, by simp [tagInside, Attribute.renderAll, hconcat], ?_⟩
      have hlast : c ∈ name.toList := by simp [hconcat]
      rintro rfl
      exact absurd (isTagSign_of_mem_name hname hlast) (by decide)
  · exact ⟨name.toList ++ (Attribute.renderAll earlier ++
      ' ' :: (attr.name.toList ++ '=' :: '"' :: attr.value.toList)), '"',
      by simp [tagInside, Attribute.renderAll, Attribute.render], by decide⟩

/-- The name of a tag stops where its attributes begin. -/
theorem stop_of_mem_head?_renderAll {attributes : List Attribute} {c : Char}
    (h : c ∈ (Attribute.renderAll attributes).head?) : (!isSpace c) = false := by
  cases attributes with
  | nil => simp [Attribute.renderAll] at h
  | cons attr attributes =>
    obtain rfl : ' ' = c := by simpa [Attribute.renderAll, Attribute.render] using h
    rfl

section Tags

variable {name : String} {attributes : List Attribute}

theorem takeWhile_tagInside (hname : isName name.toList = true) :
    (tagInside name attributes).takeWhile (!isSpace ·) = name.toList := by
  refine takeWhile_append_stop ?_ fun c hc => stop_of_mem_head?_renderAll hc
  intro c hc
  simp [isSpace_of_isTagSign (isTagSign_of_mem_name hname hc)]

theorem dropWhile_tagInside (hname : isName name.toList = true) :
    (tagInside name attributes).dropWhile (!isSpace ·) = Attribute.renderAll attributes := by
  refine dropWhile_append_stop ?_ fun c hc => stop_of_mem_head?_renderAll hc
  intro c hc
  simp [isSpace_of_isTagSign (isTagSign_of_mem_name hname hc)]

/-- What begins like a name is markup, and no comment, instruction or end tag. -/
theorem scanMarkup_name_append (hname : isName name.toList = true) (ys : List Char) :
    scanMarkup (name.toList ++ ys) =
      match tagBody? none (name.toList ++ ys) with
      | some (body, rest) => .found (Event.ofTagBody body) rest
      | none => .broken := by
  obtain ⟨first, more, hsplit⟩ := exists_cons_of_isName hname
  rw [hsplit, isName, Bool.and_eq_true] at hname
  rw [hsplit]
  unfold scanMarkup
  -- A name begins with no sign of another kind of markup.
  split
  · next heq => cases heq
  · next heq =>
    obtain rfl := (List.cons.inj heq).1
    exact absurd hname.1 (by decide)
  · next heq =>
    obtain rfl := (List.cons.inj heq).1
    exact absurd hname.1 (by decide)
  · next heq =>
    obtain rfl := (List.cons.inj heq).1
    exact absurd hname.1 (by decide)
  · rfl

/-- A start tag is one event, whatever comes after it. -/
theorem scan_startTag_append (hname : isName name.toList = true)
    (hattributes : attributes.all Attribute.isWritten = true) (rest : List Char) :
    scan ('<' :: (tagInside name attributes ++ '>' :: rest)) =
      .found (.startTag name.toList (Attribute.renderAll attributes)) rest := by
  have hbody : tagBody? none (tagInside name attributes ++ '>' :: rest) =
      some (tagInside name attributes, rest) := by
    rw [tagBody?_append_of_tagInside _ hname hattributes, tagBody?, if_pos rfl]
    simp
  obtain ⟨cs, c, hconcat, hc⟩ := exists_eq_concat_tagInside attributes hname
  have hslash : dropTail? ['/'] (tagInside name attributes) = none := by
    rw [hconcat, dropTail?_singleton_append, if_neg (Ne.symm hc)]
  rw [scan, tagInside, List.append_assoc, scanMarkup_name_append hname, ← List.append_assoc,
    ← tagInside, hbody]
  simp only [Event.ofTagBody, hslash, takeWhile_tagInside hname, dropWhile_tagInside hname]

/-- A tag that closes itself is one event, whatever comes after it. -/
theorem scan_emptyTag_append (hname : isName name.toList = true)
    (hattributes : attributes.all Attribute.isWritten = true) (rest : List Char) :
    scan ('<' :: (tagInside name attributes ++ '/' :: '>' :: rest)) =
      .found (.emptyTag name.toList (Attribute.renderAll attributes)) rest := by
  have hbody : tagBody? none (tagInside name attributes ++ '/' :: '>' :: rest) =
      some (tagInside name attributes ++ ['/'], rest) := by
    rw [tagBody?_append_of_tagInside _ hname hattributes, tagBody?, if_neg (by decide),
      if_neg (by decide), tagBody?, if_pos rfl]
    simp
  have hslash : dropTail? ['/'] (tagInside name attributes ++ ['/']) =
      some (tagInside name attributes) := by
    rw [dropTail?_singleton_append, if_pos rfl]
  rw [scan, tagInside, List.append_assoc, scanMarkup_name_append hname, ← List.append_assoc,
    ← tagInside, hbody]
  simp only [Event.ofTagBody, hslash, takeWhile_tagInside hname, dropWhile_tagInside hname]

/-- An end tag is one event, whatever comes after it. -/
theorem scan_endTag_append (hname : isName name.toList = true) (rest : List Char) :
    scan ('<' :: '/' :: (name.toList ++ '>' :: rest)) = .found (.endTag name.toList) rest := by
  have hbody : tagBody? none (name.toList ++ '>' :: rest) = some (name.toList, rest) := by
    rw [tagBody?_append_of_plain _ fun c hc => plain_of_mem_name hname hc, tagBody?, if_pos rfl]
    simp
  have hblanks : dropEndWhile isSpace name.toList = name.toList := by
    have hstop : ∀ c ∈ name.toList.reverse.head?, isSpace c = false := by
      intro c hc
      have hmem := List.mem_reverse.1 (List.mem_of_mem_head? hc)
      exact isSpace_of_isTagSign (isTagSign_of_mem_name hname hmem)
    have hdrop : name.toList.reverse.dropWhile isSpace = name.toList.reverse :=
      dropWhile_append_stop (List.forall_mem_nil _) hstop
    rw [dropEndWhile, hdrop, List.reverse_reverse]
  rw [scan, scanMarkup, hbody]
  simp only [hblanks]

/-- A text without marks, up to one or to the end, is one event. -/
theorem scan_text_append {content rest : List Char} (hne : content ≠ [])
    (hcontent : ∀ c ∈ content, isMark c = false) (hrest : ∀ c ∈ rest.head?, isMark c = true) :
    scan (content ++ rest) = .found (.text content) rest := by
  have hplain : ∀ c ∈ content, (!isMark c) = true := by
    intro c hc
    simp [hcontent c hc]
  have hstop : ∀ c ∈ rest.head?, (!isMark c) = false := by
    intro c hc
    simp [hrest c hc]
  obtain ⟨first, more, rfl⟩ := List.exists_cons_of_ne_nil hne
  have hfirst := hcontent first List.mem_cons_self
  unfold scan
  split
  · next heq => cases heq
  · next heq =>
    obtain rfl := (List.cons.inj heq).1
    exact absurd hfirst (by decide)
  · next heq =>
    obtain rfl := (List.cons.inj heq).1
    exact absurd hfirst (by decide)
  · rw [takeWhile_append_stop hplain hstop, dropWhile_append_stop hplain hstop]

end Tags
end DocAudit.Markup
