import DocAudit.Proofs.Markup.Likeness
import DocAudit.Proofs.Markup.References

/-!
# Blanks around a text

Blanks in front of a text or behind it make no difference to its elements. Behind a text they cannot
end what has no end, because no sign of markup is a blank: every event is read as before, or it reaches
the end of the text and takes the blanks in. In front of a text they become a part of the text at its
beginning. Only the places of what is read change.

* `cut?_append_blank`, `tagBody?_append_blank` and so on: what is looked for is found at the same place;
* `scan_append_blank`: what becomes of the first event;
* `Builder.LooksAs.readOn_append_blank`: what becomes of reading, event by event;
* `Forest.agreesWith_between_blanks`: what becomes of the forest.
-/

namespace DocAudit.Markup

open DocAudit.Text

/-! ## Blanks are no signs -/

theorem ne_of_isBlankChar {c d : Char} (hc : isBlankChar c = true) (hd : isBlankChar d = false) :
    c ≠ d := by
  rintro rfl
  rw [hc] at hd
  cases hd

theorem isMark_of_isBlankChar {c : Char} (h : isBlankChar c = true) : isMark c = false := by
  rw [isMark, Bool.or_eq_false_iff, beq_eq_false_iff_ne, beq_eq_false_iff_ne]
  exact ⟨ne_of_isBlankChar h rfl, ne_of_isBlankChar h rfl⟩

theorem isMark_of_mem_blank {cs : List Char} (h : isBlank cs = true) :
    ∀ c ∈ cs, isMark c = false :=
  fun c hc => isMark_of_isBlankChar (List.all_eq_true.1 h c hc)

theorem isBlank_append (xs ys : List Char) : isBlank (xs ++ ys) = (isBlank xs && isBlank ys) :=
  List.all_append

/-- No blank has another case. -/
theorem toUpper_of_isBlankChar {c : Char} (h : isBlankChar c = true) : c.toUpper = c := by
  unfold Char.toUpper
  split
  · next hlower =>
    -- The blanks have gaps, but none of them is a letter.
    obtain ⟨hfirst, hlast⟩ := hlower
    have hlow : 97 ≤ c.toNat := hfirst
    have hhigh : c.toNat ≤ 122 := hlast
    simp only [isBlankChar, Bool.or_eq_true, Bool.and_eq_true, decide_eq_true_eq, beq_iff_eq] at h
    omega
  · rfl

section Blank

variable {tail : List Char} (htail : isBlank tail = true)
include htail

/-- A pattern without blanks begins a text with or without the blanks behind it. -/
theorem dropHead?_append_blank {head : List Char} (hhead : head.any isBlankChar = false)
    (cs : List Char) : dropHead? head (cs ++ tail) = (dropHead? head cs).map (· ++ tail) := by
  induction head generalizing cs with
  | nil => rfl
  | cons h head ih =>
    obtain ⟨hfirst, hmore⟩ := Bool.or_eq_false_iff.1 hhead
    cases cs with
    | cons c cs =>
      rw [List.cons_append, dropHead?, dropHead?]
      split
      · exact ih hmore cs
      · rfl
    | nil =>
      -- The text ends inside of the pattern, and no blank goes on with it.
      cases tail with
      | nil => rfl
      | cons t tail =>
        have hblank : isBlankChar t = true := (Bool.and_eq_true_iff.1 htail).1
        show (if h = t then dropHead? head tail else none) = none
        exact if_neg (ne_of_isBlankChar hblank hfirst).symm

/-- So does a keyword. -/
theorem dropKeyword?_append_blank {keyword : List Char}
    (hkeyword : keyword.any isBlankChar = false) (cs : List Char) :
    dropKeyword? keyword (cs ++ tail) = (dropKeyword? keyword cs).map (· ++ tail) := by
  induction keyword generalizing cs with
  | nil => rfl
  | cons k keyword ih =>
    obtain ⟨hfirst, hmore⟩ := Bool.or_eq_false_iff.1 hkeyword
    cases cs with
    | cons c cs =>
      rw [List.cons_append, dropKeyword?, dropKeyword?]
      split
      · exact ih hmore cs
      · rfl
    | nil =>
      cases tail with
      | nil => rfl
      | cons t tail =>
        have hblank : isBlankChar t = true := (Bool.and_eq_true_iff.1 htail).1
        show (if t.toUpper = k then dropKeyword? keyword tail else none) = none
        rw [toUpper_of_isBlankChar hblank]
        exact if_neg (ne_of_isBlankChar hblank hfirst)

/-! ## What is looked for -/

/-- Blanks hold no pattern without blanks. -/
theorem cut?_blank {pattern : List Char} (hne : pattern ≠ [])
    (hpattern : pattern.any isBlankChar = false) : cut? pattern tail = none := by
  induction tail with
  | nil => rfl
  | cons t tail ih =>
    obtain ⟨hfirst, hmore⟩ := Bool.and_eq_true_iff.1 htail
    have hhead : dropHead? pattern (t :: tail) = none := by
      -- What begins with a blank is blanks behind an empty text.
      have hblank := dropHead?_append_blank htail hpattern []
      obtain ⟨p, pattern, rfl⟩ := List.exists_cons_of_ne_nil hne
      exact hblank
    rw [cut?, hhead]
    show (cut? pattern tail).map _ = none
    rw [ih hmore]
    rfl

/-- A pattern without blanks is found at the same place, or not at all. -/
theorem cut?_append_blank {pattern : List Char} (hne : pattern ≠ [])
    (hpattern : pattern.any isBlankChar = false) (cs : List Char) :
    cut? pattern (cs ++ tail) =
      (cut? pattern cs).map fun (before, rest) => (before, rest ++ tail) := by
  induction cs with
  | nil => exact cut?_blank htail hne hpattern
  | cons c cs ih =>
    have hhead := dropHead?_append_blank htail hpattern (c :: cs)
    rw [List.cons_append] at hhead
    rw [List.cons_append, cut?, cut?, hhead]
    cases dropHead? pattern (c :: cs) with
    | some rest => rfl
    | none =>
      show (cut? pattern (cs ++ tail)).map _ = _
      rw [ih, Option.map_map, Option.map_map]
      rfl

/-- Blanks end no tag, inside of quotes or outside. -/
theorem tagBody?_blank (quote : Option Char) : tagBody? quote tail = none := by
  induction tail generalizing quote with
  | nil => cases quote <;> rfl
  | cons t tail ih =>
    obtain ⟨hfirst, hmore⟩ := Bool.and_eq_true_iff.1 htail
    rcases tagBody?_cons_cases quote t with ⟨-, rfl⟩ | ⟨next, hinside⟩
    · exact absurd hfirst (by decide)
    · rw [hinside, ih hmore next]
      rfl

/-- A tag ends at the same place, or not at all. -/
theorem tagBody?_append_blank (quote : Option Char) (cs : List Char) :
    tagBody? quote (cs ++ tail) =
      (tagBody? quote cs).map fun (body, rest) => (body, rest ++ tail) := by
  induction cs generalizing quote with
  | nil =>
    rw [List.nil_append, tagBody?_blank htail]
    cases quote <;> rfl
  | cons c cs ih =>
    rcases tagBody?_cons_cases quote c with ⟨rfl, rfl⟩ | ⟨next, hinside⟩
    · rw [List.cons_append, tagBody?, if_pos rfl, tagBody?, if_pos rfl]
      rfl
    · rw [List.cons_append, hinside, hinside, ih, Option.map_map, Option.map_map]
      rfl

/-- Blanks end no document type. -/
theorem balanced?_blank (depth : Nat) : balanced? depth tail = none := by
  induction tail generalizing depth with
  | nil => rfl
  | cons t tail ih =>
    obtain ⟨hfirst, hmore⟩ := Bool.and_eq_true_iff.1 htail
    have hne : ¬(t = '>' ∧ depth = 0) := fun h => ne_of_isBlankChar hfirst rfl h.1
    rw [balanced?, if_neg hne, ih hmore]
    rfl

/-- A document type ends at the same place, or not at all. -/
theorem balanced?_append_blank (depth : Nat) (cs : List Char) :
    balanced? depth (cs ++ tail) =
      (balanced? depth cs).map fun (body, rest) => (body, rest ++ tail) := by
  induction cs generalizing depth with
  | nil =>
    rw [List.nil_append, balanced?_blank htail]
    rfl
  | cons c cs ih =>
    rw [List.cons_append, balanced?, balanced?]
    split
    · rfl
    · rw [ih, Option.map_map, Option.map_map]
      rfl

end Blank

/-! ## Markup -/

namespace Scan

/-- The outcome of looking for the end of markup: an event made of what stands in front of it, and the
text after it. -/
def ofPart (eventOf : List Char → Event) : Option (List Char × List Char) → Scan
  | some (inside, rest) => found (eventOf inside) rest
  | none => broken

/-- The same outcome, with something behind what is left. -/
def followedBy (tail : List Char) : Scan → Scan
  | finished => finished
  | broken => broken
  | found event rest => found event (rest ++ tail)

theorem ofPart_map_append (eventOf : List Char → Event) (tail : List Char)
    (part? : Option (List Char × List Char)) :
    ofPart eventOf (part?.map fun (inside, rest) => (inside, rest ++ tail)) =
      (ofPart eventOf part?).followedBy tail := by
  cases part? <;> rfl

end Scan

/-- What follows `<!` is a comment when it begins with two hyphens; otherwise it is a section of
character data or a document type, by its first word. -/
theorem scanBang_eq (cs : List Char) :
    scanBang cs =
      match dropHead? "--".toList cs, dropKeyword? "[CDATA[".toList cs with
      | some inside, _ => .ofPart (fun _ => .aside) (cut? "-->".toList inside)
      | none, some inside => .ofPart .characterData (cut? "]]>".toList inside)
      | none, none =>
        .ofPart (fun body => if body.all isSpace then .complaint else .aside)
          ((dropKeyword? "DOCTYPE".toList cs).bind (balanced? 0)) := by
  unfold scanBang
  split
  · next inside =>
    show _ = Scan.ofPart _ (cut? "-->".toList inside)
    cases cut? "-->".toList inside <;> rfl
  · next hother =>
    have hnone : dropHead? "--".toList cs = none := by
      rw [Option.eq_none_iff_forall_ne_some]
      intro inside hinside
      exact hother inside (dropHead?_eq_some_iff.1 hinside)
    rw [hnone]
    cases dropKeyword? "[CDATA[".toList cs with
    | some inside =>
      show (match cut? "]]>".toList inside with
        | some (content, rest) => Scan.found (.characterData content) rest
        | none => .broken) = .ofPart _ (cut? "]]>".toList inside)
      cases cut? "]]>".toList inside <;> rfl
    | none =>
      show (match (dropKeyword? "DOCTYPE".toList cs).bind (balanced? 0) with
        | some (body, rest) => Scan.found (if body.all isSpace then .complaint else .aside) rest
        | none => .broken) = .ofPart _ ((dropKeyword? "DOCTYPE".toList cs).bind (balanced? 0))
      cases (dropKeyword? "DOCTYPE".toList cs).bind (balanced? 0) <;> rfl

/-- An instruction ends at a question mark that is not its first one. -/
theorem scanMarkup_question (cs : List Char) :
    scanMarkup ('?' :: cs) =
      .ofPart (fun _ => .aside)
        ((cut? "?>".toList ('?' :: cs)).filter fun (inside, _) => !inside.isEmpty) := by
  unfold scanMarkup
  dsimp only
  generalize cut? "?>".toList ('?' :: cs) = part?
  obtain _ | ⟨_ | _, rest⟩ := part? <;> rfl

theorem scanMarkup_slash (cs : List Char) :
    scanMarkup ('/' :: cs) =
      .ofPart (fun body => .endTag (dropEndWhile isSpace body)) (tagBody? none cs) := by
  show (match tagBody? none cs with
    | some (body, rest) => Scan.found (.endTag (dropEndWhile isSpace body)) rest
    | none => .broken) = _
  cases tagBody? none cs <;> rfl

/-- Whatever else follows a `<` is a start tag. -/
theorem scanMarkup_of_ne {c : Char} (hbang : c ≠ '!') (hquestion : c ≠ '?') (hslash : c ≠ '/')
    (cs : List Char) :
    scanMarkup (c :: cs) = .ofPart Event.ofTagBody (tagBody? none (c :: cs)) := by
  unfold scanMarkup
  split
  · next heq => cases heq
  · next heq => exact absurd (List.cons.inj heq).1 hbang
  · next heq => exact absurd (List.cons.inj heq).1 hquestion
  · next heq => exact absurd (List.cons.inj heq).1 hslash
  · cases tagBody? none (c :: cs) <;> rfl

/-- What begins with no mark has none up to one, or to the end. -/
theorem exists_plain_append {c : Char} (hc : isMark c = false) (cs : List Char) :
    ∃ plain rest, cs = plain ++ rest ∧ (∀ d ∈ c :: plain, isMark d = false) ∧ AtMark rest := by
  refine ⟨_, _, (List.takeWhile_append_dropWhile (p := (!isMark ·))).symm, ?_, ?_⟩
  · refine List.forall_mem_cons.2 ⟨hc, fun d hd => ?_⟩
    simpa using List.mem_takeWhile_imp hd
  · intro d hd
    have hhead := List.head?_dropWhile_not (!isMark ·) cs
    rw [hd] at hhead
    simpa using hhead

/-- What begins with no mark is read as a text, up to a mark or to the end. -/
theorem text_of_scan {c : Char} {more rest : List Char} {event : Event} (hc : isMark c = false)
    (h : scan (c :: more ++ rest) = .found event rest) :
    event = .text (c :: more) ∧ (∀ d ∈ c :: more, isMark d = false) ∧ AtMark rest := by
  obtain ⟨plain, left, hsplit, hplain, hleft⟩ := exists_plain_append hc (more ++ rest)
  have hscan : scan (c :: plain ++ left) = .found (.text (c :: plain)) left :=
    scan_text_append (List.cons_ne_nil _ _) hplain hleft
  rw [List.cons_append, hsplit, ← List.cons_append, hscan] at h
  obtain ⟨rfl, rfl⟩ := Scan.found.inj h
  obtain rfl := List.append_cancel_right hsplit
  exact ⟨rfl, hplain, hleft⟩

theorem scanMarkup_ne_finished (cs : List Char) : scanMarkup cs ≠ .finished := by
  have hpart (eventOf : List Char → Event) (part? : Option (List Char × List Char)) :
      Scan.ofPart eventOf part? ≠ .finished := by
    cases part? <;> nofun
  unfold scanMarkup
  split
  · nofun
  · rw [scanBang_eq]
    split <;> exact hpart _ _
  · split <;> nofun
  · split <;> nofun
  · split <;> nofun

section Blank

variable {tail : List Char} (htail : isBlank tail = true)
include htail

theorem scanBang_append_blank (cs : List Char) :
    scanBang (cs ++ tail) = (scanBang cs).followedBy tail := by
  rw [scanBang_eq, scanBang_eq, dropHead?_append_blank htail rfl,
    dropKeyword?_append_blank htail rfl, dropKeyword?_append_blank htail rfl]
  cases dropHead? "--".toList cs with
  | some inside =>
    show Scan.ofPart _ (cut? "-->".toList (inside ++ tail)) = _
    rw [cut?_append_blank htail (by decide) rfl, Scan.ofPart_map_append]
  | none =>
    cases dropKeyword? "[CDATA[".toList cs with
    | some inside =>
      show Scan.ofPart _ (cut? "]]>".toList (inside ++ tail)) = _
      rw [cut?_append_blank htail (by decide) rfl, Scan.ofPart_map_append]
    | none =>
      show Scan.ofPart _ (Option.bind _ (balanced? 0)) = _
      cases dropKeyword? "DOCTYPE".toList cs with
      | none => rfl
      | some inside =>
        show Scan.ofPart _ (balanced? 0 (inside ++ tail)) = _
        rw [balanced?_append_blank htail, Scan.ofPart_map_append]
        rfl

/-- What follows a `<` is the same markup, or has no end either. -/
theorem scanMarkup_append_blank (cs : List Char) :
    scanMarkup (cs ++ tail) = (scanMarkup cs).followedBy tail := by
  cases cs with
  | nil =>
    cases tail with
    | nil => rfl
    | cons t tail =>
      -- A lone `<` begins a tag of blanks, which has no end.
      have hblank : isBlankChar t = true := (Bool.and_eq_true_iff.1 htail).1
      have hnone : tagBody? none (t :: tail) = none := tagBody?_blank htail none
      rw [List.nil_append, scanMarkup_of_ne (ne_of_isBlankChar hblank rfl)
        (ne_of_isBlankChar hblank rfl) (ne_of_isBlankChar hblank rfl), hnone]
      rfl
  | cons c cs =>
    by_cases hbang : c = '!'
    · subst hbang
      exact scanBang_append_blank htail cs
    by_cases hquestion : c = '?'
    · subst hquestion
      have hcut : cut? "?>".toList ('?' :: (cs ++ tail)) =
          (cut? "?>".toList ('?' :: cs)).map fun (before, rest) => (before, rest ++ tail) :=
        cut?_append_blank htail (by decide) rfl ('?' :: cs)
      rw [List.cons_append]
      rw [scanMarkup_question, scanMarkup_question, hcut, ← Scan.ofPart_map_append]
      cases cut? "?>".toList ('?' :: cs) with
      | none => rfl
      | some part =>
        obtain ⟨inside, rest⟩ := part
        cases inside <;> rfl
    by_cases hslash : c = '/'
    · subst hslash
      rw [List.cons_append, scanMarkup_slash, scanMarkup_slash, tagBody?_append_blank htail,
        Scan.ofPart_map_append]
    · have hbody := tagBody?_append_blank htail none (c :: cs)
      rw [List.cons_append] at hbody ⊢
      rw [scanMarkup_of_ne hbang hquestion hslash, scanMarkup_of_ne hbang hquestion hslash, hbody,
        Scan.ofPart_map_append]

/-- A reference ends at the same place, or what begins like one reaches the end of the text and takes
the blanks in. -/
theorem scanReference_append_blank (cs : List Char) :
    scanReference (cs ++ tail) = (scanReference cs).followedBy tail ∨
      scanReference cs = .found .complaint [] ∧
        scanReference (cs ++ tail) = .found .complaint [] := by
  unfold scanReference
  have hinside : ∀ c ∈ tail, (c != ';' && !isMark c) = true := by
    intro c hc
    have hblank := List.all_eq_true.1 htail c hc
    rw [isMark_of_isBlankChar hblank, Bool.not_false, Bool.and_true, bne_iff_ne]
    exact ne_of_isBlankChar hblank rfl
  cases hdrop : cs.dropWhile fun c => c != ';' && !isMark c with
  | nil =>
    refine Or.inr ⟨rfl, ?_⟩
    have hall : ∀ c ∈ cs, (c != ';' && !isMark c) = true := List.dropWhile_eq_nil_iff.1 hdrop
    rw [List.dropWhile_append_of_pos hall, List.dropWhile_eq_nil_iff.2 hinside]
  | cons stop rest =>
    left
    have happend : (cs ++ tail).dropWhile (fun c => c != ';' && !isMark c) =
        stop :: (rest ++ tail) := by
      rw [List.dropWhile_append, hdrop]
      rfl
    rw [happend]
    by_cases hstop : stop = ';'
    · subst hstop
      rfl
    · split
      · next heq => exact absurd (List.cons.inj heq).1 hstop
      · split
        · next heq => exact absurd (List.cons.inj heq).1 hstop
        · rfl

/-- The first event of a text with blanks behind it is the same and leaves those blanks over, or it
reaches the end of the text and takes them in. -/
theorem scan_append_blank {xs rest : List Char} {event : Event}
    (h : scan (xs ++ rest) = .found event rest) :
    scan (xs ++ (rest ++ tail)) = .found event (rest ++ tail) ∨
      rest = [] ∧ (event = .text xs ∧ scan (xs ++ tail) = .found (.text (xs ++ tail)) [] ∨
        event = .complaint ∧ scan (xs ++ tail) = .found .complaint []) := by
  obtain ⟨c, more, rfl⟩ := List.exists_cons_of_ne_nil (ne_nil_of_scan h)
  rw [← List.append_assoc]
  by_cases hopen : c = '<'
  · -- Markup ends where it did.
    subst hopen
    left
    show scanMarkup (more ++ rest ++ tail) = _
    have hmarkup : scanMarkup (more ++ rest) = .found event rest := h
    rw [scanMarkup_append_blank htail, hmarkup]
    rfl
  by_cases hampersand : c = '&'
  · subst hampersand
    have hreference : scanReference (more ++ rest) = .found event rest := h
    rcases scanReference_append_blank htail (more ++ rest) with hsame | ⟨hbefore, hbehind⟩
    · left
      show scanReference (more ++ rest ++ tail) = _
      rw [hsame, hreference]
      rfl
    · right
      obtain ⟨rfl, rfl⟩ := Scan.found.inj (hreference.symm.trans hbefore)
      rw [List.append_nil] at hbehind
      exact ⟨rfl, Or.inr ⟨rfl, hbehind⟩⟩
  · have hplain : isMark c = false := by
      rw [isMark, Bool.or_eq_false_iff, beq_eq_false_iff_ne, beq_eq_false_iff_ne]
      exact ⟨hopen, hampersand⟩
    obtain ⟨rfl, hcontent, hrest⟩ := text_of_scan hplain h
    cases rest with
    | cons stop rest =>
      left
      rw [List.append_assoc]
      exact scan_text_append (List.cons_ne_nil c more) hcontent hrest
    | nil =>
      right
      have hall : ∀ d ∈ c :: more ++ tail, isMark d = false :=
        List.forall_mem_append.2 ⟨hcontent, isMark_of_mem_blank htail⟩
      have hscan : scan (c :: more ++ tail ++ []) = .found (.text (c :: more ++ tail)) [] :=
        scan_text_append (List.cons_ne_nil _ _) hall (by simp)
      rw [List.append_nil] at hscan
      exact ⟨rfl, Or.inl ⟨rfl, hscan⟩⟩

/-- Blanks end no markup. -/
theorem scan_broken_append_blank {cs : List Char} (h : scan cs = .broken) :
    scan (cs ++ tail) = .broken := by
  unfold scan at h
  split at h
  · cases h
  · next rest =>
    show scanMarkup (rest ++ tail) = .broken
    rw [scanMarkup_append_blank htail, h]
    rfl
  · unfold scanReference at h
    split at h <;> cases h
  · cases h

/-! ## Event by event -/

omit htail in
theorem scan_nil : scan [] = .finished := rfl

omit htail in
/-- Reading ends where there is no text left. -/
theorem eq_nil_of_scan_finished {cs : List Char} (h : scan cs = .finished) : cs = [] := by
  cases cs with
  | nil => rfl
  | cons c cs =>
    exfalso
    unfold scan at h
    split at h
    · next heq => cases heq
    · exact scanMarkup_ne_finished _ h
    · unfold scanReference at h
      split at h <;> cases h
    · cases h

omit htail in
/-- A text without marks is read as it is. -/
theorem readOn_plain {cs : List Char} (hplain : ∀ c ∈ cs, isMark c = false) (front : List Char)
    (builder : Builder) :
    ∃ position, builder.readOn front cs =
      (builder.attachText (byteLength front) cs, .finished position) := by
  by_cases hne : cs = []
  · subst hne
    exact ⟨_, Builder.readOn_finished scan_nil front builder⟩
  · have hscan : scan (cs ++ []) = .found (.text cs) [] := scan_text_append hne hplain nofun
    have hread := Builder.readOn_found hscan front builder
    rw [List.append_nil, Builder.readOn_finished scan_nil] at hread
    exact ⟨_, hread⟩

/-- Reading goes on alike wherever a text stands, and whatever blanks stand behind it. -/
theorem Builder.LooksAs.readOn_append_blank {builder other : Builder} {before front : List Char}
    {shift : Nat} (h : builder.LooksAs other) (hshift : byteLength front = byteLength before + shift)
    (cs : List Char) :
    (builder.readOn before cs).1.LooksAs (other.readOn front (cs ++ tail)).1 ∧
      (builder.readOn before cs).2.IsShifted shift (other.readOn front (cs ++ tail)).2 := by
  induction cs using scan_induction generalizing before front builder other with
  | finished cs hscan =>
    obtain rfl := eq_nil_of_scan_finished hscan
    obtain ⟨position, hread⟩ := readOn_plain (isMark_of_mem_blank htail) front other
    rw [Builder.readOn_finished hscan, List.nil_append, hread]
    -- The blanks are a text that the other side does not have.
    have hblank : isBlank [] = isBlank tail := htail.symm
    exact ⟨h.attachText 0 (byteLength front) hblank, .finished _ _⟩
  | broken cs hscan =>
    rw [Builder.readOn_broken hscan, Builder.readOn_broken (scan_broken_append_blank htail hscan),
      hshift]
    exact ⟨h, .broken _⟩
  | found xs rest event hscan ih =>
    have hnext : byteLength (front ++ xs) = byteLength (before ++ xs) + shift := by
      rw [byteLength_append, byteLength_append, hshift, Nat.add_right_comm]
    rw [Builder.readOn_found hscan, List.append_assoc]
    rcases scan_append_blank htail hscan with
      hsame | ⟨rfl, ⟨rfl, hlast⟩ | ⟨rfl, hlast⟩⟩
    · rw [Builder.readOn_found hsame]
      exact ih (h.step _ _ xs event) hnext
    · -- The last text takes the blanks in, and is blank if it was blank without them.
      have hlast : scan (xs ++ tail ++ []) = .found (.text (xs ++ tail)) [] := by
        rwa [List.append_nil]
      have hblank : isBlank xs = isBlank (xs ++ tail) := by
        rw [isBlank_append, htail, Bool.and_true]
      have hread := Builder.readOn_found hlast front other
      rw [List.append_nil, Builder.readOn_finished scan_nil] at hread
      rw [List.nil_append, hread, Builder.readOn_finished scan_nil]
      exact ⟨h.attachText _ _ hblank, .finished _ _⟩
    · -- So does what begins like a reference, but nothing is made of it.
      have hlast : scan (xs ++ tail ++ []) = .found .complaint [] := by
        rwa [List.append_nil]
      have hread := Builder.readOn_found hlast front other
      rw [List.append_nil, Builder.readOn_finished scan_nil] at hread
      rw [List.nil_append, hread, Builder.readOn_finished scan_nil]
      exact ⟨h, .finished _ _⟩

end Blank

/-- A text that begins with no mark is read alike with blanks on both sides. -/
theorem Builder.LooksAs.readOn_between_blanks {front tail : List Char}
    (hfront : isBlank front = true) (htail : isBlank tail = true) {c : Char} (hc : isMark c = false)
    (cs : List Char) :
    (Builder.empty.readOn [] (c :: cs)).1.LooksAs
        (Builder.empty.readOn [] (front ++ (c :: cs ++ tail))).1 ∧
      (Builder.empty.readOn [] (c :: cs)).2.IsShifted (byteLength front)
        (Builder.empty.readOn [] (front ++ (c :: cs ++ tail))).2 := by
  -- Only the first event can see the blanks in front: it is the text up to the first mark.
  obtain ⟨more, rest, rfl, hplain, hrest⟩ := exists_plain_append hc cs
  rw [← List.cons_append]
  generalize hcontent : c :: more = plain at hplain
  have hpadded : ∀ d ∈ front ++ plain, isMark d = false :=
    List.forall_mem_append.2 ⟨isMark_of_mem_blank hfront, hplain⟩
  have hblank : isBlank plain = isBlank (front ++ plain) := by
    rw [isBlank_append, hfront, Bool.true_and]
  cases rest with
  | nil =>
    -- Without markup, all is one text.
    have hall : ∀ d ∈ front ++ plain ++ tail, isMark d = false :=
      List.forall_mem_append.2 ⟨hpadded, isMark_of_mem_blank htail⟩
    have hblanks : isBlank plain = isBlank (front ++ plain ++ tail) := by
      rw [isBlank_append, htail, Bool.and_true, hblank]
    obtain ⟨position, hread⟩ := readOn_plain hplain [] Builder.empty
    obtain ⟨place, hreadAll⟩ := readOn_plain hall [] Builder.empty
    rw [List.append_nil, ← List.append_assoc, hread, hreadAll]
    exact ⟨Builder.LooksAs.empty.attachText _ _ hblanks, .finished _ _⟩
  | cons mark later =>
    have hne : plain ≠ [] := hcontent ▸ List.cons_ne_nil c more
    -- The blanks in front belong to the text up to the mark, and the rest is read behind them.
    have hscan : scan (plain ++ mark :: later) = .found (.text plain) (mark :: later) :=
      scan_text_append hne hplain hrest
    have hscanAll : scan (front ++ plain ++ (mark :: later ++ tail)) =
        .found (.text (front ++ plain)) (mark :: later ++ tail) :=
      scan_text_append (List.append_ne_nil_of_right_ne_nil _ hne) hpadded hrest
    rw [List.append_assoc, ← List.append_assoc front, Builder.readOn_found hscan,
      Builder.readOn_found hscanAll, List.nil_append, List.nil_append]
    apply readOn_append_blank htail
    · exact Builder.LooksAs.empty.attachText _ _ hblank
    · rw [byteLength_append, Nat.add_comm]

/-! ## The forest -/

namespace Forest

/-- Texts that are read alike have forests that agree. -/
theorem agreesWith_of_readOn {cs ds : List Char} (hcs : cs.head? ≠ some '\uFEFF')
    (hds : ds.head? ≠ some '\uFEFF') {shift : Nat}
    (hbuilder : (Builder.empty.readOn [] cs).1.LooksAs (Builder.empty.readOn [] ds).1)
    (hending : (Builder.empty.readOn [] cs).2.IsShifted shift (Builder.empty.readOn [] ds).2) :
    (read cs).AgreesWith shift (read ds) := by
  constructor
  · rw [elements, elements, nodes_eq_ofBuilder hcs, nodes_eq_ofBuilder hds]
    exact (hbuilder.ofBuilder hending cs ds).forall₂_elements
  · rw [errorPosition_eq hcs, errorPosition_eq hds]
    generalize (Builder.empty.readOn [] cs).2 = ending at hending ⊢
    generalize (Builder.empty.readOn [] ds).2 = last at hending ⊢
    cases hending <;> rfl

/-- Blanks around a text that begins with no mark change nothing that a check sees of its elements,
and markup without an end stands further on by the length of those in front. -/
theorem agreesWith_between_blanks {front tail : List Char} (hfront : isBlank front = true)
    (htail : isBlank tail = true) {c : Char} (hc : isMark c = false) (horder : c ≠ '\uFEFF')
    (cs : List Char) :
    (read (c :: cs)).AgreesWith (byteLength front) (read (front ++ (c :: cs ++ tail))) := by
  obtain ⟨hbuilder, hending⟩ := Builder.LooksAs.readOn_between_blanks hfront htail hc cs
  refine agreesWith_of_readOn ?_ ?_ hbuilder hending
  · exact fun h => horder (Option.some.inj h)
  · -- The text with the blanks begins with a blank, if not as it did.
    cases front with
    | nil => exact fun h => horder (Option.some.inj h)
    | cons d front =>
      have hblank : isBlankChar d = true := (Bool.and_eq_true_iff.1 hfront).1
      exact fun h => ne_of_isBlankChar hblank rfl (Option.some.inj h)

end Forest
end DocAudit.Markup
