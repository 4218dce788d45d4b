import DocAudit.Proofs.Markup.Prose

/-!
# References in prose

A reference such as `&amp;` is read as it is written. An `&` without a semicolon before the next `&`
or the end of the text begins no reference: the reader complains, goes on, and forgets the `&` with
all that stands between it and the next `&` or tag. So prose is read whole when each of its `&`
begins a reference, and otherwise less is read than was written.

* `withoutLoose`: what is left of prose;
* `Forest.pieces?_read_renderAll_of_prose`: content is read as what is left of its texts;
* `withoutLoose_eq_self`: nothing is lost of prose whose references all end.
-/

namespace DocAudit.Markup

open DocAudit.Text

/-- A reference whose `&` stands in front of the text ends in it: a semicolon comes before any
mark. -/
def endsReference : List Char → Bool
  | [] => false
  | c :: cs => c == ';' || (!isMark c && endsReference cs)

/-- What is left of prose, where it starts in a reference that has no end, or does not. -/
def withoutLoose (loose : Bool) : List Char → List Char
  | [] => []
  | c :: cs =>
    if c = '&' then
      if endsReference cs then c :: withoutLoose false cs else withoutLoose true cs
    else if loose then withoutLoose true cs
    else c :: withoutLoose false cs

/-- The text is prose: it is not empty and holds no `<`. -/
def isProse (content : List Char) : Bool :=
  !content.isEmpty && content.all (· != '<')

/-- Every `&` of the text begins a reference that ends. -/
def referencesEnd : List Char → Bool
  | [] => true
  | c :: cs => (c != '&' || endsReference cs) && referencesEnd cs

/-- The text is prose whose references all end. -/
def isWholeProse (content : List Char) : Bool :=
  isProse content && referencesEnd content

/-! ## What is left -/

/-- Nothing is lost of prose whose references all end. -/
theorem withoutLoose_eq_self {cs : List Char} (h : referencesEnd cs = true) :
    withoutLoose false cs = cs := by
  induction cs with
  | nil => rfl
  | cons c cs ih =>
    rw [referencesEnd, Bool.and_eq_true] at h
    rw [withoutLoose, ih h.2]
    by_cases hc : c = '&'
    · have hends : endsReference cs = true := by simpa [hc] using h.1
      rw [if_pos hc, if_pos hends]
    · rw [if_neg hc]
      rfl

/-- Outside of references, all is left up to the next `&`. -/
theorem withoutLoose_false_append {xs ys : List Char} (h : ∀ c ∈ xs, c ≠ '&') :
    withoutLoose false (xs ++ ys) = xs ++ withoutLoose false ys := by
  induction xs with
  | nil => rfl
  | cons x xs ih =>
    rw [List.cons_append, withoutLoose, if_neg (h x List.mem_cons_self),
      ih fun c hc => h c (List.mem_cons_of_mem _ hc)]
    rfl

/-- In a reference that has no end, nothing is left up to the next mark. -/
theorem withoutLoose_true_eq_dropWhile {cs : List Char} (h : ∀ c ∈ cs, c ≠ '<') :
    withoutLoose true cs = withoutLoose false (cs.dropWhile (!isMark ·)) := by
  induction cs with
  | nil => rfl
  | cons c cs ih =>
    by_cases hc : c = '&'
    · rw [List.dropWhile_cons_of_neg (by simp [isMark, hc]), withoutLoose, withoutLoose, if_pos hc,
        if_pos hc]
    · have hplain : (!isMark c) = true := by simp [isMark, hc, h c List.mem_cons_self]
      rw [List.dropWhile_cons_of_pos (p := (!isMark ·)) hplain, withoutLoose, if_neg hc, if_pos rfl,
        ih fun c hc => h c (List.mem_cons_of_mem _ hc)]

/-! ## How references are read -/

/-- A reference that ends is a name and a semicolon. -/
theorem exists_name_of_endsReference {cs : List Char} (h : endsReference cs = true) :
    ∃ name rest, cs = name ++ ';' :: rest ∧ ∀ c ∈ name, (c != ';' && !isMark c) = true := by
  induction cs with
  | nil => cases h
  | cons c cs ih =>
    rw [endsReference, Bool.or_eq_true, beq_iff_eq] at h
    by_cases hc : c = ';'
    · exact ⟨[], cs, by rw [hc]; rfl, nofun⟩
    · obtain ⟨hmark, hends⟩ := Bool.and_eq_true_iff.1 (h.resolve_left hc)
      obtain ⟨name, rest, rfl, hname⟩ := ih hends
      refine ⟨c :: name, rest, rfl, ?_⟩
      intro d hd
      rcases List.mem_cons.1 hd with rfl | hd
      · rw [hmark, Bool.and_true, bne_iff_ne]
        exact hc
      · exact hname d hd

/-- A reference holds no mark behind its `&`. -/
theorem isMark_eq_false_of_mem_reference {name : List Char}
    (h : ∀ c ∈ name, (c != ';' && !isMark c) = true) {c : Char} (hc : c ∈ name ++ [';']) :
    isMark c = false := by
  rcases List.mem_append.1 hc with hc | hc
  · have hmark := (Bool.and_eq_true_iff.1 (h c hc)).2
    simpa using hmark
  · rw [List.mem_singleton.1 hc]
    decide

/-- A reference that ends is all left. -/
theorem withoutLoose_reference_append {name rest : List Char}
    (h : ∀ c ∈ name, (c != ';' && !isMark c) = true)
    (hends : endsReference (name ++ ';' :: rest) = true) :
    withoutLoose false ('&' :: (name ++ ';' :: rest)) =
      '&' :: (name ++ [';']) ++ withoutLoose false rest := by
  have hnone : ∀ c ∈ name ++ [';'], c ≠ '&' := by
    rintro c hc rfl
    exact absurd (isMark_eq_false_of_mem_reference h hc) (by decide)
  rw [withoutLoose, if_pos rfl, if_pos hends, List.cons_append, ← withoutLoose_false_append hnone,
    List.append_assoc, List.singleton_append]

/-- In front of the mark that ends a loose reference stands no semicolon. -/
theorem ne_semicolon_of_mem_takeWhile {cs : List Char} (h : ¬endsReference cs = true) :
    ∀ c ∈ cs.takeWhile (!isMark ·), (c != ';' && !isMark c) = true := by
  induction cs with
  | nil => nofun
  | cons c cs ih =>
    rw [endsReference, Bool.or_eq_true, not_or, beq_iff_eq, Bool.and_eq_true, not_and] at h
    by_cases hmark : (!isMark c) = true
    · rw [List.takeWhile_cons_of_pos (p := (!isMark ·)) hmark]
      intro d hd
      rcases List.mem_cons.1 hd with rfl | hd
      · rw [hmark, Bool.and_true, bne_iff_ne]
        exact h.1
      · exact ih (h.2 hmark) d hd
    · rw [List.takeWhile_cons_of_neg (p := (!isMark ·)) hmark]
      exact nofun

/-- A reference is one event, whatever comes after it. -/
theorem scan_reference_append {name : List Char} (h : ∀ c ∈ name, (c != ';' && !isMark c) = true)
    (rest : List Char) : scan ('&' :: (name ++ [';']) ++ rest) = .found .reference rest := by
  have hdrop : (name ++ ';' :: rest).dropWhile (fun c => c != ';' && !isMark c) = ';' :: rest :=
    dropWhile_append_stop h (by simp)
  have htext : '&' :: (name ++ [';']) ++ rest = '&' :: (name ++ ';' :: rest) := by simp
  rw [htext, scan, scanReference, hdrop]
  rfl

/-- An `&` that begins no reference is a complaint up to the next mark or the end. -/
theorem scan_loose_append {name : List Char} (h : ∀ c ∈ name, (c != ';' && !isMark c) = true)
    {rest : List Char} (hrest : AtMark rest) :
    scan ('&' :: name ++ rest) = .found .complaint rest := by
  have hdrop : (name ++ rest).dropWhile (fun c => c != ';' && !isMark c) = rest := by
    refine dropWhile_append_stop h ?_
    intro c hc
    rw [hrest c hc]
    simp
  rw [List.cons_append, scan, scanReference, hdrop]
  split
  · -- A mark is no semicolon.
    exact absurd (hrest ';' rfl) (by decide)
  · rfl

/-- A reference is read as it is written. -/
theorem readsAsText_reference {name : List Char}
    (h : ∀ c ∈ name, (c != ';' && !isMark c) = true) :
    ReadsAsText (fun _ => True) ('&' :: (name ++ [';'])) ('&' :: (name ++ [';'])) := by
  refine ReadsAsText.of_attachText (List.cons_ne_nil _ _)
    (fun rest _ => scan_reference_append h rest) ?_
  intro before rest builder
  have hwhole : ('&' :: (name ++ [';'])).takeWhile (· != '<') = '&' :: (name ++ [';']) := by
    refine List.takeWhile_eq_self_iff.2 ?_
    intro c hc
    rw [bne_iff_ne]
    rintro rfl
    rcases List.mem_cons.1 hc with hc | hc
    · cases hc
    · exact absurd (isMark_eq_false_of_mem_reference h hc) (by decide)
  rw [Builder.read, slice_middle, hwhole]

/-- An `&` that begins no reference is forgotten with what stands behind it. -/
theorem readsAsText_loose {name : List Char} (h : ∀ c ∈ name, (c != ';' && !isMark c) = true) :
    ReadsAsText AtMark ('&' :: name) [] :=
  ReadsAsText.of_ignored (fun _ hrest => scan_loose_append h hrest) fun _ _ _ => rfl

/-- Prose is read as what is left of it. -/
theorem readsAsText_withoutLoose (cs : List Char) (h : ∀ c ∈ cs, c ≠ '<') :
    ReadsAsText AtMarkup cs (withoutLoose false cs) := by
  -- An event takes more than one character, so the induction is on the length of the text.
  induction hlength : cs.length using Nat.strongRecOn generalizing cs with
  | ind length ih =>
    rcases cs with _ | ⟨c, cs⟩
    · exact ReadsAsText.nil _
    have hmore : ∀ c ∈ cs, c ≠ '<' := fun c hc => h c (List.mem_cons_of_mem _ hc)
    have hlater : ∀ c ∈ cs.dropWhile (!isMark ·), c ≠ '<' := fun c hc =>
      hmore c ((List.dropWhile_sublist _).subset hc)
    have hshorter : (cs.dropWhile (!isMark ·)).length < length := by
      rw [← hlength, List.length_cons]
      exact Nat.lt_succ_of_le (length_dropWhile_le _ cs)
    have hread := ih _ hshorter _ hlater rfl
    by_cases hc : c = '&'
    · subst hc
      by_cases hends : endsReference cs = true
      · -- The reference stays, and reading goes on behind its semicolon.
        obtain ⟨name, rest, rfl, hname⟩ := exists_name_of_endsReference hends
        have hrest : ∀ c ∈ rest, c ≠ '<' := fun c hc =>
          hmore c (List.mem_append_right _ (List.mem_cons_of_mem _ hc))
        have hlength' : rest.length < length := by
          rw [← hlength]
          simp
          omega
        have hreads := (readsAsText_reference hname).append (ih _ hlength' rest hrest rfl)
          fun _ _ => trivial
        rw [withoutLoose_reference_append hname hends]
        simpa using hreads
      · -- The `&` goes, with what stands between it and the next mark.
        have hreads := (readsAsText_loose (ne_semicolon_of_mem_takeWhile hends)).append hread
          fun rest hrest => hrest.atMark_dropWhile_append cs
        rw [withoutLoose, if_pos rfl, if_neg hends, withoutLoose_true_eq_dropWhile hmore]
        simpa [List.takeWhile_append_dropWhile] using hreads
    · -- All is left up to the next mark.
      have hplain : (!isMark c) = true := by simp [isMark, hc, h c List.mem_cons_self]
      have hkept : withoutLoose false (c :: cs) =
          (c :: cs).takeWhile (!isMark ·) ++
            withoutLoose false ((c :: cs).dropWhile (!isMark ·)) := by
        rw [← withoutLoose_false_append, List.takeWhile_append_dropWhile]
        rintro d hd rfl
        exact absurd (List.mem_takeWhile_imp hd) (by decide)
      rw [hkept]
      apply ReadsAsText.of_dropWhile
      rwa [List.dropWhile_cons_of_pos (p := (!isMark ·)) hplain]

namespace Forest

/-- Well-formed content with prose for texts is read to its end, with what is left of each text in
its place. -/
theorem pieces?_read_renderAll_of_prose {pieces : List Piece}
    (h : Piece.allWellFormed isProse pieces = true)
    (hmark : (Piece.renderAll pieces).head? ≠ some '\uFEFF') :
    (read (Piece.renderAll pieces)).errorPosition = none ∧
      Node.pieces? (read (Piece.renderAll pieces)).nodes =
        some (Piece.keepAll (withoutLoose false) pieces) := by
  refine pieces?_read_renderAll ?_ h hmark
  intro content hcontent
  rw [isProse, Bool.and_eq_true, List.all_eq_true] at hcontent
  exact readsAsText_withoutLoose content fun c hc => by simpa using hcontent.2 c hc

end Forest

/-- Content whose texts are whole prose is left whole. -/
theorem Piece.keepAll_withoutLoose {pieces : List Piece}
    (h : allWellFormed isWholeProse pieces = true) :
    keepAll (withoutLoose false) pieces = pieces := by
  refine keepAll_eq_self ?_ pieces h
  intro content hcontent
  rw [isWholeProse, isProse, Bool.and_eq_true, Bool.and_eq_true] at hcontent
  exact ⟨by simpa using hcontent.1.1, withoutLoose_eq_self hcontent.2⟩

end DocAudit.Markup
