import DocAudit.Proofs.Finding.OneLine
import DocAudit.Proofs.Text.Trimming

/-!
# Snippets

A snippet is the text on one line, or the beginning of it. What is cut off is marked with dots, and
these make a snippet longer than the limit again. Still, making a snippet of a snippet changes
nothing, since it is the dots that are cut off then, and the same dots are put in their place.

* `Collapses`: line breaks as spaces, as a relation;
* `joinLines_eq_replaceAll`: all line breaks go in three replacements, one after the other;
* `shorten_shorten`: a text that is shortened twice is shortened once;
* `isSnippet_snippet`: what a snippet shows of a text.
-/

namespace DocAudit.Text

variable {cs shown : List Char}

/-! ## Line breaks as spaces -/

/-- Each line break of the first text is one space of the second. A carriage return breaks a line
together with the line feed behind it, if there is one. -/
inductive Collapses : List Char → List Char → Prop
  | nil : Collapses [] []
  | returnFeed {cs shown : List Char} :
      Collapses cs shown → Collapses ('\r' :: '\n' :: cs) (' ' :: shown)
  | loneReturn {cs shown : List Char} :
      cs.head? ≠ some '\n' → Collapses cs shown → Collapses ('\r' :: cs) (' ' :: shown)
  | loneFeed {cs shown : List Char} : Collapses cs shown → Collapses ('\n' :: cs) (' ' :: shown)
  | char {c : Char} {cs shown : List Char} :
      c ≠ '\n' → c ≠ '\r' → Collapses cs shown → Collapses (c :: cs) (c :: shown)

theorem collapses_joinLines (cs : List Char) : Collapses cs (joinLines cs) := by
  fun_induction joinLines cs with
  | case1 => exact .nil
  | case2 cs ih => exact .returnFeed ih
  | case3 c cs hpair ih =>
    by_cases hfeed : c = '\n'
    · subst hfeed
      exact .loneFeed ih
    by_cases hreturn : c = '\r'
    · subst hreturn
      refine .loneReturn (fun hhead => ?_) ih
      obtain ⟨more, rfl⟩ := List.head?_eq_some_iff.1 hhead
      exact hpair more rfl rfl
    · rw [if_neg (not_or.2 ⟨hfeed, hreturn⟩)]
      exact .char hfeed hreturn ih

/-- No line is broken any more. -/
theorem Collapses.isOneLine (h : Collapses cs shown) : IsOneLine shown := by
  induction h with
  | nil => exact isOneLine_nil
  | returnFeed _ ih => exact isOneLine_cons_iff.2 ⟨by decide, by decide, ih⟩
  | loneReturn _ _ ih => exact isOneLine_cons_iff.2 ⟨by decide, by decide, ih⟩
  | loneFeed _ ih => exact isOneLine_cons_iff.2 ⟨by decide, by decide, ih⟩
  | char hfeed hreturn _ ih => exact isOneLine_cons_iff.2 ⟨hfeed, hreturn, ih⟩

/-- A text without line breaks stays as it is. -/
theorem joinLines_eq_self (h : IsOneLine cs) : joinLines cs = cs := by
  fun_induction joinLines cs with
  | case1 => rfl
  | case2 cs => exact absurd (List.mem_cons_self) h.2
  | case3 c cs _ ih =>
    obtain ⟨hfeed, hreturn, hmore⟩ := isOneLine_cons_iff.1 h
    rw [if_neg (not_or.2 ⟨hfeed, hreturn⟩), ih hmore]

/-- A single character gives way wherever it stands. -/
theorem replaceAll_singleton (mark replacement : Char) (cs : List Char) :
    replaceAll [mark] [replacement] cs = cs.map fun c => if c = mark then replacement else c := by
  rw [replaceAll]
  induction cs with
  | nil => rfl
  | cons c cs ih =>
    by_cases hc : c = mark
    · subst hc
      have hfirst := replaceFrom_pattern_append c [] [replacement] cs
      rw [List.singleton_append] at hfirst
      rw [hfirst, ih, List.map_cons, if_pos rfl, List.singleton_append]
    · rw [replaceFrom_cons_of_dropHead?_eq_none (by rw [dropHead?, if_neg (Ne.symm hc)]), ih]
      simp [hc]

/-- The line breaks of two characters are replaced first, and then either of these where it stands
alone. -/
theorem joinLines_eq_replaceAll (cs : List Char) :
    joinLines cs =
      replaceAll ['\r'] [' '] (replaceAll ['\n'] [' '] (replaceAll ['\r', '\n'] [' '] cs)) := by
  rw [replaceAll_singleton, replaceAll_singleton, List.map_map, replaceAll]
  fun_induction joinLines cs with
  | case1 => rfl
  | case2 cs ih =>
    have hpair := replaceFrom_pattern_append '\r' ['\n'] [' '] cs
    rw [List.cons_append, List.singleton_append] at hpair
    rw [hpair, List.singleton_append, List.map_cons, ih]
    rfl
  | case3 c cs hpair ih =>
    have hhead : dropHead? ['\r', '\n'] (c :: cs) = none := by
      rw [Option.eq_none_iff_forall_ne_some]
      intro rest hrest
      obtain ⟨rfl, rfl⟩ := List.cons.inj (dropHead?_eq_some_iff.1 hrest)
      exact hpair rest rfl rfl
    rw [replaceFrom_cons_of_dropHead?_eq_none hhead, List.map_cons, ih]
    congr 1
    by_cases hfeed : c = '\n' <;> by_cases hreturn : c = '\r' <;> simp [hfeed, hreturn]

/-! ## Long texts -/

theorem shorten_of_le {limit : Nat} (h : cs.length ≤ limit) : shorten limit cs = cs :=
  if_neg (Nat.not_lt.2 h)

theorem shorten_of_lt {limit : Nat} (h : limit < cs.length) :
    shorten limit cs = cs.take limit ++ ellipsis :=
  if_pos h

theorem length_shorten_le (limit : Nat) (cs : List Char) :
    (shorten limit cs).length ≤ limit + 3 := by
  rcases Nat.lt_or_ge limit cs.length with h | h
  · rw [shorten_of_lt h, List.length_append, List.length_take_of_le (Nat.le_of_lt h)]
    exact Nat.le_refl _
  · rw [shorten_of_le h]
    exact Nat.le_add_right_of_le h

/-- The dots of a text that was shortened are cut off from it and put behind it once more. -/
theorem shorten_shorten (limit : Nat) (cs : List Char) :
    shorten limit (shorten limit cs) = shorten limit cs := by
  rcases Nat.lt_or_ge limit cs.length with h | h
  · have hkept : (cs.take limit).length = limit := List.length_take_of_le (Nat.le_of_lt h)
    have hlonger : limit < (cs.take limit ++ ellipsis).length := by
      rw [List.length_append, hkept]
      exact Nat.lt_add_of_pos_right (by decide)
    rw [shorten_of_lt h, shorten_of_lt hlonger, List.take_left' hkept]
  · rw [shorten_of_le h, shorten_of_le h]

/-- A text that is shortened to some of its characters still begins with the first, and it ends with
a dot. -/
theorem IsTrimmed.shorten {limit : Nat} (hlimit : 0 < limit) (h : IsTrimmed cs) :
    IsTrimmed (shorten limit cs) := by
  rcases Nat.lt_or_ge limit cs.length with hlength | hlength
  · rw [shorten_of_lt hlength]
    have hkept : cs.take limit ≠ [] := by
      refine List.ne_nil_of_length_pos ?_
      rwa [List.length_take_of_le (Nat.le_of_lt hlength)]
    have hdots : ellipsis ≠ [] := by decide
    refine ⟨fun hne => ?_, fun hne => ?_⟩
    · rw [List.head_append_of_ne_nil hkept, (List.take_prefix limit cs).head hkept]
      exact h.head _
    · rw [List.getLast_append_of_ne_nil hne hdots]
      rfl
  · rwa [shorten_of_le hlength]

theorem IsOneLine.shorten (limit : Nat) (h : IsOneLine cs) : IsOneLine (shorten limit cs) := by
  rcases Nat.lt_or_ge limit cs.length with hlength | hlength
  · rw [shorten_of_lt hlength, isOneLine_append_iff]
    exact ⟨h.of_subset (List.take_subset limit cs), by decide⟩
  · rwa [shorten_of_le hlength]

/-! ## Snippets -/

/-- What a snippet shows of a text. -/
structure IsSnippet (cs shown : List Char) : Prop where
  /-- It breaks no line. -/
  isOneLine : IsOneLine shown
  /-- No blanks stand around it. -/
  isTrimmed : IsTrimmed shown
  /-- It is short. -/
  length_le : shown.length ≤ 163
  /-- It is the text with spaces for line breaks and without the blanks around it, if that is short
  enough, and otherwise the beginning of that, with dots behind it. -/
  exists_eq : ∃ joined text, Collapses cs joined ∧ TrimsTo joined text ∧
    shown = if text.length ≤ 160 then text else text.take 160 ++ "...".toList
  /-- It is the snippet of itself. -/
  snippet_eq : snippet shown = shown

theorem isOneLine_snippet (cs : List Char) : IsOneLine (snippet cs) := by
  have hjoined : IsOneLine (joinLines cs) := (collapses_joinLines cs).isOneLine
  exact (hjoined.of_subset (trim_subset _)).shorten snippetLimit

theorem isTrimmed_snippet (cs : List Char) : IsTrimmed (snippet cs) :=
  (isTrimmed_trim (joinLines cs)).shorten (by decide)

/-- A snippet has nothing to join and nothing to trim, so that it is only shortened again. -/
theorem snippet_snippet (cs : List Char) : snippet (snippet cs) = snippet cs := by
  rw [snippet, joinLines_eq_self (isOneLine_snippet cs), (isTrimmed_snippet cs).trim_eq, snippet,
    shorten_shorten]

/-- The snippet of any text shows it in this way. -/
theorem isSnippet_snippet (cs : List Char) : IsSnippet cs (snippet cs) where
  isOneLine := isOneLine_snippet cs
  isTrimmed := isTrimmed_snippet cs
  length_le := length_shorten_le snippetLimit _
  exists_eq := by
    refine ⟨joinLines cs, trim (joinLines cs), collapses_joinLines cs, trimsTo_trim _, ?_⟩
    split
    · next h => exact shorten_of_le h
    · next h => exact shorten_of_lt (Nat.lt_of_not_le h)
  snippet_eq := snippet_snippet cs

/-- Each break is a space of its own, next to the blanks of the text. -/
example : snippet "\n<summary>\r\n Text\r\r\n</summary> \r".toList =
    "<summary>  Text  </summary>".toList := by decide

end DocAudit.Text
