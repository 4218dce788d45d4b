import DocAudit.Markup.Forest

/-!
# Where events stand

An event takes a part off the beginning of a text and leaves the rest as it is. So the events of a
text stand one after the other, and each starts between two characters.

* `scan_isSuffix`: what is left after an event is the end of the text;
* `readAll_append`: reading a text whose first event is known;
* `Forest.isAligned_read`: without a byte order mark, every event starts between two characters.
-/

namespace DocAudit.Markup

open DocAudit.Text

theorem dropHead?_isSuffix {head cs rest : List Char} (h : dropHead? head cs = some rest) :
    rest <:+ cs :=
  ⟨head, (dropHead?_eq_some_iff.1 h).symm⟩

theorem cut?_isSuffix {pattern cs before rest : List Char}
    (h : cut? pattern cs = some (before, rest)) : rest <:+ cs := by
  induction cs generalizing before with
  | nil => simp [cut?] at h
  | cons c cs ih =>
    rw [cut?] at h
    split at h
    · next found =>
      obtain ⟨-, rfl⟩ := Prod.mk.inj (Option.some.inj h)
      exact dropHead?_isSuffix found
    · obtain ⟨⟨front, back⟩, hcut, heq⟩ := Option.map_eq_some_iff.1 h
      obtain ⟨-, rfl⟩ := Prod.mk.inj heq
      exact (ih hcut).trans (List.suffix_cons c cs)

theorem dropKeyword?_isSuffix {keyword cs rest : List Char}
    (h : dropKeyword? keyword cs = some rest) : rest <:+ cs := by
  induction keyword generalizing cs with
  | nil =>
    obtain rfl := Option.some.inj h
    exact List.suffix_refl cs
  | cons k ks ih =>
    cases cs with
    | nil => simp [dropKeyword?] at h
    | cons c cs =>
      rw [dropKeyword?] at h
      split at h
      · exact (ih h).trans (List.suffix_cons c cs)
      · cases h

theorem tagBody?_isSuffix {quote : Option Char} {cs body rest : List Char}
    (h : tagBody? quote cs = some (body, rest)) : rest <:+ cs := by
  induction cs generalizing quote body with
  | nil => cases quote <;> simp [tagBody?] at h
  | cons c cs ih =>
    cases quote with
    | none =>
      rw [tagBody?] at h
      split at h
      · obtain ⟨-, rfl⟩ := Prod.mk.inj (Option.some.inj h)
        exact List.suffix_cons c cs
      · obtain ⟨⟨front, back⟩, hbody, heq⟩ := Option.map_eq_some_iff.1 h
        obtain ⟨-, rfl⟩ := Prod.mk.inj heq
        exact (ih hbody).trans (List.suffix_cons c cs)
    | some quote =>
      rw [tagBody?] at h
      obtain ⟨⟨front, back⟩, hbody, heq⟩ := Option.map_eq_some_iff.1 h
      obtain ⟨-, rfl⟩ := Prod.mk.inj heq
      exact (ih hbody).trans (List.suffix_cons c cs)

theorem balanced?_isSuffix {depth : Nat} {cs body rest : List Char}
    (h : balanced? depth cs = some (body, rest)) : rest <:+ cs := by
  induction cs generalizing depth body with
  | nil => simp [balanced?] at h
  | cons c cs ih =>
    rw [balanced?] at h
    split at h
    · obtain ⟨-, rfl⟩ := Prod.mk.inj (Option.some.inj h)
      exact List.suffix_cons c cs
    · obtain ⟨⟨front, back⟩, hbody, heq⟩ := Option.map_eq_some_iff.1 h
      obtain ⟨-, rfl⟩ := Prod.mk.inj heq
      exact (ih hbody).trans (List.suffix_cons c cs)

theorem scanBang_isSuffix {cs rest : List Char} {event : Event}
    (h : scanBang cs = .found event rest) : rest <:+ cs := by
  unfold scanBang at h
  split at h
  · split at h
    · next inside _ _ found =>
      cases h
      exact (cut?_isSuffix found).trans ⟨['-', '-'], rfl⟩
    · cases h
  · split at h
    · next keyword =>
      split at h
      · next found =>
        cases h
        exact (cut?_isSuffix found).trans (dropKeyword?_isSuffix keyword)
      · cases h
    · split at h
      · next found =>
        cases h
        obtain ⟨inside, keyword, hbody⟩ := Option.bind_eq_some_iff.1 found
        exact (balanced?_isSuffix hbody).trans (dropKeyword?_isSuffix keyword)
      · cases h

theorem scanMarkup_isSuffix {cs rest : List Char} {event : Event}
    (h : scanMarkup cs = .found event rest) : rest <:+ cs := by
  unfold scanMarkup at h
  split at h
  · cases h
  · exact (scanBang_isSuffix h).trans (List.suffix_cons _ _)
  · split at h
    · next found =>
      cases h
      exact cut?_isSuffix found
    · cases h
  · split at h
    · next found =>
      cases h
      exact (tagBody?_isSuffix found).trans (List.suffix_cons _ _)
    · cases h
  · split at h
    · next found =>
      cases h
      exact tagBody?_isSuffix found
    · cases h

theorem scanReference_isSuffix {cs rest : List Char} {event : Event}
    (h : scanReference cs = .found event rest) : rest <:+ cs := by
  have hdrop := List.dropWhile_suffix (l := cs) fun c => c != ';' && !isMark c
  unfold scanReference at h
  split at h
  · next heq =>
    cases h
    rw [heq] at hdrop
    exact (List.suffix_cons _ _).trans hdrop
  · cases h
    exact hdrop

/-- What is left after an event is the end of the text. -/
theorem scan_isSuffix {cs rest : List Char} {event : Event} (h : scan cs = .found event rest) :
    rest <:+ cs := by
  unfold scan at h
  split at h
  · cases h
  · exact (scanMarkup_isSuffix h).trans (List.suffix_cons _ _)
  · exact (scanReference_isSuffix h).trans (List.suffix_cons _ _)
  · cases h
    exact List.dropWhile_suffix _

/-- Every event takes something off the beginning. -/
theorem ne_nil_of_scan {xs rest : List Char} {event : Event}
    (h : scan (xs ++ rest) = .found event rest) : xs ≠ [] := by
  rintro rfl
  exact Nat.lt_irrefl _ (scan_length h)

/-! ## Reading event by event -/

@[simp]
theorem readAll_nil (position : Nat) : readAll position [] = ([], .finished position) := by
  rw [readAll]
  rfl

/-- Reading a text whose first event is known. -/
theorem readAll_append {xs rest : List Char} {event : Event} (position : Nat)
    (h : scan (xs ++ rest) = .found event rest) :
    readAll position (xs ++ rest) =
      (⟨event, position, position + byteLength xs⟩ :: (readAll (position + byteLength xs) rest).1,
        (readAll (position + byteLength xs) rest).2) := by
  rw [readAll]
  split
  · next hscan => rw [h] at hscan; cases hscan
  · next hscan => rw [h] at hscan; cases hscan
  · next found left hscan =>
    rw [h] at hscan
    cases hscan
    rw [byteLength_append, Nat.add_sub_cancel_right]

/-- Reading starts and ends between two characters, and so does every event. -/
theorem isBoundary_readAll (before cs : List Char) :
    (∀ reading ∈ (readAll (byteLength before) cs).1,
        isBoundary reading.start (before ++ cs) = true) ∧
      isBoundary (readAll (byteLength before) cs).2.position (before ++ cs) = true := by
  induction hlength : cs.length using Nat.strongRecOn generalizing before cs with
  | ind length ih =>
    cases hscan : scan cs with
    | finished =>
      rw [readAll, hscan]
      exact ⟨by simp, isBoundary_append before cs⟩
    | broken =>
      rw [readAll, hscan]
      exact ⟨by simp, isBoundary_append before cs⟩
    | found event rest =>
      -- The event takes `xs` off the text, which joins what has been read.
      obtain ⟨xs, rfl⟩ := scan_isSuffix hscan
      have hrest : rest.length < length := hlength ▸ scan_length hscan
      obtain ⟨hreadings, hending⟩ := ih rest.length hrest (before ++ xs) rest rfl
      rw [byteLength_append, List.append_assoc] at hreadings hending
      rw [readAll_append _ hscan]
      refine ⟨?_, hending⟩
      intro reading hmem
      rcases List.mem_cons.1 hmem with rfl | hmem
      · exact isBoundary_append before _
      · exact hreadings reading hmem

namespace Forest

theorem readings_eq_readAll {cs : List Char} (h : cs.head? ≠ some '\uFEFF') :
    readings cs = readAll 0 cs := by
  have hmark : withoutMark cs = cs := by
    unfold withoutMark
    split
    · exact absurd rfl h
    · rfl
  rw [readings, hmark]

/-- Without a byte order mark, every event starts between two characters. -/
theorem isAligned_read {cs : List Char} (h : cs.head? ≠ some '\uFEFF') :
    (read cs).isAligned = true := by
  obtain ⟨hreadings, hending⟩ := isBoundary_readAll [] cs
  have haligned : (read cs).isAligned =
      ((readings cs).1.all (isBoundary ·.start cs) && isBoundary (readings cs).2.position cs) := rfl
  rw [haligned, readings_eq_readAll h, Bool.and_eq_true, List.all_eq_true]
  exact ⟨hreadings, hending⟩

end Forest
end DocAudit.Markup
