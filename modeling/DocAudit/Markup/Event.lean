import DocAudit.Text.Blank
import DocAudit.Text.Basic

/-!
# Events of markup

What stands at the beginning of a piece of markup: a run of text, a reference, a tag, a section of
character data, something that is no content, or a complaint after which reading can go on. Reading
is tolerant: tags need not match, attributes are not looked at, and names may hold any character.

`scan` reads one event and `Reading.all` reads a whole text, noting where each event starts and
stops. The only way to fail is markup that opens and never comes to its end.
-/

namespace DocAudit.Markup

open DocAudit.Text

/-- A blank of markup. -/
def isSpace (c : Char) : Bool :=
  c == ' ' || c == '\t' || c == '\r' || c == '\n'

/-- The part of a name after its first colon, or the whole name when it has none. -/
def localName (name : List Char) : List Char :=
  match name.dropWhile (· != ':') with
  | [] => name
  | _ :: rest => rest

/-- The text in front of the first occurrence of a pattern, and the text after it. -/
def cut? (pattern : List Char) : List Char → Option (List Char × List Char)
  | [] => none
  | c :: cs =>
    match dropHead? pattern (c :: cs) with
    | some rest => some ([], rest)
    | none => (cut? pattern cs).map fun (before, rest) => (c :: before, rest)

/-- The text after a head given in upper case, in whatever case the text has it. -/
def dropKeyword? : (keyword : List Char) → List Char → Option (List Char)
  | [], cs => some cs
  | _ :: _, [] => none
  | k :: ks, c :: cs => if c.toUpper = k then dropKeyword? ks cs else none

/-- The inside of a tag and what follows it: a tag ends at the first `>` outside of quotes. -/
def tagBody? : (quote : Option Char) → List Char → Option (List Char × List Char)
  | _, [] => none
  | none, c :: cs =>
    if c = '>' then some ([], cs)
    else
      -- A quote of either kind hides what follows, up to the next quote of its kind.
      (tagBody? (if c = '"' ∨ c = '\'' then some c else none) cs).map fun (body, rest) =>
        (c :: body, rest)
  | some quote, c :: cs =>
    (tagBody? (if c = quote then none else some quote) cs).map fun (body, rest) =>
      (c :: body, rest)

/-- The inside of a document type and what follows it: it ends at the `>` that balances the angle
brackets inside. -/
def balanced? (depth : Nat) : List Char → Option (List Char × List Char)
  | [] => none
  | c :: cs =>
    if c = '>' ∧ depth = 0 then some ([], cs)
    else
      -- Quotes and comments inside hide no brackets.
      (balanced? (if c = '<' then depth + 1 else if c = '>' then depth - 1 else depth) cs).map
        fun (body, rest) => (c :: body, rest)

/-- What a reader meets in markup. -/
inductive Event
  /-- Text as written, up to the next tag or reference. -/
  | text (content : List Char)
  /-- The inside of a section whose characters all stand for themselves. -/
  | characterData (content : List Char)
  /-- A reference such as `&amp;`, complete with its semicolon. -/
  | reference
  /-- A start tag: its name, and the rest of its inside as written. -/
  | startTag (name attributes : List Char)
  /-- A tag that closes itself. -/
  | emptyTag (name attributes : List Char)
  /-- An end tag: everything after the slash but trailing blanks. -/
  | endTag (name : List Char)
  /-- A comment, an instruction, a declaration or a document type. -/
  | aside
  /-- Ill-formed markup that is passed over: a reference without its semicolon, or a document type
  without a name. -/
  | complaint
deriving DecidableEq, Repr

/-- The outcome of looking at the beginning of a text. -/
inductive Scan
  /-- The text is empty. -/
  | finished
  /-- The markup at the beginning has no end. -/
  | broken
  /-- An event, and the text after it. -/
  | found (event : Event) (rest : List Char)
deriving DecidableEq, Repr

/-- The event of a start tag with the given inside. A slash at the end closes the tag itself. -/
def Event.ofTagBody (body : List Char) : Event :=
  match dropTail? ['/'] body with
  | some inside => .emptyTag (inside.takeWhile (!isSpace ·)) (inside.dropWhile (!isSpace ·))
  | none => .startTag (body.takeWhile (!isSpace ·)) (body.dropWhile (!isSpace ·))

/-- What follows `<!`: a comment, a section of character data, or a document type. -/
def scanBang (cs : List Char) : Scan :=
  match cs with
  | '-' :: '-' :: inside =>
    match cut? "-->".toList inside with
    | some (_, rest) => .found .aside rest
    | none => .broken
  | _ =>
    -- The words may be in any case, and anything but these two is markup without an end.
    match dropKeyword? "[CDATA[".toList cs with
    | some inside =>
      match cut? "]]>".toList inside with
      | some (content, rest) => .found (.characterData content) rest
      | none => .broken
    | none =>
      match (dropKeyword? "DOCTYPE".toList cs).bind (balanced? 0) with
      | some (body, rest) => .found (if body.all isSpace then .complaint else .aside) rest
      | none => .broken

/-- What follows `<`. -/
def scanMarkup (cs : List Char) : Scan :=
  match cs with
  | [] => .broken
  | '!' :: inside => scanBang inside
  | '?' :: _ =>
    -- The question mark at the beginning cannot be the one at the end.
    match cut? "?>".toList cs with
    | some (_ :: _, rest) => .found .aside rest
    | _ => .broken
  | '/' :: inside =>
    match tagBody? none inside with
    | some (body, rest) => .found (.endTag (dropEndWhile isSpace body)) rest
    | none => .broken
  | _ =>
    match tagBody? none cs with
    | some (body, rest) => .found (Event.ofTagBody body) rest
    | none => .broken

/-- The character ends a run of text or an unfinished reference. -/
def isMark (c : Char) : Bool :=
  c == '<' || c == '&'

/-- What follows `&`: a reference runs to its semicolon, if that comes before any other mark. -/
def scanReference (cs : List Char) : Scan :=
  match cs.dropWhile fun c => c != ';' && !isMark c with
  | ';' :: rest => .found .reference rest
  -- What stands between the `&` and the next mark is passed over with it.
  | rest => .found .complaint rest

/-- The event at the beginning of a text. -/
def scan (cs : List Char) : Scan :=
  match cs with
  | [] => .finished
  | '<' :: rest => scanMarkup rest
  | '&' :: rest => scanReference rest
  | _ => .found (.text (cs.takeWhile (!isMark ·))) (cs.dropWhile (!isMark ·))

/-! ## Reading goes forward -/

theorem dropHead?_length {head cs rest : List Char} (h : dropHead? head cs = some rest) :
    rest.length ≤ cs.length := by
  simp [dropHead?_eq_some_iff.1 h]

theorem cut?_length {pattern cs before rest : List Char}
    (h : cut? pattern cs = some (before, rest)) : rest.length ≤ cs.length := by
  induction cs generalizing before with
  | nil => simp [cut?] at h
  | cons c cs ih =>
    rw [cut?] at h
    split at h
    · next found =>
      obtain ⟨-, rfl⟩ := Prod.mk.inj (Option.some.inj h)
      exact dropHead?_length found
    · obtain ⟨⟨front, back⟩, hcut, heq⟩ := Option.map_eq_some_iff.1 h
      obtain ⟨-, rfl⟩ := Prod.mk.inj heq
      exact Nat.le_succ_of_le (ih hcut)

theorem dropKeyword?_length {keyword cs rest : List Char}
    (h : dropKeyword? keyword cs = some rest) : rest.length ≤ cs.length := by
  induction keyword generalizing cs with
  | nil => simp_all [dropKeyword?]
  | cons k ks ih =>
    cases cs with
    | nil => simp [dropKeyword?] at h
    | cons c cs =>
      rw [dropKeyword?] at h
      split at h
      · exact Nat.le_succ_of_le (ih h)
      · cases h

theorem tagBody?_length {quote : Option Char} {cs body rest : List Char}
    (h : tagBody? quote cs = some (body, rest)) : rest.length < cs.length := by
  induction cs generalizing quote body with
  | nil => cases quote <;> simp [tagBody?] at h
  | cons c cs ih =>
    -- Inside of quotes nothing ends the tag, so there is one case less.
    cases quote with
    | none =>
      rw [tagBody?] at h
      split at h
      · simp_all
      · obtain ⟨⟨front, back⟩, hbody, heq⟩ := Option.map_eq_some_iff.1 h
        obtain ⟨-, rfl⟩ := Prod.mk.inj heq
        exact Nat.lt_succ_of_lt (ih hbody)
    | some quote =>
      rw [tagBody?] at h
      obtain ⟨⟨front, back⟩, hbody, heq⟩ := Option.map_eq_some_iff.1 h
      obtain ⟨-, rfl⟩ := Prod.mk.inj heq
      exact Nat.lt_succ_of_lt (ih hbody)

theorem balanced?_length {depth : Nat} {cs body rest : List Char}
    (h : balanced? depth cs = some (body, rest)) : rest.length < cs.length := by
  induction cs generalizing depth body with
  | nil => simp [balanced?] at h
  | cons c cs ih =>
    rw [balanced?] at h
    split at h
    · simp_all
    · obtain ⟨⟨front, back⟩, hbody, heq⟩ := Option.map_eq_some_iff.1 h
      obtain ⟨-, rfl⟩ := Prod.mk.inj heq
      exact Nat.lt_succ_of_lt (ih hbody)

theorem length_dropWhile_le (p : Char → Bool) (cs : List Char) :
    (cs.dropWhile p).length ≤ cs.length :=
  (List.dropWhile_suffix p).length_le

theorem scanBang_length {cs rest : List Char} {event : Event}
    (h : scanBang cs = .found event rest) : rest.length ≤ cs.length := by
  unfold scanBang at h
  split at h
  · split at h
    · next found =>
      cases h
      have := cut?_length found
      simp only [List.length_cons]
      omega
    · cases h
  · split at h
    · next keyword =>
      split at h
      · next found =>
        cases h
        exact Nat.le_trans (cut?_length found) (dropKeyword?_length keyword)
      · cases h
    · split at h
      · next found =>
        cases h
        obtain ⟨inside, keyword, hbody⟩ := Option.bind_eq_some_iff.1 found
        exact Nat.le_trans (Nat.le_of_lt (balanced?_length hbody)) (dropKeyword?_length keyword)
      · cases h

theorem scanMarkup_length {cs rest : List Char} {event : Event}
    (h : scanMarkup cs = .found event rest) : rest.length ≤ cs.length := by
  unfold scanMarkup at h
  split at h
  · cases h
  · exact Nat.le_succ_of_le (scanBang_length h)
  · split at h
    · next found =>
      cases h
      exact cut?_length found
    · cases h
  · split at h
    · next found =>
      cases h
      exact Nat.le_succ_of_le (Nat.le_of_lt (tagBody?_length found))
    · cases h
  · split at h
    · next found =>
      cases h
      exact Nat.le_of_lt (tagBody?_length found)
    · cases h

theorem scanReference_length {cs rest : List Char} {event : Event}
    (h : scanReference cs = .found event rest) : rest.length ≤ cs.length := by
  unfold scanReference at h
  have shorter := length_dropWhile_le (fun c => c != ';' && !isMark c) cs
  split at h
  · next heq =>
    cases h
    simp only [heq, List.length_cons] at shorter
    omega
  · cases h
    exact shorter

/-- Every event takes at least one character. -/
theorem scan_length {cs rest : List Char} {event : Event} (h : scan cs = .found event rest) :
    rest.length < cs.length := by
  unfold scan at h
  split at h
  · cases h
  · exact Nat.lt_succ_of_le (scanMarkup_length h)
  · exact Nat.lt_succ_of_le (scanReference_length h)
  · -- A text begins with a character that is no mark, so it holds at least that one.
    next notEmpty notAngle notAmpersand =>
    cases h
    cases cs with
    | nil => exact absurd rfl notEmpty
    | cons c cs =>
      have : isMark c = false := by
        simp only [isMark, Bool.or_eq_false_iff, beq_eq_false_iff_ne, ne_eq]
        constructor
        · rintro rfl; exact notAngle _ rfl
        · rintro rfl; exact notAmpersand _ rfl
      simpa [List.dropWhile, this] using
        Nat.lt_succ_of_le (length_dropWhile_le (!isMark ·) cs)

/-! ## Reading a whole text -/

/-- An event with the byte offsets where it starts and stops. -/
structure Reading where
  /-- The event. -/
  event : Event
  /-- Where the event starts. -/
  start : Nat
  /-- Where the event stops. -/
  stop : Nat
deriving DecidableEq, Repr

/-- How reading came to its end. -/
inductive Ending
  /-- Everything was read up to this offset. -/
  | finished (position : Nat)
  /-- The markup that starts at this offset has no end. -/
  | broken (position : Nat)
deriving DecidableEq, Repr

/-- The offset at which reading ended. -/
def Ending.position : Ending → Nat
  | finished position => position
  | broken position => position

/-- The events of a text that starts at byte offset `position`, and how reading ended. -/
def readAll (position : Nat) (cs : List Char) : List Reading × Ending :=
  match _h : scan cs with
  | .finished => ([], .finished position)
  | .broken => ([], .broken position)
  | .found event rest =>
    let stop := position + (byteLength cs - byteLength rest)
    let (readings, ending) := readAll stop rest
    (⟨event, position, stop⟩ :: readings, ending)
termination_by cs.length
decreasing_by exact scan_length _h

end DocAudit.Markup
