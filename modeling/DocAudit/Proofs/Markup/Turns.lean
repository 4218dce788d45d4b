import DocAudit.Proofs.Markup.Steps
import Mathlib.Data.List.Chain

/-!
# Reading in turns

A text is read in turns, and each turn calls the reader once. The reader may stand in front of text,
in front of a reference without its semicolon, or in front of markup; whatever it comes upon, a
complaint too, takes it further by a byte at least. So there are never more turns than bytes, but
for the last one, which comes upon the end or upon markup that has no end.

After a complaint the loop looks whether the reader has got further, so as not to hear the same
complaint forever. It always has.

* `Call`, `Loop`, `Loop.next`: a call of the reader, and a turn of the loop;
* `Loop.IsUnderway`, `Loop.HasEnded`: what is true between two turns, and behind the last;
* `Loop.run_cases`: one of the two is true after any number of turns;
* `Loop.endsInTime`: how often the reader is called, and what comes of it.
-/

namespace DocAudit.Markup

open DocAudit.Text

/-! ## Turns -/

/-- A call of the reader. -/
structure Call where
  /-- Where the reader stood before. -/
  start : Nat
  /-- Where it stood then. -/
  stop : Nat
  /-- What it came upon. -/
  outcome : Scan
deriving DecidableEq, Repr

namespace Call

/-- The event that the reader came upon. -/
def reading? (call : Call) : Option Reading :=
  match call.outcome with
  | .found event _ => some ⟨event, call.start, call.stop⟩
  | _ => none

/-- The end that the reader came upon. -/
def ending? (call : Call) : Option Ending :=
  match call.outcome with
  | .finished => some (.finished call.start)
  | .broken => some (.broken call.start)
  | .found _ _ => none

/-- The reader came upon an event, and got further with it. -/
def IsOnward (call : Call) : Prop :=
  call.reading?.isSome = true ∧ call.start < call.stop

/-- What ends the reading is no event. -/
theorem reading?_of_ending? {call : Call} {ending : Ending} (h : call.ending? = some ending) :
    call.reading? = none := by
  cases houtcome : call.outcome <;> simp_all [ending?, reading?]

end Call

/-- The reading of a text, between two calls of the reader. -/
structure Loop where
  /-- What the reader has not come upon yet. -/
  rest : List Char
  /-- Where the reader stands. -/
  position : Nat
  /-- The forest under construction. -/
  builder : Builder
  /-- The calls that were made. -/
  calls : List Call
  /-- How reading ended, if it has. -/
  ending : Option Ending

namespace Loop

/-- Nothing is read yet. -/
def start (cs : List Char) : Loop :=
  ⟨Forest.withoutMark cs, 0, .empty, [], none⟩

/-- Reading ends with a call. -/
def endWith (loop : Loop) (call : Call) (ending : Ending) : Loop :=
  { loop with calls := loop.calls ++ [call], ending := some ending }

/-- One turn: the reader is called, unless reading has ended. -/
def next (cs : List Char) (loop : Loop) : Loop :=
  match loop.ending with
  | some _ => loop
  | none =>
    let start := min loop.position (byteLength cs)
    match scan loop.rest with
    | .finished => loop.endWith ⟨start, start, .finished⟩ (.finished start)
    | .broken => loop.endWith ⟨start, start, .broken⟩ (.broken start)
    | .found event rest =>
      let position := loop.position + (byteLength loop.rest - byteLength rest)
      let stop := min position (byteLength cs)
      let call : Call := ⟨start, stop, .found event rest⟩
      -- The same complaint would come again where the reader has not moved.
      if event = .complaint ∧ ¬start < stop then loop.endWith call (.broken start)
      else
        { rest, position, builder := loop.builder.read cs ⟨event, start, stop⟩,
          calls := loop.calls ++ [call], ending := none }

/-- The reading of a text after so many turns. -/
def run (cs : List Char) : (turns : Nat) → Loop
  | 0 => start cs
  | turns + 1 => (run cs turns).next cs

/-- The events that the reader came upon. -/
def readings (loop : Loop) : List Reading :=
  loop.calls.filterMap Call.reading?

/-- Each call starts where the one before it stopped. -/
def IsChained (loop : Loop) : Prop :=
  loop.calls.IsChain fun call later => call.stop = later.start

/-! ## Between two turns -/

/-- Reading goes on after so many turns. -/
structure IsUnderway (cs : List Char) (turns : Nat) (loop : Loop) : Prop where
  /-- It has not ended. -/
  ending_eq_none : loop.ending = none
  /-- Each turn has made one call. -/
  length_calls : loop.calls.length = turns
  /-- Each call has passed a byte. -/
  le_position : turns ≤ loop.position
  /-- The reader does not stand behind the end of the text. -/
  position_le : loop.position + byteLength loop.rest ≤ byteLength cs
  /-- Every call has come upon an event. -/
  isOnward : ∀ call ∈ loop.calls, call.IsOnward
  /-- The calls follow one another. -/
  isChained : loop.IsChained
  /-- The reader stands where the last of them stopped. -/
  stop_last : ∀ call ∈ loop.calls.getLast?, call.stop = loop.position
  /-- The forest is made of the events so far. -/
  builder_eq : loop.builder = loop.readings.foldl (Builder.read cs) .empty
  /-- The events of the text are these and those in front of the reader. -/
  readings_eq : (Forest.readings cs).1 = loop.readings ++ (readAll loop.position loop.rest).1
  /-- Reading will end as it ends in front of the reader. -/
  ending_eq : (Forest.readings cs).2 = (readAll loop.position loop.rest).2

/-- Reading has ended. -/
structure HasEnded (cs : List Char) (ending : Ending) (loop : Loop) : Prop where
  /-- It has ended so. -/
  ending_eq_some : loop.ending = some ending
  /-- There are not more calls than bytes, but for the last. -/
  length_calls_le : loop.calls.length ≤ byteLength cs + 1
  /-- The last call has come upon the end, and all others upon events. -/
  exists_last : ∃ earlier last, loop.calls = earlier ++ [last] ∧ last.ending? = some ending ∧
    ∀ call ∈ earlier, call.IsOnward
  /-- The calls follow one another. -/
  isChained : loop.IsChained
  /-- The forest is made of the events. -/
  builder_eq : loop.builder = loop.readings.foldl (Builder.read cs) .empty
  /-- The events are those of the text. -/
  readings_eq : (Forest.readings cs).1 = loop.readings
  /-- Reading has ended as it does in the text. -/
  ending_eq : (Forest.readings cs).2 = ending

variable {cs : List Char} {turns : Nat} {loop : Loop} {ending : Ending}

theorem isUnderway_start (cs : List Char) : IsUnderway cs 0 (start cs) where
  ending_eq_none := rfl
  length_calls := rfl
  le_position := Nat.le_refl _
  position_le := by
    rw [start, Nat.zero_add]
    exact byteLength_le_of_isSuffix (Forest.withoutMark_isSuffix cs)
  isOnward := nofun
  isChained := .nil
  stop_last := nofun
  builder_eq := rfl
  readings_eq := rfl
  ending_eq := rfl

namespace IsUnderway

/-- The reader does not say that it stands behind the end. -/
theorem min_position (h : IsUnderway cs turns loop) :
    min loop.position (byteLength cs) = loop.position :=
  Nat.min_eq_left (Nat.le_trans (Nat.le_add_right _ _) h.position_le)

/-- A call that starts where the last one stopped follows the others. -/
theorem isChain_concat (h : IsUnderway cs turns loop) {call : Call}
    (hstart : call.start = loop.position) :
    (loop.calls ++ [call]).IsChain fun call later => call.stop = later.start := by
  refine List.isChain_append.2 ⟨h.isChained, .singleton call, fun last hlast first hfirst => ?_⟩
  cases hfirst
  rw [h.stop_last last hlast, hstart]

/-- Reading ends with a call that comes upon the end, or upon markup that has no end. -/
theorem hasEnded (h : IsUnderway cs turns loop) {call : Call} (hstart : call.start = loop.position)
    (hending : call.ending? = some ending)
    (hread : readAll loop.position loop.rest = ([], ending)) :
    HasEnded cs ending (loop.endWith call ending) := by
  have hreadings : (loop.endWith call ending).readings = loop.readings := by
    rw [readings, endWith, List.filterMap_append,
      List.filterMap_cons_none (Call.reading?_of_ending? hending), List.filterMap_nil,
      List.append_nil, readings]
  have hchain := h.isChain_concat hstart
  refine ⟨rfl, ?_, ⟨loop.calls, call, rfl, hending, h.isOnward⟩, hchain, ?_, ?_, ?_⟩
  · have hposition := h.position_le
    have hturns := h.le_position
    rw [endWith, List.length_append, h.length_calls, List.length_singleton]
    omega
  · rw [hreadings]
    exact h.builder_eq
  · rw [h.readings_eq, hread, List.append_nil, hreadings]
  · rw [h.ending_eq, hread]

/-- The reader gets further with every event, with a complaint too. -/
theorem next_eq (h : IsUnderway cs turns loop) {xs rest : List Char} {event : Event}
    (hrest : loop.rest = xs ++ rest) (hscan : scan loop.rest = .found event rest) :
    0 < byteLength xs ∧
      loop.next cs =
        { rest, position := loop.position + byteLength xs
          builder :=
            loop.builder.read cs ⟨event, loop.position, loop.position + byteLength xs⟩
          calls :=
            loop.calls ++ [⟨loop.position, loop.position + byteLength xs, .found event rest⟩]
          ending := none } := by
  have hpositive : 0 < byteLength xs := by
    obtain ⟨c, more, rfl⟩ := List.exists_cons_of_ne_nil (ne_nil_of_scan (hrest ▸ hscan))
    exact Nat.add_pos_left c.utf8Size_pos _
  have hposition := h.position_le
  rw [hrest, byteLength_append] at hposition
  have hstop : min (loop.position + byteLength xs) (byteLength cs) =
      loop.position + byteLength xs := Nat.min_eq_left (by omega)
  have hpassed : byteLength loop.rest - byteLength rest = byteLength xs := by
    rw [hrest, byteLength_append, Nat.add_sub_cancel_right]
  refine ⟨hpositive, ?_⟩
  rw [next, h.ending_eq_none]
  dsimp only
  rw [hscan]
  dsimp only
  rw [hpassed, hstop, h.min_position, if_neg]
  rintro ⟨-, hstays⟩
  exact hstays (Nat.lt_add_of_pos_right hpositive)

/-- Reading goes on behind an event. -/
theorem isUnderway_next (h : IsUnderway cs turns loop) {rest : List Char} {event : Event}
    (hscan : scan loop.rest = .found event rest) : IsUnderway cs (turns + 1) (loop.next cs) := by
  obtain ⟨xs, hrest⟩ := scan_isSuffix hscan
  obtain ⟨hpositive, hnext⟩ := h.next_eq hrest.symm hscan
  have hread := readAll_append loop.position (hrest ▸ hscan)
  rw [hrest] at hread
  have hreadings : (loop.next cs).readings =
      loop.readings ++ [⟨event, loop.position, loop.position + byteLength xs⟩] := by
    rw [hnext, readings, List.filterMap_append]
    rfl
  have hposition := h.position_le
  have hturns := h.le_position
  rw [← hrest, byteLength_append] at hposition
  constructor
  case ending_eq_none => rw [hnext]
  case length_calls => rw [hnext, List.length_append, h.length_calls, List.length_singleton]
  case le_position =>
    rw [hnext]
    dsimp only
    omega
  case position_le =>
    rw [hnext]
    dsimp only
    omega
  case isOnward =>
    rw [hnext]
    refine List.forall_mem_append.2 ⟨h.isOnward, List.forall_mem_singleton.2 ⟨rfl, ?_⟩⟩
    exact Nat.lt_add_of_pos_right hpositive
  case isChained =>
    rw [IsChained, hnext]
    exact h.isChain_concat rfl
  case stop_last =>
    rw [hnext, List.getLast?_concat]
    rintro call hcall
    cases hcall
    rfl
  case builder_eq => rw [hreadings, List.foldl_append, ← h.builder_eq, hnext]; rfl
  case readings_eq =>
    rw [h.readings_eq, hread, hreadings, hnext, List.append_assoc]
    rfl
  case ending_eq => rw [h.ending_eq, hread, hnext]

end IsUnderway

/-! ## All turns -/

theorem next_of_ending (h : loop.ending = some ending) : loop.next cs = loop := by
  rw [next, h]

/-- After any number of turns, reading goes on or has ended. -/
theorem run_cases (cs : List Char) (turns : Nat) :
    IsUnderway cs turns (run cs turns) ∨ ∃ ending, HasEnded cs ending (run cs turns) := by
  induction turns with
  | zero => exact Or.inl (isUnderway_start cs)
  | succ turns ih =>
    rw [run]
    rcases ih with h | ⟨ending, h⟩
    · cases hscan : scan (run cs turns).rest with
      | finished =>
        rw [next, h.ending_eq_none]
        dsimp only
        rw [hscan, h.min_position]
        exact Or.inr ⟨_, h.hasEnded rfl rfl (by rw [readAll, hscan])⟩
      | broken =>
        rw [next, h.ending_eq_none]
        dsimp only
        rw [hscan, h.min_position]
        exact Or.inr ⟨_, h.hasEnded rfl rfl (by rw [readAll, hscan])⟩
      | found event rest => exact Or.inl (h.isUnderway_next hscan)
    · rw [next_of_ending h.ending_eq_some]
      exact Or.inr ⟨ending, h⟩

/-- Where reading has ended, no more calls are made. -/
theorem run_add (h : (run cs turns).ending = some ending) (more : Nat) :
    run cs (turns + more) = run cs turns := by
  induction more with
  | zero => rfl
  | succ more ih => rw [← Nat.add_assoc, run, ih, next_of_ending h]

/-- How reading a text in turns goes. -/
structure EndsInTime (cs : List Char) : Prop where
  /-- As long as it goes on, each turn makes one call. -/
  length_calls : ∀ turns, (run cs turns).ending = none → (run cs turns).calls.length = turns
  /-- There are never more calls than bytes, but for one. -/
  length_calls_le : ∀ turns, (run cs turns).calls.length ≤ byteLength cs + 1
  /-- A call that comes upon an event, and be it a complaint, takes the reader further. -/
  start_lt_stop : ∀ turns, ∀ call ∈ (run cs turns).calls, call.reading?.isSome = true →
    call.start < call.stop
  /-- Each call starts where the one before it stopped. -/
  isChained : ∀ turns, (run cs turns).IsChained
  /-- Reading ends only with the last call, and only if that comes upon the end or upon markup that
  has no end. -/
  exists_last : ∀ turns ending, (run cs turns).ending = some ending →
    ∃ earlier last, (run cs turns).calls = earlier ++ [last] ∧ last.ending? = some ending ∧
      ∀ call ∈ earlier, call.reading?.isSome = true
  /-- Then no more calls are made. -/
  run_add : ∀ turns ending, (run cs turns).ending = some ending →
    ∀ more, run cs (turns + more) = run cs turns
  /-- After one turn more than there are bytes, reading has ended, with the events and the forest of
  the text. -/
  exists_ending : ∃ ending, (run cs (byteLength cs + 1)).ending = some ending ∧
    Forest.readings cs = ((run cs (byteLength cs + 1)).readings, ending) ∧
    (Forest.read cs).nodes = Forest.ofBuilder cs (run cs (byteLength cs + 1)).builder ending

/-- Reading any text in turns comes to its end. -/
theorem endsInTime (cs : List Char) : EndsInTime cs where
  length_calls turns hnone := by
    rcases run_cases cs turns with h | ⟨ending, h⟩
    · exact h.length_calls
    · rw [h.ending_eq_some] at hnone
      cases hnone
  length_calls_le turns := by
    rcases run_cases cs turns with h | ⟨ending, h⟩
    · have hposition := h.position_le
      have hturns := h.le_position
      rw [h.length_calls]
      omega
    · exact h.length_calls_le
  start_lt_stop turns call hcall hevent := by
    rcases run_cases cs turns with h | ⟨ending, h⟩
    · exact (h.isOnward call hcall).2
    · obtain ⟨earlier, last, hcalls, hending, honward⟩ := h.exists_last
      rw [hcalls] at hcall
      rcases List.mem_append.1 hcall with hcall | hcall
      · exact (honward call hcall).2
      · obtain rfl := List.mem_singleton.1 hcall
        rw [Call.reading?_of_ending? hending] at hevent
        cases hevent
  isChained turns := by
    rcases run_cases cs turns with h | ⟨_, h⟩ <;> exact h.isChained
  exists_last turns ending hsome := by
    rcases run_cases cs turns with h | ⟨other, h⟩
    · rw [h.ending_eq_none] at hsome
      cases hsome
    · obtain rfl : ending = other := Option.some.inj (hsome.symm.trans h.ending_eq_some)
      obtain ⟨earlier, last, hcalls, hending, honward⟩ := h.exists_last
      exact ⟨earlier, last, hcalls, hending, fun call hcall => (honward call hcall).1⟩
  run_add _ _ := Loop.run_add
  exists_ending := by
    rcases run_cases cs (byteLength cs + 1) with h | ⟨ending, h⟩
    · -- So many turns would have passed more bytes than there are.
      have hposition := h.position_le
      have hturns := h.le_position
      omega
    · refine ⟨ending, h.ending_eq_some, Prod.ext h.readings_eq h.ending_eq, ?_⟩
      rw [h.builder_eq, ← h.readings_eq, ← h.ending_eq]
      rfl

/-- There can be as many calls as that: each sign is complained about, and the end is one more. -/
example : (run "&&&&".toList 9).calls.map (fun call => (call.start, call.stop)) =
    [(0, 1), (1, 2), (2, 3), (3, 4), (4, 4)] := by decide +kernel

end Loop
end DocAudit.Markup
