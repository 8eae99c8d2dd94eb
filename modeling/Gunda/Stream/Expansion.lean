import Gunda.Stream.Timeline
import Mathlib.Data.List.Chain

/-!
# Timeline expansion

What the times of a timeline should be, entry by entry, and the timelines for which
`expand_timeline` lists them. The source rounds the number of an open-ended entry's
segments down, does not look at the entry that follows it, and does not check that an
explicit time lies behind the segments before it.
-/
namespace Gunda.Stream.Dash

open Gunda.Lib

/-- Where an open-ended entry stops: at the next one's own time, else with the period. -/
def stops (periodEnd : Option Nat) (entries : List TimelineEntry) : Option Nat :=
  (entries.head?.bind (·.time)).or periodEnd

/-- How many segments an entry has: those it names, or as many as reach its stop. -/
def Counts (periodEnd : Option Nat) (entry : TimelineEntry) (entries : List TimelineEntry)
    (start count : Nat) : Prop :=
  if 0 ≤ entry.repeat then count = entry.repeat.toNat + 1
  else ∃ stop, stops periodEnd entries = some stop ∧
    start + (count - 1) * entry.duration < stop ∧ stop ≤ start + count * entry.duration

/-- The start times and durations of the segments: each entry's run begins at its own time or
where the run before it ends. -/
def Runs (periodEnd : Option Nat) :
    Option Nat → List TimelineEntry → List (Nat × Nat) → Prop
  | _, [], segments => segments = []
  | current, entry :: entries, segments => ∃ start count later,
      entry.time.or current = some start ∧ Counts periodEnd entry entries start count ∧
        segments = (entryTimes start entry.duration count).map (·, entry.duration) ++ later ∧
        Runs periodEnd (some (start + count * entry.duration)) entries later

/-- No segment begins before the one ahead of it ends. -/
def Apart (segments : List (Nat × Nat)) : Prop :=
  segments.IsChain fun first second => first.1 + first.2 ≤ second.1

/-- The times are those of the entries' runs, strictly increasing and without an overlap. -/
def Expands (entries : List TimelineEntry) (periodEnd : Option Nat) (times : List Nat) : Prop :=
  times.Pairwise (· < ·) ∧ ∃ segments, times = segments.map Prod.fst ∧
    Runs periodEnd none entries segments ∧ Apart segments

/-- Every explicit time lies behind the run before it. An open-ended entry that is followed by
one is a whole number of segments long, of which the last lies in the period and the next
would not, or a single one; any other open-ended entry is a whole number of segments or less
than one away from the period's end. -/
def Tiled (periodEnd : Option Nat) : Option Nat → List TimelineEntry → Prop
  | _, [] => True
  | current, entry :: entries => ∃ start, entry.time.or current = some start ∧
      let next := entries.head?.bind (·.time)
      if 0 ≤ entry.repeat then
        let stop := start + (entry.repeat.toNat + 1) * entry.duration
        (∀ time, next = some time → stop ≤ time) ∧ Tiled periodEnd (some stop) entries
      else ∃ last, periodEnd = some last ∧ match next with
        | some time => start < time ∧ entry.duration ∣ time - start ∧
            last < time + entry.duration ∧ (time ≤ last ∨ time = start + entry.duration) ∧
            Tiled periodEnd (some time) entries
        | none => (entry.duration ∣ last - start ∨ last ≤ start + entry.duration) ∧
            Tiled periodEnd (some (max last (start + entry.duration))) entries

/-! ## What is accepted -/

/-- The entries that the source expands, as far as their counts go. -/
def Accepted (periodEnd : Option Nat) : Option Nat → List TimelineEntry → Prop
  | _, [] => True
  | current, entry :: entries => 0 < entry.duration ∧ ∃ start, entry.time.or current = some start ∧
      (entry.repeat < 0 → ∃ last, periodEnd = some last ∧ start < last) ∧
      Accepted periodEnd
        (some (start + listedCount periodEnd start entry * entry.duration)) entries

section

variable {periodEnd current : Option Nat} {times listed : List Nat} {entry : TimelineEntry}
  {entries : List TimelineEntry} {start count last : Nat} {segments : List (Nat × Nat)}

variable {time : Nat}

theorem accepted_of_ok (h : expandEntries periodEnd current times entries = .ok listed) :
    Accepted periodEnd current entries := by
  induction entries generalizing current times with
  | nil => trivial
  | cons entry entries ih =>
    unfold expandEntries at h
    obtain ⟨positive, h⟩ := guard_ok h
    obtain ⟨start, known, h⟩ := bind_ok h
    obtain ⟨count, counted, h⟩ := bind_ok h
    obtain ⟨⟨pushed, after⟩, ran, h⟩ := bind_ok h
    obtain ⟨_, same⟩ := pushTimes_ok ran
    obtain ⟨exact_, inside⟩ := timelineRepeat_ok counted
    refine ⟨by omega, start, required_ok known, inside, ?_⟩
    have rest := ih h
    rw [same, exact_] at rest
    exact rest

theorem listedCount_closed (closed : 0 ≤ entry.repeat) :
    listedCount periodEnd start entry = entry.repeat.toNat + 1 := by
  unfold listedCount
  rw [if_pos closed]

/-! ## One entry -/

theorem Counts.positive (counts : Counts periodEnd entry entries start count) : 0 < count := by
  unfold Counts at counts
  split at counts
  · omega
  · obtain ⟨stop, _, before, reached⟩ := counts
    cases count with
    | zero =>
      simp only [Nat.zero_mul, Nat.zero_sub] at before reached
      omega
    | succ count => exact Nat.succ_pos count

theorem stops_explicit (next : entries.head?.bind (·.time) = some time) :
    stops periodEnd entries = some time := by
  unfold stops
  rw [next]
  rfl

theorem stops_implicit (next : entries.head?.bind (·.time) = none)
    (known : periodEnd = some last) : stops periodEnd entries = some last := by
  unfold stops
  rw [next, known]
  rfl

theorem counts_closed (closed : 0 ≤ entry.repeat) :
    Counts periodEnd entry entries start (listedCount periodEnd start entry) := by
  unfold Counts
  rw [if_pos closed, listedCount_closed closed]

section

variable (isOpen : ¬ 0 ≤ entry.repeat)
include isOpen

theorem counts_open {stop : Nat} (known : stops periodEnd entries = some stop) :
    Counts periodEnd entry entries start count ↔
      start + (count - 1) * entry.duration < stop ∧ stop ≤ start + count * entry.duration := by
  unfold Counts
  rw [if_neg isOpen, known]
  constructor
  · intro ⟨other, same, bounds⟩
    cases same
    exact bounds
  · exact fun bounds => ⟨stop, rfl, bounds⟩

omit isOpen in
/-- Multiples of one duration are as far apart as their counts. -/
theorem count_le {first second duration : Nat}
    (below : first * duration < (second + 1) * duration) : first ≤ second :=
  Nat.le_of_lt_succ (Nat.lt_of_mul_lt_mul_right below)

section

variable (known : periodEnd = some last) (positive : 0 < entry.duration) (inside : start < last)
  (counted : listedCount periodEnd start entry = count)

include known positive inside counted

/-- The source's count reaches the end of the period or is one short of it. -/
theorem listedCount_open :
    0 < count ∧ last < start + (count + 1) * entry.duration ∧
      (count = 1 ∨ start + count * entry.duration ≤ last) := by
  unfold listedCount at counted
  rw [if_neg isOpen, known, Option.getD_some] at counted
  have whole := Nat.div_mul_le_self (last - start) entry.duration
  have below := Nat.lt_div_mul_add (a := last - start) positive
  generalize (last - start) / entry.duration = quotient at whole below counted
  rw [Nat.succ_mul]
  cases quotient with
  | zero =>
    subst counted
    omega
  | succ quotient =>
    have same : count = quotient + 1 := by omega
    rw [same]
    omega

/-- The source's count reaches the next entry's own time exactly. -/
theorem counts_explicit (next : entries.head?.bind (·.time) = some time) :
    Counts periodEnd entry entries start count ∧ start + count * entry.duration ≤ time ↔
      start < time ∧ entry.duration ∣ time - start ∧ last < time + entry.duration ∧
        (time ≤ last ∨ time = start + entry.duration) := by
  obtain ⟨some_, short, reaches⟩ := listedCount_open isOpen known positive inside counted
  rw [counts_open isOpen (stops_explicit next)]
  constructor
  · intro ⟨⟨before, reached⟩, ends⟩
    have exact_ : time = start + count * entry.duration := by omega
    rw [Nat.succ_mul] at short
    refine ⟨by omega, ⟨count, ?_⟩, by omega, ?_⟩
    · rw [exact_, Nat.add_sub_cancel_left, Nat.mul_comm]
    · rcases reaches with one | inside
      · rw [exact_, one, Nat.one_mul]
        exact Or.inr rfl
      · omega
  · intro ⟨later, ⟨whole, same⟩, near, ends⟩
    have exact_ : time = start + whole * entry.duration := by
      rw [Nat.mul_comm]
      omega
    have wholes : 0 < whole := by
      rcases Nat.eq_zero_or_pos whole with zero | pos
      · rw [zero, Nat.zero_mul] at exact_
        omega
      · exact pos
    have most : count ≤ whole := by
      rcases reaches with one | inside
      · omega
      · apply @count_le _ _ entry.duration
        rw [Nat.succ_mul]
        omega
    have least : whole ≤ count := by
      rcases ends with inside | one
      · apply @count_le _ _ entry.duration
        omega
      · have single : whole = 1 := by
          apply Nat.eq_of_mul_eq_mul_right positive
          omega
        omega
    have equal : whole = count := Nat.le_antisymm least most
    subst equal
    have fewer : whole - 1 < whole := by omega
    have before := Nat.mul_lt_mul_of_pos_right fewer positive
    omega

/-- The source's count reaches the end of the period. -/
theorem counts_implicit (next : entries.head?.bind (·.time) = none) :
    Counts periodEnd entry entries start count ↔
      entry.duration ∣ last - start ∨ last ≤ start + entry.duration := by
  obtain ⟨some_, short, reaches⟩ := listedCount_open isOpen known positive inside counted
  rw [counts_open isOpen (stops_implicit next known)]
  constructor
  · intro ⟨before, reached⟩
    rcases reaches with one | inside
    · rw [one, Nat.one_mul] at reached
      exact Or.inr reached
    · refine Or.inl ⟨count, ?_⟩
      rw [Nat.mul_comm]
      omega
  · intro ends
    have fewer : count - 1 < count := by omega
    have before := Nat.mul_lt_mul_of_pos_right fewer positive
    rcases reaches with one | within
    · rw [one, Nat.succ_mul, Nat.one_mul] at short
      rw [one, Nat.one_mul]
      refine ⟨by omega, ?_⟩
      rcases ends with ⟨whole, same⟩ | single
      · have most : whole ≤ 1 := by
          apply @count_le _ _ entry.duration
          rw [Nat.mul_comm, ← same]
          omega
        have product : entry.duration * whole ≤ entry.duration * 1 :=
          Nat.mul_le_mul_left entry.duration most
        omega
      · exact single
    · refine ⟨by omega, ?_⟩
      rcases ends with ⟨whole, same⟩ | single
      · have most : whole ≤ count := by
          apply @count_le _ _ entry.duration
          rw [Nat.mul_comm, ← same]
          omega
        have product : entry.duration * whole ≤ entry.duration * count :=
          Nat.mul_le_mul_left entry.duration most
        rw [Nat.mul_comm entry.duration count] at product
        omega
      · have product := Nat.mul_le_mul_right entry.duration some_
        rw [Nat.succ_mul] at product
        omega

/-- Where the entry after an open-ended one without a stop of its own begins. -/
theorem implicit_stop (reached : last ≤ start + count * entry.duration) :
    start + count * entry.duration = max last (start + entry.duration) := by
  obtain ⟨some_, short, reaches⟩ := listedCount_open isOpen known positive inside counted
  rcases reaches with one | within
  · rw [one, Nat.one_mul] at reached
    rw [one, Nat.one_mul]
    omega
  · have product := Nat.mul_le_mul_right entry.duration some_
    rw [Nat.succ_mul] at product
    omega

end

end

/-! ## Runs -/

theorem entryTimes_head (start duration : Nat) (positive : 0 < count) :
    (entryTimes start duration count).head? = some start := by
  cases count with
  | zero => exact absurd positive (Nat.lt_irrefl 0)
  | succ count =>
    rw [entryTimes_succ]
    rfl

theorem entryTimes_concat (start duration count : Nat) :
    entryTimes start duration (count + 1) =
      entryTimes start duration count ++ [start + count * duration] := by
  unfold entryTimes
  rw [List.range_succ, List.map_append, List.map_cons, List.map_nil]

theorem entryTimes_last (start duration : Nat) :
    (entryTimes start duration (count + 1)).getLast? = some (start + count * duration) := by
  rw [entryTimes_concat, List.getLast?_concat]

theorem entryTimes_length (start duration : Nat) :
    (entryTimes start duration count).length = count := by
  unfold entryTimes
  rw [List.length_map, List.length_range]

theorem entryTimes_apart (start duration : Nat) :
    Apart ((entryTimes start duration count).map (·, duration)) := by
  induction count generalizing start with
  | zero => exact List.IsChain.nil
  | succ count ih =>
    rw [entryTimes_succ, List.map_cons]
    refine List.isChain_cons.mpr ⟨?_, ih (start + duration)⟩
    intro next member
    cases count with
    | zero => cases member
    | succ count =>
      rw [entryTimes_succ, List.map_cons, List.head?_cons] at member
      cases member
      exact Nat.le_refl _

section

variable (known : entry.time.or current = some start)
include known

theorem listedTimes_begins :
    (listedTimes periodEnd current (entry :: entries)).head? = some start := by
  rw [listedTimes, known, Option.getD_some, List.head?_append, entryTimes_head _ _ listedCount_pos]
  rfl

theorem runs_begins (runs : Runs periodEnd current (entry :: entries) segments) :
    segments.head? = some (start, entry.duration) := by
  obtain ⟨begins, count, later, same, counts, shape, _⟩ := runs
  rw [known] at same
  cases same
  rw [shape, List.head?_append, List.head?_map, entryTimes_head _ _ counts.positive]
  rfl

omit known in
theorem accepted_positive (accepted : Accepted periodEnd current entries) :
    ∀ entry ∈ entries, 0 < entry.duration := by
  induction entries generalizing current with
  | nil => exact fun _ member => nomatch member
  | cons entry entries ih =>
    obtain ⟨positive, start, _, _, rest⟩ := accepted
    exact List.forall_mem_cons.mpr ⟨positive, ih rest⟩

omit known in
theorem runs_positive (positive : ∀ entry ∈ entries, 0 < entry.duration)
    (runs : Runs periodEnd current entries segments) : ∀ segment ∈ segments, 0 < segment.2 := by
  induction entries generalizing current segments with
  | nil =>
    rw [show segments = [] from runs]
    exact fun _ member => nomatch member
  | cons entry entries ih =>
    obtain ⟨own, others⟩ := List.forall_mem_cons.mp positive
    obtain ⟨start, count, later, _, _, shape, rest⟩ := runs
    intro segment member
    rw [shape, List.mem_append] at member
    rcases member with run | other
    · obtain ⟨time, _, same⟩ := List.mem_map.mp run
      rw [← same]
      exact own
    · exact ih others rest segment other

omit known in
/-- Segments that are apart begin one after the other. -/
theorem apart_ascending (positive : ∀ segment ∈ segments, 0 < segment.2)
    (apart : Apart segments) : (segments.map Prod.fst).Pairwise (· < ·) := by
  apply List.isChain_iff_pairwise.mp
  apply (List.isChain_map Prod.fst).mpr
  apply apart.imp_of_mem_imp
  intro first second member _ ends
  have long := positive first member
  omega

omit known in
/-- The run of an entry is apart from what follows it. -/
theorem apart_append {later : List (Nat × Nat)} {duration : Nat} (positive : 0 < count) :
    Apart ((entryTimes start duration count).map (·, duration) ++ later) ↔
      Apart later ∧ ∀ next ∈ later.head?, start + count * duration ≤ next.1 := by
  obtain ⟨fewer, same⟩ : ∃ fewer, count = fewer + 1 := ⟨count - 1, by omega⟩
  have last : ((entryTimes start duration count).map (·, duration)).getLast? =
      some (start + fewer * duration, duration) := by
    rw [List.getLast?_map, same, entryTimes_last]
    rfl
  unfold Apart
  rw [List.isChain_append, last]
  constructor
  · intro ⟨_, rest, ends⟩
    refine ⟨rest, fun next member => ?_⟩
    have ends := ends _ rfl next member
    rw [same, Nat.succ_mul]
    omega
  · intro ⟨rest, ends⟩
    refine ⟨entryTimes_apart start duration, rest, fun _ one next member => ?_⟩
    cases one
    have ends := ends next member
    rw [same, Nat.succ_mul] at ends
    omega

theorem tiled_closed (closed : 0 ≤ entry.repeat) :
    Tiled periodEnd current (entry :: entries) ↔
      (∀ time, entries.head?.bind (·.time) = some time →
        start + (entry.repeat.toNat + 1) * entry.duration ≤ time) ∧
      Tiled periodEnd (some (start + (entry.repeat.toNat + 1) * entry.duration)) entries := by
  rw [Tiled, known]
  simp only [Option.some.injEq, exists_eq_left', if_pos closed]

theorem tiled_explicit (isOpen : ¬ 0 ≤ entry.repeat)
    (ends : periodEnd = some last) (next : entries.head?.bind (·.time) = some time) :
    Tiled periodEnd current (entry :: entries) ↔
      (start < time ∧ entry.duration ∣ time - start ∧ last < time + entry.duration ∧
        (time ≤ last ∨ time = start + entry.duration)) ∧ Tiled periodEnd (some time) entries := by
  rw [Tiled, known]
  simp only [Option.some.injEq, exists_eq_left', if_neg isOpen, ends, next, and_assoc]

theorem tiled_implicit (isOpen : ¬ 0 ≤ entry.repeat) (ends : periodEnd = some last)
    (next : entries.head?.bind (·.time) = none) :
    Tiled periodEnd current (entry :: entries) ↔
      (entry.duration ∣ last - start ∨ last ≤ start + entry.duration) ∧
        Tiled periodEnd (some (max last (start + entry.duration))) entries := by
  rw [Tiled, known]
  simp only [Option.some.injEq, exists_eq_left', if_neg isOpen, ends, next]

end

/-- The condition on one entry, in terms of the source's count. -/
theorem tiled_cons (accepted : Accepted periodEnd current (entry :: entries))
    (known : entry.time.or current = some start)
    (counted : listedCount periodEnd start entry = count) :
    Tiled periodEnd current (entry :: entries) ↔
      Counts periodEnd entry entries start count ∧
        (∀ time, entries.head?.bind (·.time) = some time →
          start + count * entry.duration ≤ time) ∧
        Tiled periodEnd (some (start + count * entry.duration)) entries := by
  obtain ⟨positive, begins, same, inside, _⟩ := accepted
  rw [known] at same
  cases same
  by_cases closed : 0 ≤ entry.repeat
  · have counts : Counts periodEnd entry entries start _ := counts_closed closed
    rw [counted] at counts
    rw [listedCount_closed closed] at counted
    rw [tiled_closed known closed, counted]
    exact (and_iff_right counts).symm
  · obtain ⟨last, ends, inside⟩ := inside (by omega)
    cases next : entries.head?.bind (·.time) with
    | none =>
      have counts := counts_implicit closed ends positive inside counted next
      rw [tiled_implicit known closed ends next, ← counts]
      constructor
      · intro ⟨holds, rest⟩
        have reached := ((counts_open closed (stops_implicit next ends)).mp holds).2
        rw [← implicit_stop closed ends positive inside counted reached] at rest
        exact ⟨holds, fun _ impossible => (nomatch impossible), rest⟩
      · intro ⟨holds, _, rest⟩
        have reached := ((counts_open closed (stops_implicit next ends)).mp holds).2
        rw [← implicit_stop closed ends positive inside counted reached]
        exact ⟨holds, rest⟩
    | some time =>
      have counts := counts_explicit closed ends positive inside counted next
      have stop : stops periodEnd entries = some time := stops_explicit next
      rw [tiled_explicit known closed ends next, ← counts]
      constructor
      · intro ⟨⟨holds, before⟩, rest⟩
        have reached := ((counts_open closed stop).mp holds).2
        have same : start + count * entry.duration = time := Nat.le_antisymm before reached
        rw [same]
        exact ⟨holds, fun other equal => (Option.some.inj equal).le, rest⟩
      · intro ⟨holds, before, rest⟩
        have before := before time rfl
        have reached := ((counts_open closed stop).mp holds).2
        have same : start + count * entry.duration = time := Nat.le_antisymm before reached
        rw [same] at rest
        exact ⟨⟨holds, before⟩, rest⟩

/-- Under the condition, what the source lists are the entries' runs. -/
theorem runs_of_tiled (accepted : Accepted periodEnd current entries)
    (tiled : Tiled periodEnd current entries) :
    ∃ segments, listedTimes periodEnd current entries = segments.map Prod.fst ∧
      Runs periodEnd current entries segments ∧ Apart segments := by
  induction entries generalizing current with
  | nil => exact ⟨[], rfl, rfl, List.IsChain.nil⟩
  | cons entry entries ih =>
    obtain ⟨start, known, _⟩ := id tiled
    obtain ⟨counts, before, rest⟩ := (tiled_cons accepted known rfl).mp tiled
    obtain ⟨_, begins, same, _, others⟩ := accepted
    rw [known] at same
    cases same
    obtain ⟨later, listed, runs, apart⟩ := ih others rest
    refine ⟨_, ?_, ⟨start, _, later, known, counts, rfl, runs⟩, ?_⟩
    · rw [listedTimes, known, Option.getD_some, List.map_append, List.map_map]
      rw [listed, show (Prod.fst ∘ fun time : Nat => (time, entry.duration)) = id from rfl,
        List.map_id]
    · refine (apart_append counts.positive).mpr ⟨apart, fun next member => ?_⟩
      cases entries with
      | nil =>
        rw [show later = [] from runs] at member
        cases member
      | cons second entries =>
        obtain ⟨at_, stands⟩ : ∃ at_, second.time.or
            (some (start + listedCount periodEnd start entry * entry.duration)) = some at_ := by
          obtain ⟨at_, stands, _⟩ := id rest
          exact ⟨at_, stands⟩
        rw [runs_begins stands runs] at member
        cases member
        cases explicit : second.time with
        | none =>
          rw [explicit] at stands
          exact (Option.some.inj stands).le
        | some time =>
          rw [explicit] at stands
          cases stands
          exact before _ explicit

/-! ## Only one list of runs -/

/-- Where one value stands at two places of a strictly increasing list, they are the same. -/
theorem length_eq_of_ascending {first second rest others : List Nat}
    (ascending : (first ++ time :: rest).Pairwise (· < ·))
    (same : first ++ time :: rest = second ++ time :: others) : first.length = second.length := by
  have distinct : (first ++ time :: rest).Nodup := ascending.imp Nat.ne_of_lt
  apply (List.getElem?_inj _ distinct).mp
  · rw [List.getElem?_append_right (Nat.le_refl _), Nat.sub_self, same,
      List.getElem?_append_right (Nat.le_refl _), Nat.sub_self]
    rfl
  · simp

/-- The next entry's own time comes next, in what is listed and in the runs. -/
theorem explicit_next (next : entries.head?.bind (·.time) = some time)
    (runs : Runs periodEnd current entries segments) :
    (∀ sourceCurrent, ∃ rest, listedTimes periodEnd sourceCurrent entries = time :: rest) ∧
      ∃ rest, segments.map Prod.fst = time :: rest := by
  cases entries with
  | nil => cases next
  | cons entry entries =>
    have explicit : entry.time = some time := next
    refine ⟨fun _ => listedTimes_head explicit, ?_⟩
    have known : entry.time.or current = some time := by
      rw [explicit]
      rfl
    have first := runs_begins known runs
    cases segments with
    | nil => cases first
    | cons segment segments =>
      cases first
      exact ⟨_, rfl⟩

/-- The runs cannot lag behind what the source lists by one segment past the period's end. -/
theorem no_shift {gap previous : Nat} (accepted : Accepted (some last) (some start) entries)
    (late : last ≤ start + gap) (runs : Runs (some last) (some (start + gap)) entries segments)
    (ascending : (previous :: segments.map Prod.fst).Pairwise (· < ·))
    (same : previous :: segments.map Prod.fst = listedTimes (some last) (some start) entries) :
    False := by
  induction entries generalizing start previous segments with
  | nil => cases same
  | cons entry entries ih =>
    obtain ⟨positive, begins, known, inside, rest⟩ := accepted
    cases explicit : entry.time with
    | some time =>
      -- both lists begin with the explicit time
      have known : ∀ current, entry.time.or current = some time := by
        intro current
        rw [explicit]
        rfl
      have first : (listedTimes (some last) (some start) (entry :: entries)).head? = some time :=
        listedTimes_begins (known _)
      have second := runs_begins (known _) runs
      rw [← same] at first
      cases first
      cases segments with
      | nil => cases second
      | cons segment segments =>
        cases second
        have less := (List.pairwise_cons.mp ascending).1 _ List.mem_cons_self
        exact Nat.lt_irrefl _ less
    | none =>
      rw [explicit] at known
      cases known
      obtain ⟨lag, count, later, stands, counts, shape, others⟩ := runs
      rw [explicit] at stands
      cases stands
      have times : segments.map Prod.fst =
          entryTimes (start + gap) entry.duration count ++ later.map Prod.fst := by
        rw [shape, List.map_append, List.map_map]
        congr 1
        exact List.map_id _
      have lists : listedTimes (some last) (some start) (entry :: entries) =
          entryTimes start entry.duration (listedCount (some last) start entry) ++
            listedTimes (some last) (some (start +
              listedCount (some last) start entry * entry.duration)) entries := by
        rw [listedTimes, explicit]
        rfl
      rw [lists] at same
      rw [times] at same ascending
      by_cases closed : 0 ≤ entry.repeat
      · unfold Counts at counts
        rw [if_pos closed] at counts
        rw [listedCount_closed closed] at same rest
        rw [counts] at same ascending others
        rw [entryTimes_concat (start + gap), List.append_assoc, ← List.cons_append] at same ascending
        have tails := (List.append_inj same (by simp [entryTimes_length])).2
        apply ih rest _ _ _ tails
        · omega
        · rw [Nat.add_right_comm] at others
          exact others
        · exact (List.pairwise_append.mp ascending).2.1
      · -- the runs have no stop left but an explicit time, where both lists meet again
        obtain ⟨other, ends, before⟩ := inside (by omega)
        cases ends
        obtain ⟨some_, _, reaches⟩ := listedCount_open closed rfl positive before rfl
        obtain ⟨stop, stopped, below, _⟩ : ∃ stop, stops (some last) entries = some stop ∧
            start + gap + (count - 1) * entry.duration < stop ∧
            stop ≤ start + gap + count * entry.duration := by
          unfold Counts at counts
          rw [if_neg closed] at counts
          exact counts
        cases next : entries.head?.bind (·.time) with
        | none =>
          rw [stops_implicit next rfl] at stopped
          cases stopped
          omega
        | some time =>
          obtain ⟨listed, others, second⟩ := explicit_next next others
          obtain ⟨rest, head⟩ := listed (some (start +
            listedCount (some last) start entry * entry.duration))
          rw [head, second] at same
          rw [second] at ascending
          have lengths : count + 1 = listedCount (some last) start entry := by
            have equal : (previous :: entryTimes (start + gap) entry.duration count).length = _ :=
              length_eq_of_ascending ascending same
            rw [List.length_cons, entryTimes_length, entryTimes_length] at equal
            exact equal
          rw [← lengths] at same reaches
          obtain ⟨fewer, one⟩ : ∃ fewer, count = fewer + 1 :=
            ⟨count - 1, by have := counts.positive; omega⟩
          rw [one] at same reaches
          rw [entryTimes_succ, entryTimes_succ, entryTimes_succ] at same
          have step : start + gap = start + entry.duration :=
            (List.cons.inj (List.cons.inj same).2).1
          have long : 2 * entry.duration ≤ (fewer + 1 + 1) * entry.duration :=
            Nat.mul_le_mul_right _ (by omega)
          omega

/-- Runs with the times that the source lists have its counts. -/
theorem count_listed {later : List (Nat × Nat)}
    (accepted : Accepted periodEnd current (entry :: entries))
    (known : entry.time.or current = some start)
    (counts : Counts periodEnd entry entries start count)
    (runs : Runs periodEnd (some (start + count * entry.duration)) entries later)
    (ascending : (entryTimes start entry.duration count ++ later.map Prod.fst).Pairwise (· < ·))
    (same : entryTimes start entry.duration (listedCount periodEnd start entry) ++
        listedTimes periodEnd (some (start + listedCount periodEnd start entry * entry.duration))
          entries =
      entryTimes start entry.duration count ++ later.map Prod.fst) :
    listedCount periodEnd start entry = count := by
  obtain ⟨positive, begins, stands, inside, rest⟩ := accepted
  rw [known] at stands
  cases stands
  by_cases closed : 0 ≤ entry.repeat
  · unfold Counts at counts
    rw [if_pos closed] at counts
    rw [counts, listedCount_closed closed]
  · obtain ⟨last, ends, before⟩ := inside (by omega)
    cases next : entries.head?.bind (·.time) with
    | some time =>
      obtain ⟨listed, more, second⟩ := explicit_next next runs
      obtain ⟨others, head⟩ := listed (some (start +
        listedCount periodEnd start entry * entry.duration))
      rw [head, second] at same
      rw [second] at ascending
      have lengths := length_eq_of_ascending ascending same.symm
      rw [entryTimes_length, entryTimes_length] at lengths
      exact lengths.symm
    | none =>
      obtain ⟨_, short, reaches⟩ := listedCount_open closed ends positive before rfl
      obtain ⟨below, reached⟩ := (counts_open closed (stops_implicit next ends)).mp counts
      generalize listedCount periodEnd start entry = listed at same rest short reaches
      have most : listed ≤ count := by
        rcases reaches with one | within
        · exact one ▸ counts.positive
        · apply @count_le _ _ entry.duration
          rw [Nat.succ_mul]
          omega
      have least : count - 1 ≤ listed := by
        apply @count_le _ _ entry.duration
        omega
      rcases Nat.eq_or_lt_of_le most with equal | fewer
      · exact equal
      · have more : count = listed + 1 := by omega
        rw [more, Nat.succ_mul, ← Nat.add_assoc] at runs
        rw [more, entryTimes_concat, List.append_assoc] at same ascending
        have tail := List.append_cancel_left same
        rw [ends] at rest runs tail
        rw [Nat.succ_mul] at short
        exact (no_shift rest (by omega) runs (List.pairwise_append.mp ascending).2.1 tail.symm).elim

/-- What the source lists are the entries' runs only under the condition. -/
theorem tiled_of_runs (accepted : Accepted periodEnd current entries)
    (runs : Runs periodEnd current entries segments) (apart : Apart segments)
    (same : listedTimes periodEnd current entries = segments.map Prod.fst) :
    Tiled periodEnd current entries := by
  have ascending := apart_ascending (runs_positive (accepted_positive accepted) runs) apart
  induction entries generalizing current segments with
  | nil => trivial
  | cons entry entries ih =>
    obtain ⟨start, count, later, known, counts, shape, rest⟩ := runs
    have times : segments.map Prod.fst =
        entryTimes start entry.duration count ++ later.map Prod.fst := by
      rw [shape, List.map_append, List.map_map]
      congr 1
      exact List.map_id _
    rw [listedTimes, known, Option.getD_some, times] at same
    rw [times] at ascending
    have equal := count_listed accepted known counts rest ascending same
    have others := accepted
    obtain ⟨_, begins, stands, _, others⟩ := others
    rw [known] at stands
    cases stands
    rw [equal] at same others
    rw [shape] at apart
    obtain ⟨apart, ends⟩ := (apart_append counts.positive).mp apart
    refine (tiled_cons accepted known equal).mpr ⟨counts, ?_, ?_⟩
    · intro time next
      obtain ⟨_, more, second⟩ := explicit_next next rest
      cases later with
      | nil => cases second
      | cons segment later =>
        have bound := ends segment rfl
        rw [(List.cons.inj second).1] at bound
        exact bound
    · exact ih others rest apart (List.append_cancel_left same)
        (List.pairwise_append.mp ascending).2.1

end

/-- The times that `expand_timeline` returns are those of the entries' runs exactly for tiled
timelines. -/
theorem expandTimeline_expands_iff {entries : List TimelineEntry} {periodEnd : Option Nat}
    {times : List Nat} (expanded : expandTimeline entries periodEnd = .ok times) :
    Expands entries periodEnd times ↔ Tiled periodEnd none entries := by
  have accepted := accepted_of_ok expanded
  have listed : times = listedTimes periodEnd none entries := expandEntries_ok expanded
  constructor
  · intro ⟨_, segments, same, runs, apart⟩
    exact tiled_of_runs accepted runs apart (listed.symm.trans same)
  · intro tiled
    obtain ⟨segments, same, runs, apart⟩ := runs_of_tiled accepted tiled
    have ascending := apart_ascending (runs_positive (accepted_positive accepted) runs) apart
    rw [listed, same]
    exact ⟨ascending, segments, rfl, runs, apart⟩

theorem open_entry_expands :
    expandTimeline [⟨some 0, 10, 1⟩, ⟨none, 5, -1⟩] (some 30) = .ok [0, 10, 20, 25] ∧
      Expands [⟨some 0, 10, 1⟩, ⟨none, 5, -1⟩] (some 30) [0, 10, 20, 25] := by
  refine ⟨by decide, (expandTimeline_expands_iff (by decide)).mpr ?_⟩
  have whole : (5 : Nat) ∣ 30 - 20 := ⟨2, rfl⟩
  apply (tiled_closed rfl (by decide)).mpr
  refine ⟨fun _ impossible => (nomatch impossible), ?_⟩
  exact (tiled_implicit rfl (by decide) rfl rfl).mpr ⟨Or.inl whole, trivial⟩

/-- Five of the period's 25 ticks have no segment. -/
theorem tail_is_left_out :
    expandTimeline [⟨some 0, 10, -1⟩] (some 25) = .ok [0, 10] ∧
      ¬ Expands [⟨some 0, 10, -1⟩] (some 25) [0, 10] := by
  refine ⟨by decide, ?_⟩
  intro ⟨_, segments, same, runs, _⟩
  obtain ⟨start, count, later, known, ⟨stop, stopped, _, reached⟩, shape, rest⟩ := runs
  cases known
  cases stopped
  rw [shape, show later = [] from rest, List.append_nil, List.map_map] at same
  have lengths := congrArg List.length same
  rw [List.length_map, entryTimes_length] at lengths
  rw [← lengths] at reached
  exact absurd reached (by decide)

end Gunda.Stream.Dash
