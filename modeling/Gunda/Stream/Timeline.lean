import Gunda.Stream.Plan
import Mathlib.Data.List.Pairwise
import Mathlib.Tactic.Ring

/-!
# The segments of a timeline

`expand_timeline` against the segments ISO/IEC 23009-1 gives a timeline: an open-ended
entry repeats until the next one or the end of the period, and the segments of interest
are those that overlap the period, which begins at the presentation time offset.
-/
namespace Gunda.Stream.Dash

open Gunda.Lib

variable {time : Nat}

/-- The start times of an entry's segments. -/
def entryTimes (start duration count : Nat) : List Nat :=
  (List.range count).map (start + · * duration)

theorem entryTimes_succ (start duration count : Nat) :
    entryTimes start duration (count + 1) =
      start :: entryTimes (start + duration) duration count := by
  unfold entryTimes
  rw [List.range_succ_eq_map, List.map_cons, List.map_map, Nat.zero_mul, Nat.add_zero]
  congr 1
  apply List.map_congr_left
  intro index _
  simp only [Function.comp_apply, Nat.succ_mul]
  omega

theorem mem_entryTimes {start duration count : Nat} :
    time ∈ entryTimes start duration count ↔ ∃ index < count, time = start + index * duration := by
  unfold entryTimes
  simp only [List.mem_map, List.mem_range]
  constructor
  · rintro ⟨index, inside, same⟩
    exact ⟨index, inside, same.symm⟩
  · rintro ⟨index, inside, same⟩
    exact ⟨index, inside, same.symm⟩

/-! ## What the source lists -/

theorem pushTimes_ok {count duration after : Nat} {times listed : List Nat}
    (h : pushTimes count duration time times = .ok (listed, after)) :
    listed = times ++ entryTimes time duration count ∧ after = time + count * duration := by
  induction count generalizing time times with
  | zero =>
    cases h
    exact ⟨(List.append_nil _).symm, by omega⟩
  | succ count ih =>
    unfold pushTimes at h
    obtain ⟨_, h⟩ := throw_unless_ok h
    obtain ⟨_, h⟩ := throw_unless_ok h
    obtain ⟨rest, last⟩ := ih h
    rw [entryTimes_succ]
    constructor
    · rw [rest, List.append_assoc]
      rfl
    · rw [last, Nat.succ_mul]
      omega

/-- How often the source lists an entry. -/
def listedCount (periodEnd : Option Nat) (start : Nat) (entry : TimelineEntry) : Nat :=
  if 0 ≤ entry.repeat then entry.repeat.toNat + 1
  else (periodEnd.getD 0 - start) / entry.duration - 1 + 1

def listedTimes (periodEnd : Option Nat) : Option Nat → List TimelineEntry → List Nat
  | _, [] => []
  | current, entry :: entries =>
      let start := (entry.time.or current).getD 0
      let count := listedCount periodEnd start entry
      entryTimes start entry.duration count ++
        listedTimes periodEnd (some (start + count * entry.duration)) entries

theorem timelineRepeat_ok {entry : TimelineEntry} {count : Nat} {periodEnd : Option Nat}
    (h : timelineRepeat entry time periodEnd = .ok count) :
    count + 1 = listedCount periodEnd time entry ∧
      (entry.repeat < 0 → ∃ last, periodEnd = some last ∧ time < last) := by
  unfold timelineRepeat at h
  unfold listedCount
  by_cases closed : 0 ≤ entry.repeat
  · rw [if_pos closed] at h
    rw [if_pos closed]
    cases h
    exact ⟨rfl, fun negative => absurd closed (by omega)⟩
  · rw [if_neg closed] at h
    rw [if_neg closed]
    obtain ⟨_, h⟩ | ⟨_, h⟩ := ite_ok h
    · obtain ⟨last, known, h⟩ := bind_ok h
      obtain ⟨inside, h⟩ := guard_ok h
      cases h
      rw [required_ok known]
      exact ⟨rfl, fun _ => ⟨last, rfl, by omega⟩⟩
    · cases h

theorem expandEntries_ok {periodEnd current : Option Nat} {times listed : List Nat}
    {entries : List TimelineEntry}
    (h : expandEntries periodEnd current times entries = .ok listed) :
    listed = times ++ listedTimes periodEnd current entries := by
  induction entries generalizing current times with
  | nil =>
    cases h
    exact (List.append_nil _).symm
  | cons entry entries ih =>
    unfold expandEntries at h
    obtain ⟨_, h⟩ := guard_ok h
    obtain ⟨start, known, h⟩ := bind_ok h
    obtain ⟨count, counted, h⟩ := bind_ok h
    obtain ⟨⟨pushed, after⟩, ran, h⟩ := bind_ok h
    obtain ⟨rfl, rfl⟩ := pushTimes_ok ran
    rw [listedTimes, required_ok known, ih h, List.append_assoc, (timelineRepeat_ok counted).1]
    rfl

/-! ## What the standard means -/

/-- Whether a segment has something of the period. The period's end is in thousandths of
a tick. -/
def overlaps (offset : Nat) (periodEnd : Option Nat) (duration start : Nat) : Bool :=
  offset < start + duration && periodEnd.all (start * 1000 < ·)

/-- Where an open-ended entry stops, in thousandths of a tick. -/
def openEnd (periodEnd next : Option Nat) : Option Nat :=
  match next, periodEnd with
  | some next, some last => some (min (next * 1000) last)
  | some next, none => some (next * 1000)
  | none, last => last

def standardCount (periodEnd next : Option Nat) (start : Nat) (entry : TimelineEntry) :
    Option Nat :=
  if 0 ≤ entry.repeat then some (entry.repeat.toNat + 1)
  else (openEnd periodEnd next).map fun last =>
    (last - start * 1000 + (entry.duration * 1000 - 1)) / (entry.duration * 1000)

/-- Where the entry that follows begins, unless it says so itself. -/
def following (entry : TimelineEntry) (start count : Nat) : Option Nat :=
  if 0 ≤ entry.repeat then some (start + count * entry.duration) else none

/-- The numbers and start times of the segments that overlap the period. -/
def standardSegments (offset : Nat) (periodEnd : Option Nat) :
    Nat → Option Nat → List TimelineEntry → Option (List (Nat × Nat))
  | _, _, [] => some []
  | number, current, entry :: entries => do
      let start ← entry.time.or current
      let count ← standardCount periodEnd (entries.head?.bind (·.time)) start entry
      let own := (List.range count).map fun index => (number + index, start + index * entry.duration)
      let later ← standardSegments offset periodEnd (number + count) (following entry start count)
        entries
      some (own.filter (fun segment => overlaps offset periodEnd entry.duration segment.2) ++ later)

/-- The entries follow each other, and what follows an open-ended one says where it begins. -/
def Conforming : Nat → Option Nat → List TimelineEntry → Prop
  | _, _, [] => True
  | least, current, entry :: entries =>
      ∃ start, entry.time.or current = some start ∧ least ≤ start ∧ 0 < entry.duration ∧
        if 0 ≤ entry.repeat then
          Conforming (start + (entry.repeat.toNat + 1) * entry.duration)
            (following entry start (entry.repeat.toNat + 1)) entries
        else Conforming (start + 1) none entries

/-- Each entry is listed as often as the standard repeats it, and its first and last
segments overlap the period. -/
def ListsPeriod (offset : Nat) (periodEnd sourceEnd : Option Nat) :
    Option Nat → List TimelineEntry → Prop
  | _, [] => True
  | current, entry :: entries =>
      ∃ start, entry.time.or current = some start ∧
        standardCount periodEnd (entries.head?.bind (·.time)) start entry =
          some (listedCount sourceEnd start entry) ∧
        overlaps offset periodEnd entry.duration start = true ∧
        overlaps offset periodEnd entry.duration
          (start + (listedCount sourceEnd start entry - 1) * entry.duration) = true ∧
        ListsPeriod offset periodEnd sourceEnd
          (following entry start (listedCount sourceEnd start entry)) entries

section

variable {offset least start number count : Nat} {periodEnd sourceEnd current next : Option Nat}
  {entry : TimelineEntry} {entries : List TimelineEntry}

variable {duration : Nat} {segments : List (Nat × Nat)} {sourceCurrent : Option Nat}

theorem listedCount_pos : 0 < listedCount sourceEnd start entry := by
  unfold listedCount
  split <;> omega

/-- The segments of an open-ended entry begin before the next one and in the period. -/
theorem standardCount_open (isOpen : ¬ 0 ≤ entry.repeat) (positive : 0 < entry.duration)
    (h : standardCount periodEnd next start entry = some count) {index : Nat}
    (inside : index < count) :
    (∀ last, periodEnd = some last → (start + index * entry.duration) * 1000 < last) ∧
      ∀ other, next = some other → start + index * entry.duration < other := by
  unfold standardCount at h
  rw [if_neg isOpen] at h
  obtain ⟨stop, known, counted⟩ := Option.map_eq_some_iff.mp h
  have before : (start + index * entry.duration) * 1000 < stop := by
    have fits : index + 1 ≤
        (stop - start * 1000 + (entry.duration * 1000 - 1)) / (entry.duration * 1000) := by
      rw [counted]
      exact inside
    have scaled : 0 < entry.duration * 1000 := by omega
    have whole := (Nat.le_div_iff_mul_le scaled).mp fits
    have next_ : (index + 1) * (entry.duration * 1000) =
        index * (entry.duration * 1000) + entry.duration * 1000 := by ring
    have ticks : (start + index * entry.duration) * 1000 =
        start * 1000 + index * (entry.duration * 1000) := by ring
    omega
  unfold openEnd at known
  constructor
  · intro last ends
    subst ends
    cases next with
    | none =>
      cases known
      exact before
    | some other =>
      cases known
      omega
  · intro other begins
    subst begins
    cases periodEnd with
    | none =>
      cases known
      omega
    | some last =>
      cases known
      omega

theorem overlaps_eq_true : overlaps offset periodEnd duration start = true ↔
    offset < start + duration ∧ ∀ last, periodEnd = some last → start * 1000 < last := by
  unfold overlaps
  rw [Bool.and_eq_true, decide_eq_true_eq]
  cases periodEnd with
  | none => simp
  | some last => simp

/-- Once a segment overlaps the period, those after it do up to some point. -/
theorem filter_overlaps (first : offset < start + duration) :
    ∃ kept ≤ count, (entryTimes start duration count).filter
      (overlaps offset periodEnd duration) = entryTimes start duration kept := by
  induction count generalizing start with
  | zero => exact ⟨0, le_rfl, rfl⟩
  | succ count ih =>
    by_cases inside : overlaps offset periodEnd duration start = true
    · have second : offset < start + duration + duration := by omega
      obtain ⟨kept, fewer, same⟩ := ih second
      refine ⟨kept + 1, by omega, ?_⟩
      rw [entryTimes_succ, entryTimes_succ, List.filter_cons_of_pos inside, same]
    · refine ⟨0, by omega, ?_⟩
      rw [List.filter_eq_nil_iff.mpr]
      · rfl
      · intro time member covered
        obtain ⟨index, _, rfl⟩ := mem_entryTimes.mp member
        apply inside
        rw [overlaps_eq_true] at covered ⊢
        refine ⟨first, fun last known => ?_⟩
        have earlier : start * 1000 ≤ (start + index * duration) * 1000 :=
          Nat.mul_le_mul_right 1000 (Nat.le_add_right _ _)
        exact lt_of_le_of_lt earlier (covered.2 last known)

/-- The times a standard timeline gives an entry. -/
theorem own_times :
    (((List.range count).map fun index => (number + index, start + index * duration)).filter
      fun segment => overlaps offset periodEnd duration segment.2).map Prod.snd =
    (entryTimes start duration count).filter (overlaps offset periodEnd duration) := by
  unfold entryTimes
  rw [List.filter_map, List.filter_map, List.map_map]
  rfl

theorem standardSegments_cons
    (h : standardSegments offset periodEnd number current (entry :: entries) = some segments)
    (known : entry.time.or current = some start) :
    ∃ count later,
      standardCount periodEnd (entries.head?.bind (·.time)) start entry = some count ∧
      standardSegments offset periodEnd (number + count) (following entry start count) entries =
        some later ∧
      segments.map Prod.snd =
        (entryTimes start entry.duration count).filter (overlaps offset periodEnd entry.duration) ++
          later.map Prod.snd := by
  unfold standardSegments at h
  obtain ⟨other, found, h⟩ := Option.bind_eq_some_iff.mp h
  rw [known] at found
  cases found
  obtain ⟨count, counted, h⟩ := Option.bind_eq_some_iff.mp h
  obtain ⟨later, rest, h⟩ := Option.bind_eq_some_iff.mp h
  cases h
  refine ⟨count, later, counted, rest, ?_⟩
  rw [List.map_append, own_times]

theorem entryTimes_add (start duration first second : Nat) :
    entryTimes start duration (first + second) =
      entryTimes start duration first ++ entryTimes (start + first * duration) duration second := by
  unfold entryTimes
  rw [List.range_add, List.map_append, List.map_map]
  congr 1
  apply List.map_congr_left
  intro index _
  simp only [Function.comp_apply]
  ring

/-- The source goes on where the standard does, where the standard says so. -/
theorem or_follows (known : entry.time.or current = some start)
    (follows : ∀ time, current = some time → sourceCurrent = some time) :
    entry.time.or sourceCurrent = some start := by
  cases explicit : entry.time with
  | some time =>
    rw [explicit] at known
    exact known
  | none =>
    rw [explicit] at known
    exact follows start known

theorem following_follows {time : Nat} (known : following entry start count = some time) :
    some (start + count * entry.duration) = some time := by
  unfold following at known
  split at known
  · exact known
  · cases known

theorem all_overlap {index : Nat} (inside : index < count)
    (first : overlaps offset periodEnd duration start = true)
    (last : overlaps offset periodEnd duration (start + (count - 1) * duration) = true) :
    overlaps offset periodEnd duration (start + index * duration) = true := by
  rw [overlaps_eq_true] at first last ⊢
  have before : index * duration ≤ (count - 1) * duration :=
    Nat.mul_le_mul_right duration (by omega)
  refine ⟨by omega, fun stop known => ?_⟩
  have earlier : (start + index * duration) * 1000 ≤ (start + (count - 1) * duration) * 1000 :=
    Nat.mul_le_mul_right 1000 (by omega)
  exact lt_of_le_of_lt earlier (last.2 stop known)

theorem standard_of_listsPeriod (lists : ListsPeriod offset periodEnd sourceEnd current entries)
    (follows : ∀ time, current = some time → sourceCurrent = some time) :
    ∃ segments, standardSegments offset periodEnd number current entries = some segments ∧
      segments.map Prod.snd = listedTimes sourceEnd sourceCurrent entries := by
  induction entries generalizing number current sourceCurrent with
  | nil => exact ⟨[], rfl, rfl⟩
  | cons entry entries ih =>
    obtain ⟨start, known, counted, first, last, rest⟩ := lists
    obtain ⟨later, planned, same⟩ : ∃ segments, standardSegments offset periodEnd
        (number + listedCount sourceEnd start entry)
        (following entry start (listedCount sourceEnd start entry)) entries = some segments ∧
        segments.map Prod.snd = listedTimes sourceEnd
          (some (start + listedCount sourceEnd start entry * entry.duration)) entries :=
      ih rest fun time => following_follows
    unfold standardSegments listedTimes
    rw [known, or_follows known follows]
    simp only [Option.bind_eq_bind, Option.bind_some, counted, planned]
    refine ⟨_, rfl, ?_⟩
    rw [List.map_append, own_times, same, List.filter_eq_self.mpr]
    · rfl
    · intro time member
      obtain ⟨index, inside, rfl⟩ := mem_entryTimes.mp member
      exact all_overlap inside first last

theorem entryTimes_ascending (positive : 0 < duration) :
    (entryTimes start duration count).Pairwise (· < ·) := by
  unfold entryTimes
  rw [List.pairwise_map]
  apply List.Pairwise.imp _ List.pairwise_lt_range
  intro first second earlier
  have := Nat.mul_lt_mul_of_pos_right earlier positive
  omega

/-- An open-ended entry is the last one, or the next one says where it begins. -/
theorem conforming_after_open {next : TimelineEntry}
    (conforming : Conforming least none (next :: entries)) :
    ∃ begins, next.time = some begins ∧ least ≤ begins := by
  obtain ⟨begins, known, late, -⟩ := conforming
  rw [Option.or_none] at known
  exact ⟨begins, known, late⟩

theorem standardCount_closed {next : Option Nat} (closed : 0 ≤ entry.repeat) :
    standardCount periodEnd next start entry = some (entry.repeat.toNat + 1) := if_pos closed

/-- What follows an entry conforms, after its start or after all of its segments. -/
theorem conforming_following {next : Option Nat} (positive : 0 < entry.duration)
    (rest : if 0 ≤ entry.repeat then
        Conforming (start + (entry.repeat.toNat + 1) * entry.duration)
          (following entry start (entry.repeat.toNat + 1)) entries
      else Conforming (start + 1) none entries)
    (counted : standardCount periodEnd next start entry = some count) :
    ∃ after, start < after ∧ Conforming after (following entry start count) entries ∧
      (0 ≤ entry.repeat → after = start + count * entry.duration) := by
  by_cases closed : 0 ≤ entry.repeat
  · rw [if_pos closed] at rest
    cases counted.symm.trans (standardCount_closed closed)
    have long := Nat.mul_pos (Nat.succ_pos entry.repeat.toNat) positive
    exact ⟨_, Nat.lt_add_of_pos_right long, rest, fun _ => rfl⟩
  · rw [if_neg closed] at rest
    have open_ : following entry start count = none := if_neg closed
    rw [open_]
    exact ⟨_, Nat.lt_succ_self start, rest, fun other => absurd other closed⟩

theorem standardSegments_ascending (conforming : Conforming least current entries)
    (h : standardSegments offset periodEnd number current entries = some segments) :
    (segments.map Prod.snd).Pairwise (· < ·) ∧ (∀ time ∈ segments.map Prod.snd, least ≤ time) ∧
      ∀ begins, entries.head?.bind (·.time) = some begins →
        ∀ time ∈ segments.map Prod.snd, begins ≤ time := by
  induction entries generalizing least number current segments with
  | nil =>
    cases h
    exact ⟨List.Pairwise.nil, by simp, by simp⟩
  | cons entry entries ih =>
    obtain ⟨start, known, late, positive, rest⟩ := conforming
    obtain ⟨count, later, counted, planned, times⟩ := standardSegments_cons h known
    obtain ⟨after, more, conforms, closes⟩ := conforming_following positive rest counted
    obtain ⟨ascending, bound, head⟩ := ih conforms planned
    have ordered : ∀ index < count, ∀ time ∈ later.map Prod.snd,
        start + index * entry.duration < time := by
      intro index inside time member
      by_cases closed : 0 ≤ entry.repeat
      · have before := Nat.mul_lt_mul_of_pos_right inside positive
        have behind := bound time member
        rw [closes closed] at behind
        omega
      · have open_ : following entry start count = none := if_neg closed
        rw [open_] at conforms planned
        cases entries with
        | nil =>
          cases planned
          cases member
        | cons next entries =>
          obtain ⟨begins, explicit, -⟩ := conforming_after_open conforms
          have before := (standardCount_open closed positive counted inside).2 begins explicit
          have behind := head begins explicit time member
          omega
    have within : ∀ time ∈ segments.map Prod.snd, start ≤ time := by
      intro time member
      rw [times, List.mem_append] at member
      obtain own | other := member
      · obtain ⟨index, _, rfl⟩ := mem_entryTimes.mp (List.mem_of_mem_filter own)
        exact Nat.le_add_right _ _
      · exact Nat.le_of_lt (Nat.lt_of_lt_of_le more (bound time other))
    refine ⟨?_, fun time member => late.trans (within time member), ?_⟩
    · rw [times, List.pairwise_append]
      refine ⟨(entryTimes_ascending positive).filter _, ascending, ?_⟩
      intro time own other member
      obtain ⟨index, inside, rfl⟩ := mem_entryTimes.mp (List.mem_of_mem_filter own)
      exact ordered index inside other member
    · intro begins explicit time member
      change entry.time = some begins at explicit
      rw [explicit] at known
      cases known
      exact within time member

theorem listedTimes_head {next : TimelineEntry} {begins : Nat}
    (explicit : next.time = some begins) :
    ∃ rest, listedTimes sourceEnd sourceCurrent (next :: entries) = begins :: rest := by
  unfold listedTimes
  rw [explicit, Option.some_or]
  dsimp only
  rw [Option.getD_some]
  have listed := @listedCount_pos begins sourceEnd next
  obtain ⟨more, counted⟩ : ∃ more, listedCount sourceEnd begins next = more + 1 :=
    ⟨listedCount sourceEnd begins next - 1, by omega⟩
  rw [counted, entryTimes_succ]
  exact ⟨_, rfl⟩

/-- Two lists that begin with segments of one entry, and go on differently. -/
theorem entryTimes_cancel {first second : Nat} {left right : List Nat}
    (same : entryTimes start duration first ++ left = entryTimes start duration second ++ right)
    (fewer : first < second) :
    ∃ rest, left = (start + first * duration) :: (rest ++ right) := by
  obtain ⟨more, rfl⟩ : ∃ more, second = first + (more + 1) := ⟨second - first - 1, by omega⟩
  rw [entryTimes_add, List.append_assoc] at same
  have rest := List.append_cancel_left same
  rw [entryTimes_succ] at rest
  exact ⟨_, rest⟩

theorem listsPeriod_of_standard (conforming : Conforming least current entries)
    (follows : ∀ time, current = some time → sourceCurrent = some time)
    (h : standardSegments offset periodEnd number current entries = some segments)
    (same : segments.map Prod.snd = listedTimes sourceEnd sourceCurrent entries) :
    ListsPeriod offset periodEnd sourceEnd current entries := by
  induction entries generalizing least number current sourceCurrent segments with
  | nil => trivial
  | cons entry entries ih =>
    have ascending := (standardSegments_ascending conforming h).1
    obtain ⟨start, known, late, positive, rest⟩ := conforming
    obtain ⟨count, later, counted, planned, times⟩ := standardSegments_cons h known
    obtain ⟨after, more, conforms, closes⟩ := conforming_following positive rest counted
    obtain ⟨-, bound, foremost⟩ := standardSegments_ascending conforms planned
    rw [times] at same ascending
    unfold listedTimes at same
    rw [or_follows known follows] at same
    simp only [Option.getD_some] at same
    have listed := @listedCount_pos start sourceEnd entry
    generalize goal : listedCount sourceEnd start entry = wanted at same listed
    have told (closed : 0 ≤ entry.repeat) : count = wanted := by
      cases counted.symm.trans (standardCount_closed closed)
      rw [← goal]
      exact (if_pos closed).symm
    -- The source lists the start itself, so the first segment overlaps the period.
    have begins : start ∈ (entryTimes start entry.duration count).filter
        (overlaps offset periodEnd entry.duration) := by
      have first : start ∈ entryTimes start entry.duration wanted ++ listedTimes sourceEnd
          (some (start + wanted * entry.duration)) entries :=
        List.mem_append_left _ (mem_entryTimes.mpr ⟨0, listed, by omega⟩)
      rw [← same, List.mem_append] at first
      exact first.resolve_right fun member => Nat.not_le_of_lt more (bound start member)
    have first := (List.mem_filter.mp begins).2
    have some_ : 0 < count := by
      obtain ⟨index, inside, -⟩ := mem_entryTimes.mp (List.mem_of_mem_filter begins)
      omega
    obtain ⟨kept, fewer, filtered⟩ : ∃ kept ≤ count, (entryTimes start entry.duration count).filter
        (overlaps offset periodEnd entry.duration) = entryTimes start entry.duration kept :=
      filter_overlaps (overlaps_eq_true.mp first).1
    rw [filtered] at same ascending
    have all_ (isOpen : ¬ 0 ≤ entry.repeat) : kept = count := by
      have whole : (entryTimes start entry.duration count).filter
          (overlaps offset periodEnd entry.duration) = entryTimes start entry.duration count := by
        apply List.filter_eq_self.mpr
        intro time member
        obtain ⟨index, inside, rfl⟩ := mem_entryTimes.mp member
        rw [overlaps_eq_true]
        refine ⟨?_, (standardCount_open isOpen positive counted inside).1⟩
        have := (overlaps_eq_true.mp first).1
        omega
      rw [filtered] at whole
      have lengths := congrArg List.length whole
      simpa [entryTimes] using lengths
    have exact_ : kept = wanted := by
      apply Nat.le_antisymm
      · by_contra more
        obtain ⟨others, shape⟩ := entryTimes_cancel same.symm (Nat.lt_of_not_le more)
        by_cases closed : 0 ≤ entry.repeat
        · have := told closed
          omega
        · rw [if_neg closed] at rest
          cases entries with
          | nil => cases shape
          | cons next entries =>
            obtain ⟨at_, explicit, -⟩ := conforming_after_open rest
            obtain ⟨behind, head⟩ : ∃ behind, listedTimes sourceEnd
                (some (start + wanted * entry.duration)) (next :: entries) = at_ :: behind :=
              listedTimes_head explicit
            rw [head] at shape
            have equal := (List.cons.inj shape).1
            have before := (standardCount_open closed positive counted
              (show wanted < count by omega)).2 at_ explicit
            omega
      · by_contra more
        obtain ⟨others, shape⟩ := entryTimes_cancel same (Nat.lt_of_not_le more)
        have member : start + kept * entry.duration ∈ later.map Prod.snd := by
          rw [shape]
          exact List.mem_cons_self
        by_cases closed : 0 ≤ entry.repeat
        · have behind := bound _ member
          have below : kept * entry.duration < count * entry.duration :=
            Nat.mul_lt_mul_of_pos_right (by rw [told closed]; omega) positive
          rw [closes closed] at behind
          omega
        · have open_ : following entry start count = none := if_neg closed
          rw [open_] at conforms planned
          cases entries with
          | nil =>
            cases planned
            cases member
          | cons next entries =>
            obtain ⟨at_, explicit, -⟩ := conforming_after_open conforms
            have bound := foremost at_ explicit _ member
            obtain ⟨behind, head⟩ : ∃ behind, listedTimes sourceEnd
                (some (start + wanted * entry.duration)) (next :: entries) = at_ :: behind :=
              listedTimes_head explicit
            have ordered := (List.pairwise_append.mp ascending).2.1
            rw [shape, head] at ordered
            have after := (List.pairwise_cons.mp ordered).1 at_
              (List.mem_append_right _ List.mem_cons_self)
            omega
    subst exact_
    have counted_ : count = kept := by
      by_cases closed : 0 ≤ entry.repeat
      · exact told closed
      · exact (all_ closed).symm
    subst counted_
    refine ⟨start, known, ?_, first, ?_, ?_⟩
    · rw [goal]
      exact counted
    · rw [goal]
      have last : start + (count - 1) * entry.duration ∈ entryTimes start entry.duration count :=
        mem_entryTimes.mpr ⟨count - 1, by omega, rfl⟩
      rw [← filtered] at last
      exact (List.mem_filter.mp last).2
    · rw [goal]
      exact ih conforms (fun time => following_follows) planned (List.append_cancel_left same)

end

end Gunda.Stream.Dash
