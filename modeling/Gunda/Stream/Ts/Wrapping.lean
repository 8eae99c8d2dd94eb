import Gunda.Stream.Ts.SampleTable
import Gunda.Stream.Ts.Timing

/-!
# Times across the wrap of the clock

PES headers carry 33 bits of a time. What demuxing makes of them, against the times
before they were cut to that size.
-/
namespace Gunda.Stream.Ts

open Gunda.Lib

/-- The ticks after which a time of a PES header begins again. -/
def clock : Nat := 2 ^ 33

/-- When a picture is decoded and shown, on a clock that never begins again. -/
structure TrueTime where
  decode : Nat
  presentation : Nat
  notBefore : decode ≤ presentation

/-- The times an access unit gets from a PES header: those of the picture cut to 33 bits, without
a decode time where that is the presentation time. -/
structure CarriesTime (unit : AccessUnit) (time : TrueTime) : Prop where
  pts : unit.pts = some (time.presentation % clock)
  dts : unit.dts = some (time.decode % clock) ∨ unit.dts = none ∧ time.decode = time.presentation

structure CarriedModulo (units : List AccessUnit) (times : List TrueTime) : Prop where
  count : times.length = units.length
  each : ∀ (i : Nat) (unit : AccessUnit) (time : TrueTime), units[i]? = some unit →
    times[i]? = some time → CarriesTime unit time

/-- Decode times increase by at most a second. -/
def Steady : List TrueTime → Prop
  | a :: b :: times =>
      a.decode < b.decode ∧ b.decode ≤ a.decode + videoTimescale ∧ Steady (b :: times)
  | _ => True

/-- Each duration lasts up to the next decode time, the last one as long as that before it. -/
def trueDurations (previous : Nat) : List TrueTime → List Nat
  | [] => []
  | [_] => [previous]
  | a :: b :: times =>
      (b.decode - a.decode) :: trueDurations (b.decode - a.decode) (b :: times)

/-- The samples are timed as if the clock never began again. -/
structure KeepsTimes (samples : List ElementarySample) (times : List TrueTime) : Prop where
  durations : samples.map (·.duration) = trueDurations defaultFrameDuration times
  compositions : samples.map (·.compositionOffset) =
    times.map fun time => (time.presentation : Int) - time.decode

/-- No two decode times are in different periods of the clock, unless as far apart as the two
before them. -/
def StepsKept (previous : Nat) : List TrueTime → Prop
  | a :: b :: times =>
      (a.decode / clock = b.decode / clock ∨ b.decode - a.decode = previous) ∧
        StepsKept (b.decode - a.decode) (b :: times)
  | _ => True

/-- A picture is decoded and shown in one period of the clock, less than `2 ^ 31` apart. -/
def ShownInPeriod (time : TrueTime) : Prop :=
  time.decode / clock = time.presentation / clock ∧ time.presentation - time.decode < 2 ^ 31

/-! ## Durations -/

theorem frameDuration_wrapped {previous a b : Nat} (later : a < b) (soon : b ≤ a + videoTimescale) :
    frameDuration previous (a % clock) (some (b % clock)) = b - a ↔
      a / clock = b / clock ∨ b - a = previous := by
  have aSplit := Nat.div_add_mod a clock
  have bSplit := Nat.div_add_mod b clock
  unfold frameDuration maxFrameDuration
  unfold videoTimescale at *
  unfold clock at *
  dsimp only
  split
  · omega
  · omega

variable {times : List TrueTime}

theorem durationsFrom_wrapped (steady : Steady times) (previous : Nat) :
    durationsFrom previous (times.map fun time => time.decode % clock) =
      trueDurations previous times ↔ StepsKept previous times := by
  induction times generalizing previous with
  | nil => exact ⟨fun _ => trivial, fun _ => rfl⟩
  | cons a times ih =>
    cases times with
    | nil => exact ⟨fun _ => trivial, fun _ => rfl⟩
    | cons b times =>
      obtain ⟨later, soon, others⟩ := steady
      have step := @frameDuration_wrapped previous _ _ later soon
      rw [List.map_cons, durationsFrom, trueDurations, StepsKept, ← step, List.map_cons,
        List.head?_cons, List.cons.injEq]
      constructor
      · rintro ⟨same, rest⟩
        rw [same] at rest
        exact ⟨same, (ih others _).mp rest⟩
      · rintro ⟨same, rest⟩
        rw [same]
        exact ⟨rfl, (ih others _).mpr rest⟩

/-! ## Composition offsets -/

theorem composition_wrapped (time : TrueTime) :
    max (Demuxer.compositionOffset (time.presentation % clock) (time.decode % clock)) 0 =
      (time.presentation : Int) - time.decode ↔ ShownInPeriod time := by
  have notBefore := time.notBefore
  unfold Demuxer.compositionOffset ShownInPeriod clock
  dsimp only
  split
  · omega
  · omega

/-! ## Whole streams -/

theorem Reads.det {carriers : List Carrier} {a b : Reader} (first : Reads carriers a)
    (second : Reads carriers b) : a = b := by
  induction first generalizing b with
  | start =>
    generalize none : ([] : List Carrier) = list at second
    cases second with
    | start => rfl
    | step => simp at none
  | @step carriers before carrier units rest reads scan ih =>
    obtain ⟨before', units', rest', reads', scan', rfl⟩ := second.snoc
    rw [← ih reads'] at scan' ⊢
    obtain ⟨rfl, rfl⟩ := scan.det scan'
    rfl

theorem CarriesTime.decode {unit : AccessUnit} {time : TrueTime} (carries : CarriesTime unit time) :
    unit.dts.getD (time.presentation % clock) = time.decode % clock := by
  cases carries.dts with
  | inl stamped => rw [stamped, Option.getD_some]
  | inr same => rw [same.1, Option.getD_none, same.2]

/-- What is recorded of access units that carry these times. -/
theorem Records.carried {units : List AccessUnit} {samples : List ElementarySample}
    {decodeTimes : List Nat} (records : Records units samples decodeTimes)
    (carried : CarriedModulo units times) :
    decodeTimes = times.map (fun time => time.decode % clock) ∧
      samples.map (·.compositionOffset) = times.map fun time =>
        max (Demuxer.compositionOffset (time.presentation % clock) (time.decode % clock)) 0 := by
  have samplesCount := records.length
  have timesCount := records.timesLength
  have count := carried.count
  have at_ (i : Nat) (time : TrueTime) (present : times[i]? = some time) :
      ∃ sample decode, samples[i]? = some sample ∧ decodeTimes[i]? = some decode ∧
        decode = time.decode % clock ∧ sample.compositionOffset =
          max (Demuxer.compositionOffset (time.presentation % clock) (time.decode % clock)) 0 := by
    have inside := (List.getElem?_eq_some_iff.mp present).1
    have hasSample := List.getElem?_eq_getElem (l := samples) (i := i) (by omega)
    have hasTime := List.getElem?_eq_getElem (l := decodeTimes) (i := i) (by omega)
    obtain ⟨unit, hasUnit, timing⟩ := records.at hasSample hasTime
    have carries := carried.each i unit time hasUnit present
    obtain ⟨decode, composition⟩ := timing _ carries.pts
    rw [carries.decode] at decode
    rw [decode] at composition
    exact ⟨_, _, hasSample, hasTime, decode, composition⟩
  constructor
  · refine List.ext_getElem? fun i => ?_
    rw [List.getElem?_map]
    cases present : times[i]? with
    | none =>
      have beyond := List.getElem?_eq_none_iff.mp present
      exact List.getElem?_eq_none_iff.mpr (by omega)
    | some time =>
      obtain ⟨_, decode, _, hasTime, same, _⟩ := at_ i time present
      rw [hasTime, same]
      rfl
  · refine List.ext_getElem? fun i => ?_
    rw [List.getElem?_map, List.getElem?_map]
    cases present : times[i]? with
    | none =>
      have beyond := List.getElem?_eq_none_iff.mp present
      rw [List.getElem?_eq_none_iff.mpr (show samples.length ≤ i by omega)]
      rfl
    | some time =>
      obtain ⟨sample, _, hasSample, _, _, same⟩ := at_ i time present
      rw [hasSample, Option.map_some, same]
      rfl

theorem compositions_wrapped (times : List TrueTime) :
    (times.map fun time =>
        max (Demuxer.compositionOffset (time.presentation % clock) (time.decode % clock)) 0) =
      (times.map fun time => (time.presentation : Int) - time.decode) ↔
        ∀ time ∈ times, ShownInPeriod time := by
  rw [List.map_inj_left]
  exact forall₂_congr fun time _ => composition_wrapped time

theorem fillDurations_compositions (samples : List ElementarySample) (times : List Nat) :
    (fillDurations samples times).map (·.compositionOffset) =
      samples.map (·.compositionOffset) := by
  have same := congrArg (List.map fun fields : Nat × Nat × Int × Bool => fields.2.2.1)
    (fillDurationsFrom_samples defaultFrameDuration samples times)
  rw [List.map_map, List.map_map] at same
  exact same

/-- Access units stamped with presentation times alone. -/
theorem carriedModulo_plain {units : List AccessUnit}
    (stamps : (units.map fun unit => (unit.pts, unit.dts)) =
      times.map fun time => (some (time.presentation % clock), none))
    (alike : ∀ time ∈ times, time.decode = time.presentation) : CarriedModulo units times := by
  have count := congrArg List.length stamps
  rw [List.length_map, List.length_map] at count
  refine ⟨count.symm, fun i unit time hasUnit hasTime => ?_⟩
  have same := congrArg (·[i]?) stamps
  rw [List.getElem?_map, List.getElem?_map, hasUnit, hasTime, Option.map_some, Option.map_some,
    Option.some.injEq, Prod.mk.injEq] at same
  exact ⟨same.1, .inr ⟨same.2, alike time (List.mem_of_getElem? hasTime)⟩⟩

/-- The stamps of the access units that demuxing finds in the PES packets. -/
def stampsOf (packets : List PesPacket) : List (Option Nat × Option Nat) :=
  (assemble (timedByNext (carriedNals packets))).map fun unit => (unit.pts, unit.dts)

theorem stamped_by_packets {stream : Multiplex} {packets : List PesPacket} (times : List TrueTime)
    (carried : stream.carriers = packets.flatMap PesPacket.carriers) {track : ElementaryTrack}
    {file : Bytes} (isVideo : track.codec.isVideo = true)
    (h : demux stream.source = .ok (track, file))
    (stamps : stampsOf packets = times.map fun time => (some (time.presentation % clock), none))
    (alike : ∀ time ∈ times, time.decode = time.presentation) :
    ∃ reader, Reads stream.carriers reader ∧ CarriedModulo (assemble reader.nals) times := by
  obtain ⟨reader, _, _, reads, _⟩ := stream.demux_holds isVideo h
  have nals := reads
  rw [carried] at nals
  refine ⟨reader, reads, carriedModulo_plain ?_ alike⟩
  rw [nals.packets.1]
  exact stamps

/-- The times the samples of the three pictures are stamped with. -/
def threeTimes : List TrueTime := [⟨90000, 90000, by decide⟩, ⟨96000, 96000, by decide⟩]

/-- Pictures behind access unit delimiters. -/
def delimited : List (List Bytes) :=
  [[[0x09, 0xF0], sps, pps, [0x65, 0x88, 0x84]], [[0x09, 0xF0], [0x41, 0x9A, 0x02]],
    [[0x09, 0xF0], [0x41, 0x9A, 0x04]]]

theorem delimited_delimitable {nals : List Bytes} (picture : nals ∈ delimited) :
    ∀ nal ∈ nals, AnnexB.Delimitable nal := by
  have checked : ∀ nals ∈ delimited, ∀ nal ∈ nals, ¬ AnnexB.startCode <:+: nal ∧
      nal.getLast? ≠ none ∧ nal.getLast? ≠ some 0 := by decide +kernel
  intro nal member
  obtain ⟨clean, some_, last⟩ := checked nals picture nal member
  exact .of_getLast clean some_ last

/-- They are decoded 3600 ticks apart, the clock beginning again behind the first. -/
def wrapTimes : List TrueTime :=
  [⟨2 ^ 33 - 1800, 2 ^ 33 - 1800, by decide⟩, ⟨2 ^ 33 + 1800, 2 ^ 33 + 1800, by decide⟩,
    ⟨2 ^ 33 + 5400, 2 ^ 33 + 5400, by decide⟩]

def wrapPackets : List PesPacket :=
  [.single (2 ^ 33 - 1800) (by decide) [[0x09, 0xF0], sps, pps, [0x65, 0x88, 0x84]]
      (by decide +kernel) (by decide) (delimited_delimitable (by decide)),
    .single 1800 (by decide) [[0x09, 0xF0], [0x41, 0x9A, 0x02]] (by decide +kernel) (by decide)
      (delimited_delimitable (by decide)),
    .single 5400 (by decide) [[0x09, 0xF0], [0x41, 0x9A, 0x04]] (by decide +kernel) (by decide)
      (delimited_delimitable (by decide))]

def wrapStream : Multiplex :=
  .ofCarriers (wrapPackets.flatMap PesPacket.carriers) (by decide +kernel)

theorem wrapStream_demuxed : (demux wrapStream.source).toOption.any (fun made =>
    made.1.codec.isVideo && (made.1.samples.map (·.duration)).head? == some 3000) = true := by
  decide +kernel

end Gunda.Stream.Ts
