import Gunda.Stream.Ts.Multiplex
import Gunda.Stream.Ts.Openings

/-!
# Whose times a sample gets

A NAL unit is stamped when the start code of the next arrives, with the times of the
PES packet that start code came in.
-/
namespace Gunda.Stream.Ts

open Gunda.Lib

/-! ## PES packets -/

/-- A PES packet with a presentation time: its header, the carriers it is split into,
and the NAL units in them. -/
structure PesPacket where
  header : PesStart
  presentation : Nat
  first : Carrier
  others : List Carrier
  entries : List AnnexB.Entry
  trailing : Nat
  stamped : header.pts = some presentation
  starts : first.header = some header
  continues : ∀ carrier ∈ others, carrier.header = none
  some_ : entries ≠ []
  delimitable : ∀ entry ∈ entries, AnnexB.Delimitable entry.unit
  bytes : (first :: others).flatMap (·.data) = AnnexB.encode entries ++ AnnexB.zeros trailing

namespace PesPacket

def carriers (packet : PesPacket) : List Carrier := packet.first :: packet.others

def decodeTime (packet : PesPacket) : Nat := packet.header.dts.getD packet.presentation

def composition (packet : PesPacket) : Int := packet.presentation - packet.decodeTime

/-- The composition offset that is stored for these times. -/
def storedComposition (packet : PesPacket) : Int :=
  max (Demuxer.compositionOffset packet.presentation packet.decodeTime) 0

def timed (packet : PesPacket) (nal : Bytes) : TimedNal :=
  ⟨nal, packet.header.pts, packet.header.dts⟩

end PesPacket

/-- The NAL units, each with the PES packet it begins in. -/
def carriedNals (packets : List PesPacket) : List (PesPacket × Bytes) :=
  packets.flatMap fun packet => packet.entries.map fun entry => (packet, entry.unit)

/-- Every NAL unit but the last, with the times of the one that follows. -/
def timedByNext (carried : List (PesPacket × Bytes)) : List TimedNal :=
  List.zipWith (fun nal next => next.1.timed nal.2) carried carried.tail

theorem timedByNext_snoc (carried : List (PesPacket × Bytes)) (next : PesPacket × Bytes) :
    timedByNext (carried ++ [next]) =
      timedByNext carried ++ (carried.getLast?.map fun nal => next.1.timed nal.2).toList := by
  induction carried with
  | nil => rfl
  | cons first carried ih =>
    cases carried with
    | nil => rfl
    | cons second carried =>
      have cut : ∀ rest, timedByNext (first :: second :: rest) =
          second.1.timed first.2 :: timedByNext (second :: rest) := fun _ => rfl
      simp only [List.cons_append] at ih ⊢
      rw [cut, cut, ih, List.cons_append]
      rfl

/-- The NAL units of one packet more are stamped by it, but for the last. -/
theorem timedByNext_append (carried : List (PesPacket × Bytes)) (packet : PesPacket)
    (units : List Bytes) :
    timedByNext (carried ++ units.map fun unit => (packet, unit)) = timedByNext carried ++
      ((carried.getLast?.map (·.2)).toList ++ units).dropLast.map packet.timed := by
  induction units generalizing carried with
  | nil => cases carried.getLast? <;> simp
  | cons unit units ih =>
    have one := ih (carried ++ [(packet, unit)])
    rw [List.append_assoc, List.singleton_append, timedByNext_snoc] at one
    rw [List.map_cons, one]
    cases carried.getLast? with
    | none => simp
    | some last => simp [List.dropLast_cons_of_ne_nil]

/-! ## Reading them -/

variable {reader : Reader}

theorem Reads.snoc {carriers : List Carrier} {carrier : Carrier}
    (reads : Reads (carriers ++ [carrier]) reader) :
    ∃ before units rest, Reads carriers before ∧
      AnnexB.Scan (before.pending ++ carrier.data) units rest ∧
      reader = { before.started carrier.header with
        pending := rest
        nals := before.nals ++ (before.started carrier.header).timed units } := by
  generalize all : carriers ++ [carrier] = list at reads
  cases reads with
  | start => cases carriers <;> cases all
  | @step others before last units rest reads scan =>
    obtain ⟨rfl, same⟩ := List.append_inj' all rfl
    cases same
    exact ⟨before, units, rest, reads, scan, rfl⟩

/-- The NAL units recognised while a PES packet is read get its times. -/
theorem Reads.packet {earlier others : List Carrier} {first : Carrier} {header : PesStart}
    (starts : first.header = some header) (continues : ∀ carrier ∈ others, carrier.header = none)
    (reads : Reads (earlier ++ first :: others) reader) :
    ∃ before units, Reads earlier before ∧
      AnnexB.Scan (before.pending ++ (first :: others).flatMap (·.data)) units reader.pending ∧
      reader.nals = before.nals ++ (units.filter (· ≠ [])).map (⟨·, header.pts, header.dts⟩) ∧
      reader.pts = header.pts ∧ reader.dts = header.dts := by
  induction others using List.reverseRecOn generalizing reader with
  | nil =>
    obtain ⟨before, units, rest, ahead, scan, rfl⟩ := reads.snoc
    rw [starts]
    refine ⟨before, units, ahead, ?_, rfl, rfl, rfl⟩
    simpa using scan
  | append_singleton others carrier ih =>
    have shape : earlier ++ first :: (others ++ [carrier]) =
        (earlier ++ first :: others) ++ [carrier] := by simp
    rw [shape] at reads
    obtain ⟨middle, units, rest, ahead, scan, rfl⟩ := reads.snoc
    obtain ⟨before, units', begun, scan', nals, pts, dts⟩ :=
      ih (fun other member => continues other (by simp [member])) ahead
    have plain : carrier.header = none := continues carrier (by simp)
    rw [plain]
    refine ⟨before, units' ++ units, begun, ?_, ?_, pts, dts⟩
    · have both := scan'.append scan
      simpa [List.append_assoc] using both
    · simp only [Reader.started, Reader.timed, nals, pts, dts, List.filter_append, List.map_append,
        List.append_assoc]

/-- What is pending behind a NAL unit and the zero bytes that followed it. -/
def pendingOf (last : Option (Bytes × Nat)) : Bytes :=
  last.elim [] fun last => AnnexB.startCode ++ (last.1 ++ AnnexB.zeros last.2)

theorem scan_packet {last : Option (Bytes × Nat)} {entries : List AnnexB.Entry} (trailing : Nat)
    (some_ : entries ≠ []) (before : ∀ unit ∈ last, AnnexB.Delimitable unit.1)
    (all : ∀ entry ∈ entries, AnnexB.Delimitable entry.unit) :
    AnnexB.Scan (pendingOf last ++ (AnnexB.encode entries ++ AnnexB.zeros trailing))
      ((last.map (·.1)).toList ++ entries.map (·.unit)).dropLast
      (pendingOf ((entries.map (·.unit)).getLast?.map (·, trailing))) := by
  cases entries with
  | nil => exact absurd rfl some_
  | cons first entries =>
    have final : ∀ unit : Bytes, (unit :: entries.map (·.unit)).getLast? =
        some ((entries.map (·.unit)).getLastD unit) := by
      intro unit
      rw [List.getLast?_cons, List.getLastD_eq_getLast?]
    cases last with
    | none =>
      have scan := AnnexB.scan_encode trailing all
      rw [List.map_cons, final]
      exact scan
    | some last =>
      have cuts := AnnexB.cuts_encode (before last rfl) last.2 trailing all
      rw [if_neg some_, List.map_cons, List.getLastD_cons] at cuts
      have scan := AnnexB.Scan.begun (AnnexB.splitStart_startCode _) cuts
      rw [List.map_cons, final]
      simpa [pendingOf, List.append_assoc] using scan

/-- The last NAL unit of the packets, and the zero bytes that followed it. -/
def lastNal (packets : List PesPacket) : Option (Bytes × Nat) :=
  packets.getLast?.bind fun packet =>
    (packet.entries.map (·.unit)).getLast?.map (·, packet.trailing)

theorem carriedNals_snoc (packets : List PesPacket) (packet : PesPacket) :
    carriedNals (packets ++ [packet]) =
      carriedNals packets ++ (packet.entries.map (·.unit)).map fun unit => (packet, unit) := by
  simp [carriedNals, Function.comp_def]

theorem lastNal_carried (packets : List PesPacket) :
    (carriedNals packets).getLast?.map (·.2) = (lastNal packets).map (·.1) := by
  cases packets using List.reverseRecOn with
  | nil => rfl
  | append_singleton packets packet =>
    obtain ⟨unit, last⟩ : ∃ unit, (packet.entries.map (·.unit)).getLast? = some unit := by
      rw [← Option.ne_none_iff_exists', ne_eq, List.getLast?_eq_none_iff, List.map_eq_nil_iff]
      exact packet.some_
    rw [carriedNals_snoc, List.getLast?_append, List.getLast?_map, last]
    simp only [lastNal, List.getLast?_append, List.getLast?_singleton, Option.some_or,
      Option.bind_some, last, Option.map_some]

theorem lastNal_delimitable (packets : List PesPacket) :
    ∀ unit ∈ lastNal packets, AnnexB.Delimitable unit.1 := by
  intro unit member
  obtain ⟨packet, _, found⟩ := Option.bind_eq_some_iff.mp member
  obtain ⟨nal, last, rfl⟩ := Option.map_eq_some_iff.mp found
  obtain ⟨entry, inside, rfl⟩ := List.mem_map.mp (List.mem_of_getLast? last)
  exact packet.delimitable entry inside

/-- The NAL units recognised are all but the last, stamped by the one that follows. -/
theorem Reads.packets {packets : List PesPacket}
    (reads : Reads (packets.flatMap PesPacket.carriers) reader) :
    reader.nals = timedByNext (carriedNals packets) ∧
      reader.pending = pendingOf (lastNal packets) := by
  induction packets using List.reverseRecOn generalizing reader with
  | nil =>
    generalize none : [].flatMap PesPacket.carriers = list at reads
    cases reads with
    | start => exact ⟨rfl, rfl⟩
    | step => simp at none
  | append_singleton packets packet ih =>
    rw [List.flatMap_append, List.flatMap_singleton] at reads
    obtain ⟨before, units, ahead, scan, nals, _, _⟩ :=
      Reads.packet packet.starts packet.continues reads
    obtain ⟨earlier, pending⟩ := ih ahead
    rw [packet.bytes, pending] at scan
    obtain ⟨rfl, left⟩ := scan.det (scan_packet packet.trailing packet.some_
      (lastNal_delimitable packets) packet.delimitable)
    have counted : ∀ unit ∈ ((lastNal packets).map (·.1)).toList ++ packet.entries.map (·.unit),
        unit ≠ [] := by
      intro unit member
      rcases List.mem_append.mp member with kept | own
      · obtain ⟨last, present, rfl⟩ := Option.map_eq_some_iff.mp (Option.mem_toList.mp kept)
        exact (lastNal_delimitable packets last present).ne_nil
      · obtain ⟨entry, inside, rfl⟩ := List.mem_map.mp own
        exact (packet.delimitable entry inside).ne_nil
    have all := List.filter_eq_self.mpr fun unit member =>
      decide_eq_true (counted unit (List.dropLast_subset _ member))
    constructor
    · rw [nals, all, earlier, carriedNals_snoc, timedByNext_append, lastNal_carried]
      rfl
    · rw [left]
      simp [lastNal]

/-! ## Samples and PES packets -/

/-- How many NAL units a sample holds. -/
def nalCount (file : Bytes) (sample : ElementarySample) : Nat :=
  ((Bytes.readPrefixed (Bytes.slice file sample.offset sample.size)).getD []).length

/-- The position of a sample's first NAL unit among those of all samples. -/
def firstNal (track : ElementaryTrack) (file : Bytes) (index : Nat) : Nat :=
  ((track.samples.take index).map (nalCount file)).sum

/-- Every sample has the times of the PES packet its first NAL unit begins in. -/
def TimedAsCarried (packets : List PesPacket) (track : ElementaryTrack) (decodeTimes : List Nat)
    (file : Bytes) : Prop :=
  ∀ index sample time, track.samples[index]? = some sample → decodeTimes[index]? = some time →
    ∃ packet nal, (carriedNals packets)[firstNal track file index]? = some (packet, nal) ∧
      time = packet.decodeTime ∧ sample.compositionOffset = packet.composition

/-- Wherever a NAL unit opens an access unit, the next one is in a PES packet of the same
times. -/
def BoundariesAgree (packets : List PesPacket) : Prop :=
  ∀ i packet nal next following, (carriedNals packets)[i]? = some (packet, nal) →
    (carriedNals packets)[i + 1]? = some (next, following) →
    opensUnit (((carriedNals packets).take i).map (·.2)) nal = true →
    next.decodeTime = packet.decodeTime ∧ next.storedComposition = packet.composition

variable {carried : List (PesPacket × Bytes)}

theorem timedByNext_getElem? {i : Nat} {timed : TimedNal} :
    (timedByNext carried)[i]? = some timed ↔ ∃ packet nal next following,
      carried[i]? = some (packet, nal) ∧ carried[i + 1]? = some (next, following) ∧
        timed = next.timed nal := by
  unfold timedByNext
  rw [List.getElem?_zipWith_eq_some]
  constructor
  · intro ⟨nal, next, here, there, same⟩
    rw [List.getElem?_tail] at there
    exact ⟨nal.1, nal.2, next.1, next.2, here, there, same.symm⟩
  · intro ⟨packet, nal, next, following, here, there, same⟩
    refine ⟨(packet, nal), (next, following), here, ?_, same.symm⟩
    rw [List.getElem?_tail]
    exact there

theorem timedByNext_map (carried : List (PesPacket × Bytes)) :
    (timedByNext carried).map (·.nal) = (carried.map (·.2)).dropLast := by
  induction carried using List.reverseRecOn with
  | nil => rfl
  | append_singleton carried next ih =>
    rw [timedByNext_snoc, List.map_append, ih, List.map_append, List.map_singleton,
      List.dropLast_concat]
    cases carried using List.reverseRecOn with
    | nil => rfl
    | append_singleton carried last => simp [PesPacket.timed]

theorem timedByNext_take {i : Nat} (inside : i < carried.length) :
    ((timedByNext carried).take i).map (·.nal) = (carried.take i).map (·.2) := by
  rw [List.map_take, timedByNext_map, List.dropLast_eq_take, List.take_take, List.length_map,
    Nat.min_eq_left (by omega), List.map_take]

/-- Which NAL units open an access unit, from the packets. -/
theorem opensAt_timedByNext {i : Nat} :
    OpensAt (timedByNext carried) i ↔ ∃ packet nal next following,
      carried[i]? = some (packet, nal) ∧ carried[i + 1]? = some (next, following) ∧
        opensUnit ((carried.take i).map (·.2)) nal = true := by
  unfold OpensAt
  constructor
  · intro ⟨timed, present, opens⟩
    obtain ⟨packet, nal, next, following, here, there, rfl⟩ := timedByNext_getElem?.mp present
    rw [timedByNext_take (List.getElem?_eq_some_iff.mp here).1] at opens
    exact ⟨packet, nal, next, following, here, there, opens⟩
  · intro ⟨packet, nal, next, following, here, there, opens⟩
    refine ⟨next.timed nal, timedByNext_getElem?.mpr ⟨_, _, _, _, here, there, rfl⟩, ?_⟩
    rw [timedByNext_take (List.getElem?_eq_some_iff.mp here).1]
    exact opens

variable {sample : ElementarySample} {index : Nat}

theorem Records.at {units : List AccessUnit} {samples : List ElementarySample} {times : List Nat}
    (records : Records units samples times) {time : Nat}
    (hasSample : samples[index]? = some sample) (hasTime : times[index]? = some time) :
    ∃ unit, units[index]? = some unit ∧ ∀ pts, unit.pts = some pts → time = unit.dts.getD pts ∧
      sample.compositionOffset = max (Demuxer.compositionOffset pts time) 0 := by
  induction records with
  | nil => cases hasSample
  | @snoc units samples times unit last lastTime before offset size timing ih =>
    have samplesCount := before.length
    have timesCount := before.timesLength
    by_cases earlier : index < units.length
    · rw [List.getElem?_append_left (by omega)] at hasSample hasTime ⊢
      exact ih hasSample hasTime
    · have bound := (List.getElem?_eq_some_iff.mp hasSample).1
      rw [List.length_append, List.length_singleton] at bound
      have here : index = units.length := by omega
      subst here
      rw [← samplesCount, List.getElem?_concat_length] at hasSample
      rw [← timesCount, List.getElem?_concat_length] at hasTime
      cases hasSample
      cases hasTime
      exact ⟨unit, List.getElem?_concat_length .., timing⟩

theorem head_at_unitStart {units : List AccessUnit} {unit : AccessUnit}
    (present : units[index]? = some unit) (some_ : unit ≠ []) :
    units.flatten[unitStart units index]? = unit.head? := by
  obtain ⟨inside, same⟩ := List.getElem?_eq_some_iff.mp present
  have shape : units.flatten = (units.take index).flatten ++ (unit ++ (units.drop (index + 1)).flatten) := by
    rw [← List.flatten_cons, ← List.flatten_append, ← same, ← List.drop_eq_getElem_cons inside,
      List.take_append_drop]
  have empty : 0 < unit.length := List.length_pos_iff.mpr some_
  rw [shape, unitStart, List.getElem?_append_right (Nat.le_refl _), Nat.sub_self,
    List.getElem?_append_left empty, List.head?_eq_getElem?]

theorem Holds.firstNal {units : List AccessUnit} {video : VideoTrack} {file : Bytes}
    {written : Nat} {track : ElementaryTrack} (holds : Holds units video file written)
    (bound : file.length ≤ maxU64) (small : ∀ unit ∈ units, ∀ nal ∈ unit, nal.nal.length < 2 ^ 32)
    (h : video.intoTrack = .ok track) (index : Nat) :
    firstNal track file index = unitStart units index := by
  have read := congrArg (List.map fun nals : Option (List Bytes) => (nals.getD []).length)
    (holds.read bound small h)
  rw [List.map_map, List.map_map] at read
  have counts : track.samples.map (nalCount file) = units.map List.length := by
    refine read.trans (List.map_congr_left fun unit _ => ?_)
    simp [AccessUnit.nals]
  unfold Ts.firstNal unitStart
  rw [List.map_take, counts, ← List.map_take, List.length_flatten]

theorem fillDurations_composition {samples : List ElementarySample} {times : List Nat}
    (present : (fillDurations samples times)[index]? = some sample) :
    ∃ recorded, samples[index]? = some recorded ∧
      recorded.compositionOffset = sample.compositionOffset := by
  have same := congrArg (fun list => (list[index]?).map fun fields : Nat × Nat × Int × Bool =>
    fields.2.2.1) (fillDurationsFrom_samples defaultFrameDuration samples times)
  simp only [List.getElem?_map, Option.map_map] at same
  unfold fillDurations at present
  rw [present] at same
  obtain ⟨recorded, found, equal⟩ := Option.map_eq_some_iff.mp same.symm
  exact ⟨recorded, found, equal⟩

/-- The times a sample gets are those of the PES packet its second NAL unit, or the unit
behind it, begins in. -/
theorem sample_times {packets : List PesPacket} {video : VideoTrack} {track : ElementaryTrack}
    {file : Bytes} {written : Nat}
    (holds : Holds (assemble (timedByNext (carriedNals packets))) video file written)
    (small : ∀ unit ∈ assemble (timedByNext (carriedNals packets)), ∀ nal ∈ unit,
      nal.nal.length < 2 ^ 32) (bound : file.length ≤ maxU64)
    (intoTrack : video.intoTrack = .ok track) {time : Nat}
    (hasSample : track.samples[index]? = some sample)
    (hasTime : video.decodeTimes[index]? = some time) :
    ∃ packet nal next following,
      (carriedNals packets)[firstNal track file index]? = some (packet, nal) ∧
      (carriedNals packets)[firstNal track file index + 1]? = some (next, following) ∧
      opensUnit (((carriedNals packets).take (firstNal track file index)).map (·.2)) nal = true ∧
      time = next.decodeTime ∧ sample.compositionOffset = next.storedComposition := by
  have start := holds.firstNal bound small intoTrack index
  rw [intoTrack_samples intoTrack] at hasSample
  obtain ⟨recorded, hasRecorded, composition⟩ := fillDurations_composition hasSample
  obtain ⟨unit, present, timing⟩ := holds.records.at hasRecorded hasTime
  have some_ := assemble_ne_nil unit (List.mem_of_getElem? present)
  have head := head_at_unitStart present some_
  rw [assemble_flatten, ← start] at head
  have opens : OpensAt (timedByNext (carriedNals packets)) (firstNal track file index) :=
    (unitStart_iff _ _).mp ⟨index, (List.getElem?_eq_some_iff.mp present).1, start.symm⟩
  obtain ⟨packet, nal, next, following, here, there, opening⟩ := opensAt_timedByNext.mp opens
  have timed := timedByNext_getElem?.mpr ⟨_, _, _, _, here, there, rfl⟩
  rw [head] at timed
  have pts : unit.pts = some next.presentation := by
    rw [AccessUnit.pts, timed]
    exact next.stamped
  have dts : unit.dts = next.header.dts := by
    rw [AccessUnit.dts, timed]
    rfl
  obtain ⟨decode, offset⟩ := timing _ pts
  rw [dts] at decode
  refine ⟨packet, nal, next, following, here, there, opening, decode, ?_⟩
  rw [← composition, offset, decode]
  rfl

/-- The samples have the times of their PES packets exactly where the times agree across
the boundaries. -/
theorem timed_as_carried_iff (stream : Multiplex) (packets : List PesPacket)
    (carried : stream.carriers = packets.flatMap PesPacket.carriers) (track : ElementaryTrack)
    (file : Bytes) (video : VideoTrack) (isVideo : track.codec.isVideo = true)
    (bound : file.length ≤ maxU64) (recorded : recordedVideo stream.source = .ok (some video))
    (h : demux stream.source = .ok (track, file)) :
    TimedAsCarried packets track video.decodeTimes file ↔ BoundariesAgree packets := by
  obtain ⟨reader, video', written, reads, small, holds, intoTrack, same⟩ :=
    stream.demux_holds isVideo h
  rw [recorded] at same
  cases same
  rw [carried] at reads
  rw [reads.packets.1] at holds small
  constructor
  · intro asCarried i packet nal next following here there opens
    obtain ⟨index, inside, start⟩ := (unitStart_iff _ i).mpr (opensAt_timedByNext.mpr
      ⟨packet, nal, next, following, here, there, opens⟩)
    have count : track.samples.length = video.samples.length := by
      rw [intoTrack_samples intoTrack]
      unfold fillDurations
      simpa using congrArg List.length
        (fillDurationsFrom_samples defaultFrameDuration video.samples video.decodeTimes)
    have samplesCount := holds.records.length
    have timesCount := holds.records.timesLength
    have hasSample := List.getElem?_eq_getElem (l := track.samples) (i := index) (by omega)
    have hasTime := List.getElem?_eq_getElem (l := video.decodeTimes) (i := index) (by omega)
    rw [← holds.firstNal bound small intoTrack] at start
    obtain ⟨packet', nal', next', following', here', there', _, decode, offset⟩ :=
      sample_times holds small bound intoTrack hasSample hasTime
    obtain ⟨own, ownNal, ownHere, ownDecode, ownOffset⟩ := asCarried index _ _ hasSample hasTime
    rw [start] at here' there' ownHere
    rw [here] at ownHere
    rw [there] at there'
    cases ownHere
    cases there'
    exact ⟨decode.symm.trans ownDecode, offset.symm.trans ownOffset⟩
  · intro agree index sample time hasSample hasTime
    obtain ⟨packet, nal, next, following, here, there, opens, decode, offset⟩ :=
      sample_times holds small bound intoTrack hasSample hasTime
    obtain ⟨sameDecode, sameOffset⟩ := agree _ _ _ _ _ here there opens
    exact ⟨packet, nal, here, decode.trans sameDecode, offset.trans sameOffset⟩

/-! ## Three pictures -/

/-- A PES packet in a packet of its own. -/
def PesPacket.single (time : Nat) (small : time < 2 ^ 33) (nals : List Bytes)
    (short : ((PesStart.timed time small).encode ++ units nals).length ≤ 182) (some_ : nals ≠ [])
    (delimitable : ∀ nal ∈ nals, AnnexB.Delimitable nal) : PesPacket where
  header := .timed time small
  presentation := time
  first := .whole (.timed time small) (units nals) short
  others := []
  entries := nals.map (⟨1, ·⟩)
  trailing := 0
  stamped := rfl
  starts := rfl
  continues := fun _ member => absurd member List.not_mem_nil
  some_ := by simpa using some_
  delimitable := by
    intro entry member
    obtain ⟨nal, inside, rfl⟩ := List.mem_map.mp member
    exact delimitable nal inside
  bytes := by simp [Carrier.whole, units, AnnexB.zeros]

/-- A picture in a PES packet, and that in a packet of its own. -/
def PesPacket.alone (time : Nat) (small : time < 2 ^ 33) (nals : List Bytes)
    (short : ((PesStart.timed time small).encode ++ units nals).length ≤ 182) (some_ : nals ≠ [])
    (picture : nals ∈ pictures) : PesPacket :=
  .single time small nals short some_ fun nal inside =>
    pictures_delimitable nal (List.mem_flatten.mpr ⟨nals, picture, inside⟩)

def picturePackets : List PesPacket :=
  [.alone 90000 firstTime_lt [sps, pps, [0x65, 0x88, 0x84]] first_short (by decide)
      (by decide +kernel),
    .alone 93000 secondTime_lt [[0x41, 0x9A, 0x02]] second_short (by decide) (by decide +kernel),
    .alone 96000 thirdTime_lt [[0x41, 0x9A, 0x04]] third_short (by decide) (by decide +kernel)]

theorem threePictures_packets :
    threePictures.carriers = picturePackets.flatMap PesPacket.carriers := rfl

theorem threePictures_recorded : (recordedVideo threePictures.source).toOption.any (fun found =>
    found.any fun video => video.decodeTimes == [90000, 96000]) = true := by
  decide +kernel

/-- The second sample is stamped with the times of the third picture. -/
def stampedLate (made : ElementaryTrack × Bytes) : Bool :=
  made.1.codec.isVideo && made.2.length ≤ maxU64 && made.1.samples.length == 2 &&
    firstNal made.1 made.2 1 == 3

theorem threePictures_stamped :
    (demux threePictures.source).toOption.any stampedLate = true := by
  decide +kernel

theorem timed_as_carried_iff_threePictures : ∃ track file video,
    demux threePictures.source = .ok (track, file) ∧
      recordedVideo threePictures.source = .ok (some video) ∧
      (TimedAsCarried picturePackets track video.decodeTimes file ↔
        BoundariesAgree picturePackets) := by
  obtain ⟨⟨track, file⟩, made, checked⟩ := toOption_any_ok threePictures_stamped
  obtain ⟨found, recorded, times⟩ := toOption_any_ok threePictures_recorded
  obtain ⟨video, rfl, _⟩ := (Option.any_eq_true _ _).mp times
  simp only [stampedLate, Bool.and_eq_true, decide_eq_true_eq] at checked
  exact ⟨track, file, video, made, recorded, timed_as_carried_iff threePictures picturePackets
    threePictures_packets track file video checked.1.1.1 checked.1.1.2 recorded made⟩

/-- The slice of the second picture gets the times of the third. -/
theorem second_picture_is_stamped_late : ∃ track file video,
    demux threePictures.source = .ok (track, file) ∧
      recordedVideo threePictures.source = .ok (some video) ∧
      video.decodeTimes = [90000, 96000] ∧
      ¬ TimedAsCarried picturePackets track video.decodeTimes file := by
  obtain ⟨⟨track, file⟩, made, checked⟩ := toOption_any_ok threePictures_stamped
  obtain ⟨found, recorded, times⟩ := toOption_any_ok threePictures_recorded
  obtain ⟨video, rfl, same⟩ := (Option.any_eq_true _ _).mp times
  have times := beq_iff_eq.mp same
  simp only [stampedLate, Bool.and_eq_true, beq_iff_eq] at checked
  refine ⟨track, file, video, made, recorded, times, fun asCarried => ?_⟩
  have hasSample := List.getElem?_eq_getElem (l := track.samples) (i := 1) (by omega)
  have hasTime : video.decodeTimes[1]? = some 96000 := by rw [times]; rfl
  obtain ⟨packet, nal, here, decode, _⟩ := asCarried 1 _ _ hasSample hasTime
  rw [checked.2] at here
  have own : ((carriedNals picturePackets)[3]?.map fun carried => carried.1.decodeTime) =
      some 93000 := by decide +kernel
  rw [here, Option.map_some, ← decode] at own
  cases own

end Gunda.Stream.Ts
