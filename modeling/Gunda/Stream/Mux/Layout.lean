import Gunda.Lib.SampleTables
import Gunda.Stream.Mux.Writer

/-!
# The layout of a written file

What the writer leaves behind: boxes inside boxes, with the one chunk offset of a track at
the end of its box, so that filling it in changes no size.
-/
namespace Gunda.Stream.Mux

open Gunda.Lib Gunda.Lib.Bytes
open Gunda.Lib.IsoMedia (kind)

variable {name body a b field content result : Bytes} {width offset : Nat}
    {before after writer : Writer} {starts : List Nat}

/-- A box as it is closed: a size that 32 bits do not hold is the largest they do. -/
def sized (name body : Bytes) : Bytes :=
  be 4 (min (body.length + 8) (2 ^ 32 - 1)) ++ (name ++ body)

def sizedIfAny (name : Bytes) (body : Option Bytes) : Bytes := (body.map (sized name)).getD []

theorem sized_length (four : name.length = 4) (body : Bytes) :
    (sized name body).length = body.length + 8 := by
  unfold sized
  rw [List.length_append, List.length_append, be_length, four]
  omega

theorem sized_eq_box (fits : body.length + 8 < 2 ^ 32) :
    sized name body = IsoMedia.box name body := by
  unfold sized IsoMedia.box
  rw [Nat.min_eq_left (by omega)]

theorem overwrite_middle {c : Bytes} (same : field.length = b.length) :
    overwrite (a ++ (b ++ c)) a.length field = a ++ (field ++ c) := by
  unfold overwrite
  rw [List.take_left' rfl, ← List.append_assoc a b c, List.drop_left' (by
    rw [List.length_append, same])]

/-! ## Writing -/

/-- What is written after what was there, with no chunk offset to be filled in. -/
structure Wrote (before after : Writer) (content : Bytes) : Prop where
  bytes : after.bytes = before.bytes ++ content
  patch : after.patch = before.patch

/-- What is written ends with a chunk offset that is to be filled in. -/
structure Marked (width : Nat) (before after : Writer) (content : Bytes) : Prop where
  bytes : after.bytes = before.bytes ++ content
  patch : after.patch = before.patch ++ [after.bytes.length - width]

theorem Wrote.trans {first second third : Writer} (one : Wrote first second a)
    (two : Wrote second third b) : Wrote first third (a ++ b) := by
  constructor
  · rw [two.bytes, one.bytes, List.append_assoc]
  · rw [two.patch, one.patch]

theorem Wrote.marked {first second third : Writer} (one : Wrote first second a)
    (two : Marked width second third b) :
    Marked width first third (a ++ b) := by
  constructor
  · rw [two.bytes, one.bytes, List.append_assoc]
  · rw [two.patch, one.patch]

theorem wrote_refl (writer : Writer) : Wrote writer writer [] := ⟨(List.append_nil _).symm, rfl⟩

theorem write_wrote (writer : Writer) (bytes : Bytes) : Wrote writer (writer.write bytes) bytes :=
  ⟨rfl, rfl⟩

theorem openBox_wrote (writer : Writer) (name : Kind) :
    Wrote writer (writer.openBox name) ([0, 0, 0, 0] ++ name) :=
  (write_wrote writer _).trans (write_wrote _ name)

theorem closeBox_bytes {built : Writer} (four : name.length = 4)
    (wrote : built.bytes = (before.openBox name).bytes ++ content) :
    (built.closeBox before.bytes.length).bytes = before.bytes ++ sized name content := by
  have whole : built.bytes = before.bytes ++ ([0, 0, 0, 0] ++ (name ++ content)) := by
    rw [wrote, (openBox_wrote before name).bytes, List.append_assoc, List.append_assoc]
  have length : built.bytes.length - before.bytes.length = content.length + 8 := by
    rw [whole]
    simp only [List.length_append, List.length_cons, List.length_nil, four]
    omega
  unfold Writer.closeBox
  rw [length, whole]
  exact overwrite_middle (be_length 4 _)

theorem full_wrote (writer : Writer) {name : Kind} (four : name.length = 4) (body : Bytes) :
    Wrote writer (writer.full name body) (sized name body) :=
  ⟨closeBox_bytes four rfl, rfl⟩

theorem fullIfAny_wrote (writer : Writer) {name : Kind} (four : name.length = 4)
    (body : Option Bytes) : Wrote writer (writer.fullIfAny name body) (sizedIfAny name body) := by
  cases body with
  | none => exact wrote_refl writer
  | some body => exact full_wrote writer four body

theorem closeBox_marked {built : Writer} (four : name.length = 4)
    (marked : Marked width (before.openBox name) built content) :
    Marked width before (built.closeBox before.bytes.length) (sized name content) := by
  have closed := closeBox_bytes four marked.bytes
  refine ⟨closed, ?_⟩
  have lengths : (built.closeBox before.bytes.length).bytes.length = built.bytes.length := by
    rw [closed, marked.bytes, (openBox_wrote before name).bytes]
    simp only [List.length_append, sized_length four, List.length_cons, List.length_nil, four]
    omega
  rw [lengths]
  exact marked.patch

theorem container_marked {name : Kind} {build : Writer → Except MuxError Writer}
    (four : name.length = 4) (h : before.container name build = .ok after)
    (built : ∀ inside, build (before.openBox name) = .ok inside →
      Marked width (before.openBox name) inside content) :
    Marked width before after (sized name content) := by
  obtain ⟨inside, done, h⟩ := bind_ok h
  cases h
  exact closeBox_marked four (built inside done)

theorem offsetKind_length (largeOffsets : Bool) : (offsetKind largeOffsets).length = 4 := by
  cases largeOffsets <;> rfl

/-- The payload of a chunk offset table with one chunk. -/
def oneChunk (field : Bytes) : Bytes := be 4 0 ++ (be 4 1 ++ field)

theorem writeStco_marked (writer : Writer) (largeOffsets : Bool) :
    Marked (offsetWidth largeOffsets) writer (writer.writeStco largeOffsets)
      (sized (offsetKind largeOffsets)
        (oneChunk (List.replicate (offsetWidth largeOffsets) 0))) := by
  refine closeBox_marked (offsetKind_length largeOffsets) ⟨?_, ?_⟩
  · simp only [Writer.write, oneChunk, List.append_assoc]
  · simp only [Writer.write, Writer.openBox, List.length_append, List.length_replicate]
    rw [Nat.add_sub_cancel]

/-! ## Fields -/

theorem put_ok {short : String} (h : put body offset field short = .ok result) :
    result = overwrite body offset field := by
  obtain ⟨-, h⟩ := throw_unless_ok h
  cases h
  rfl

theorem slice_take {bytes : Bytes} {size limit : Nat} (within : offset + size ≤ limit) :
    slice (bytes.take limit) offset size = slice bytes offset size := by
  unfold slice
  rw [List.drop_take, List.take_take, Nat.min_eq_left (by omega)]

theorem overwrite_take (within : offset ≤ body.length) :
    (overwrite body offset field).take offset = body.take offset := by
  have long : (body.take offset).length = offset := List.length_take_of_le within
  exact List.take_left' long

theorem overwrite_length (within : offset + field.length ≤ body.length) :
    (overwrite body offset field).length = body.length := by
  unfold overwrite
  simp only [List.length_append, List.length_take, List.length_drop]
  omega

/-- Writing a duration into a header keeps what stands before it. -/
theorem putDuration_ok {field : Nat × Nat} {value : Nat} (eight : field.2 = 8 ∨ field.2 = 4)
    (h : putDuration body field value = .ok result) :
    field.1 + field.2 ≤ body.length ∧ result.length = body.length ∧
      result.take field.1 = body.take field.1 := by
  obtain ⟨long, h⟩ := throw_unless_ok h
  have within := Nat.le_of_not_lt long
  obtain ⟨wide, h⟩ | ⟨narrow, h⟩ := ite_ok h
  · rw [put_ok h]
    refine ⟨within, overwrite_length ?_, overwrite_take (by omega)⟩
    rw [be_length]
    omega
  · obtain ⟨-, h⟩ := throw_unless_ok h
    rw [put_ok h]
    refine ⟨within, overwrite_length ?_, overwrite_take (by omega)⟩
    rw [be_length]
    omega

/-! ## A track -/

/-- The headers and tables that are written for a track. -/
structure TrakBoxes where
  tkhd : Bytes
  mdhd : Bytes
  stts : Bytes
  ctts : Option Bytes
  stsc : Bytes
  stsz : Bytes
  stss : Option Bytes

/-- How the headers and tables of a track come about. -/
structure Builds (demuxed : DemuxedTrack) (boxes : TrakBoxes) : Prop where
  tkhd : boxes.tkhd.length = demuxed.tkhd.length
  stts : buildStts demuxed.samples = .ok boxes.stts
  ctts : buildCtts demuxed.samples = .ok boxes.ctts
  stsc : buildStsc demuxed.samples = .ok boxes.stsc
  stsz : buildStsz demuxed.samples = .ok boxes.stsz
  stss : buildStss demuxed.samples = .ok boxes.stss
  mdhd : putDuration demuxed.mdhd (mediaHeaderField (demuxed.mdhd.head?.getD 0)) demuxed.duration =
    .ok boxes.mdhd

variable (demuxed : DemuxedTrack) (boxes : TrakBoxes) (largeOffsets : Bool)

def stblBody (field : Bytes) : Bytes :=
  (sized (kind "stsd") demuxed.stsd ++ sized (kind "stts") boxes.stts ++
    sizedIfAny (kind "ctts") boxes.ctts ++ sized (kind "stsc") boxes.stsc ++
    sized (kind "stsz") boxes.stsz ++ sizedIfAny (kind "stss") boxes.stss) ++
  sized (offsetKind largeOffsets) (oneChunk field)

def minfBody (field : Bytes) : Bytes :=
  (sized demuxed.mediaHeader.1 demuxed.mediaHeader.2 ++ sized (kind "dinf") demuxed.dinf) ++
  sized (kind "stbl") (stblBody demuxed boxes largeOffsets field)

def mdiaBody (field : Bytes) : Bytes :=
  (sized (kind "mdhd") boxes.mdhd ++ sized (kind "hdlr") demuxed.hdlr) ++
  sized (kind "minf") (minfBody demuxed boxes largeOffsets field)

def trakBody (field : Bytes) : Bytes :=
  sized (kind "tkhd") boxes.tkhd ++
  sized (kind "mdia") (mdiaBody demuxed boxes largeOffsets field)

variable {demuxed boxes largeOffsets}

theorem writeTrak_marked {track : Track} {index movieTimescale : Nat}
    (h : writer.writeTrak track index movieTimescale largeOffsets = .ok after)
    (four : track.demuxed.mediaHeader.1.length = 4) :
    ∃ boxes, Builds track.demuxed boxes ∧ Marked (offsetWidth largeOffsets) writer after
      (sized (kind "trak") (trakBody track.demuxed boxes largeOffsets
        (List.replicate (offsetWidth largeOffsets) 0))) := by
  obtain ⟨-, h⟩ := throw_unless_ok h
  obtain ⟨named, named_eq, h⟩ := bind_ok h
  obtain ⟨tkhd, tkhd_eq, h⟩ := bind_ok h
  obtain ⟨mdhd, mdhd_eq, h⟩ := bind_ok h
  obtain ⟨stts, stts_eq, h⟩ := bind_ok h
  obtain ⟨ctts, ctts_eq, h⟩ := bind_ok h
  obtain ⟨stsc, stsc_eq, h⟩ := bind_ok h
  obtain ⟨stsz, stsz_eq, h⟩ := bind_ok h
  obtain ⟨stss, stss_eq, h⟩ := bind_ok h
  let boxes : TrakBoxes := ⟨tkhd, mdhd, stts, ctts, stsc, stsz, stss⟩
  have length : tkhd.length = track.demuxed.tkhd.length := by
    have eight : ∀ version, (durationField version).2 = 8 ∨ (durationField version).2 = 4 := by
      intro version
      unfold durationField
      split
      · exact .inl rfl
      · exact .inr rfl
    rw [(putDuration_ok (eight _) tkhd_eq).2.1]
    obtain ⟨long, named_eq⟩ := throw_unless_ok named_eq
    cases named_eq
    exact overwrite_length (Nat.le_of_not_lt long)
  refine ⟨boxes, ⟨length, stts_eq, ctts_eq, stsc_eq, stsz_eq, stss_eq, mdhd_eq⟩, ?_⟩
  refine container_marked rfl h fun trak h => (full_wrote _ rfl _).marked ?_
  refine container_marked rfl h fun mdia h =>
    ((full_wrote _ rfl _).trans (full_wrote _ rfl _)).marked ?_
  refine container_marked rfl h fun minf h =>
    ((full_wrote _ four _).trans (full_wrote _ rfl _)).marked ?_
  refine container_marked rfl h fun stbl h => ?_
  cases h
  exact ((((((full_wrote _ rfl _).trans (full_wrote _ rfl _)).trans (fullIfAny_wrote _ rfl _)).trans
    (full_wrote _ rfl _)).trans (full_wrote _ rfl _)).trans (fullIfAny_wrote _ rfl _)).marked
    (writeStco_marked _ _)

/-! ## Chunk offsets -/

/-- A box that ends with a field of some width. -/
def EndsIn (width : Nat) (written : Bytes → Bytes) : Prop :=
  ∃ front, ∀ field, field.length = width → written field = front ++ field

theorem EndsIn.append {written : Bytes → Bytes} (ends : EndsIn width written) (before : Bytes) :
    EndsIn width fun field => before ++ written field := by
  obtain ⟨front, h⟩ := ends
  refine ⟨before ++ front, fun field same => ?_⟩
  dsimp only
  rw [h field same, List.append_assoc]

theorem EndsIn.sized {width : Nat} {written : Bytes → Bytes} (ends : EndsIn width written)
    (name : Bytes) : EndsIn width fun field => sized name (written field) := by
  obtain ⟨front, h⟩ := ends
  refine ⟨be 4 (min (front.length + width + 8) (2 ^ 32 - 1)) ++ (name ++ front), fun field same => ?_⟩
  unfold Mux.sized
  dsimp only
  rw [h field same, List.length_append, same, List.append_assoc, List.append_assoc]

/-- A track, and the headers and tables that are written for it. -/
abbrev Laid := Track × TrakBoxes

def Laid.trak (largeOffsets : Bool) (laid : Laid) (field : Bytes) : Bytes :=
  sized (kind "trak") (trakBody laid.1.demuxed laid.2 largeOffsets field)

def blank (largeOffsets : Bool) : Bytes := List.replicate (offsetWidth largeOffsets) 0

theorem blank_length : (blank largeOffsets).length = offsetWidth largeOffsets :=
  List.length_replicate

theorem trak_endsIn (laid : Laid) : EndsIn (offsetWidth largeOffsets) (laid.trak largeOffsets) := by
  have chunk : EndsIn (offsetWidth largeOffsets) oneChunk :=
    ⟨be 4 0 ++ be 4 1, fun field _ => (List.append_assoc _ _ _).symm⟩
  exact ((((((((chunk.sized _).append _).sized _).append _).sized _).append _).sized _).append _).sized _

/-- Where the chunk offsets of tracks written one after another are to be filled in. -/
def marksFrom (largeOffsets : Bool) : (start : Nat) → List Laid → List Nat
  | _, [] => []
  | start, laid :: rest =>
      let stop := start + (laid.trak largeOffsets (blank largeOffsets)).length
      (stop - offsetWidth largeOffsets) :: marksFrom largeOffsets stop rest

variable {tracks : List Track}

theorem writeTraks_ok {movieTimescale : Nat}
    (four : ∀ track ∈ tracks, track.demuxed.mediaHeader.1.length = 4) {index : Nat}
    (h : writer.writeTraks movieTimescale largeOffsets index tracks = .ok after) :
    ∃ list : List Laid, list.map Prod.fst = tracks ∧
      (∀ laid ∈ list, Builds laid.1.demuxed laid.2) ∧
      after.bytes = writer.bytes ++ list.flatMap (·.trak largeOffsets (blank largeOffsets)) ∧
      after.patch = writer.patch ++ marksFrom largeOffsets writer.bytes.length list := by
  induction tracks generalizing writer index with
  | nil =>
    cases h
    exact ⟨[], rfl, (fun laid none => by cases none), (List.append_nil _).symm,
      (List.append_nil _).symm⟩
  | cons track tracks ih =>
    obtain ⟨written, first, h⟩ := bind_ok h
    obtain ⟨boxes, builds, marked⟩ := writeTrak_marked first (four track List.mem_cons_self)
    obtain ⟨list, names, each, bytes, patch⟩ := ih
      (fun other member => four other (List.mem_cons_of_mem _ member)) h
    have one : written.bytes = writer.bytes ++
        Laid.trak largeOffsets (track, boxes) (blank largeOffsets) := marked.bytes
    have stop : written.bytes.length = writer.bytes.length +
        (Laid.trak largeOffsets (track, boxes) (blank largeOffsets)).length := by
      rw [one, List.length_append]
    refine ⟨(track, boxes) :: list, ?_, List.forall_mem_cons.mpr ⟨builds, each⟩, ?_, ?_⟩
    · rw [List.map_cons, names]
    · rw [bytes, one, List.flatMap_cons, List.append_assoc]
    · rw [patch, marked.patch, marksFrom, stop, List.append_assoc]
      rfl

theorem fillIn_ok {moov : Bytes} {at_ : Nat × Nat} (fits : at_.2 < 2 ^ 64)
    (h : fillIn largeOffsets moov at_ = .ok result) :
    at_.2 < 256 ^ offsetWidth largeOffsets ∧
      result = overwrite moov at_.1 (be (offsetWidth largeOffsets) at_.2) := by
  unfold fillIn at h
  cases largeOffsets with
  | true =>
    rw [if_pos rfl] at h
    exact ⟨fits, put_ok h⟩
  | false =>
    rw [if_neg Bool.false_ne_true] at h
    obtain ⟨small, h⟩ := throw_unless_ok h
    exact ⟨Nat.lt_of_not_le small, put_ok h⟩

/-- The field of a chunk offset takes its place. -/
theorem fillIn_blank {front rest : Bytes} (fits : start < 256 ^ offsetWidth largeOffsets) :
    fillIn largeOffsets (front ++ (blank largeOffsets ++ rest)) (front.length, start) =
      .ok (front ++ (be (offsetWidth largeOffsets) start ++ rest)) := by
  have within : ¬ (front ++ (blank largeOffsets ++ rest)).length <
      front.length + (be (offsetWidth largeOffsets) start).length := by
    simp only [List.length_append, blank_length, be_length]
    omega
  have same : (be (offsetWidth largeOffsets) start).length = (blank largeOffsets).length := by
    rw [be_length, blank_length]
  have written : put (front ++ (blank largeOffsets ++ rest)) front.length
      (be (offsetWidth largeOffsets) start) "a chunk offset was not written" =
        .ok (front ++ (be (offsetWidth largeOffsets) start ++ rest)) := by
    unfold put
    rw [if_neg within, overwrite_middle same]
  unfold fillIn
  cases largeOffsets with
  | true =>
    rw [if_pos rfl]
    exact written
  | false =>
    have small : start < 2 ^ 32 := fits
    rw [if_neg Bool.false_ne_true, if_neg (Nat.not_le_of_lt small)]
    exact written

variable {list : List Laid}

/-- Every chunk offset that its width holds is filled in. -/
theorem fillIn_every {starts : List Nat} (count : starts.length = list.length)
    (fits : ∀ start ∈ starts, start < 256 ^ offsetWidth largeOffsets) (before : Bytes) :
    ((marksFrom largeOffsets before.length list).zip starts).foldlM (fillIn largeOffsets)
        (before ++ list.flatMap (·.trak largeOffsets (blank largeOffsets))) =
      .ok (before ++ (list.zip starts).flatMap fun at_ =>
        at_.1.trak largeOffsets (be (offsetWidth largeOffsets) at_.2)) := by
  induction list generalizing starts before with
  | nil =>
    rw [List.length_eq_zero_iff.mp count]
    rfl
  | cons laid list ih =>
    cases starts with
    | nil => cases count
    | cons start starts =>
      obtain ⟨front, ends⟩ : EndsIn (offsetWidth largeOffsets) (laid.trak largeOffsets) :=
        trak_endsIn laid
      have blanked := ends (blank largeOffsets) blank_length
      have filled := ends _ (be_length (offsetWidth largeOffsets) start)
      have place : before.length + (laid.trak largeOffsets (blank largeOffsets)).length -
          offsetWidth largeOffsets = (before ++ front).length := by
        rw [blanked, List.length_append, List.length_append, blank_length]
        omega
      have stop : before.length + (laid.trak largeOffsets (blank largeOffsets)).length =
          (before ++ laid.trak largeOffsets (be (offsetWidth largeOffsets) start)).length := by
        rw [filled, blanked]
        simp only [List.length_append, blank_length, be_length]
      have apart : before ++ (laid.trak largeOffsets (blank largeOffsets) ++
          list.flatMap (·.trak largeOffsets (blank largeOffsets))) =
          (before ++ front) ++ (blank largeOffsets ++
            list.flatMap (·.trak largeOffsets (blank largeOffsets))) := by
        rw [blanked]
        simp only [List.append_assoc]
      have onward : (before ++ front) ++ (be (offsetWidth largeOffsets) start ++
          list.flatMap (·.trak largeOffsets (blank largeOffsets))) =
          (before ++ laid.trak largeOffsets (be (offsetWidth largeOffsets) start)) ++
            list.flatMap (·.trak largeOffsets (blank largeOffsets)) := by
        rw [filled]
        simp only [List.append_assoc]
      rw [marksFrom, List.zip_cons_cons, List.foldlM_cons, List.flatMap_cons, apart]
      rw [place, fillIn_blank (fits start List.mem_cons_self), ok_bind, onward, stop,
        ih (Nat.succ.inj count) fun other member => fits other (List.mem_cons_of_mem _ member)]
      simp only [List.zip_cons_cons, List.flatMap_cons, List.append_assoc]

theorem marksFrom_length (list : List Laid) (start : Nat) :
    (marksFrom largeOffsets start list).length = list.length := by
  induction list generalizing start with
  | nil => rfl
  | cons laid list ih => rw [marksFrom, List.length_cons, ih, List.length_cons]

theorem fillIn_within {places : List (Nat × Nat)} (fits : ∀ at_ ∈ places, at_.2 < 2 ^ 64)
    {moov : Bytes} (h : places.foldlM (fillIn largeOffsets) moov = .ok result) :
    ∀ at_ ∈ places, at_.2 < 256 ^ offsetWidth largeOffsets := by
  induction places generalizing moov with
  | nil => exact List.forall_mem_nil _
  | cons place places ih =>
    rw [List.foldlM_cons] at h
    obtain ⟨next, first, h⟩ := bind_ok h
    rw [List.forall_mem_cons] at fits ⊢
    exact ⟨(fillIn_ok fits.1 first).1, ih fits.2 h⟩

/-- Filling in the chunk offsets changes nothing else. -/
theorem fillIn_all (count : starts.length = list.length) (fits : ∀ start ∈ starts, start < 2 ^ 64)
    {before : Bytes}
    (h : ((marksFrom largeOffsets before.length list).zip starts).foldlM (fillIn largeOffsets)
      (before ++ list.flatMap (·.trak largeOffsets (blank largeOffsets))) = .ok result) :
    (∀ start ∈ starts, start < 256 ^ offsetWidth largeOffsets) ∧
      result = before ++ (list.zip starts).flatMap fun at_ =>
        at_.1.trak largeOffsets (be (offsetWidth largeOffsets) at_.2) := by
  have marked : ((marksFrom largeOffsets before.length list).zip starts).map Prod.snd = starts :=
    List.map_snd_zip (by rw [count, marksFrom_length])
  have within : ∀ start ∈ starts, start < 256 ^ offsetWidth largeOffsets := by
    rw [← marked, List.forall_mem_map] at fits ⊢
    exact fillIn_within fits h
  have filled := fillIn_every count within before
  rw [h] at filled
  exact ⟨within, Except.ok.inj filled⟩

/-- The header of the movie box with its first box, whatever comes after of one length. -/
theorem moov_split {mvhd : Bytes} (hundred : mvhd.length = 100) (rest : Bytes) :
    ∃ opening : Bytes, opening.length = 116 ∧ ∀ other : Bytes, other.length = rest.length →
      sized (kind "moov") (sized (kind "mvhd") mvhd ++ other) = opening ++ other := by
  refine ⟨be 4 (min ((sized (kind "mvhd") mvhd ++ rest).length + 8) (2 ^ 32 - 1)) ++
    (kind "moov" ++ sized (kind "mvhd") mvhd), ?_, fun other same => ?_⟩
  · have four : (kind "mvhd").length = 4 := rfl
    simp only [List.length_append, be_length, sized_length four, hundred]
    rfl
  · simp only [sized, List.append_assoc, List.length_append, same]

/-! ## The file -/

/-- The payload of a movie box, with the chunk offsets filled in. -/
def moovBody (largeOffsets : Bool) (mvhd : Bytes) (list : List Laid) (starts : List Nat) : Bytes :=
  sized (kind "mvhd") mvhd ++ (list.zip starts).flatMap fun at_ =>
    at_.1.trak largeOffsets (be (offsetWidth largeOffsets) at_.2)

theorem trak_length (laid : Laid) (same : field.length = offsetWidth largeOffsets) :
    (laid.trak largeOffsets field).length = (laid.trak largeOffsets (blank largeOffsets)).length := by
  obtain ⟨front, ends⟩ : EndsIn (offsetWidth largeOffsets) (laid.trak largeOffsets) := trak_endsIn laid
  rw [ends _ same, ends _ blank_length, List.length_append, List.length_append, same, blank_length]

theorem traks_length (count : starts.length = list.length) :
    ((list.zip starts).flatMap fun at_ =>
        at_.1.trak largeOffsets (be (offsetWidth largeOffsets) at_.2)).length =
      (list.flatMap (·.trak largeOffsets (blank largeOffsets))).length := by
  induction list generalizing starts with
  | nil => rfl
  | cons laid list ih =>
    cases starts with
    | nil => cases count
    | cons start starts =>
      rw [List.zip_cons_cons, List.flatMap_cons, List.flatMap_cons, List.length_append,
        List.length_append, ih (Nat.succ.inj count), trak_length laid (be_length _ _)]

theorem number_ok {n : Nat} {bytes : Bytes} (h : number n = .ok bytes) :
    n < 2 ^ 32 ∧ bytes = be 4 n := by
  obtain ⟨small, h⟩ := throw_unless_ok h
  cases h
  exact ⟨Nat.lt_of_not_le small, rfl⟩

theorem number_bind_ok {α : Type} {n : Nat} {then_ : Bytes → Except MuxError α} {a : α}
    (h : number n >>= then_ = .ok a) : n < 2 ^ 32 ∧ then_ (be 4 n) = .ok a := by
  obtain ⟨bytes, counts, h⟩ := bind_ok h
  obtain ⟨few, rfl⟩ := number_ok counts
  exact ⟨few, h⟩

theorem writeMvhd_wrote {timescale duration trackCount : Nat}
    (h : writer.writeMvhd timescale duration trackCount = .ok after) :
    ∃ mvhd, mvhd.length = 100 ∧ Wrote writer after (sized (kind "mvhd") mvhd) := by
  obtain ⟨-, h⟩ := number_bind_ok h
  obtain ⟨-, h⟩ := number_bind_ok h
  cases h
  refine ⟨_, ?_, full_wrote writer rfl _⟩
  simp only [List.length_append, be_length, List.length_replicate]
  rfl

/-- The movie box before its chunk offsets are filled in. -/
theorem buildMoov_ok {timescale duration : Nat} {movie : Writer}
    (four : ∀ track ∈ tracks, track.demuxed.mediaHeader.1.length = 4)
    (h : buildMoov tracks timescale duration largeOffsets = .ok movie) :
    ∃ (mvhd : Bytes) (list : List Laid), mvhd.length = 100 ∧ list.map Prod.fst = tracks ∧
      (∀ laid ∈ list, Builds laid.1.demuxed laid.2) ∧
      movie.bytes = sized (kind "moov") (sized (kind "mvhd") mvhd ++
        list.flatMap (·.trak largeOffsets (blank largeOffsets))) ∧
      movie.patch = marksFrom largeOffsets 116 list := by
  obtain ⟨built, done, h⟩ := bind_ok h
  cases h
  obtain ⟨headed, first, done⟩ := bind_ok done
  obtain ⟨mvhd, hundred, wrote⟩ := writeMvhd_wrote first
  obtain ⟨list, names, each, bytes, patch⟩ := writeTraks_ok four done
  refine ⟨mvhd, list, hundred, names, each, ?_, ?_⟩
  · have content : built.bytes = (Writer.default.openBox (kind "moov")).bytes ++
        (sized (kind "mvhd") mvhd ++ list.flatMap (·.trak largeOffsets (blank largeOffsets))) := by
      rw [bytes, wrote.bytes, List.append_assoc]
    exact closeBox_bytes rfl content
  · have at_ : headed.bytes.length = 116 := by
      rw [wrote.bytes, List.length_append, sized_length rfl, hundred]
      rfl
    change built.patch = _
    rw [patch, wrote.patch, at_]
    rfl

theorem chunkStarts_ok {start : Nat} (h : chunkStarts start tracks = .ok starts) :
    starts = IsoMedia.runningOffsets start (tracks.map (·.demuxed.sampleBytes)) ∧
      (start < 2 ^ 64 → ∀ at_ ∈ starts, at_ < 2 ^ 64) := by
  induction tracks generalizing start starts with
  | nil =>
    cases h
    exact ⟨rfl, fun _ at_ none => by cases none⟩
  | cons track tracks ih =>
    obtain ⟨small, h⟩ := throw_unless_ok h
    obtain ⟨rest, more, same⟩ := map_ok h
    obtain ⟨rest_eq, fits⟩ := ih more
    cases same
    refine ⟨congrArg (start :: ·) rest_eq, fun first => List.forall_mem_cons.mpr ⟨first, ?_⟩⟩
    exact fits (Nat.lt_of_not_le small)

/-- The bytes of the samples of a track, in order. -/
def sampleData (track : Track) : Bytes :=
  track.demuxed.samples.flatMap fun sample => slice track.source sample.offset sample.size

/-- What a sample of a source is: as many bytes as it says. -/
theorem copySamples_ok {source : Bytes} {samples : List Sample} {copied : Bytes}
    (h : copySamples source samples = .ok copied) :
    copied = samples.flatMap (fun sample => slice source sample.offset sample.size) ∧
      ∀ sample ∈ samples, (slice source sample.offset sample.size).length = sample.size := by
  induction samples generalizing copied with
  | nil =>
    cases h
    exact ⟨rfl, fun sample none => by cases none⟩
  | cons sample samples ih =>
    obtain ⟨inside, h⟩ := throw_unless_ok h
    obtain ⟨rest, more, same⟩ := map_ok h
    obtain ⟨rest_eq, each⟩ := ih more
    cases same
    refine ⟨congrArg (_ ++ ·) rest_eq, List.forall_mem_cons.mpr ⟨?_, each⟩⟩
    unfold slice
    rw [List.length_take, List.length_drop]
    omega

theorem mdatHeader_length (payload : Nat) : (mdatHeader payload).length = mdatHeaderSize payload := by
  have size : mdatHeaderSize payload = 8 ∨ mdatHeaderSize payload = 16 := by
    unfold mdatHeaderSize
    split
    · exact .inr rfl
    · exact .inl rfl
  unfold mdatHeader
  cases size with
  | inl short =>
    rw [if_pos short, short, List.length_append, be_length]
    rfl
  | inr long =>
    rw [if_neg (by omega), long, List.length_append, List.length_append, be_length, be_length]
    rfl

/-- How a written file is laid out. -/
structure LaidOut (tracks : List Track) (output : Bytes) (largeOffsets : Bool) (mvhd : Bytes)
    (list : List Laid) (starts : List Nat) : Prop where
  names : list.map Prod.fst = tracks
  builds : ∀ laid ∈ list, Builds laid.1.demuxed laid.2
  head : mvhd.length = 100
  places : starts = IsoMedia.runningOffsets
    (buildFtyp.length + (sized (kind "moov") (moovBody largeOffsets mvhd list starts)).length +
      (mdatHeader (payloadBytes tracks)).length)
    (tracks.map (·.demuxed.sampleBytes))
  fits : ∀ start ∈ starts, start < 256 ^ offsetWidth largeOffsets
  bytes : output = buildFtyp ++ sized (kind "moov") (moovBody largeOffsets mvhd list starts) ++
    mdatHeader (payloadBytes tracks) ++ tracks.flatMap sampleData
  samples : ∀ track ∈ tracks, ∀ sample ∈ track.demuxed.samples,
    (slice track.source sample.offset sample.size).length = sample.size

theorem mapM_copySamples {copied : List Bytes}
    (h : (tracks.mapM fun track => copySamples track.source track.demuxed.samples) = .ok copied) :
    copied.flatten = tracks.flatMap sampleData ∧
      ∀ track ∈ tracks, ∀ sample ∈ track.demuxed.samples,
        (slice track.source sample.offset sample.size).length = sample.size := by
  have both := mapM_ok h
  clear h
  induction both with
  | nil => exact ⟨rfl, fun track none => by cases none⟩
  | cons first _ ih =>
    obtain ⟨data, lengths⟩ := copySamples_ok first
    refine ⟨?_, List.forall_mem_cons.mpr ⟨lengths, ih.2⟩⟩
    rw [List.flatten_cons, ih.1, data]
    rfl

theorem sampleData_length (each : ∀ track ∈ tracks, ∀ sample ∈ track.demuxed.samples,
      (slice track.source sample.offset sample.size).length = sample.size) :
    (tracks.flatMap sampleData).length = payloadBytes tracks := by
  unfold payloadBytes
  rw [List.length_flatMap]
  refine congrArg List.sum (List.map_congr_left fun track member => ?_)
  unfold sampleData DemuxedTrack.sampleBytes
  rw [List.length_flatMap]
  exact congrArg List.sum (List.map_congr_left fun sample inside => each track member sample inside)

variable {tracks : List Track} {force : Bool} {output : Output}

theorem writeMp4Layout_ok (h : writeMp4Layout tracks force = .ok output)
    (four : ∀ track ∈ tracks, track.demuxed.mediaHeader.1.length = 4) :
    ∃ compact largeOffsets mvhd list starts,
      buildMoov tracks movieTimescale (movieDuration tracks) false = .ok compact ∧
      largeOffsets = usesLarge tracks force compact.bytes.length ∧
      LaidOut tracks output.bytes largeOffsets mvhd list starts ∧
      output.total = output.bytes.length := by
  obtain ⟨compact, small, h⟩ := bind_ok h
  obtain ⟨movie, chosen, h⟩ := bind_ok h
  obtain ⟨large, h⟩ := throw_unless_ok h
  obtain ⟨starts, begun, h⟩ := bind_ok h
  obtain ⟨moov, filled, h⟩ := bind_ok h
  obtain ⟨copied, copies, h⟩ := bind_ok h
  cases h
  generalize choice : usesLarge tracks force compact.bytes.length = largeOffsets at chosen filled
  have built : buildMoov tracks movieTimescale (movieDuration tracks) largeOffsets = .ok movie := by
    cases largeOffsets with
    | true => exact chosen
    | false =>
      cases chosen
      exact small
  obtain ⟨mvhd, list, hundred, names, each, bytes, patch⟩ := buildMoov_ok four built
  obtain ⟨places, fits⟩ := chunkStarts_ok begun
  have begins : buildFtyp.length + movie.bytes.length +
      mdatHeaderSize (payloadBytes tracks) < 2 ^ 64 := by
    omega
  have count : starts.length = list.length := by
    rw [places, IsoMedia.runningOffsets_length, List.length_map, ← names, List.length_map]
  obtain ⟨opening, long, whole⟩ := moov_split hundred
    (list.flatMap (·.trak largeOffsets (blank largeOffsets)))
  have split := bytes.trans (whole _ rfl)
  rw [patch, split, ← long] at filled
  obtain ⟨within, moov_eq⟩ := fillIn_all count (fits begins) filled
  have same : moov = sized (kind "moov") (moovBody largeOffsets mvhd list starts) := by
    rw [moov_eq]
    exact (whole _ (traks_length count)).symm
  have lengths : movie.bytes.length = moov.length := by
    rw [split, moov_eq, @List.length_append _ opening, @List.length_append _ opening,
      traks_length count]
  obtain ⟨data, sizes⟩ := mapM_copySamples copies
  refine ⟨compact, largeOffsets, mvhd, list, starts, small, choice.symm,
    ⟨names, each, hundred, ?_, within, ?_, sizes⟩, ?_⟩
  · rw [← same, ← lengths, mdatHeader_length]
    exact places
  · rw [← same, ← data]
  · have copies_length : copied.flatten.length = payloadBytes tracks := by
      rw [data]
      exact sampleData_length sizes
    simp only [List.length_append, lengths, mdatHeader_length, copies_length]

end Gunda.Stream.Mux
