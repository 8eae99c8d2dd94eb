import Gunda.Stream.Ts.Carriage
import Gunda.Stream.Ts.Sections

/-!
# ADTS streams

ADTS frames and the ID3 tags between them, written from their fields, and what the rounds of
`AudioTrack::push` make of them.
-/
namespace Gunda.Stream.Ts

open Gunda.Lib
open AudioTrack (adtsHeader adtsLength default flush frameRound isAdtsSync pushRounds tagRound)

variable {tail : Bytes} {frames : List Bytes}

/-! ## Frames -/

/-- An ADTS frame. `copy` are the four flags behind the channel configuration, `blocks` the
raw data blocks it holds besides the first one. -/
structure AdtsFrame where
  mpeg2 : Bool
  profile : Nat
  frequencyIndex : Nat
  privateBit : Bool
  channelConfiguration : Nat
  copy : Nat
  fullness : Nat
  blocks : Nat
  check : Option (UInt8 × UInt8)
  payload : Bytes
  profile_lt : profile < 4
  frequencyIndex_lt : frequencyIndex < 16
  channelConfiguration_lt : channelConfiguration < 8
  copy_lt : copy < 16
  fullness_lt : fullness < 2 ^ 11
  blocks_lt : blocks < 4
  fits : (if check.isSome then 9 else 7) + payload.length < 2 ^ 13

namespace AdtsFrame

def header (frame : AdtsFrame) : Nat := if frame.check.isSome then 9 else 7

def length (frame : AdtsFrame) : Nat := frame.header + frame.payload.length

/-- The bytes behind the sync word, up to the check. -/
def fields (frame : AdtsFrame) : Bytes :=
  [UInt8.ofNat (64 * frame.profile + 4 * frame.frequencyIndex + 2 * frame.privateBit.toNat +
      frame.channelConfiguration / 4),
    UInt8.ofNat (64 * (frame.channelConfiguration % 4) + 4 * frame.copy + frame.length / 2048),
    UInt8.ofNat (frame.length / 8 % 256),
    UInt8.ofNat (32 * (frame.length % 8) + frame.fullness / 64),
    UInt8.ofNat (4 * (frame.fullness % 64) + frame.blocks)]

def encode (frame : AdtsFrame) : Bytes :=
  [0xFF, UInt8.ofNat (240 + 8 * frame.mpeg2.toNat + (if frame.check.isSome then 0 else 1))] ++
    frame.fields ++ (frame.check.elim [] fun check => [check.1, check.2]) ++ frame.payload

/-- The PCM samples of a frame, for each channel. -/
def pcmSamples (frame : AdtsFrame) : Nat := aacFrameSamples * (frame.blocks + 1)

theorem length_lt (frame : AdtsFrame) : frame.length < 2 ^ 13 := frame.fits

theorem encode_length (frame : AdtsFrame) : frame.encode.length = frame.length := by
  unfold encode fields length header
  cases frame.check with
  | none => simp only [List.length_append, List.length_cons, List.length_nil, Option.elim_none,
      Option.isSome_none, if_neg Bool.false_ne_true]
  | some check => simp only [List.length_append, List.length_cons, List.length_nil,
      Option.elim_some, Option.isSome_some, if_pos]

theorem header_le (frame : AdtsFrame) : 7 ≤ frame.header ∧ frame.header ≤ frame.length := by
  unfold length header
  split <;> omega

end AdtsFrame

/-- A stereo frame of the given profile, at 44.1 kHz. -/
def stereoFrame (profile : Nat) (small : profile < 4) : AdtsFrame where
  mpeg2 := false
  profile := profile
  frequencyIndex := 4
  privateBit := false
  channelConfiguration := 2
  copy := 0
  fullness := 2047
  blocks := 0
  check := none
  payload := [0xDE, 0x04]
  profile_lt := small
  frequencyIndex_lt := by decide
  channelConfiguration_lt := by decide
  copy_lt := Nat.succ_pos _
  fullness_lt := by decide
  blocks_lt := Nat.succ_pos _
  fits := by decide

theorem mainProfile_lt : 0 < 4 := by decide

theorem lowComplexity_lt : 1 < 4 := by decide

theorem and_1 (n : Nat) : n &&& 1 = n % 2 := Nat.and_two_pow_sub_one_eq_mod n 1

theorem and_3 (n : Nat) : n &&& 3 = n % 4 := Nat.and_two_pow_sub_one_eq_mod n 2

theorem and_15 (n : Nat) : n &&& 15 = n % 16 := Nat.and_two_pow_sub_one_eq_mod n 4

theorem toNat_shiftRight (byte : UInt8) {i : UInt8} {n : Nat} (small : i.toNat < 8)
    (power : 2 ^ i.toNat = n) : (byte >>> i).toNat = byte.toNat / n := by
  rw [UInt8.toNat_shiftRight, Nat.mod_eq_of_lt small, Nat.shiftRight_eq_div_pow, power]

/-- The bytes begin with the header of a frame. -/
def Begins (frame : AdtsFrame) (bytes : Bytes) : Prop :=
  ∀ i < 7, byteAt bytes i = byteAt frame.encode i

section Begins

variable {frame : AdtsFrame} {bytes : Bytes}

theorem isAdtsSync_encode (frame : AdtsFrame) :
    isAdtsSync (byteAt frame.encode 0) (byteAt frame.encode 1) = true := by
  unfold isAdtsSync
  have second : byteAt frame.encode 1 =
    UInt8.ofNat (240 + 8 * frame.mpeg2.toNat + (if frame.check.isSome then 0 else 1)) := rfl
  have masked : byteAt frame.encode 1 &&& 0xF6 = 0xF0 := by
    rw [second]
    generalize frame.mpeg2 = mpeg2
    generalize frame.check.isSome = checked
    revert mpeg2 checked
    decide
  rw [masked]
  rfl

section

variable (begins : Begins frame bytes)
include begins

theorem Begins.sync :
    isAdtsSync (byteAt bytes 0) (byteAt bytes 1) = true := by
  rw [begins 0 (by decide), begins 1 (by decide)]
  exact isAdtsSync_encode frame

theorem Begins.header :
    adtsHeader bytes = frame.header := by
  unfold adtsHeader AdtsFrame.header
  rw [begins 1 (by decide)]
  change (if UInt8.ofNat (240 + 8 * frame.mpeg2.toNat + (if frame.check.isSome then 0 else 1)) &&&
    0x01 = 0 then 9 else 7) = _
  generalize frame.mpeg2 = mpeg2
  generalize frame.check.isSome = checked
  revert mpeg2 checked
  decide

theorem Begins.length :
    adtsLength bytes = frame.length := by
  have small := frame.length_lt
  have copy := frame.copy_lt
  have fullness := frame.fullness_lt
  have third : (byteAt bytes 3 &&& 0x03).toNat = frame.length / 2048 := by
    rw [begins 3 (by decide)]
    change (UInt8.ofNat (64 * (frame.channelConfiguration % 4) + 4 * frame.copy +
      frame.length / 2048) &&& 0x03).toNat = _
    rw [UInt8.toNat_and, toNat_ofNat (by omega)]
    refine (and_3 _).trans ?_
    omega
  have fourth : (byteAt bytes 4).toNat = frame.length / 8 % 256 := by
    rw [begins 4 (by decide)]
    exact toNat_ofNat (by omega)
  have fifth : (byteAt bytes 5).toNat = 32 * (frame.length % 8) + frame.fullness / 64 := by
    rw [begins 5 (by decide)]
    exact toNat_ofNat (by omega)
  have high : frame.length / 2048 * 2 ^ 11 ||| frame.length / 8 % 256 * 2 ^ 3 =
      frame.length / 8 * 2 ^ 3 := by
    rw [or_eq_add (a := frame.length / 2048) 11 (by omega) (by omega)]
    omega
  have low : (32 * (frame.length % 8) + frame.fullness / 64) / 2 ^ 5 = frame.length % 8 := by
    omega
  unfold adtsLength
  rw [third, fourth, fifth, Nat.shiftLeft_eq, Nat.shiftLeft_eq, Nat.shiftRight_eq_div_pow, high,
    low, or_eq_add (a := frame.length / 8) 3 (by omega) (by omega)]
  omega

/-- The configuration of a frame, as it is read. -/
theorem Begins.configuration : ((byteAt bytes 2 >>> 6) &&& 0x03).toNat = frame.profile ∧
      ((byteAt bytes 2 >>> 2) &&& 0x0F).toNat = frame.frequencyIndex ∧
      (((byteAt bytes 2 &&& 0x01) <<< 2) ||| (byteAt bytes 3 >>> 6)).toNat =
        frame.channelConfiguration := by
  have profile := frame.profile_lt
  have index := frame.frequencyIndex_lt
  have channels := frame.channelConfiguration_lt
  have copy := frame.copy_lt
  have small := frame.length_lt
  have bit := frame.privateBit.toNat_le
  have second : (byteAt bytes 2).toNat = 64 * frame.profile + 4 * frame.frequencyIndex +
      2 * frame.privateBit.toNat + frame.channelConfiguration / 4 := by
    rw [begins 2 (by decide)]
    exact toNat_ofNat (by omega)
  have third : (byteAt bytes 3).toNat = 64 * (frame.channelConfiguration % 4) + 4 * frame.copy +
      frame.length / 2048 := by
    rw [begins 3 (by decide)]
    exact toNat_ofNat (by omega)
  refine ⟨?_, ?_, ?_⟩
  · rw [UInt8.toNat_and, toNat_shiftRight (n := 64) _ (by decide) rfl, second]
    refine (and_3 _).trans ?_
    omega
  · rw [UInt8.toNat_and, toNat_shiftRight (n := 4) _ (by decide) rfl, second]
    refine (and_15 _).trans ?_
    omega
  · have low : (byteAt bytes 2 &&& 0x01).toNat = frame.channelConfiguration / 4 := by
      rw [UInt8.toNat_and, second]
      refine (and_1 _).trans ?_
      omega
    have high : (byteAt bytes 3 >>> 6).toNat = frame.channelConfiguration % 4 := by
      rw [toNat_shiftRight (n := 64) _ (by decide) rfl, third]
      omega
    rw [UInt8.toNat_or, UInt8.toNat_shiftLeft, low, high]
    change (frame.channelConfiguration / 4) <<< 2 % 256 ||| frame.channelConfiguration % 4 = _
    rw [Nat.shiftLeft_eq, Nat.mod_eq_of_lt (by omega),
      or_eq_add (a := frame.channelConfiguration / 4) 2 (by omega) (by omega)]
    omega

end

end Begins

/-! ## Tags -/

/-- An ID3v2 tag. One with a footer has a flag that tells of it. -/
structure Id3Tag where
  version : UInt8 × UInt8
  flags : UInt8
  body : Bytes
  footer : Bytes
  body_lt : body.length < 2 ^ 28
  footer_length : footer.length = if flags &&& 0x10 ≠ 0 then 10 else 0

namespace Id3Tag

/-- The size of the body, seven bits a byte. -/
def size (tag : Id3Tag) : Bytes :=
  [UInt8.ofNat (tag.body.length / 2 ^ 21), UInt8.ofNat (tag.body.length / 2 ^ 14 % 128),
    UInt8.ofNat (tag.body.length / 2 ^ 7 % 128), UInt8.ofNat (tag.body.length % 128)]

def encode (tag : Id3Tag) : Bytes :=
  [0x49, 0x44, 0x33, tag.version.1, tag.version.2, tag.flags] ++ tag.size ++ tag.body ++ tag.footer

theorem encode_length (tag : Id3Tag) :
    tag.encode.length = 10 + tag.body.length + tag.footer.length := by
  simp only [encode, size, List.length_append, List.length_cons, List.length_nil]

end Id3Tag

theorem toNat_sevenBits {byte : UInt8} {n : Nat} (same : byte = UInt8.ofNat n) (small : n < 128) :
    (byte &&& 0x7F).toNat = n := by
  rw [same, UInt8.toNat_and, toNat_ofNat (by omega)]
  refine (and_127 n).trans ?_
  exact Nat.mod_eq_of_lt small

variable {bytes : Bytes}

theorem take_three (long : 3 ≤ bytes.length) :
    bytes.take 3 = [byteAt bytes 0, byteAt bytes 1, byteAt bytes 2] := by
  match bytes, long with
  | _ :: _ :: _ :: _, _ => rfl

/-- The bytes begin with the header of a tag. -/
def Tagged (tag : Id3Tag) (bytes : Bytes) : Prop :=
  ∀ i < 10, byteAt bytes i = byteAt tag.encode i

theorem take_id3 {tag : Id3Tag} (long : 3 ≤ bytes.length)
    (same : ∀ i < 3, byteAt bytes i = byteAt tag.encode i) :
    bytes.take 3 = [0x49, 0x44, 0x33] := by
  rw [take_three long, same 0 (by decide), same 1 (by decide), same 2 (by decide)]
  rfl

theorem Tagged.id3 {tag : Id3Tag} (tagged : Tagged tag bytes) (long : 10 ≤ bytes.length) :
    bytes.take 3 = [0x49, 0x44, 0x33] :=
  take_id3 (by omega) fun i small => tagged i (by omega)

theorem Tagged.length {tag : Id3Tag} (tagged : Tagged tag bytes) (long : 10 ≤ bytes.length) :
    id3v2Length bytes = some tag.encode.length := by
  have small := tag.body_lt
  have sixth : (byteAt bytes 6 &&& 0x7F).toNat = tag.body.length / 2 ^ 21 :=
    toNat_sevenBits (tagged 6 (by decide)) (by omega)
  have seventh : (byteAt bytes 7 &&& 0x7F).toNat = tag.body.length / 2 ^ 14 % 128 :=
    toNat_sevenBits (tagged 7 (by decide)) (by omega)
  have eighth : (byteAt bytes 8 &&& 0x7F).toNat = tag.body.length / 2 ^ 7 % 128 :=
    toNat_sevenBits (tagged 8 (by decide)) (by omega)
  have ninth : (byteAt bytes 9 &&& 0x7F).toNat = tag.body.length % 128 :=
    toNat_sevenBits (tagged 9 (by decide)) (by omega)
  have flags : byteAt bytes 5 = tag.flags := tagged 5 (by decide)
  have headed : ¬ (bytes.length < 10 ∨ bytes.take 3 ≠ [0x49, 0x44, 0x33]) := by
    rw [tagged.id3 long]
    simp only [ne_eq, not_true_eq_false, or_false]
    omega
  have upper : tag.body.length / 2 ^ 21 * 2 ^ 21 ||| tag.body.length / 2 ^ 14 % 128 * 2 ^ 14 =
      tag.body.length / 2 ^ 14 * 2 ^ 14 := by
    rw [or_eq_add (a := tag.body.length / 2 ^ 21) 21 (by omega) (by omega)]
    omega
  have middle : tag.body.length / 2 ^ 14 * 2 ^ 14 ||| tag.body.length / 2 ^ 7 % 128 * 2 ^ 7 =
      tag.body.length / 2 ^ 7 * 2 ^ 7 := by
    rw [or_eq_add (a := tag.body.length / 2 ^ 14) 14 (by omega) (by omega)]
    omega
  have lower : tag.body.length / 2 ^ 7 * 2 ^ 7 ||| tag.body.length % 128 = tag.body.length := by
    rw [or_eq_add (a := tag.body.length / 2 ^ 7) 7 (by omega) (by omega)]
    omega
  unfold id3v2Length
  rw [if_neg headed, sixth, seventh, eighth, ninth, flags, tag.encode_length, tag.footer_length]
  simp only [Nat.shiftLeft_eq]
  rw [upper, middle, lower]

/-! ## Items -/

/-- What an ADTS stream consists of. -/
inductive AdtsItem where
  | tag (tag : Id3Tag)
  | frame (frame : AdtsFrame)

def AdtsItem.encode : AdtsItem → Bytes
  | .tag id3 => id3.encode
  | .frame adts => adts.encode

def encodeItems : List AdtsItem → Bytes
  | [] => []
  | item :: items => item.encode ++ encodeItems items

def framesOf : List AdtsItem → List AdtsFrame
  | [] => []
  | .tag _ :: items => framesOf items
  | .frame frame :: items => frame :: framesOf items

/-- The beginning of an item that breaks off before its end. -/
def BrokenOff (bytes : Bytes) : Prop :=
  ∃ (item : AdtsItem) (rest : Bytes), rest ≠ [] ∧ bytes ++ rest = item.encode

theorem byteAt_of_append {rest encoded more : Bytes} {i : Nat}
    (same : bytes ++ rest = encoded ++ more) (inside : i < bytes.length)
    (within : i < encoded.length) : byteAt bytes i = byteAt encoded i := by
  rw [← byteAt_append inside rest, same, byteAt_append within more]

section Rounds

variable {track : AudioTrack} {frame : AdtsFrame} {tag : Id3Tag} {rest more : Bytes}

section

variable (same : track.pending ++ rest = frame.encode ++ more)
include same

theorem begins_of_append (long : 7 ≤ track.pending.length) : Begins frame track.pending := by
  intro i small
  refine byteAt_of_append same (by omega) ?_
  rw [frame.encode_length]
  have := frame.header_le
  omega

omit same in
theorem tagged_of_append (same : track.pending ++ rest = tag.encode ++ more)
    (long : 10 ≤ track.pending.length) : Tagged tag track.pending := by
  intro i small
  refine byteAt_of_append same (by omega) ?_
  rw [tag.encode_length]
  omega

theorem not_id3 :
    track.pending.take 3 ≠ [0x49, 0x44, 0x33] := by
  intro id3
  cases front : track.pending with
  | nil =>
    rw [front] at id3
    cases id3
  | cons byte pending =>
    rw [front] at id3 same
    have first : byte = 0xFF := (List.cons.inj same).1
    have tagged : byte = 0x49 := (List.cons.inj id3).1
    rw [first] at tagged
    cases tagged

/-- While a frame stands in front, a round waits for the rest of it. -/
theorem round_frame_short
    (short : track.pending.length < frame.length) : track.round = .ok (.stop track) := by
  unfold AudioTrack.round
  rw [if_neg (not_id3 same)]
  by_cases long : track.pending.length < 7
  · rw [if_pos long]
  · have begins := begins_of_append same (by omega)
    rw [if_neg long, begins.sync, Bool.not_true, if_neg Bool.false_ne_true]
    unfold frameRound
    dsimp only
    rw [begins.header, begins.length, if_neg (Nat.not_lt.mpr frame.header_le.2), if_pos short]
    split <;> rfl

end

theorem round_frame (same : track.pending = frame.encode ++ more) :
    track.round = (do
      let configured ← track.configure
      pure (.frame { configured with pending := configured.pending.drop frame.length }
        (Bytes.slice configured.pending frame.header (frame.length - frame.header)))) := by
  have whole : frame.length ≤ track.pending.length := by
    rw [same, List.length_append, frame.encode_length]
    exact Nat.le_add_right _ _
  have header := frame.header_le
  have begun : track.pending ++ [] = frame.encode ++ more := (List.append_nil _).trans same
  have begins := begins_of_append begun (by omega)
  unfold AudioTrack.round
  rw [if_neg (not_id3 begun), if_neg (by omega), begins.sync, Bool.not_true,
    if_neg Bool.false_ne_true]
  unfold frameRound
  rw [begins.header, begins.length, if_neg (by omega), if_neg (by omega), if_neg (by omega)]

theorem round_tag_short (same : track.pending ++ rest = tag.encode ++ more)
    (short : track.pending.length < tag.encode.length) : track.round = .ok (.stop track) := by
  by_cases long : track.pending.length < 10
  · have waits : track.tagRound = .stop track := by
      unfold tagRound
      rw [if_pos long]
    unfold AudioTrack.round
    split
    · rw [waits]
    · rename_i id3
      have few : track.pending.length < 3 := by
        by_contra many
        refine id3 (take_id3 (by omega) fun i small => byteAt_of_append same (by omega) ?_)
        rw [tag.encode_length]
        omega
      rw [if_pos (by omega)]
  · have tagged := tagged_of_append same (by omega)
    unfold AudioTrack.round
    rw [if_pos (tagged.id3 (by omega))]
    unfold tagRound
    rw [if_neg long, tagged.length (by omega)]
    dsimp only
    rw [if_pos short]

theorem round_tag (same : track.pending = tag.encode ++ more) :
    track.round = .ok (.again { track with pending := more }) := by
  have size := tag.encode_length
  have whole : tag.encode.length ≤ track.pending.length := by
    rw [same, List.length_append]
    exact Nat.le_add_right _ _
  have tagged := tagged_of_append ((List.append_nil _).trans same) (by omega)
  unfold AudioTrack.round
  rw [if_pos (tagged.id3 (by omega))]
  unfold tagRound
  rw [if_neg (by omega), tagged.length (by omega)]
  dsimp only
  rw [if_neg (by omega), same, List.drop_left]

end Rounds

/-! ## Runs -/

/-- What a track has taken from the frames so far. -/
structure Configured (frames : List AdtsFrame) (track : AudioTrack) : Prop where
  unset : frames = [] → track.sampleRate = none
  first : ∀ first rest, frames = first :: rest → track.objectType = first.profile + 1 ∧
    track.frequencyIndex = first.frequencyIndex ∧ track.channelCount = first.channelConfiguration
  rates : ∀ frame ∈ frames, track.sampleRate = sampleRates[frame.frequencyIndex]? ∧
    track.sampleRate.isSome = true

variable {done : List AdtsFrame} {items : List AdtsItem} {track : AudioTrack}

theorem Configured.configure {frame : AdtsFrame} {configured : AudioTrack}
    (before : Configured done track) (begins : Begins frame track.pending)
    (h : track.configure = .ok configured) :
    Configured (done ++ [frame]) configured ∧ configured.pending = track.pending := by
  obtain ⟨profile, index, channels⟩ := begins.configuration
  unfold AudioTrack.configure at h
  rw [profile, index, channels] at h
  dsimp only at h
  cases named : sampleRates[frame.frequencyIndex]? with
  | none =>
    rw [named] at h
    cases h
  | some rate =>
    rw [named] at h
    obtain ⟨_, h⟩ := throw_unless_ok h
    cases known : track.sampleRate with
    | some held =>
      rw [known] at h
      obtain ⟨same, h⟩ := throw_unless_ok h
      cases h
      have equal : held = rate := Decidable.not_not.mp same
      have some_ : done ≠ [] := by
        intro none
        rw [before.unset none] at known
        cases known
      refine ⟨⟨fun none => ?_, fun first rest split => ?_, fun one member => ?_⟩, rfl⟩
      · cases List.append_eq_nil_iff.mp none |>.2
      · cases done with
        | nil => exact absurd rfl some_
        | cons one others =>
          have same := (List.cons.inj split).1
          subst same
          exact before.first one others rfl
      · cases List.mem_append.mp member with
        | inl old => exact before.rates one old
        | inr new =>
          cases List.mem_singleton.mp new
          rw [named, known, equal]
          exact ⟨rfl, rfl⟩
    | none =>
      rw [known] at h
      cases h
      have empty : done = [] := by
        cases done with
        | nil => rfl
        | cons head tail =>
          have rate := (before.rates head (List.mem_cons_self ..)).2
          rw [known] at rate
          cases rate
      subst empty
      refine ⟨⟨fun none => ?_, fun first rest split => ?_, fun one member => ?_⟩, rfl⟩
      · cases none
      · cases split
        exact ⟨rfl, rfl, rfl⟩
      · cases List.mem_singleton.mp member
        rw [named]
        exact ⟨rfl, rfl⟩

theorem encode_payload (frame : AdtsFrame) :
    ∃ front, frame.encode = front ++ frame.payload ∧ front.length = frame.header := by
  refine ⟨_, rfl, ?_⟩
  unfold AdtsFrame.header
  cases frame.check with
  | none => rfl
  | some check => rfl

theorem slice_payload (frame : AdtsFrame) (more : Bytes) :
    Bytes.slice (frame.encode ++ more) frame.header (frame.length - frame.header) =
      frame.payload := by
  obtain ⟨front, split, size⟩ := encode_payload frame
  rw [AdtsFrame.length, Nat.add_sub_cancel_left, split, ← size]
  exact Bytes.slice_append front frame.payload more

theorem round_brokenOff (unfinished : BrokenOff track.pending) :
    track.round = .ok (.stop track) := by
  obtain ⟨item, rest, more, same⟩ := unfinished
  have short : track.pending.length < item.encode.length := by
    have := List.length_pos_of_ne_nil more
    rw [← same, List.length_append]
    omega
  have begun := same.trans (List.append_nil item.encode).symm
  cases item with
  | tag tag => exact round_tag_short begun short
  | frame frame => exact round_frame_short begun (frame.encode_length ▸ short)

theorem encode_pos (item : AdtsItem) : 0 < item.encode.length := by
  cases item with
  | tag tag =>
    have := tag.encode_length
    change 0 < tag.encode.length
    omega
  | frame frame =>
    have := frame.encode_length
    have := frame.header_le
    change 0 < frame.encode.length
    omega

/-- The rounds take every whole item and leave the one that breaks off. -/
theorem pushRounds_items {rounds : Nat} {pushed : AudioTrack} {all : List Bytes}
    (stands : track.pending = encodeItems items ++ tail) (unfinished : BrokenOff tail)
    (before : Configured done track) (enough : track.pending.length < rounds)
    (h : pushRounds rounds track frames = .ok (pushed, all)) :
    pushed.pending = tail ∧ all = frames ++ (framesOf items).map AdtsFrame.payload ∧
      Configured (done ++ framesOf items) pushed := by
  induction items generalizing rounds track frames done with
  | nil =>
    cases rounds with
    | zero => cases enough
    | succ rounds =>
      have still : track.pending = tail := stands
      unfold pushRounds at h
      rw [round_brokenOff (still ▸ unfinished)] at h
      cases h
      refine ⟨still, (List.append_nil _).symm, ?_⟩
      rw [framesOf, List.append_nil]
      exact before
  | cons item items ih =>
    cases rounds with
    | zero => cases enough
    | succ rounds =>
      unfold pushRounds at h
      rw [encodeItems, List.append_assoc] at stands
      have size := encode_pos item
      rw [stands, List.length_append] at enough
      cases item with
      | tag tag =>
        rw [round_tag stands] at h
        have kept : Configured done { track with pending := encodeItems items ++ tail } :=
          ⟨before.unset, before.first, before.rates⟩
        refine ih rfl kept ?_ h
        dsimp only
        omega
      | frame frame =>
        rw [round_frame stands] at h
        obtain ⟨round, found, h⟩ := bind_ok h
        obtain ⟨configured, adopted, found⟩ := bind_ok found
        cases found
        have begun := (List.append_nil _).trans stands
        have long : 7 ≤ track.pending.length := by
          have := frame.header_le
          have := frame.encode_length
          rw [stands, List.length_append]
          change _ ≤ frame.encode.length + _
          omega
        obtain ⟨kept, same⟩ := before.configure (begins_of_append begun long) adopted
        have left : configured.pending.drop frame.length = encodeItems items ++ tail := by
          rw [same, stands, ← frame.encode_length]
          exact List.drop_left
        have found : Bytes.slice configured.pending frame.header (frame.length - frame.header) =
            frame.payload := by
          rw [same, stands]
          exact slice_payload frame _
        rw [left, found] at h
        have next : Configured (done ++ [frame])
            { configured with pending := encodeItems items ++ tail } :=
          ⟨kept.unset, kept.first, kept.rates⟩
        obtain ⟨rest, gained, final⟩ := ih rfl next (by dsimp only; omega) h
        rw [List.append_assoc] at gained final
        exact ⟨rest, gained, final⟩

/-! ## Chunks -/

/-- Feeds one chunk and gathers the frames. -/
def pushChunk (state : AudioTrack × List Bytes) (chunk : Bytes) :
    Except MuxError (AudioTrack × List Bytes) :=
  state.1.push chunk state.2

/-- The frames found in chunks. -/
def framing (chunks : List Bytes) : Except MuxError (List Bytes) := do
  let (track, frames) ← chunks.foldlM pushChunk (.default, [])
  pure (track.flush frames).2

theorem brokenOff_nil : BrokenOff [] := by
  refine ⟨.tag ⟨(4, 0), 0, [], [], by decide, by decide⟩, _, ?_, rfl⟩
  intro none
  cases none

theorem brokenOff_front {more : Bytes} (unfinished : BrokenOff (bytes ++ more)) :
    BrokenOff bytes := by
  obtain ⟨item, rest, some_, same⟩ := unfinished
  refine ⟨item, more ++ rest, ?_, ?_⟩
  · intro none
    exact some_ (List.append_eq_nil_iff.mp none).2
  · rw [← List.append_assoc]
    exact same

/-- No whole item stands in front of what breaks off. -/
theorem brokenOff_items (unfinished : BrokenOff (encodeItems items ++ tail)) : items = [] := by
  cases items with
  | nil => rfl
  | cons item items =>
    have waits := @round_brokenOff ⟨encodeItems (item :: items) ++ tail, none, 0, 0, 0, []⟩ unfinished
    have stands : encodeItems (item :: items) ++ tail =
        item.encode ++ (encodeItems items ++ tail) := by
      rw [encodeItems, List.append_assoc]
    cases item with
    | tag tag =>
      rw [round_tag stands] at waits
      cases waits
    | frame frame =>
      rw [round_frame stands] at waits
      obtain ⟨configured, _, waits⟩ := bind_ok waits
      cases waits

/-- A cut through the items leaves whole ones and one that breaks off. -/
theorem items_cut {more : Bytes} (unfinished : BrokenOff tail)
    (same : bytes ++ more = encodeItems items ++ tail) :
    ∃ done left middle, items = done ++ left ∧ bytes = encodeItems done ++ middle ∧
      BrokenOff middle ∧ middle ++ more = encodeItems left ++ tail := by
  induction items generalizing bytes with
  | nil =>
    have whole : bytes ++ more = tail := same
    exact ⟨[], [], bytes, rfl, rfl, brokenOff_front (whole ▸ unfinished), same⟩
  | cons item items ih =>
    rw [encodeItems, List.append_assoc] at same
    have apart := List.append_eq_append_iff.mp same
    by_cases inside : bytes.length < item.encode.length
    · refine ⟨[], item :: items, bytes, rfl, rfl, ?_, ?_⟩
      · obtain ⟨rest, split, _⟩ | ⟨rest, split, _⟩ := apart
        · refine ⟨item, rest, ?_, split.symm⟩
          intro none
          rw [split, none, List.append_nil] at inside
          exact Nat.lt_irrefl _ inside
        · rw [split, List.length_append] at inside
          omega
      · rw [encodeItems, List.append_assoc]
        exact same
    · obtain ⟨rest, split, behind⟩ : ∃ rest, bytes = item.encode ++ rest ∧
          rest ++ more = encodeItems items ++ tail := by
        obtain ⟨rest, split, behind⟩ | ⟨rest, split, behind⟩ := apart
        · rw [split, List.length_append] at inside
          have none : rest = [] := List.eq_nil_of_length_eq_zero (by omega)
          subst none
          exact ⟨[], by rw [split, List.append_nil, List.append_nil], behind⟩
        · exact ⟨rest, split, behind.symm⟩
      obtain ⟨done, left, middle, parts, front, broken, back⟩ := ih behind
      refine ⟨item :: done, left, middle, by rw [parts]; rfl, ?_, broken, back⟩
      rw [split, front, encodeItems, List.append_assoc]

theorem framesOf_append (done left : List AdtsItem) :
    framesOf (done ++ left) = framesOf done ++ framesOf left := by
  induction done with
  | nil => rfl
  | cons item done ih =>
    cases item with
    | tag tag => exact ih
    | frame frame => exact congrArg (frame :: ·) ih

/-- What is found in chunks of a stream. -/
theorem pushChunk_items {chunks : List Bytes} {pushed : AudioTrack} {all : List Bytes}
    (stands : track.pending ++ chunks.flatten = encodeItems items ++ tail)
    (unfinished : BrokenOff tail) (waits : BrokenOff track.pending)
    (before : Configured done track)
    (h : chunks.foldlM pushChunk (track, frames) = .ok (pushed, all)) :
    pushed.pending = tail ∧ all = frames ++ (framesOf items).map AdtsFrame.payload ∧
      Configured (done ++ framesOf items) pushed := by
  induction chunks generalizing track frames done items with
  | nil =>
    cases h
    have whole : pushed.pending = encodeItems items ++ tail :=
      (List.append_nil _).symm.trans stands
    have none := brokenOff_items (whole ▸ waits)
    subst none
    refine ⟨whole, (List.append_nil _).symm, ?_⟩
    rw [framesOf, List.append_nil]
    exact before
  | cons chunk chunks ih =>
    obtain ⟨⟨next, found⟩, first, h⟩ := bind_ok h
    rw [List.flatten_cons, ← List.append_assoc] at stands
    obtain ⟨front, left, middle, parts, same, broken, behind⟩ := items_cut unfinished stands
    unfold pushChunk AudioTrack.push at first
    obtain ⟨⟨taken, gained⟩, rounds, first⟩ := bind_ok first
    obtain ⟨_, first⟩ := guard_ok first
    cases first
    have fed : Configured done { track with pending := track.pending ++ chunk } :=
      ⟨before.unset, before.first, before.rates⟩
    obtain ⟨rest, gained, kept⟩ := pushRounds_items same broken fed (Nat.lt_succ_self _) rounds
    obtain ⟨last, total, final⟩ := ih (rest ▸ behind) (rest ▸ broken) kept h
    rw [gained, List.append_assoc, ← List.map_append] at total
    rw [List.append_assoc] at final
    rw [parts, framesOf_append]
    exact ⟨last, total, final⟩

/-! ## The end of the chunks -/

theorem tagRound_stop {next : AudioTrack} (h : track.tagRound = .stop next) :
    next = track := by
  unfold tagRound at h
  split at h
  · cases h
    rfl
  · split at h
    · cases h
      rfl
    · split at h
      · cases h
        rfl
      · cases h

theorem not_sync_of_id3 {second : UInt8} (id3 : bytes.take 3 = [0x49, 0x44, 0x33]) :
    ¬ isAdtsSync (byteAt bytes 0) second = true := by
  intro sync
  cases bytes with
  | nil => cases id3
  | cons first rest =>
    have tagged : first = 0x49 := (List.cons.inj id3).1
    subst tagged
    cases sync

/-- Where the rounds have stopped, no whole frame is left. -/
theorem flush_of_stop {next : AudioTrack} (h : track.round = .ok (.stop next))
    (frames : List Bytes) : next.flush frames = ({ next with pending := [] }, frames) := by
  have none : ¬ (7 ≤ next.pending.length ∧
      isAdtsSync (byteAt next.pending 0) (byteAt next.pending 1) ∧
      adtsHeader next.pending ≤ adtsLength next.pending ∧
      adtsLength next.pending ≤ next.pending.length) := by
    intro ⟨long, sync, header, whole⟩
    unfold AudioTrack.round at h
    obtain ⟨id3, h⟩ | ⟨_, h⟩ := ite_ok h
    · have same := tagRound_stop (Except.ok.inj h)
      subst same
      exact not_sync_of_id3 id3 sync
    · obtain ⟨few, h⟩ | ⟨_, h⟩ := ite_ok h
      · cases h
        omega
      · obtain ⟨off, h⟩ | ⟨_, h⟩ := ite_ok h
        · split at h
          · cases h
            cases long
          · cases h
        · unfold frameRound at h
          obtain ⟨waits, h⟩ | ⟨_, h⟩ := ite_ok h
          · cases h
            omega
          · obtain ⟨_, h⟩ := throw_unless_ok h
            obtain ⟨waits, h⟩ | ⟨_, h⟩ := ite_ok h
            · cases h
              omega
            · obtain ⟨configured, _, h⟩ := bind_ok h
              cases h
  unfold flush
  dsimp only
  rw [if_neg none, List.append_nil]

theorem configured_default : Configured [] .default :=
  ⟨fun _ => rfl, fun _ _ split => (nomatch split), fun _ member => (nomatch member)⟩

/-- The frames of an ADTS stream are its payloads. -/
theorem framing_payloads {chunks : List Bytes}
    (stream : chunks.flatten = encodeItems items ++ tail) (unfinished : BrokenOff tail)
    (h : framing chunks = .ok frames) :
    frames = (framesOf items).map AdtsFrame.payload := by
  obtain ⟨⟨audio, found⟩, pushed, h⟩ := bind_ok h
  have stands : default.pending ++ chunks.flatten = encodeItems items ++ tail := stream
  obtain ⟨rest, all, _⟩ :=
    pushChunk_items stands unfinished brokenOff_nil configured_default pushed
  have stopped : audio.round = _ := round_brokenOff (rest ▸ unfinished)
  cases h
  rw [flush_of_stop stopped]
  exact all

end Gunda.Stream.Ts
