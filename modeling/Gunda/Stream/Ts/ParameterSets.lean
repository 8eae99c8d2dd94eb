import Gunda.Lib.BitStrings
import Gunda.Stream.Ts.Elementary

/-!
# Sequence parameter sets

The syntax of H.264 sequence parameter sets, the size of the pictures they declare, and
that `dimensions` reads it out of every one of them.
-/
namespace Gunda.Stream.Ts

open Gunda.Lib
open Gunda.Lib.BitStrings (bitsOf onto unpack pack golomb signedGolomb)

variable {code : List Bool}

/-! ## Syntax -/

/-- A number written as `ue(v)`. -/
abbrev Ue := { value : Nat // value + 1 < 2 ^ 32 }

/-- A number written as `se(v)`. -/
abbrev Se := { value : Int // value.natAbs < 2 ^ 31 }

def Ue.bits (value : Ue) : List Bool := golomb value

def Se.bits (value : Se) : List Bool := signedGolomb value

inductive ChromaFormat where
  | monochrome
  | yuv420
  | yuv422
  | yuv444 (separatePlanes : Bool)
  deriving DecidableEq, Repr

namespace ChromaFormat

def bits : ChromaFormat → List Bool
  | monochrome => golomb 0
  | yuv420 => golomb 1
  | yuv422 => golomb 2
  | yuv444 separatePlanes => golomb 3 ++ [separatePlanes]

/-- The luma samples for each chroma sample in both directions; one where the planes are
coded as pictures of their own, or no chroma is. -/
def cropUnits : ChromaFormat → Nat × Nat
  | monochrome => (1, 1)
  | yuv420 => (2, 2)
  | yuv422 => (2, 1)
  | yuv444 _ => (1, 1)

/-- The sizes of the scaling lists that may be written. -/
def scalingSizes : ChromaFormat → List Nat
  | yuv444 _ => List.replicate 6 16 ++ List.replicate 6 64
  | _ => List.replicate 6 16 ++ List.replicate 2 64

end ChromaFormat

/-- The deltas of a scaling list; those after the scale becomes zero are not written. -/
abbrev ScalingList := Nat → { delta : Int // -128 ≤ delta ∧ delta ≤ 127 }

def ScalingList.bitsFrom (list : ScalingList) : Nat → Nat → Int → Int → List Bool
  | 0, _, _, _ => []
  | left + 1, j, last, next =>
      if next = 0 then list.bitsFrom left (j + 1) last 0
      else
        let scale := (last + list j + 256) % 256
        signedGolomb (list j) ++
          list.bitsFrom left (j + 1) (if scale = 0 then last else scale) scale

def ScalingList.bits (list : ScalingList) (size : Nat) : List Bool := list.bitsFrom size 0 8 8

def scalingMatrixBits (lists : Nat → Option ScalingList) : Nat → List Nat → List Bool
  | _, [] => []
  | i, size :: sizes =>
      (match lists i with
        | none => [false]
        | some list => true :: list.bits size) ++ scalingMatrixBits lists (i + 1) sizes

/-- The fields that only some profiles have. -/
structure HighFields where
  chroma : ChromaFormat
  bitDepthLuma : Ue
  bitDepthChroma : Ue
  transformBypass : Bool
  scalingMatrix : Option (Nat → Option ScalingList)

def HighFields.bits (fields : HighFields) : List Bool :=
  fields.chroma.bits ++ (fields.bitDepthLuma.bits ++ (fields.bitDepthChroma.bits ++
    (fields.transformBypass :: match fields.scalingMatrix with
      | none => [false]
      | some lists => true :: scalingMatrixBits lists 0 fields.chroma.scalingSizes)))

inductive PictureOrder where
  | lsb (log2Max : Ue)
  | cycle (alwaysZero : Bool) (nonReference topToBottom : Se) (offsets : List Se)
      (fits : offsets.length + 1 < 2 ^ 32)
  | output

def PictureOrder.bits : PictureOrder → List Bool
  | lsb log2Max => golomb 0 ++ log2Max.bits
  | cycle alwaysZero nonReference topToBottom offsets _ =>
      golomb 1 ++ (alwaysZero :: (nonReference.bits ++ (topToBottom.bits ++
        (golomb offsets.length ++ offsets.flatMap Se.bits))))
  | output => golomb 2

structure Cropping where
  left : Ue
  right : Ue
  top : Ue
  bottom : Ue

def Cropping.bits (cropping : Cropping) : List Bool :=
  cropping.left.bits ++ (cropping.right.bits ++ (cropping.top.bits ++ cropping.bottom.bits))

def hasHighFields (profile : UInt8) : Bool :=
  [44, 83, 86, 100, 110, 118, 122, 128, 134, 135, 138, 139, 244].contains profile.toNat

/-- A sequence parameter set. A picture of fields says whether it adapts to them. -/
structure Sps where
  profile : UInt8
  constraints : UInt8
  level : UInt8
  id : Ue
  high : HighFields
  log2MaxFrameNum : Ue
  order : PictureOrder
  maxReferenceFrames : Ue
  gapsAllowed : Bool
  widthInMbs : Ue
  heightInMapUnits : Ue
  fieldCoding : Option Bool
  direct8x8 : Bool
  cropping : Option Cropping
  vui : Option (List Bool)

namespace Sps

def chroma (sps : Sps) : ChromaFormat :=
  if hasHighFields sps.profile then sps.high.chroma else .yuv420

def frameBits (sps : Sps) : List Bool :=
  match sps.fieldCoding with
  | none => [true]
  | some adaptive => [false, adaptive]

def croppingBits (sps : Sps) : List Bool :=
  match sps.cropping with
  | none => [false]
  | some cropping => true :: cropping.bits

def vuiBits (sps : Sps) : List Bool :=
  match sps.vui with
  | none => [false]
  | some parameters => true :: parameters

/-- The syntax up to the usability information. -/
def sizeBits (sps : Sps) : List Bool :=
  bitsOf 8 sps.profile.toNat ++ (bitsOf 8 sps.constraints.toNat ++ (bitsOf 8 sps.level.toNat ++
    (sps.id.bits ++ ((if hasHighFields sps.profile then sps.high.bits else []) ++
      (sps.log2MaxFrameNum.bits ++ (sps.order.bits ++ (sps.maxReferenceFrames.bits ++
        (sps.gapsAllowed :: (sps.widthInMbs.bits ++ (sps.heightInMapUnits.bits ++
          (sps.frameBits ++ (sps.direct8x8 :: sps.croppingBits))))))))))))

def bits (sps : Sps) : List Bool := sps.sizeBits ++ sps.vuiBits

/-- Two fields make a frame, each as high as the map units say. -/
def mapUnitHeight (sps : Sps) : Nat :=
  match sps.fieldCoding with
  | none => 1
  | some _ => 2

/-- The width of the cropped picture in luma samples. -/
def width (sps : Sps) : Nat :=
  16 * (sps.widthInMbs + 1) - match sps.cropping with
    | none => 0
    | some cropping => sps.chroma.cropUnits.1 * (cropping.left + cropping.right)

def height (sps : Sps) : Nat :=
  16 * (sps.mapUnitHeight * (sps.heightInMapUnits + 1)) - match sps.cropping with
    | none => 0
    | some cropping =>
        sps.chroma.cropUnits.2 * sps.mapUnitHeight * (cropping.top + cropping.bottom)

end Sps

/-- Puts a `03` between two zero bytes and a byte that would make a start code of them. -/
def insertEmulationFrom : Nat → Bytes → Bytes
  | _, [] => []
  | zeros, byte :: bytes =>
      if 2 ≤ zeros ∧ byte ≤ 3 then
        3 :: byte :: insertEmulationFrom (if byte = 0 then 1 else 0) bytes
      else byte :: insertEmulationFrom (if byte = 0 then zeros + 1 else 0) bytes

def insertEmulationPrevention (bytes : Bytes) : Bytes := insertEmulationFrom 0 bytes

/-- The NAL unit of a sequence parameter set, closed with a one bit and zeros up to a byte. -/
def Sps.nal (sps : Sps) (refIdc : Fin 4) : Bytes :=
  UInt8.ofNat (32 * refIdc + 7) :: insertEmulationPrevention (pack (sps.bits ++ [true]))

theorem removeEmulationFrom_insert {zeros : Nat} (bytes : Bytes) (few : zeros ≤ 2) :
    removeEmulationFrom zeros (insertEmulationFrom zeros bytes) = bytes := by
  induction bytes generalizing zeros with
  | nil => rfl
  | cons byte bytes ih =>
    rw [insertEmulationFrom]
    split
    · rename_i prevented
      rw [removeEmulationFrom, if_pos ⟨prevented.1, rfl⟩, removeEmulationFrom,
        if_neg (fun many => absurd many.1 (by decide))]
      congr 1
      split
      · exact ih (by decide)
      · exact ih (by decide)
    · rename_i plain
      have kept : ¬ (2 ≤ zeros ∧ byte = 3) := fun three =>
        plain ⟨three.1, three.2 ▸ UInt8.le_refl 3⟩
      rw [removeEmulationFrom, if_neg kept]
      congr 1
      split
      · rename_i zero
        refine ih ?_
        have : ¬ 2 ≤ zeros := fun many => plain ⟨many, by rw [zero]; decide⟩
        omega
      · exact ih (by decide)

theorem removeEmulationPrevention_nal (sps : Sps) (refIdc : Fin 4) :
    removeEmulationPrevention (sps.nal refIdc) =
      UInt8.ofNat (32 * refIdc + 7) :: pack (sps.bits ++ [true]) := by
  have header : ∀ refIdc : Fin 4, UInt8.ofNat (32 * refIdc + 7) ≠ 0 := by decide
  rw [removeEmulationPrevention, Sps.nal, removeEmulationFrom,
    if_neg (fun many => absurd many.1 (by decide)), if_neg (header refIdc)]
  congr 1
  exact removeEmulationFrom_insert _ (by decide)

/-! ## Readers -/

/-- The bits that have not been read. -/
def Bits.left (bits : Bits) : List Bool := (unpack bits.bytes).drop bits.position

/-- A reader takes a code off the bits, whatever follows it. -/
def ReadsCode {α : Type} (reader : BitReader α) (code : List Bool) (value : α) : Prop :=
  ∀ (bits : Bits) (rest : List Bool), bits.left = code ++ rest →
    ∃ next : Bits, reader bits = .ok (value, next) ∧ next.left = rest

namespace ReadsCode

open BitReader (bit readOnto read leadingZeros unsigned signed)

variable {α β : Type}
variable {reader : BitReader α} {value : α}

theorem pure (value : α) : ReadsCode (Pure.pure value) [] value :=
  fun bits _ left => ⟨bits, rfl, left⟩

variable {code : List Bool}

theorem bind {following : α → BitReader β} {more : List Bool} {result : β}
    (first : ReadsCode reader code value) (second : ReadsCode (following value) more result) :
    ReadsCode (reader >>= following) (code ++ more) result := by
  intro bits rest left
  rw [List.append_assoc] at left
  obtain ⟨between, read, left⟩ := first bits (more ++ rest) left
  obtain ⟨next, readOn, left⟩ := second between rest left
  refine ⟨next, ?_, left⟩
  change Except.bind (reader bits) _ = _
  rw [read]
  exact readOn

theorem bindPure (f : α → β) (reads : ReadsCode reader code value) :
    ReadsCode (reader >>= fun read => Pure.pure (f read)) code (f value) := by
  have mapped : ReadsCode (reader >>= fun read => Pure.pure (f read)) (code ++ []) (f value) :=
    ReadsCode.bind reads (.pure (f value))
  rwa [List.append_nil] at mapped

theorem map (f : α → β) (reads : ReadsCode reader code value) :
    ReadsCode (f <$> reader) code (f value) := by
  rw [map_eq_pure_bind]
  exact reads.bindPure f

theorem discard (reads : ReadsCode reader code value) :
    ReadsCode (Functor.discard reader) code () :=
  reads.map fun _ => ()

theorem bit (bit : Bool) : ReadsCode BitReader.bit [bit] bit.toNat := by
  intro bits rest left
  have here : (unpack bits.bytes)[bits.position]? = some bit := by
    have head := congrArg List.head? left
    rwa [Bits.left, List.head?_drop] at head
  rw [BitStrings.getElem?_unpack] at here
  obtain ⟨byte, found, same⟩ := Option.map_eq_some_iff.mp here
  refine ⟨{ bits with position := bits.position + 1 }, ?_, ?_⟩
  · unfold BitReader.bit
    rw [found, ← same, Nat.toNat_testBit, ← Nat.and_one_is_mod, ← Nat.shiftRight_eq_div_pow]
  · change (unpack bits.bytes).drop (bits.position + 1) = rest
    rw [← List.tail_drop]
    exact congrArg List.tail left

theorem readOnto (code : List Bool) (start : Nat) :
    ReadsCode (BitReader.readOnto code.length start) code (onto start code) := by
  induction code generalizing start with
  | nil => exact .pure start
  | cons one code ih =>
    refine .bind (.bit one) ?_
    have step : start <<< 1 ||| one.toNat = 2 * start + one.toNat := by
      rw [← Nat.shiftLeft_add_eq_or_of_lt (i := 1) one.toNat_lt start, Nat.shiftLeft_eq,
        Nat.pow_one, Nat.mul_comm]
    rw [step]
    exact ih _

theorem readBits (count value : Nat) :
    ReadsCode (BitReader.read count) (bitsOf count value) (value % 2 ^ count) := by
  have reads := ReadsCode.readOnto (bitsOf count value) 0
  rwa [BitStrings.bitsOf_length, BitStrings.onto_bitsOf, Nat.mul_zero, Nat.zero_add] at reads

theorem flag (one : Bool) : ReadsCode (BitReader.read 1) [one] one.toNat := by
  have reads := ReadsCode.readOnto [one] 0
  rwa [BitStrings.onto_cons, BitStrings.onto_nil, Nat.mul_zero, Nat.zero_add] at reads

theorem leadingZeros {count rounds zeros : Nat} (few : zeros + count ≤ 32)
    (enough : count < rounds) :
    ReadsCode (BitReader.leadingZeros rounds zeros) (List.replicate count false ++ [true])
      (zeros + count) := by
  induction count generalizing rounds zeros with
  | zero =>
    obtain ⟨rounds, rfl⟩ := Nat.exists_eq_succ_of_ne_zero (Nat.ne_of_gt enough)
    exact (ReadsCode.flag true).bind (.pure zeros)
  | succ count ih =>
    obtain ⟨rounds, rfl⟩ := Nat.exists_eq_succ_of_ne_zero (Nat.ne_of_gt (Nat.zero_lt_of_lt enough))
    rw [List.replicate_succ, List.cons_append]
    refine (ReadsCode.flag false).bind ?_
    rw [if_neg (by decide), if_neg (by omega)]
    have later := @ih rounds (zeros + 1) (by omega) (by omega)
    rwa [Nat.add_right_comm] at later

theorem unsigned {value : Nat} (fits : value + 1 < 2 ^ 33) :
    ReadsCode BitReader.unsigned (golomb value) value := by
  have few : (value + 1).log2 ≤ 32 :=
    Nat.le_of_lt_succ ((Nat.log2_lt (Nat.succ_ne_zero value)).mpr fits)
  have split := BitStrings.two_pow_log2_add_mod value
  unfold BitReader.unsigned golomb
  rw [List.append_cons]
  have zeros : ReadsCode (.leadingZeros 33 0)
      (List.replicate (value + 1).log2 false ++ [true]) (0 + (value + 1).log2) :=
    ReadsCode.leadingZeros (by omega) (by omega)
  refine zeros.bind ?_
  rw [Nat.zero_add]
  split
  · rename_i none
    rw [none] at split ⊢
    rw [show value = 0 by omega]
    exact .pure 0
  · have reads := (ReadsCode.readBits (value + 1).log2 (value + 1)).bindPure
      (fun rest => 1 <<< (value + 1).log2 - 1 + rest)
    have same : 1 <<< (value + 1).log2 - 1 + (value + 1) % 2 ^ (value + 1).log2 = value := by
      rw [Nat.shiftLeft_eq, Nat.one_mul]
      omega
    rwa [same] at reads

theorem signed {value : Int} (fits : value.natAbs < 2 ^ 31) :
    ReadsCode BitReader.signed (signedGolomb value) value := by
  have reads (code : Nat) (short : code + 1 < 2 ^ 33) : ReadsCode BitReader.signed (golomb code)
      (if code % 2 = 0 then -(code / 2 : Nat) else ((code + 1) / 2 : Nat)) :=
    (ReadsCode.unsigned short).bindPure fun code : Nat =>
      (if code % 2 = 0 then -(code / 2 : Nat) else ((code + 1) / 2 : Nat) : Int)
  unfold signedGolomb
  by_cases positive : 0 < value
  · have read := reads (2 * value.natAbs - 1) (by omega)
    rw [if_pos positive]
    rwa [if_neg (by omega), show ((2 * value.natAbs - 1 + 1) / 2 : Nat) = value by omega] at read
  · have read := reads (2 * value.natAbs) (by omega)
    rw [if_neg positive]
    rwa [if_pos (by omega), show -((2 * value.natAbs / 2 : Nat) : Int) = value by omega] at read

theorem ue (value : Ue) : ReadsCode BitReader.unsigned value.bits value.val :=
  .unsigned (Nat.lt_trans value.property (by decide))

theorem se (value : Se) : ReadsCode BitReader.signed value.bits value.val := .signed value.property

theorem byte (value : UInt8) : ReadsCode (BitReader.read 8) (bitsOf 8 value.toNat) value.toNat := by
  have reads := ReadsCode.readBits 8 value.toNat
  rwa [Nat.mod_eq_of_lt value.toNat_lt] at reads

/-! ## Fields -/

theorem skipSigned (offsets : List Se) :
    ReadsCode (BitReader.skipSigned offsets.length) (offsets.flatMap Se.bits) () := by
  induction offsets with
  | nil => exact .pure ()
  | cons offset offsets ih => exact (ReadsCode.se offset).bind ih

theorem skipScalingListFrom (list : ScalingList) (left j : Nat) {last next : Int}
    (lastScale : 0 ≤ last) :
    ReadsCode (BitReader.skipScalingListFrom left last next) (list.bitsFrom left j last next) () := by
  induction left generalizing j last next with
  | zero => exact .pure ()
  | succ left ih =>
    unfold BitReader.skipScalingListFrom ScalingList.bitsFrom
    by_cases ended : next = 0
    · rw [if_pos ended, if_neg (fun more => more ended), ended]
      exact .bind (.pure (0 : Int)) (ih (j + 1) lastScale)
    · rw [if_neg ended, if_pos ended]
      obtain ⟨low, high⟩ := (list j).property
      have scale : (last + list j + 256).tmod 256 = (last + list j + 256) % 256 :=
        Int.tmod_eq_emod_of_nonneg (by omega)
      refine ReadsCode.bind ((ReadsCode.signed (by omega)).map _) ?_
      rw [scale]
      dsimp only
      rw [ite_not]
      refine ih (j + 1) ?_
      split
      · exact lastScale
      · exact Int.emod_nonneg _ (by decide)

theorem skipScalingList (list : ScalingList) (size : Nat) :
    ReadsCode (BitReader.skipScalingList size) (list.bits size) () :=
  skipScalingListFrom list size 0 (by decide)

theorem skipScalingLists (lists : Nat → Option ScalingList) (i : Nat) (sizes : List Nat) :
    ReadsCode (BitReader.skipScalingLists sizes) (scalingMatrixBits lists i sizes) () := by
  induction sizes generalizing i with
  | nil => exact .pure ()
  | cons size sizes ih =>
    unfold scalingMatrixBits
    cases lists i with
    | none => exact (ReadsCode.flag false).bind (ih (i + 1))
    | some list =>
      exact (ReadsCode.flag true).bind (ReadsCode.bind (skipScalingList list size) (ih (i + 1)))

end ReadsCode

/-- How the chroma format is numbered. -/
def ChromaFormat.idc : ChromaFormat → Nat
  | monochrome => 0
  | yuv420 => 1
  | yuv422 => 2
  | yuv444 _ => 3

theorem ChromaFormat.reads (chroma : ChromaFormat) {α : Type} {following : Nat → BitReader α}
    {value : α} (then_ : ReadsCode (following chroma.idc) code value) :
    ReadsCode (BitReader.unsigned >>= fun idc =>
      if idc = 3 then discard (BitReader.read 1) >>= fun _ => following idc else following idc)
      (chroma.bits ++ code) value := by
  cases chroma with
  | monochrome => exact (ReadsCode.unsigned (by decide)).bind then_
  | yuv420 => exact (ReadsCode.unsigned (by decide)).bind then_
  | yuv422 => exact (ReadsCode.unsigned (by decide)).bind then_
  | yuv444 separatePlanes =>
    rw [bits, List.append_assoc]
    exact (ReadsCode.unsigned (by decide)).bind ((ReadsCode.flag separatePlanes).discard.bind then_)

theorem ChromaFormat.scalingSizes_eq (chroma : ChromaFormat) :
    chroma.scalingSizes =
      List.replicate 6 16 ++ List.replicate (if chroma.idc ≠ 3 then 2 else 6) 64 := by
  cases chroma <;> rfl

theorem highProfileFields_reads (fields : HighFields) :
    ReadsCode BitReader.highProfileFields fields.bits fields.chroma.idc := by
  refine fields.chroma.reads ?_
  refine (ReadsCode.ue fields.bitDepthLuma).bind ((ReadsCode.ue fields.bitDepthChroma).bind ?_)
  refine (ReadsCode.flag fields.transformBypass).bind ?_
  cases fields.scalingMatrix with
  | none => exact (ReadsCode.flag false).bind (ReadsCode.pure fields.chroma.idc)
  | some lists =>
    have reads := ReadsCode.skipScalingLists lists 0 fields.chroma.scalingSizes
    rw [fields.chroma.scalingSizes_eq] at reads
    rw [fields.chroma.scalingSizes_eq]
    exact (ReadsCode.flag true).bind (reads.bindPure fun _ => fields.chroma.idc)

theorem pictureOrderCountFields_reads (order : PictureOrder) :
    ReadsCode BitReader.pictureOrderCountFields order.bits () := by
  unfold BitReader.pictureOrderCountFields
  cases order with
  | lsb log2Max => exact (ReadsCode.unsigned (by decide)).bind (ReadsCode.ue log2Max).discard
  | cycle alwaysZero nonReference topToBottom offsets fits =>
    have count : ReadsCode BitReader.unsigned (golomb offsets.length) offsets.length :=
      .unsigned (Nat.lt_trans fits (by decide))
    exact (ReadsCode.unsigned (by decide)).bind ((ReadsCode.flag alwaysZero).bind
      ((ReadsCode.se nonReference).bind ((ReadsCode.se topToBottom).bind
        (count.bind (.skipSigned offsets)))))
  | output =>
    rw [PictureOrder.bits, ← List.append_nil (golomb 2)]
    exact (ReadsCode.unsigned (by decide)).bind (ReadsCode.pure ())

/-- Whether frames are never coded as fields, as the flag that says so. -/
def Sps.frameMbsOnly (sps : Sps) : Nat :=
  match sps.fieldCoding with
  | none => 1
  | some _ => 0

theorem frameBits_reads (sps : Sps) {α : Type} {following : Nat → BitReader α} {value : α}
    (then_ : ReadsCode (following sps.frameMbsOnly) code value) :
    ReadsCode (BitReader.read 1 >>= fun flag =>
      if flag = 0 then discard (BitReader.read 1) >>= fun _ => following flag else following flag)
      (sps.frameBits ++ code) value := by
  unfold Sps.frameBits
  unfold Sps.frameMbsOnly at then_
  cases coding : sps.fieldCoding with
  | none =>
    rw [coding] at then_
    exact (ReadsCode.flag true).bind then_
  | some adaptive =>
    rw [coding] at then_
    exact (ReadsCode.flag false).bind (ReadsCode.bind (ReadsCode.flag adaptive).discard then_)

/-- The luma samples cropped off in each direction. -/
def Sps.cropped (sps : Sps) : Nat × Nat :=
  match sps.cropping with
  | none => (0, 0)
  | some cropping => (sps.chroma.cropUnits.1 * (cropping.left + cropping.right),
      sps.chroma.cropUnits.2 * sps.mapUnitHeight * (cropping.top + cropping.bottom))

theorem mapUnitHeight_eq (sps : Sps) :
    sps.mapUnitHeight = if sps.frameMbsOnly = 1 then 1 else 2 := by
  unfold Sps.mapUnitHeight Sps.frameMbsOnly
  cases sps.fieldCoding <;> rfl

theorem ChromaFormat.cropUnits_eq (chroma : ChromaFormat) :
    chroma.cropUnits = (if chroma.idc = 1 ∨ chroma.idc = 2 then 2 else 1,
      if chroma.idc = 1 then 2 else 1) := by
  cases chroma <;> rfl

theorem ChromaFormat.cropUnits_le (chroma : ChromaFormat) :
    chroma.cropUnits.1 ≤ 2 ∧ chroma.cropUnits.2 ≤ 2 := by
  rw [cropUnits_eq]
  constructor
  all_goals
    dsimp only
    split <;> decide

theorem mapUnitHeight_le (sps : Sps) : sps.mapUnitHeight ≤ 2 := by
  rw [mapUnitHeight_eq]
  split <;> decide

/-- No number of a parameter set is large enough for a product to saturate. -/
theorem saturating_scaled {sum scale : Nat} (small : sum < 2 ^ 40) (scaled : scale ≤ 32) :
    saturatingMul sum scale = scale * sum := by
  rw [saturatingMul, Nat.mul_comm]
  refine Nat.min_eq_left (Nat.le_trans (Nat.mul_le_mul scaled small.le) ?_)
  decide

theorem saturating_sum {a b : Nat} (left : a < 2 ^ 32) (right : b < 2 ^ 32) :
    saturatingAdd a b = a + b := by
  refine Nat.min_eq_left (Nat.le_trans (Nat.add_le_add left.le right.le) ?_)
  decide

theorem Ue.lt (value : Ue) : value.val < 2 ^ 32 := Nat.lt_of_succ_lt value.property

theorem Ue.saturating_sum (a b : Ue) : saturatingAdd a b = a + b :=
  Ts.saturating_sum a.lt b.lt

theorem croppedSamples_reads (sps : Sps) :
    ReadsCode (BitReader.croppedSamples sps.chroma.idc sps.frameMbsOnly) sps.croppingBits
      sps.cropped := by
  unfold Sps.croppingBits Sps.cropped
  cases sps.cropping with
  | none => exact (ReadsCode.flag false).bind (ReadsCode.pure (0, 0))
  | some cropping =>
    obtain ⟨left, right, top, bottom⟩ := cropping
    have across := left.lt
    have past := right.lt
    have down := top.lt
    have below := bottom.lt
    have units := sps.chroma.cropUnits_le
    have wide : saturatingMul (saturatingAdd left right) sps.chroma.cropUnits.1 =
        sps.chroma.cropUnits.1 * (left + right) := by
      rw [Ue.saturating_sum, saturating_scaled (by omega) (by omega)]
    have high : saturatingMul (saturatingMul (saturatingAdd top bottom) sps.chroma.cropUnits.2)
        sps.mapUnitHeight = sps.chroma.cropUnits.2 * sps.mapUnitHeight * (top + bottom) := by
      have doubled : sps.chroma.cropUnits.2 * (top + bottom) ≤ 2 * (top + bottom) :=
        Nat.mul_le_mul_right _ units.2
      have twice := mapUnitHeight_le sps
      have inner : saturatingMul (top + bottom) sps.chroma.cropUnits.2 =
          sps.chroma.cropUnits.2 * (top + bottom) := saturating_scaled (by omega) (by omega)
      rw [Ue.saturating_sum, inner, saturating_scaled (by omega) (by omega), ← Nat.mul_assoc,
        Nat.mul_comm sps.mapUnitHeight]
    dsimp only
    rw [← wide, ← high, sps.chroma.cropUnits_eq, mapUnitHeight_eq]
    exact (ReadsCode.flag true).bind (ReadsCode.bind (ReadsCode.ue left)
      (.bind (.ue right) (.bind (.ue top)
        (.bindPure _ (.ue bottom)))))

theorem isHighProfile_eq (profile : UInt8) :
    BitReader.isHighProfile profile.toNat = hasHighFields profile := by
  unfold BitReader.isHighProfile hasHighFields
  generalize profile.toNat = number
  simp only [List.contains_cons, List.contains_nil, Bool.or_false]
  grind

theorem chroma_reads (sps : Sps) {α : Type} {following : Nat → BitReader α} {value : α}
    (then_ : ReadsCode (following sps.chroma.idc) code value) :
    ReadsCode (if BitReader.isHighProfile sps.profile.toNat then
        BitReader.highProfileFields >>= following else following 1)
      ((if hasHighFields sps.profile then sps.high.bits else []) ++ code) value := by
  rw [isHighProfile_eq]
  unfold Sps.chroma at then_
  by_cases high : hasHighFields sps.profile
  · rw [if_pos high] at then_
    rw [if_pos high, if_pos high]
    exact (highProfileFields_reads sps.high).bind then_
  · rw [if_neg high] at then_
    rw [if_neg high, if_neg high]
    exact then_

theorem scaled_by (units scale : Nat) (few : units < 2 ^ 32) (small : scale ≤ 32) :
    saturatingMul (saturatingAdd units 1) scale = scale * (units + 1) := by
  rw [saturating_sum few (by decide), saturating_scaled (by omega) small]

theorem Sps.size_eq (sps : Sps) : (sps.width, sps.height) =
    (saturatingMul (saturatingAdd sps.widthInMbs 1) 16 - sps.cropped.1,
      saturatingMul (saturatingAdd sps.heightInMapUnits 1)
        (if sps.frameMbsOnly = 1 then 16 else 32) - sps.cropped.2) := by
  have unit : 16 * sps.mapUnitHeight = if sps.frameMbsOnly = 1 then 16 else 32 := by
    rw [mapUnitHeight_eq]
    split <;> rfl
  rw [← unit, scaled_by _ _ sps.widthInMbs.lt (by decide),
    scaled_by _ _ sps.heightInMapUnits.lt (by have := mapUnitHeight_le sps; omega), Nat.mul_assoc]
  unfold Sps.width Sps.height Sps.cropped
  cases sps.cropping <;> rfl

/-- The reader takes the size out of the bits of every set. -/
theorem pictureSize_reads (sps : Sps) (header : UInt8) : ReadsCode BitReader.pictureSize
    (bitsOf 8 header.toNat ++ sps.sizeBits) (sps.width, sps.height) := by
  unfold BitReader.pictureSize Sps.sizeBits
  refine (ReadsCode.byte header).bind ((ReadsCode.byte sps.profile).bind ?_)
  refine (ReadsCode.byte sps.constraints).bind ((ReadsCode.byte sps.level).bind ?_)
  refine (ReadsCode.ue sps.id).bind (chroma_reads sps ?_)
  refine (ReadsCode.ue sps.log2MaxFrameNum).bind ((pictureOrderCountFields_reads sps.order).bind ?_)
  refine (ReadsCode.ue sps.maxReferenceFrames).bind ((ReadsCode.flag sps.gapsAllowed).bind ?_)
  refine (ReadsCode.ue sps.widthInMbs).bind ((ReadsCode.ue sps.heightInMapUnits).bind ?_)
  refine frameBits_reads sps ((ReadsCode.flag sps.direct8x8).bind ?_)
  rw [sps.size_eq]
  exact (croppedSamples_reads sps).bindPure _

theorem nal_left (sps : Sps) (refIdc : Fin 4) : ∃ rest,
    Bits.left ⟨removeEmulationPrevention (sps.nal refIdc), 0⟩ =
      (bitsOf 8 (UInt8.ofNat (32 * refIdc + 7)).toNat ++ sps.sizeBits) ++ rest := by
  obtain ⟨filling, unpacked⟩ := BitStrings.unpack_pack (sps.bits ++ [true])
  refine ⟨sps.vuiBits ++ ([true] ++ List.replicate filling false), ?_⟩
  rw [Bits.left, List.drop_zero, removeEmulationPrevention_nal, BitStrings.unpack_cons, unpacked,
    Sps.bits]
  simp only [List.append_assoc]

/-- The size a sequence parameter set declares is read out of its NAL unit. -/
theorem dimensions_of_sps (sps : Sps) (refIdc : Fin 4)
    (wide : 1 ≤ sps.width ∧ sps.width ≤ 65535) (high : 1 ≤ sps.height ∧ sps.height ≤ 65535) :
    dimensions (sps.nal refIdc) = .ok (sps.width, sps.height) := by
  obtain ⟨rest, left⟩ := nal_left sps refIdc
  obtain ⟨next, read, _⟩ := pictureSize_reads sps _ _ rest left
  unfold dimensions
  rw [StateT.run, read]
  change Except.bind (.ok _) _ = _
  rw [Except.bind]
  dsimp only
  rw [if_neg (by omega), if_neg (by omega), if_neg (by omega)]
  rfl

/-- A picture of fields with 4:2:2 chroma, a scaling list and a cropped bottom. -/
def interlaced : Sps where
  profile := 122
  constraints := 0
  level := 41
  id := ⟨0, by decide⟩
  high := ⟨.yuv422, ⟨2, by decide⟩, ⟨2, by decide⟩, false,
    some fun i => if i = 1 then some fun _ => ⟨-1, by decide⟩ else none⟩
  log2MaxFrameNum := ⟨4, by decide⟩
  order := .cycle false ⟨-1, by decide⟩ ⟨1, by decide⟩ [⟨2, by decide⟩, ⟨-2, by decide⟩] (by decide)
  maxReferenceFrames := ⟨4, by decide⟩
  gapsAllowed := false
  widthInMbs := ⟨119, by decide⟩
  heightInMapUnits := ⟨33, by decide⟩
  fieldCoding := some true
  direct8x8 := true
  cropping := some ⟨⟨0, by decide⟩, ⟨0, by decide⟩, ⟨0, by decide⟩, ⟨4, by decide⟩⟩
  vui := none

theorem interlaced_dimensions : dimensions (interlaced.nal 3) = .ok (1920, 1080) :=
  dimensions_of_sps interlaced 3 (by decide) (by decide)

end Gunda.Stream.Ts
