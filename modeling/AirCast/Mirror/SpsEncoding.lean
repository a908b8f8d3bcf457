import AirCast.Mirror.SpsSyntax

/-! # Sequence parameter sets as they are sent

The parameter sets with 4:2:0 chroma, their bits up to the cropping offsets and what
follows, and the NAL unit with its emulation prevention bytes.  A parameter set without
the parts the parser gets wrong is read with its size. -/

set_option autoImplicit false

namespace AirCast.Mirror

-- elaboration would evaluate the bits that a statement says are there
attribute [local irreducible] Carries

abbrev UeNumber := Fin 4294967295

/-- A number that `se(v)` can code. -/
structure SeNumber where
  value : ℤ
  bounded : value.natAbs < 2147483648

def SeNumber.code (n : SeNumber) : UeNumber :=
  ⟨signedCode n.value, by
    have bounded := n.bounded
    unfold signedCode
    split <;> omega⟩

def ueBits (n : UeNumber) : List Bool := golombBits (golombSuffix n)

/-- The `delta_scale` values of a list: as many as it takes to fill it, or to reach a next
scale of 0. -/
def ScalingDeltas : ℕ → ℤ → List SeNumber → Prop
  | left, _, [] => left = 0
  | left, lastScale, delta :: rest =>
      left ≠ 0 ∧
        if (lastScale + delta.value + 256) % 256 = 0 then rest = []
        else ScalingDeltas (left - 1) ((lastScale + delta.value + 256) % 256) rest

/-- The eight scaling lists of 4:2:0 video; a list may be left out. -/
structure ScalingMatrix where
  lists : List (Option (List SeNumber))
  eight : lists.length = 8
  small : ∀ deltas, some deltas ∈ lists.take 6 → ScalingDeltas 16 8 deltas
  large : ∀ deltas, some deltas ∈ lists.drop 6 → ScalingDeltas 64 8 deltas

def ScalingMatrix.bits (matrix : ScalingMatrix) : List Bool :=
  matrix.lists.flatMap fun list =>
    match list with
    | none => [false]
    | some deltas => true :: deltas.flatMap fun delta => ueBits delta.code

inductive PicOrderCount where
  | type0 (log2MaxLsbMinus4 : UeNumber)
  | type1 (deltaAlwaysZero : Bool) (offsetForNonRef offsetForTopToBottom : SeNumber)
      (offsetForRefFrame : List SeNumber) (short : offsetForRefFrame.length ≤ 255)
  | type2

namespace PicOrderCount

def type : PicOrderCount → UeNumber
  | .type0 _ => ⟨0, by norm_num⟩
  | .type1 .. => ⟨1, by norm_num⟩
  | .type2 => ⟨2, by norm_num⟩

def bits : PicOrderCount → List Bool
  | .type0 log2MaxLsbMinus4 => ueBits log2MaxLsbMinus4
  | .type1 deltaAlwaysZero offsetForNonRef offsetForTopToBottom offsetForRefFrame short =>
      [deltaAlwaysZero] ++ ueBits offsetForNonRef.code ++ ueBits offsetForTopToBottom.code ++
        ueBits ⟨offsetForRefFrame.length, by omega⟩ ++
        offsetForRefFrame.flatMap fun offset => ueBits offset.code
  | .type2 => []

end PicOrderCount

/-- The offsets in units of two samples, and of two or four rows. -/
structure Cropping where
  left : UeNumber
  right : UeNumber
  top : UeNumber
  bottom : UeNumber

/-- A sequence parameter set with 4:2:0 chroma.  `tail` is what follows the cropping offsets:
the video usability information and the trailing bits. -/
structure Sps where
  nalRefIdc : Fin 4
  profileIdc : Fin 256
  constraintFlags : Fin 256
  levelIdc : Fin 256
  id : UeNumber
  bitDepthLumaMinus8 : UeNumber
  bitDepthChromaMinus8 : UeNumber
  transformBypass : Bool
  scalingMatrix : Option ScalingMatrix
  log2MaxFrameNumMinus4 : UeNumber
  picOrderCount : PicOrderCount
  maxNumRefFrames : UeNumber
  gapsAllowed : Bool
  picWidthInMbsMinus1 : UeNumber
  picHeightInMapUnitsMinus1 : UeNumber
  frameMbsOnly : Bool
  mbAdaptive : Bool
  direct8x8 : Bool
  cropping : Option Cropping
  tail : List Bool

namespace Sps

def chromaProfiles : List ℕ := [100, 110, 122, 244, 44, 83, 86, 118, 128, 138, 139, 134, 135]

section encoding

variable (sps : Sps)

/-- The matrix is only sent in the profiles with a chroma format. -/
def HasMatrix : Prop := sps.profileIdc.val ∈ chromaProfiles ∧ sps.scalingMatrix.isSome

def nalHeader : List Bool := fixedBits 8 (32 * sps.nalRefIdc + 7)

/-- `chroma_format_idc` is 1. -/
def chromaBits : List Bool :=
  if sps.profileIdc.val ∈ chromaProfiles then
    ueBits ⟨1, by norm_num⟩ ++ ueBits sps.bitDepthLumaMinus8 ++ ueBits sps.bitDepthChromaMinus8 ++
      [sps.transformBypass] ++ [sps.scalingMatrix.isSome] ++
      (sps.scalingMatrix.map ScalingMatrix.bits).getD []
  else []

def croppingBits : List Bool :=
  match sps.cropping with
  | none => [false]
  | some crop => true :: (ueBits crop.left ++ ueBits crop.right ++ ueBits crop.top ++
      ueBits crop.bottom)

def bits : List Bool :=
  fixedBits 8 sps.profileIdc ++ fixedBits 8 sps.constraintFlags ++ fixedBits 8 sps.levelIdc ++
    ueBits sps.id ++ sps.chromaBits ++ ueBits sps.log2MaxFrameNumMinus4 ++
    ueBits sps.picOrderCount.type ++ sps.picOrderCount.bits ++ ueBits sps.maxNumRefFrames ++
    [sps.gapsAllowed] ++ ueBits sps.picWidthInMbsMinus1 ++ ueBits sps.picHeightInMapUnitsMinus1 ++
    [sps.frameMbsOnly] ++ (if sps.frameMbsOnly then [] else [sps.mbAdaptive]) ++
    [sps.direct8x8] ++ sps.croppingBits

def rbsp : Bytes := packBits (sps.bits ++ sps.tail)

end encoding

end Sps

/-- Emulation prevention: after two zero bytes no byte up to 3 stands without a 3 before it. -/
def preventEmulation : ℕ → Bytes → Bytes
  | _, [] => []
  | zeros, b :: rest =>
      let later (zeros : ℕ) := b :: preventEmulation (if b = 0 then zeros + 1 else 0) rest
      if zeros = 2 ∧ b ≤ 3 then 3 :: later 0 else later zeros

namespace Sps

section encoding

variable (sps : Sps)

def nal : Bytes := byteOf sps.nalHeader :: preventEmulation 0 sps.rbsp

def parsedLength : ℕ := (8 + sps.bits.length + 7) / 8

/-! ## The size -/

def crop (offset : Cropping → UeNumber) : ℤ :=
  match sps.cropping with
  | none => 0
  | some crop => (offset crop).val

def width : ℤ :=
  16 * (sps.picWidthInMbsMinus1 + 1) - 2 * (sps.crop Cropping.left + sps.crop Cropping.right)

/-- Field coding doubles the map units and the cropping unit. -/
def height : ℤ :=
  (if sps.frameMbsOnly then 1 else 2) *
    (16 * (sps.picHeightInMapUnitsMinus1 + 1) -
      2 * (sps.crop Cropping.top + sps.crop Cropping.bottom))

/-- What the parser does not read as it was written is not in the parameter set: no bytes
that the base64 pass decodes, no emulation prevention byte in the parsed part, no profile that
the parser does not know to have a chroma format, no offsets for reference frames. -/
structure Undisturbed : Prop where
  notBase64 : base64Count sps.nal = 0 ∨ base64Count sps.nal % 4 ≠ 0
  unprevented : sps.nal.take sps.parsedLength =
    (byteOf sps.nalHeader :: sps.rbsp).take sps.parsedLength
  knownProfile : sps.profileIdc.val ∉ [138, 139, 134, 135]
  noCycle : ∀ deltaAlwaysZero offsetForNonRef offsetForTopToBottom offsets short,
    sps.picOrderCount = .type1 deltaAlwaysZero offsetForNonRef offsetForTopToBottom offsets short →
      offsets = []

end encoding

end Sps

section values

variable (wide : ℕ → BitVec 32)

theorem shiftOne_eq {n : ℕ} (small : n < 32) : shiftOne wide n = BitVec.ofNat 32 (2 ^ n) := by
  rw [shiftOne, if_pos small]
  refine BitVec.eq_of_toNat_eq ?_
  simp [Nat.shiftLeft_eq]

theorem collect_eq : ∀ (bits : List Bool), bits.length ≤ 32 →
    collect wide bits = BitVec.ofNat 32 (natOf bits) := by
  intro bits
  induction bits with
  | nil => intro _; rfl
  | cons bit rest ih =>
      intro long
      have short : rest.length < 32 := by simpa using long
      rw [collect, ih short.le, natOf]
      cases bit with
      | false => simp
      | true =>
          have joined := Nat.two_pow_add_eq_or_of_lt (natOf_lt rest) 1
          rw [if_pos rfl, shiftOne_eq wide short, ← BitVec.ofNat_or, Bool.toNat_true,
            Nat.one_mul, ← Nat.mul_one (2 ^ rest.length), ← joined]

theorem length_ueBits (n : UeNumber) : (ueBits n).length ≤ 63 := by
  have small := length_golombSuffix_lt n 32 (by have bounded := n.isLt; omega)
  rw [ueBits, length_golombBits]
  omega

def ueCode (n : UeNumber) : GolombCode :=
  ⟨golombSuffix n, (length_golombSuffix_lt n 32 (by have bounded := n.isLt; omega)).trans
    (by norm_num)⟩

theorem ueCode_bits (n : UeNumber) : (ueCode n).bits = ueBits n := rfl

theorem ueCode_value (n : UeNumber) : (ueCode n).value wide = BitVec.ofNat 32 n := by
  have short := length_golombSuffix_lt n 32 (by have bounded := n.isLt; omega)
  have coded := golombValue_suffix n
  rw [golombValue] at coded
  have value : (ueCode n).value wide = if golombSuffix n = [] then 0
      else shiftOne wide (golombSuffix n).length - 1 + collect wide (golombSuffix n) := rfl
  rw [value]
  by_cases empty : golombSuffix n = []
  · rw [if_pos empty, ← coded, empty]
    rfl
  · have positive := Nat.two_pow_pos (golombSuffix n).length
    have one : BitVec.ofNat 32 (2 ^ (golombSuffix n).length) =
        BitVec.ofNat 32 (2 ^ (golombSuffix n).length - 1) + 1 := by
      have last : (1 : BitVec 32) = BitVec.ofNat 32 1 := rfl
      rw [last, BitVec.ofNat_add_ofNat, Nat.sub_add_cancel positive]
    rw [if_neg empty, shiftOne_eq wide short, collect_eq wide _ short.le, one,
      BitVec.add_sub_cancel, BitVec.ofNat_add_ofNat, coded]

section parsing

variable (sps : Sps)

def parsedOrderCount : PicOrderCount → OrderCount
  | .type0 log2MaxLsbMinus4 => .type0 (ueCode log2MaxLsbMinus4)
  | .type1 deltaAlwaysZero offsetForNonRef offsetForTopToBottom _ _ =>
      .type1 deltaAlwaysZero (ueCode offsetForNonRef.code) (ueCode offsetForTopToBottom.code) []
        (ueCode ⟨0, by norm_num⟩)
  | .type2 => .other

def parsedCrop (crop : Cropping) : CropFields where
  left := ueCode crop.left
  right := ueCode crop.right
  top := ueCode crop.top
  bottom := ueCode crop.bottom

def parsedHeader : HeaderFields where
  nalHeader := sps.nalHeader
  profileIdc := fixedBits 8 sps.profileIdc
  constraintsAndLevel := fixedBits 8 sps.constraintFlags ++ fixedBits 8 sps.levelIdc
  id := ueCode sps.id
  chroma :=
    if sps.profileIdc.val ∈ Sps.chromaProfiles then
      some ⟨ueCode ⟨1, by norm_num⟩, none, ueCode sps.bitDepthLumaMinus8,
        ueCode sps.bitDepthChromaMinus8, sps.transformBypass⟩
    else none
  log2MaxFrameNum := ueCode sps.log2MaxFrameNumMinus4
  pictOrderCntType := ueCode sps.picOrderCount.type
  orderCount := parsedOrderCount sps.picOrderCount
  maxNumRefFrames := ueCode sps.maxNumRefFrames
  gapsAllowed := sps.gapsAllowed

def parsed : ParameterSet where
  header := parsedHeader sps
  picWidthInMbs := ueCode sps.picWidthInMbsMinus1
  picHeightInMapUnits := ueCode sps.picHeightInMapUnitsMinus1
  frameMbsOnly := sps.frameMbsOnly
  mbAdaptive := if sps.frameMbsOnly then none else some sps.mbAdaptive
  direct8x8 := sps.direct8x8
  cropping := sps.cropping.map parsedCrop

theorem parsedOrderCount_bits (undisturbed : sps.Undisturbed) :
    (parsedOrderCount sps.picOrderCount).bits = sps.picOrderCount.bits := by
  have noCycle := undisturbed.noCycle
  cases count : sps.picOrderCount with
  | type0 lsb => rfl
  | type1 always nonRef topBottom offsets short =>
      obtain rfl := noCycle always nonRef topBottom offsets short count
      simp [parsedOrderCount, OrderCount.bits, OrderCount.roundBits, PicOrderCount.bits,
        ueCode_bits]
  | type2 => rfl

theorem parsedOrderCount_complete :
    (parsedOrderCount sps.picOrderCount).Complete wide
      ((ueCode sps.picOrderCount.type).value wide) := by
  rw [ueCode_value]
  cases sps.picOrderCount with
  | type0 lsb => rfl
  | type1 always nonRef topBottom offsets short =>
      refine ⟨rfl, ?_⟩
      simp [OrderCount.Rounds, ueCode_value]
  | type2 => exact ⟨by decide, by decide⟩

theorem highProfile_iff (profileIdc : Fin 256) (known : profileIdc.val ∉ [138, 139, 134, 135]) :
    highProfile (BitVec.ofNat 32 profileIdc) = true ↔ profileIdc.val ∈ Sps.chromaProfiles := by
  revert profileIdc
  decide +kernel

theorem collect_fixedBits (n : Fin 256) :
    collect wide (fixedBits 8 n) = BitVec.ofNat 32 n := by
  have small : n.val < 2 ^ 8 := n.isLt
  rw [collect_eq wide _ (by simp), natOf_fixedBits, Nat.mod_eq_of_lt small]

theorem parsedHeader_complete (known : sps.profileIdc.val ∉ [138, 139, 134, 135]) :
    (parsedHeader sps).Complete wide := by
  have profile := collect_fixedBits wide sps.profileIdc
  refine ⟨by simp [parsedHeader, Sps.nalHeader], by simp [parsedHeader], by simp [parsedHeader],
    ?_, ?_, parsedOrderCount_complete wide sps⟩
  · simp only [parsedHeader, profile, highProfile_iff sps.profileIdc known]
    split <;> simp_all
  · intro chroma member
    simp only [parsedHeader] at member
    split at member
    · obtain rfl := Option.mem_some_iff.mp member
      simp [ChromaFields.Complete, ueCode_value]
    · simp at member

theorem parsed_complete (known : sps.profileIdc.val ∉ [138, 139, 134, 135]) :
    (parsed sps).Complete wide := by
  refine ⟨parsedHeader_complete wide sps known, ?_⟩
  simp only [parsed]
  cases sps.frameMbsOnly <;> simp

theorem croppingBits_eq : croppingBits (sps.cropping.map parsedCrop) = sps.croppingBits := by
  unfold Sps.croppingBits
  cases sps.cropping <;> rfl

theorem noMatrix_of_chroma (noMatrix : ¬ sps.HasMatrix)
    (high : sps.profileIdc.val ∈ Sps.chromaProfiles) : sps.scalingMatrix = none := by
  by_contra present
  exact noMatrix ⟨high, Option.isSome_iff_ne_none.mpr present⟩

theorem parsed_bits (undisturbed : sps.Undisturbed) (noMatrix : ¬ sps.HasMatrix) :
    (parsed sps).bits = sps.nalHeader ++ sps.bits := by
  have adaptive : (if sps.frameMbsOnly then none else some sps.mbAdaptive).toList =
      if sps.frameMbsOnly then [] else [sps.mbAdaptive] := by
    cases sps.frameMbsOnly <;> rfl
  have chroma : ((parsedHeader sps).chroma.map ChromaFields.bits).getD [] = sps.chromaBits := by
    simp only [parsedHeader, Sps.chromaBits]
    split
    next high =>
      have absent := noMatrix_of_chroma sps noMatrix high
      simp [ChromaFields.bits, ueCode_bits, absent]
    next => rfl
  simp only [parsed, ParameterSet.bits, HeaderFields.bits, chroma, adaptive, croppingBits_eq]
  simp only [parsedHeader, parsedOrderCount_bits sps undisturbed, ueCode_bits, Sps.bits,
    List.append_assoc]

/-! ## The buffer -/

theorem length_chromaBits (noMatrix : ¬ sps.HasMatrix) :
    sps.chromaBits.length ≤ 191 := by
  have format := length_ueBits ⟨1, by norm_num⟩
  have luma := length_ueBits sps.bitDepthLumaMinus8
  have chroma := length_ueBits sps.bitDepthChromaMinus8
  rw [Sps.chromaBits]
  split
  · rw [noMatrix_of_chroma sps noMatrix ‹_›]
    simp only [List.length_append, List.length_singleton, Option.map_none, Option.getD_none,
      List.length_nil]
    omega
  · simp

theorem length_picOrderCount_bits (undisturbed : sps.Undisturbed) :
    sps.picOrderCount.bits.length ≤ 190 := by
  have noCycle := undisturbed.noCycle
  cases count : sps.picOrderCount with
  | type0 lsb =>
      have lsb := length_ueBits lsb
      simp only [PicOrderCount.bits]
      omega
  | type1 always nonRef topBottom offsets short =>
      obtain rfl := noCycle always nonRef topBottom offsets short count
      have nonRef := length_ueBits nonRef.code
      have topBottom := length_ueBits topBottom.code
      have cycle := length_ueBits ⟨0, by norm_num⟩
      simp only [PicOrderCount.bits, List.length_append, List.length_singleton, List.length_nil,
        List.flatMap_nil]
      omega
  | type2 => simp [PicOrderCount.bits]

theorem length_croppingBits : sps.croppingBits.length ≤ 253 := by
  unfold Sps.croppingBits
  cases sps.cropping with
  | none => simp
  | some crop =>
      have left := length_ueBits crop.left
      have right := length_ueBits crop.right
      have top := length_ueBits crop.top
      have bottom := length_ueBits crop.bottom
      simp
      omega

theorem length_bits (undisturbed : sps.Undisturbed) (noMatrix : ¬ sps.HasMatrix) :
    sps.bits.length ≤ 2000 := by
  have id := length_ueBits sps.id
  have chroma := length_chromaBits sps noMatrix
  have log2 := length_ueBits sps.log2MaxFrameNumMinus4
  have type := length_ueBits sps.picOrderCount.type
  have count := length_picOrderCount_bits sps undisturbed
  have frames := length_ueBits sps.maxNumRefFrames
  have width := length_ueBits sps.picWidthInMbsMinus1
  have height := length_ueBits sps.picHeightInMapUnitsMinus1
  have adaptive : (if sps.frameMbsOnly then [] else [sps.mbAdaptive]).length ≤ 1 := by
    split <;> simp
  have cropping := length_croppingBits sps
  simp only [Sps.bits, List.length_append, length_fixedBits, List.length_singleton]
  omega

theorem packBits_append (bits : List Bool) (header : List Bool) (eight : header.length = 8) :
    packBits (header ++ bits) = byteOf header :: packBits bits := by
  have groups : (header ++ bits).length / 8 = bits.length / 8 + 1 := by
    rw [List.length_append, eight]
    omega
  rw [packBits, groups, List.range_succ_eq_map, List.map_cons, List.map_map, packBits]
  congr 1
  · rw [Nat.mul_zero, List.drop_zero, ← eight, List.take_left]
  · refine List.map_congr_left fun index _ => ?_
    have behind : 8 * (index + 1) = header.length + 8 * index := by omega
    have past : header.drop (header.length + 8 * index) = [] :=
      List.drop_eq_nil_of_le (Nat.le_add_right _ _)
    rw [Function.comp_apply, Nat.succ_eq_add_one, behind, List.drop_append, past, List.nil_append,
      Nat.add_sub_cancel_left]

/-- The parser finds the bits of the parameter set, as far as its index does not wrap. -/
theorem carries_front (undisturbed : sps.Undisturbed)
    (aligned : 8 ∣ (sps.bits ++ sps.tail).length) {front back : List Bool}
    (split : sps.nalHeader ++ sps.bits = front ++ back) (short : front.length ≤ 2048) :
    Carries (bitAt sps.nal) 0 front := by
  have eight : sps.nalHeader.length = 8 := by simp [Sps.nalHeader]
  have parts : 8 + sps.bits.length = front.length + back.length := by
    rw [← eight, ← List.length_append, split, List.length_append]
  rw [carries_iff]
  intro index inside
  rw [List.length_append] at aligned
  have below : index % 2048 = index := by omega
  have early : index / 8 < sps.parsedLength := by
    rw [Sps.parsedLength]
    omega
  have whole : index < (sps.nalHeader ++ (sps.bits ++ sps.tail)).length / 8 * 8 := by
    simp only [List.length_append, eight]
    omega
  have raw : byteOf sps.nalHeader :: sps.rbsp =
      packBits (sps.nalHeader ++ (sps.bits ++ sps.tail)) :=
    (packBits_append _ _ eight).symm
  have byte : sps.nal[index / 8]? =
      (packBits (sps.nalHeader ++ (sps.bits ++ sps.tail)))[index / 8]? := by
    rw [← List.getElem?_take_of_lt early, undisturbed.unprevented, raw,
      List.getElem?_take_of_lt early]
  have stream := byteStream_packBits _ index whole
  rw [byteStream] at stream
  rw [Nat.zero_add, bitAt, below, byteStream, byte, stream, ← List.append_assoc, split,
    List.append_assoc, List.getElem?_append_left inside, List.getElem?_eq_getElem]

theorem carries_parsed (undisturbed : sps.Undisturbed) (noMatrix : ¬ sps.HasMatrix)
    (aligned : 8 ∣ (sps.bits ++ sps.tail).length) :
    Carries (bitAt sps.nal) 0 (parsed sps).bits := by
  have short := length_bits sps undisturbed noMatrix
  rw [parsed_bits sps undisturbed noMatrix]
  refine carries_front sps undisturbed aligned (List.append_nil _).symm ?_
  rw [List.length_append, Sps.nalHeader, length_fixedBits]
  omega

/-! ## The size -/

theorem croppingValue_eq (offset : Cropping → UeNumber) (value : FrameCrop → BitVec 32)
    (zero : value ⟨0, 0, 0, 0⟩ = 0)
    (field : ∀ crop, value ((parsedCrop crop).value wide) = BitVec.ofNat 32 (offset crop)) :
    value (croppingValue wide (sps.cropping.map parsedCrop)) = BitVec.ofInt 32 (sps.crop offset) := by
  unfold Sps.crop
  cases sps.cropping with
  | none => exact zero
  | some crop =>
      rw [BitVec.ofInt_natCast]
      exact field crop

theorem ofInt_sub (x y : ℤ) : BitVec.ofInt 32 (x - y) = BitVec.ofInt 32 x - BitVec.ofInt 32 y := by
  rw [Int.sub_eq_add_neg, BitVec.ofInt_add, BitVec.ofInt_neg, BitVec.sub_eq_add_neg]

theorem ofInt_one : BitVec.ofInt 32 1 = 1 := rfl

theorem ofInt_two : BitVec.ofInt 32 2 = 2 := rfl

theorem ofInt_sixteen : BitVec.ofInt 32 16 = 16 := rfl

theorem width_ofInt :
    (BitVec.ofNat 32 sps.picWidthInMbsMinus1 + 1) * 16 -
        BitVec.ofInt 32 (sps.crop Cropping.left) * 2 -
        BitVec.ofInt 32 (sps.crop Cropping.right) * 2 =
      BitVec.ofInt 32 sps.width := by
  simp only [Sps.width, ofInt_sub, BitVec.ofInt_mul, BitVec.ofInt_add, BitVec.ofInt_natCast,
    ofInt_one, ofInt_two, ofInt_sixteen]
  ring

theorem height_ofInt :
    (2 - flagValue sps.frameMbsOnly) *
        (BitVec.ofNat 32 sps.picHeightInMapUnitsMinus1 + 1) * 16 -
        (if flagValue sps.frameMbsOnly ≠ 0 then 2 else 4) *
          (BitVec.ofInt 32 (sps.crop Cropping.top) + BitVec.ofInt 32 (sps.crop Cropping.bottom)) =
      BitVec.ofInt 32 sps.height := by
  have unit : (if flagValue sps.frameMbsOnly ≠ 0 then 2 else 4 : BitVec 32) =
      (2 - flagValue sps.frameMbsOnly) * 2 := by
    cases sps.frameMbsOnly <;> rfl
  have rows : (2 - flagValue sps.frameMbsOnly : BitVec 32) =
      BitVec.ofInt 32 (if sps.frameMbsOnly then 1 else 2) := by
    cases sps.frameMbsOnly <;> rfl
  rw [unit, rows]
  simp only [Sps.height, ofInt_sub, BitVec.ofInt_mul, BitVec.ofInt_add, BitVec.ofInt_natCast,
    ofInt_one, ofInt_two, ofInt_sixteen]
  ring

theorem parsed_size :
    (parsed sps).size wide =
      BitVec.ofInt 32 sps.width <<< 16 ||| BitVec.ofInt 32 sps.height := by
  have left := croppingValue_eq wide sps Cropping.left FrameCrop.left rfl
    fun crop => ueCode_value wide crop.left
  have right := croppingValue_eq wide sps Cropping.right FrameCrop.right rfl
    fun crop => ueCode_value wide crop.right
  have top := croppingValue_eq wide sps Cropping.top FrameCrop.top rfl
    fun crop => ueCode_value wide crop.top
  have bottom := croppingValue_eq wide sps Cropping.bottom FrameCrop.bottom rfl
    fun crop => ueCode_value wide crop.bottom
  have size : (parsed sps).size wide =
      packedSize ((ueCode sps.picWidthInMbsMinus1).value wide)
        ((ueCode sps.picHeightInMapUnitsMinus1).value wide) (flagValue sps.frameMbsOnly)
        (croppingValue wide (sps.cropping.map parsedCrop)) := rfl
  rw [size, packedSize, left, right, top, bottom, ueCode_value, ueCode_value, width_ofInt,
    height_ofInt]

/-! ## The scaling matrix -/

theorem ends_ueBits {buffer : Bytes} {n : UeNumber} {o : ℕ}
    (here : Carries (bitAt buffer) o (ueBits n)) :
    (readUeg wide buffer).Ends o (BitVec.ofNat 32 n) (o + (ueBits n).length) :=
  (ends_readUeg wide buffer).mpr ⟨ueCode n, here, (ueCode_value wide n).symm, rfl⟩

theorem ends_bit {buffer : Bytes} {bit : Bool} {o : ℕ} (here : Carries (bitAt buffer) o [bit]) :
    (readBits wide buffer 1).Ends o (flagValue bit) (o + [bit].length) :=
  (ends_flag wide buffer).mpr ⟨bit, here, rfl, rfl⟩

def chromaFront : List Bool :=
  ueBits ⟨1, by norm_num⟩ ++ ueBits sps.bitDepthLumaMinus8 ++ ueBits sps.bitDepthChromaMinus8 ++
    [sps.transformBypass] ++ [true]

def headerFront : List Bool :=
  sps.nalHeader ++ fixedBits 8 sps.profileIdc ++
    (fixedBits 8 sps.constraintFlags ++ fixedBits 8 sps.levelIdc) ++ ueBits sps.id

theorem chromaFront_split (hasMatrix : sps.HasMatrix) :
    ∃ back, sps.nalHeader ++ sps.bits = headerFront sps ++ chromaFront sps ++ back := by
  obtain ⟨high, present⟩ := hasMatrix
  simp only [Sps.bits, Sps.chromaBits, if_pos high, present, headerFront, chromaFront,
    List.append_assoc]
  exact ⟨_, rfl⟩

theorem length_chromaFront : (headerFront sps ++ chromaFront sps).length ≤ 2048 := by
  have id := length_ueBits sps.id
  have format := length_ueBits ⟨1, by norm_num⟩
  have luma := length_ueBits sps.bitDepthLumaMinus8
  have chroma := length_ueBits sps.bitDepthChromaMinus8
  simp only [headerFront, chromaFront, Sps.nalHeader, List.length_append, length_fixedBits,
    List.length_singleton]
  omega

theorem not_ends_skipChroma {buffer : Bytes} {o : ℕ}
    (here : Carries (bitAt buffer) o (chromaFront sps)) (v : Unit) (o' : ℕ) :
    ¬ (skipChroma wide buffer).Ends o v o' := by
  simp only [chromaFront, List.append_assoc, carries_append] at here
  obtain ⟨formatHere, lumaHere, chromaHere, bypassHere, flagHere⟩ := here
  intro ends
  rw [skipChroma, Program.ends_bind_of_ends (ends_ueBits wide formatHere),
    Program.ends_bind_of_ends (Program.ends_when_of_not (by decide)),
    Program.ends_bind_of_ends (ends_ueBits wide lumaHere).skip,
    Program.ends_bind_of_ends (ends_ueBits wide chromaHere).skip,
    Program.ends_bind_of_ends (ends_bit wide bypassHere).skip,
    Program.ends_bind_of_ends (ends_bit wide flagHere), Program.ends_when] at ends
  rcases ends with ⟨_, matrix⟩ | ⟨unset, _⟩
  · exact not_ends_skipScalingMatrix wide buffer _ _ _ _ matrix
  · exact unset (by decide)

theorem not_ends_skipHeader {buffer : Bytes} (known : sps.profileIdc.val ∉ [138, 139, 134, 135])
    (high : sps.profileIdc.val ∈ Sps.chromaProfiles)
    (here : Carries (bitAt buffer) 0 (headerFront sps ++ chromaFront sps)) (v : Unit) (o' : ℕ) :
    ¬ (skipHeader wide buffer).Ends 0 v o' := by
  have isHigh := (highProfile_iff sps.profileIdc known).mpr high
  have nalLong : sps.nalHeader.length = 8 := by simp [Sps.nalHeader]
  simp only [carries_append, headerFront, List.length_append, nalLong, length_fixedBits,
    Nat.zero_add] at here
  obtain ⟨⟨⟨⟨nalHere, profileHere⟩, levelHere⟩, idHere⟩, chromaHere⟩ := here
  have nal : (readBits wide buffer 8).Ends 0 _ 8 :=
    (ends_readBits wide buffer).mpr ⟨by norm_num, _, nalLong, nalHere, rfl, rfl⟩
  have profile : (readBits wide buffer 8).Ends 8 (BitVec.ofNat 32 sps.profileIdc) 16 :=
    (ends_readBits wide buffer).mpr ⟨by norm_num, _, length_fixedBits _ _, profileHere,
      (collect_fixedBits wide _).symm, rfl⟩
  have level : (readBits wide buffer 16).Ends 16 _ 32 :=
    (ends_readBits wide buffer).mpr ⟨by norm_num,
      fixedBits 8 sps.constraintFlags ++ fixedBits 8 sps.levelIdc, by simp,
      (carries_append _ _ _ _).mpr (by simpa using levelHere), rfl, rfl⟩
  intro ends
  rw [skipHeader, Program.ends_bind_of_ends nal.skip,
    Program.ends_bind_of_ends profile,
    Program.ends_bind_of_ends level.skip,
    Program.ends_bind_of_ends (ends_ueBits wide idHere).skip,
    Program.ends_bind] at ends
  obtain ⟨_, _, chroma, _⟩ := ends
  rcases Program.ends_when.mp chroma with ⟨_, chroma⟩ | ⟨low, _⟩
  · exact not_ends_skipChroma wide sps (by simpa [Nat.add_assoc] using chromaHere) _ _ chroma
  · exact low isHigh

theorem decode_undisturbed (undisturbed : sps.Undisturbed) :
    base64Decode sps.nal = some sps.nal :=
  if_pos undisturbed.notBase64

theorem not_ends_hasMatrix (undisturbed : sps.Undisturbed)
    (aligned : 8 ∣ (sps.bits ++ sps.tail).length) (hasMatrix : sps.HasMatrix) (stale : ℕ)
    (size : BitVec 32) (o' : ℕ) : ¬ (spsParser wide sps.nal).Ends stale size o' := by
  obtain ⟨back, split⟩ := chromaFront_split sps hasMatrix
  have here := carries_front sps undisturbed aligned split (length_chromaFront sps)
  have start : (Program.action fun _ : ℕ => some ((), 0)).Ends stale () 0 :=
    Program.ends_action.mpr rfl
  have decode : (Program.action fun offset : ℕ =>
      (base64Decode sps.nal).map fun buffer => (buffer, offset)).Ends 0 sps.nal 0 :=
    Program.ends_action.mpr (by rw [decode_undisturbed sps undisturbed]; rfl)
  intro ends
  rw [spsParser, Program.ends_bind_of_ends start, Program.ends_bind_of_ends decode,
    Program.ends_bind] at ends
  obtain ⟨_, _, header, _⟩ := ends
  exact not_ends_skipHeader wide sps undisturbed.knownProfile hasMatrix.1 here _ _ header

def packed : BitVec 32 := BitVec.ofNat 32 (sps.width.toNat <<< 16 ||| sps.height.toNat)

theorem packed_eq (wide : 0 ≤ sps.width) (high : 0 ≤ sps.height) :
    BitVec.ofInt 32 sps.width <<< 16 ||| BitVec.ofInt 32 sps.height = packed sps := by
  have shifted : BitVec.ofNat 32 (sps.width.toNat <<< 16) =
      BitVec.ofNat 32 sps.width.toNat <<< 16 := by
    refine BitVec.eq_of_toNat_eq ?_
    simp [Nat.shiftLeft_eq, Nat.mod_mul_mod]
  rw [packed, BitVec.ofNat_or, shifted, ← BitVec.ofInt_natCast, ← BitVec.ofInt_natCast,
    Int.toNat_of_nonneg wide, Int.toNat_of_nonneg high]

/-- A parameter set that nothing disturbs is read with its size exactly if it has no scaling
matrix. -/
theorem spsParser_size_iff (undisturbed : sps.Undisturbed)
    (aligned : 8 ∣ (sps.bits ++ sps.tail).length) (widthFits : 0 ≤ sps.width ∧ sps.width < 2 ^ 16)
    (heightFits : 0 ≤ sps.height ∧ sps.height < 2 ^ 16) (stale : ℕ) :
    (∃ o', (spsParser wide sps.nal).Ends stale (packed sps) o') ↔ ¬ sps.HasMatrix := by
  constructor
  · rintro ⟨o', ends⟩ hasMatrix
    exact not_ends_hasMatrix wide sps undisturbed aligned hasMatrix stale _ o' ends
  · intro noMatrix
    have decoded := decode_undisturbed sps undisturbed
    have complete := parsed_complete wide sps undisturbed.knownProfile
    have carried := carries_parsed sps undisturbed noMatrix aligned
    have size : (parsed sps).size wide = packed sps := by
      rw [parsed_size, packed_eq sps widthFits.1 heightFits.1]
    have ends : (spsParser wide sps.nal).Ends stale ((parsed sps).size wide)
        (parsed sps).bits.length :=
      (ends_spsParser wide sps.nal decoded).mpr ⟨parsed sps, complete, carried, rfl, rfl⟩
    rw [size] at ends
    exact ⟨_, ends⟩

end parsing

end values

/-- A High profile parameter set for 1280 by 720. -/
def highSet (scalingMatrix : Option ScalingMatrix) : Sps where
  nalRefIdc := 3
  profileIdc := 100
  constraintFlags := 0
  levelIdc := 40
  id := ⟨0, by norm_num⟩
  bitDepthLumaMinus8 := ⟨0, by norm_num⟩
  bitDepthChromaMinus8 := ⟨0, by norm_num⟩
  transformBypass := false
  scalingMatrix := scalingMatrix
  log2MaxFrameNumMinus4 := ⟨0, by norm_num⟩
  picOrderCount := .type0 ⟨0, by norm_num⟩
  maxNumRefFrames := ⟨1, by norm_num⟩
  gapsAllowed := false
  picWidthInMbsMinus1 := ⟨79, by norm_num⟩
  picHeightInMapUnitsMinus1 := ⟨44, by norm_num⟩
  frameMbsOnly := true
  mbAdaptive := false
  direct8x8 := true
  cropping := none
  tail := [false, true, false, false, false, false]

theorem highSet_size : ∃ o', (spsParser (fun _ => 0) (highSet none).nal).Ends 0
    (packed (highSet none)) o' :=
  (spsParser_size_iff (fun _ => 0) (highSet none)
    ⟨by decide, by decide, by decide, by intro _ _ _ _ _ count; cases count⟩
    (by decide) (by decide) (by decide) 0).mpr (by rintro ⟨_, present⟩; cases present)

def emptyMatrix : ScalingMatrix where
  lists := List.replicate 8 none
  eight := rfl
  small := by simp
  large := by simp

theorem emptyMatrix_noSize :
    (highSet (some emptyMatrix)).width = 1280 ∧ (highSet (some emptyMatrix)).height = 720 ∧
      ¬ ∃ size o', (spsParser (fun _ => 0) (highSet (some emptyMatrix)).nal).Ends 0 size o' := by
  refine ⟨by decide, by decide, ?_⟩
  rintro ⟨size, o', ends⟩
  exact Program.not_ends_of_failed 200 (by decide) size o' ends

end AirCast.Mirror
