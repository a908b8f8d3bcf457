import AirCast.Mirror.SpsReader

/-! # The bit strings that the parser reads to the end

The syntax of a sequence parameter set as the parser sees it, up to the cropping
offsets.  `sps_parser` ends without a read outside the buffer exactly if the buffer
begins with such a string. -/

set_option autoImplicit false

namespace AirCast.Mirror

section syntaxOf

variable (wide : ℕ → BitVec 32) (buffer : Bytes)

/-! ## The parts of a parameter set -/

/-- The fields of the high profiles, without a scaling matrix. -/
structure ChromaFields where
  chromaFormatIdc : GolombCode
  separateColourPlane : Option Bool
  bitDepthLuma : GolombCode
  bitDepthChroma : GolombCode
  bypass : Bool

namespace ChromaFields

def bits (fields : ChromaFields) : List Bool :=
  fields.chromaFormatIdc.bits ++ fields.separateColourPlane.toList ++ fields.bitDepthLuma.bits ++
    fields.bitDepthChroma.bits ++ [fields.bypass] ++ [false]

def Complete (fields : ChromaFields) : Prop :=
  fields.separateColourPlane.isSome ↔ fields.chromaFormatIdc.value wide = 3

end ChromaFields

/-- The fields of the picture order count. -/
inductive OrderCount where
  | type0 (log2MaxLsb : GolombCode)
  | type1 (alwaysZero : Bool) (offsetForNonRef offsetForTopToBottom : GolombCode)
      (rounds : List (GolombCode × GolombCode)) (last : GolombCode)
  | other

namespace OrderCount

def roundBits (rounds : List (GolombCode × GolombCode)) : List Bool :=
  rounds.flatMap fun round => round.1.bits ++ round.2.bits

def bits : OrderCount → List Bool
  | .type0 log2MaxLsb => log2MaxLsb.bits
  | .type1 alwaysZero offsetForNonRef offsetForTopToBottom rounds last =>
      [alwaysZero] ++ offsetForNonRef.bits ++ offsetForTopToBottom.bits ++ roundBits rounds ++
        last.bits
  | .other => []

/-- The rounds from round `i` on go on as long as the count read in them says so. -/
def Rounds (i : BitVec 32) : List (GolombCode × GolombCode) → GolombCode → Prop
  | [], last => ¬ i < last.value wide
  | round :: rest, last => i < round.1.value wide ∧ Rounds (i + 1) rest last

def Complete (pictOrderCntType : BitVec 32) : OrderCount → Prop
  | .type0 _ => pictOrderCntType = 0
  | .type1 _ _ _ rounds last => pictOrderCntType = 1 ∧ Rounds wide 0 rounds last
  | .other => pictOrderCntType ≠ 0 ∧ pictOrderCntType ≠ 1

end OrderCount

/-- The cropping offsets. -/
structure CropFields where
  left : GolombCode
  right : GolombCode
  top : GolombCode
  bottom : GolombCode

namespace CropFields

def bits (fields : CropFields) : List Bool :=
  fields.left.bits ++ fields.right.bits ++ fields.top.bits ++ fields.bottom.bits

def value (fields : CropFields) : FrameCrop :=
  ⟨fields.left.value wide, fields.right.value wide, fields.top.value wide,
    fields.bottom.value wide⟩

end CropFields

def croppingBits (cropping : Option CropFields) : List Bool :=
  cropping.isSome :: (cropping.map CropFields.bits).getD []

def croppingValue (cropping : Option CropFields) : FrameCrop :=
  (cropping.map (CropFields.value wide)).getD ⟨0, 0, 0, 0⟩

/-- The fields before the size of the picture. -/
structure HeaderFields where
  nalHeader : List Bool
  profileIdc : List Bool
  constraintsAndLevel : List Bool
  id : GolombCode
  chroma : Option ChromaFields
  log2MaxFrameNum : GolombCode
  pictOrderCntType : GolombCode
  orderCount : OrderCount
  maxNumRefFrames : GolombCode
  gapsAllowed : Bool

namespace HeaderFields

def bits (fields : HeaderFields) : List Bool :=
  fields.nalHeader ++ fields.profileIdc ++ fields.constraintsAndLevel ++ fields.id.bits ++
    (fields.chroma.map ChromaFields.bits).getD [] ++ fields.log2MaxFrameNum.bits ++
    fields.pictOrderCntType.bits ++ fields.orderCount.bits ++ fields.maxNumRefFrames.bits ++
    [fields.gapsAllowed]

/-- The lengths of the fixed fields, and the parts that are there exactly if the fields
before them say so. -/
structure Complete (fields : HeaderFields) : Prop where
  nalHeader : fields.nalHeader.length = 8
  profileIdc : fields.profileIdc.length = 8
  constraintsAndLevel : fields.constraintsAndLevel.length = 16
  chroma : fields.chroma.isSome ↔ highProfile (collect wide fields.profileIdc)
  chromaFields : ∀ chroma ∈ fields.chroma, chroma.Complete wide
  orderCount : fields.orderCount.Complete wide (fields.pictOrderCntType.value wide)

end HeaderFields

/-- A parameter set up to the cropping offsets. -/
structure ParameterSet where
  header : HeaderFields
  picWidthInMbs : GolombCode
  picHeightInMapUnits : GolombCode
  frameMbsOnly : Bool
  mbAdaptive : Option Bool
  direct8x8 : Bool
  cropping : Option CropFields

namespace ParameterSet

def bits (fields : ParameterSet) : List Bool :=
  fields.header.bits ++ fields.picWidthInMbs.bits ++ fields.picHeightInMapUnits.bits ++
    [fields.frameMbsOnly] ++ fields.mbAdaptive.toList ++ [fields.direct8x8] ++
    croppingBits fields.cropping

structure Complete (fields : ParameterSet) : Prop where
  header : fields.header.Complete wide
  mbAdaptive : fields.mbAdaptive.isSome ↔ fields.frameMbsOnly = false

def size (fields : ParameterSet) : BitVec 32 :=
  packedSize (fields.picWidthInMbs.value wide) (fields.picHeightInMapUnits.value wide)
    (flagValue fields.frameMbsOnly) (croppingValue wide fields.cropping)

end ParameterSet

/-! ## The programs for the parts -/

theorem not_ends_skipScalingMatrix (chromaFormatIdc : BitVec 32) (o : ℕ) (v : Unit) (o' : ℕ) :
    ¬ (skipScalingMatrix wide buffer chromaFormatIdc).Ends o v o' := by
  refine Program.not_ends_loop (fun _ => True) (fun _ _ _ _ _ _ => trivial) ?_ trivial o v o'
  intro i s value t _ round
  have always : matrixCondition chromaFormatIdc i ≠ 0 := by
    simp only [matrixCondition]
    split_ifs <;> norm_num
  simp only [ne_eq, always, not_false_eq_true, if_true, Program.ends_bind, Program.ends_pure,
    reduceCtorEq, false_and, and_false, exists_false] at round

theorem ends_optionalFlag {condition : Prop} [Decidable condition] {o o' : ℕ} {v : Unit} :
    (Program.when condition (readBits wide buffer 1).skip).Ends o v o' ↔
      ∃ flag : Option Bool, (flag.isSome ↔ condition) ∧
        Carries (bitAt buffer) o flag.toList ∧ o' = o + flag.toList.length := by
  simp only [Program.ends_when, Program.ends_skip, ends_flag]
  constructor
  · rintro (⟨holds, _, bit, carried, rfl, rfl⟩ | ⟨fails, rfl⟩)
    · exact ⟨some bit, by simpa using holds, carried, rfl⟩
    · exact ⟨none, by simpa using fails, trivial, rfl⟩
  · rintro ⟨_ | bit, present, carried, rfl⟩
    · exact .inr ⟨by simpa using present, rfl⟩
    · exact .inl ⟨by simpa using present, _, bit, carried, rfl, rfl⟩

theorem ends_skipChroma {o o' : ℕ} {v : Unit} :
    (skipChroma wide buffer).Ends o v o' ↔
      ∃ fields : ChromaFields, fields.Complete wide ∧ Carries (bitAt buffer) o fields.bits ∧
        o' = o + fields.bits.length := by
  simp only [skipChroma, Program.ends_bind, Program.ends_skip, ends_optionalFlag, ends_readUeg,
    ends_flag]
  simp only [Program.ends_when, not_ends_skipScalingMatrix]
  constructor
  · rintro ⟨_, _, ⟨format, formatHere, rfl, rfl⟩, _, _, ⟨plane, present, planeHere, rfl⟩,
      _, _, ⟨_, luma, lumaHere, rfl, rfl⟩, _, _, ⟨_, depth, depthHere, rfl, rfl⟩,
      _, _, ⟨_, bypass, bypassHere, rfl, rfl⟩, _, _, ⟨matrix, matrixHere, rfl, rfl⟩,
      ⟨_, impossible⟩ | ⟨absent, rfl⟩⟩
    · exact impossible.elim
    · obtain rfl : matrix = false := by cases matrix <;> simp_all [flagValue]
      refine ⟨⟨format, plane, luma, depth, bypass⟩, present, ?_, ?_⟩
      · simp only [ChromaFields.bits, carries_append, List.length_append, ← Nat.add_assoc]
        exact ⟨⟨⟨⟨⟨formatHere, planeHere⟩, lumaHere⟩, depthHere⟩, bypassHere⟩, matrixHere⟩
      · simp only [ChromaFields.bits, List.length_append, List.length_singleton]
        omega
  · rintro ⟨⟨format, plane, luma, depth, bypass⟩, present, carried, rfl⟩
    simp only [ChromaFields.bits, carries_append, List.length_append, ← Nat.add_assoc] at carried
    obtain ⟨⟨⟨⟨⟨formatHere, planeHere⟩, lumaHere⟩, depthHere⟩, bypassHere⟩, matrixHere⟩ := carried
    refine ⟨_, _, ⟨format, formatHere, rfl, rfl⟩, (), _, ⟨plane, present, planeHere, rfl⟩,
      (), _, ⟨_, luma, lumaHere, rfl, rfl⟩, (), _, ⟨_, depth, depthHere, rfl, rfl⟩,
      (), _, ⟨_, bypass, bypassHere, rfl, rfl⟩, _, _, ⟨false, matrixHere, rfl, rfl⟩,
      .inr ⟨by simp [flagValue], ?_⟩⟩
    simp only [ChromaFields.bits, List.length_append, List.length_singleton]
    omega

/-! ## The picture order count -/

theorem skipOffsets_found {i : BitVec 32} {o o' : ℕ} {v : Unit}
    (ends : (skipOffsets wide buffer i).Ends o v o') :
    ∃ rounds last, OrderCount.Rounds wide i rounds last ∧
      Carries (bitAt buffer) o (OrderCount.roundBits rounds ++ last.bits) ∧
      o' = o + (OrderCount.roundBits rounds ++ last.bits).length := by
  refine Program.loop_induction (fun i o _ o' =>
    ∃ rounds last, OrderCount.Rounds wide i rounds last ∧
      Carries (bitAt buffer) o (OrderCount.roundBits rounds ++ last.bits) ∧
      o' = o + (OrderCount.roundBits rounds ++ last.bits).length) ?_ ?_ ends
  · rintro i o next t v o' round ⟨rounds, last, goesOn, carried, rfl⟩
    rw [Program.ends_bind] at round
    obtain ⟨_, _, read, round⟩ := round
    obtain ⟨count, countHere, rfl, rfl⟩ := (ends_readUeg wide buffer).mp read
    by_cases more : i < count.value wide
    · simp only [more, if_true, Program.ends_bind, Program.ends_skip, ends_readEg,
        Program.ends_pure, Sum.inl.injEq] at round
      obtain ⟨_, _, ⟨_, offset, offsetHere, rfl, rfl⟩, rfl, rfl⟩ := round
      refine ⟨(count, offset) :: rounds, last, ⟨more, goesOn⟩, ?_, ?_⟩
      · simp only [OrderCount.roundBits, List.flatMap_cons, carries_append,
          List.length_append, ← Nat.add_assoc] at carried ⊢
        exact ⟨⟨⟨countHere, offsetHere⟩, carried.1⟩, carried.2⟩
      · simp only [OrderCount.roundBits, List.flatMap_cons, List.length_append]
        omega
    · simp [more] at round
  · rintro i o v o' round
    rw [Program.ends_bind] at round
    obtain ⟨_, _, read, round⟩ := round
    obtain ⟨count, countHere, rfl, rfl⟩ := (ends_readUeg wide buffer).mp read
    by_cases more : i < count.value wide
    · simp [more, Program.ends_bind] at round
    · obtain rfl : o' = o + count.bits.length := by simpa [more] using round
      exact ⟨[], count, more, countHere, rfl⟩

theorem skipOffsets_ends :
    ∀ (rounds : List (GolombCode × GolombCode)) (last : GolombCode) (i : BitVec 32) (o : ℕ),
      OrderCount.Rounds wide i rounds last →
      Carries (bitAt buffer) o (OrderCount.roundBits rounds ++ last.bits) →
      (skipOffsets wide buffer i).Ends o ()
        (o + (OrderCount.roundBits rounds ++ last.bits).length) := by
  intro rounds
  induction rounds with
  | nil =>
      intro last i o finished carried
      refine Program.ends_loop.mpr (.inr (Program.ends_bind.mpr
        ⟨_, _, (ends_readUeg wide buffer).mpr ⟨last, carried, rfl, rfl⟩, ?_⟩))
      have finished : ¬ i < last.value wide := finished
      simp [finished, OrderCount.roundBits]
  | cons round rounds ih =>
      intro last i o goesOn carried
      simp only [OrderCount.roundBits, List.flatMap_cons, List.append_assoc,
        carries_append] at carried
      obtain ⟨countHere, offsetHere, roundsHere, lastHere⟩ := carried
      have more : i < round.1.value wide := goesOn.1
      refine Program.ends_loop.mpr (.inl ⟨i + 1, o + round.1.bits.length + round.2.bits.length,
        Program.ends_bind.mpr ⟨_, _, (ends_readUeg wide buffer).mpr ⟨_, countHere, rfl, rfl⟩, ?_⟩,
        ?_⟩)
      · simp only [more, if_true, Program.ends_bind, Program.ends_skip, ends_readEg,
          Program.ends_pure]
        exact ⟨(), _, ⟨_, round.2, offsetHere, rfl, rfl⟩, trivial, rfl⟩
      · have rest := ih last (i + 1) (o + round.1.bits.length + round.2.bits.length) goesOn.2
          ((carries_append _ _ _ _).mpr ⟨roundsHere, lastHere⟩)
        have whole : o + (OrderCount.roundBits (round :: rounds) ++ last.bits).length =
            o + round.1.bits.length + round.2.bits.length +
              (OrderCount.roundBits rounds ++ last.bits).length := by
          simp only [OrderCount.roundBits, List.flatMap_cons, List.length_append]
          omega
        rw [whole]
        exact rest

theorem ends_skipOrderCount {pictOrderCntType : BitVec 32} {o o' : ℕ} {v : Unit} :
    (skipOrderCount wide buffer pictOrderCntType).Ends o v o' ↔
      ∃ fields : OrderCount, fields.Complete wide pictOrderCntType ∧
        Carries (bitAt buffer) o fields.bits ∧ o' = o + fields.bits.length := by
  rw [skipOrderCount]
  split
  next zero =>
    subst zero
    simp only [Program.ends_skip, ends_readUeg]
    constructor
    · rintro ⟨_, lsb, carried, rfl, rfl⟩
      exact ⟨.type0 lsb, rfl, carried, rfl⟩
    · rintro ⟨lsb | ⟨always, nonRef, topBottom, rounds, last⟩ | _, complete, carried, rfl⟩
      · exact ⟨_, lsb, carried, rfl, rfl⟩
      · exact absurd complete.1 (by decide)
      · exact absurd rfl complete.1
  next nonzero =>
    split
    next one =>
      subst one
      simp only [Program.ends_bind, Program.ends_skip, ends_readEg, ends_flag]
      constructor
      · rintro ⟨_, _, ⟨_, always, alwaysHere, rfl, rfl⟩, _, _, ⟨_, nonRef, nonRefHere, rfl, rfl⟩,
          _, _, ⟨_, topBottom, topBottomHere, rfl, rfl⟩, offsets⟩
        obtain ⟨rounds, last, goesOn, carried, rfl⟩ := skipOffsets_found wide buffer offsets
        refine ⟨.type1 always nonRef topBottom rounds last, ⟨rfl, goesOn⟩, ?_, ?_⟩
        · rw [carries_append] at carried
          simp only [OrderCount.bits, carries_append, List.length_append, ← Nat.add_assoc]
          exact ⟨⟨⟨⟨alwaysHere, nonRefHere⟩, topBottomHere⟩, carried.1⟩, carried.2⟩
        · simp only [OrderCount.bits, List.length_append, List.length_singleton]
          omega
      · rintro ⟨lsb | ⟨always, nonRef, topBottom, rounds, last⟩ | _, complete, carried, rfl⟩
        · exact absurd complete nonzero
        · simp only [OrderCount.bits, List.append_assoc, carries_append] at carried
          obtain ⟨alwaysHere, nonRefHere, topBottomHere, roundsHere, lastHere⟩ := carried
          have offsets := skipOffsets_ends wide buffer rounds last 0
            (o + 1 + nonRef.bits.length + topBottom.bits.length) complete.2
            ((carries_append _ _ _ _).mpr ⟨roundsHere, lastHere⟩)
          have whole : o + (OrderCount.bits (.type1 always nonRef topBottom rounds last)).length =
              o + 1 + nonRef.bits.length + topBottom.bits.length +
                (OrderCount.roundBits rounds ++ last.bits).length := by
            simp only [OrderCount.bits, List.length_append, List.length_singleton]
            omega
          rw [whole]
          exact ⟨(), _, ⟨_, always, alwaysHere, rfl, rfl⟩, (), _, ⟨_, nonRef, nonRefHere, rfl, rfl⟩,
            (), _, ⟨_, topBottom, topBottomHere, rfl, rfl⟩, offsets⟩
        · exact absurd rfl complete.2
    next other =>
      rw [Program.ends_pure]
      constructor
      · rintro ⟨_, rfl⟩
        exact ⟨.other, ⟨nonzero, other⟩, trivial, rfl⟩
      · rintro ⟨lsb | ⟨always, nonRef, topBottom, rounds, last⟩ | _, complete, carried, rfl⟩
        · exact absurd complete nonzero
        · exact absurd complete.1 other
        · exact ⟨rfl, rfl⟩

/-! ## The cropping offsets -/

theorem ends_readFrameCrop {o o' : ℕ} {v : FrameCrop} :
    (readFrameCrop wide buffer).Ends o v o' ↔
      ∃ cropping : Option CropFields, Carries (bitAt buffer) o (croppingBits cropping) ∧
        v = croppingValue wide cropping ∧ o' = o + (croppingBits cropping).length := by
  rw [readFrameCrop, Program.ends_bind]
  constructor
  · rintro ⟨_, _, flag, rest⟩
    obtain ⟨present, presentHere, rfl, rfl⟩ := (ends_flag wide buffer).mp flag
    cases present with
    | false =>
        obtain ⟨rfl, rfl⟩ : v = ⟨0, 0, 0, 0⟩ ∧ o' = o + 1 := by simpa [flagValue] using rest
        exact ⟨none, presentHere, rfl, rfl⟩
    | true =>
        rw [if_pos (by decide)] at rest
        simp only [Program.ends_bind, ends_readUeg, Program.ends_pure] at rest
        obtain ⟨_, _, ⟨left, leftHere, rfl, rfl⟩, _, _, ⟨right, rightHere, rfl, rfl⟩,
          _, _, ⟨top, topHere, rfl, rfl⟩, _, _, ⟨bottom, bottomHere, rfl, rfl⟩, rfl, rfl⟩ := rest
        refine ⟨some ⟨left, right, top, bottom⟩, ⟨presentHere.1, ?_⟩, rfl, ?_⟩
        · simp only [Option.map_some, Option.getD_some, CropFields.bits, carries_append,
            List.length_append, ← Nat.add_assoc]
          exact ⟨⟨⟨leftHere, rightHere⟩, topHere⟩, bottomHere⟩
        · simp only [croppingBits, Option.map_some, Option.getD_some, CropFields.bits,
            List.length_cons, List.length_append]
          omega
  · rintro ⟨_ | ⟨left, right, top, bottom⟩, carried, rfl, rfl⟩
    · exact ⟨_, _, (ends_flag wide buffer).mpr ⟨false, carried, rfl, rfl⟩,
        by simp [flagValue, croppingValue, croppingBits]⟩
    · obtain ⟨presentHere, carried⟩ := carried
      simp only [Option.map_some, Option.getD_some, CropFields.bits, List.append_assoc,
        carries_append] at carried
      obtain ⟨leftHere, rightHere, topHere, bottomHere⟩ := carried
      refine ⟨_, _, (ends_flag wide buffer).mpr ⟨true, ⟨presentHere, trivial⟩, rfl, rfl⟩, ?_⟩
      rw [if_pos (by decide)]
      simp only [Program.ends_bind, ends_readUeg, Program.ends_pure]
      refine ⟨_, _, ⟨left, leftHere, rfl, rfl⟩, _, _, ⟨right, rightHere, rfl, rfl⟩,
        _, _, ⟨top, topHere, rfl, rfl⟩, _, _, ⟨bottom, bottomHere, rfl, rfl⟩, rfl, ?_⟩
      simp only [croppingBits, Option.map_some, Option.getD_some, CropFields.bits,
        List.length_cons, List.length_append]
      omega

/-! ## The whole parameter set -/

theorem ends_optionalChroma {condition : Prop} [Decidable condition] {o o' : ℕ} {v : Unit} :
    (Program.when condition (skipChroma wide buffer)).Ends o v o' ↔
      ∃ chroma : Option ChromaFields, (chroma.isSome ↔ condition) ∧
        (∀ fields ∈ chroma, fields.Complete wide) ∧
        Carries (bitAt buffer) o ((chroma.map ChromaFields.bits).getD []) ∧
        o' = o + ((chroma.map ChromaFields.bits).getD []).length := by
  simp only [Program.ends_when, ends_skipChroma]
  constructor
  · rintro (⟨holds, fields, complete, carried, rfl⟩ | ⟨fails, rfl⟩)
    · exact ⟨some fields, by simpa using holds, by simpa using complete, carried, rfl⟩
    · exact ⟨none, by simpa using fails, by simp, trivial, rfl⟩
  · rintro ⟨_ | fields, present, complete, carried, rfl⟩
    · exact .inr ⟨by simpa using present, rfl⟩
    · exact .inl ⟨by simpa using present, fields, complete fields rfl, carried, rfl⟩

theorem ends_skipHeader {o o' : ℕ} {v : Unit} :
    (skipHeader wide buffer).Ends o v o' ↔
      ∃ fields : HeaderFields, fields.Complete wide ∧ Carries (bitAt buffer) o fields.bits ∧
        o' = o + fields.bits.length := by
  simp only [skipHeader, Program.ends_bind, Program.ends_skip, ends_flag, ends_readUeg,
    ends_optionalChroma, ends_skipOrderCount]
  simp only [ends_readBits]
  constructor
  · rintro ⟨_, _, ⟨_, _, nal, nalLong, nalHere, rfl, rfl⟩,
      _, _, ⟨_, profile, profileLong, profileHere, rfl, rfl⟩,
      _, _, ⟨_, _, level, levelLong, levelHere, rfl, rfl⟩, _, _, ⟨_, id, idHere, rfl, rfl⟩, rest⟩
    obtain ⟨_, _, ⟨chroma, chromaIff, chromaOk, chromaHere, rfl⟩, rest⟩ := rest
    obtain ⟨_, _, ⟨_, log2, log2Here, rfl, rfl⟩, _, _, ⟨type, typeHere, rfl, rfl⟩, rest⟩ := rest
    obtain ⟨_, _, ⟨order, orderOk, orderHere, rfl⟩, rest⟩ := rest
    obtain ⟨_, _, ⟨_, frames, framesHere, rfl, rfl⟩, _, gaps, gapsHere, rfl, rfl⟩ := rest
    refine ⟨⟨nal, profile, level, id, chroma, log2, type, order, frames, gaps⟩,
      ⟨nalLong, profileLong, levelLong, chromaIff, chromaOk, orderOk⟩, ?_, ?_⟩
    · simp only [HeaderFields.bits, List.append_assoc, carries_append, nalLong, profileLong,
        levelLong]
      exact ⟨nalHere, profileHere, levelHere, idHere, chromaHere, log2Here, typeHere, orderHere,
        framesHere, gapsHere⟩
    · simp only [HeaderFields.bits, List.length_append, List.length_singleton, nalLong,
        profileLong, levelLong]
      omega
  · rintro ⟨⟨nal, profile, level, id, chroma, log2, type, order, frames, gaps⟩,
      ⟨nalLong, profileLong, levelLong, chromaIff, chromaOk, orderOk⟩, carried, rfl⟩
    simp only at nalLong profileLong levelLong chromaIff chromaOk orderOk
    simp only [HeaderFields.bits, List.append_assoc, carries_append, nalLong, profileLong,
      levelLong] at carried
    obtain ⟨nalHere, profileHere, levelHere, idHere, chromaHere, log2Here, typeHere, orderHere,
      framesHere, gapsHere⟩ := carried
    refine ⟨(), _, ⟨_, by norm_num, nal, nalLong, nalHere, rfl, rfl⟩,
      _, _, ⟨by norm_num, profile, profileLong, profileHere, rfl, rfl⟩,
      (), _, ⟨_, by norm_num, level, levelLong, levelHere, rfl, rfl⟩,
      (), _, ⟨_, id, idHere, rfl, rfl⟩, (), _, ⟨chroma, chromaIff, chromaOk, chromaHere, rfl⟩,
      (), _, ⟨_, log2, log2Here, rfl, rfl⟩, _, _, ⟨type, typeHere, rfl, rfl⟩,
      (), _, ⟨order, orderOk, orderHere, rfl⟩, (), _, ⟨_, frames, framesHere, rfl, rfl⟩,
      _, gaps, gapsHere, rfl, ?_⟩
    simp only [HeaderFields.bits, List.length_append, List.length_singleton, nalLong,
      profileLong, levelLong]
    omega

/-- The parser ends on a parameter set of its syntax, and on nothing else. -/
theorem ends_spsParser {spsBuf : Bytes} (decoded : base64Decode spsBuf = some buffer)
    {stale o' : ℕ} {size : BitVec 32} :
    (spsParser wide spsBuf).Ends stale size o' ↔
      ∃ fields : ParameterSet, fields.Complete wide ∧
        Carries (bitAt buffer) 0 fields.bits ∧
        size = fields.size wide ∧ o' = fields.bits.length := by
  simp only [spsParser, Program.ends_bind, Program.ends_skip, ends_flag, ends_readUeg,
    ends_optionalFlag, ends_skipHeader, ends_readFrameCrop, Program.ends_pure,
    Program.ends_action, decoded, Option.map_some, Option.some.injEq, Prod.mk.injEq]
  constructor
  · rintro ⟨_, _, ⟨_, rfl⟩, _, _, ⟨rfl, rfl⟩, _, _, ⟨header, headerOk, headerHere, rfl⟩,
      _, _, ⟨width, widthHere, rfl, rfl⟩, _, _, ⟨height, heightHere, rfl, rfl⟩,
      _, _, ⟨mbsOnly, mbsOnlyHere, rfl, rfl⟩, rest⟩
    obtain ⟨_, _, ⟨adaptive, adaptiveIff, adaptiveHere, rfl⟩, _, _,
      ⟨_, direct, directHere, rfl, rfl⟩, rest⟩ := rest
    obtain ⟨_, _, ⟨cropping, croppingHere, rfl, rfl⟩, rfl, rfl⟩ := rest
    refine ⟨⟨header, width, height, mbsOnly, adaptive, direct, cropping⟩,
      ⟨headerOk, adaptiveIff.trans (flagValue_eq_zero mbsOnly)⟩, ?_, rfl, ?_⟩
    · simp only [ParameterSet.bits, List.append_assoc, carries_append]
      exact ⟨headerHere, widthHere, heightHere, mbsOnlyHere, adaptiveHere, directHere,
        croppingHere⟩
    · simp only [ParameterSet.bits, List.length_append, List.length_singleton]
      omega
  · rintro ⟨⟨header, width, height, mbsOnly, adaptive, direct, cropping⟩,
      ⟨headerOk, adaptiveIff⟩, carried, rfl, rfl⟩
    simp only at headerOk adaptiveIff
    simp only [ParameterSet.bits, List.append_assoc, carries_append] at carried
    obtain ⟨headerHere, widthHere, heightHere, mbsOnlyHere, adaptiveHere, directHere,
      croppingHere⟩ := carried
    refine ⟨(), 0, ⟨trivial, rfl⟩, buffer, 0, ⟨rfl, rfl⟩, (), _, ⟨header, headerOk, headerHere, rfl⟩,
      _, _, ⟨width, widthHere, rfl, rfl⟩, _, _, ⟨height, heightHere, rfl, rfl⟩,
      _, _, ⟨mbsOnly, mbsOnlyHere, rfl, rfl⟩,
      (), _, ⟨adaptive, adaptiveIff.trans (flagValue_eq_zero mbsOnly).symm, adaptiveHere, rfl⟩,
      (), _, ⟨_, direct, directHere, rfl, rfl⟩, _, _, ⟨cropping, croppingHere, rfl, rfl⟩, rfl, ?_⟩
    simp only [ParameterSet.bits, List.length_append, List.length_singleton]
    omega

/-- The parser finishes its loops inside the buffer exactly if the buffer, after the base64
pass, begins with a parameter set of its syntax. -/
theorem spsParser_finishes_iff (spsBuf : Bytes) (stale : ℕ) :
    (∃ size o', (spsParser wide spsBuf).Ends stale size o') ↔
      ∃ buffer fields, base64Decode spsBuf = some buffer ∧
        ParameterSet.Complete wide fields ∧ Carries (bitAt buffer) 0 fields.bits := by
  obtain ⟨buffer, decoded, -⟩ := base64Decode_inside spsBuf
  simp only [ends_spsParser wide buffer decoded]
  constructor
  · rintro ⟨_, _, fields, found⟩
    exact ⟨buffer, fields, decoded, found.imp_right And.left⟩
  · rintro ⟨other, fields, same, found⟩
    obtain rfl : buffer = other := by simpa [decoded] using same
    exact ⟨fields.size wide, fields.bits.length, fields, and_assoc.mp ⟨found, rfl, rfl⟩⟩

end syntaxOf

/-- A parameter set cut off in its second byte, and a whole one with a scaling matrix. -/
theorem matrixSet_runsOut :
    (¬ ∃ size o', (spsParser (fun _ => 0) [0x67]).Ends 0 size o') ∧
    ¬ ∃ size o', (spsParser (fun _ => 0)
      [0x67, 0x64, 0, 0x28, 0xad, 0, 0xe8, 5, 0, 0x5b, 0x90]).Ends 0 size o' := by
  constructor
  · rintro ⟨size, o', ends⟩
    exact Program.not_ends_of_failed 20 (by decide) size o' ends
  · rintro ⟨size, o', ends⟩
    exact Program.not_ends_of_failed 200 (by decide) size o' ends

end AirCast.Mirror
