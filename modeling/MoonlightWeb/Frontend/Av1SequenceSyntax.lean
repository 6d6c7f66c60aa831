import MoonlightWeb.Lib.BitGrammar
import MoonlightWeb.Lib.Leb128

/-! # The syntax of an AV1 sequence header

The elements of `sequence_header_obu` up to the bit depth, in the order in which they are
coded, and the unit they stand in. An optional part is there exactly when the flag in front of
it is set.
-/

namespace MoonlightWeb.Frontend.Av1Syntax
open Lib Lib.Bits

/-- `f(n)`. -/
abbrev f (n v : Nat) : List Bool := toBits n v

/-- `uvlc()`, of a number below 2^32 - 1. -/
def uvlc (v : Nat) : List Bool := Grammar.golomb (v + 1)

def flagged {α : Type} (code : α → List Bool) : Option α → List Bool
  | none => [false]
  | some a => true :: code a

structure TimingInfo where
  numUnitsInDisplayTick : Nat
  timeScale : Nat
  /-- There when `equal_picture_interval` is set. -/
  numTicksPerPictureMinus1 : Option Nat

structure DecoderModelInfo where
  bufferDelayLengthMinus1 : Nat
  numUnitsInDecodingTick : Nat
  bufferRemovalTimeLengthMinus1 : Nat
  framePresentationTimeLengthMinus1 : Nat

structure Timing where
  timingInfo : TimingInfo
  decoderModelInfo : Option DecoderModelInfo

namespace TimingInfo

def Valid (t : TimingInfo) : Prop :=
  t.numUnitsInDisplayTick < 2 ^ 32 ∧ t.timeScale < 2 ^ 32 ∧
    ∀ n, t.numTicksPerPictureMinus1 = some n → n < 2 ^ 32 - 1

def bits (t : TimingInfo) : List Bool :=
  f 32 t.numUnitsInDisplayTick ++ (f 32 t.timeScale ++ flagged uvlc t.numTicksPerPictureMinus1)

end TimingInfo

namespace DecoderModelInfo

def Valid (d : DecoderModelInfo) : Prop :=
  d.bufferDelayLengthMinus1 < 2 ^ 5 ∧ d.numUnitsInDecodingTick < 2 ^ 32 ∧
    d.bufferRemovalTimeLengthMinus1 < 2 ^ 5 ∧ d.framePresentationTimeLengthMinus1 < 2 ^ 5

def bits (d : DecoderModelInfo) : List Bool :=
  f 5 d.bufferDelayLengthMinus1 ++ (f 32 d.numUnitsInDecodingTick ++
    (f 5 d.bufferRemovalTimeLengthMinus1 ++ f 5 d.framePresentationTimeLengthMinus1))

end DecoderModelInfo

namespace Timing

def Valid (t : Timing) : Prop :=
  t.timingInfo.Valid ∧ ∀ d, t.decoderModelInfo = some d → d.Valid

def bits (t : Timing) : List Bool :=
  t.timingInfo.bits ++ flagged DecoderModelInfo.bits t.decoderModelInfo

end Timing

structure OperatingParameters where
  decoderBufferDelay : Nat
  encoderBufferDelay : Nat
  lowDelayMode : Bool

structure OperatingPoint where
  operatingPointIdc : Nat
  seqLevelIdx : Nat
  seqTier : Bool
  /-- There when `decoder_model_present_for_this_op` is set. -/
  parameters : Option OperatingParameters
  /-- There when `initial_display_delay_present_for_this_op` is set. -/
  initialDisplayDelayMinus1 : Option Nat

/-- `operating_parameters_info`, of delays of `n` bits. -/
def OperatingParameters.bits (n : Nat) (p : OperatingParameters) : List Bool :=
  f n p.decoderBufferDelay ++ (f n p.encoderBufferDelay ++ [p.lowDelayMode])

namespace OperatingPoint

variable (model : Option DecoderModelInfo)

/-- Of a sequence with these lengths of delays, and with initial display delays or not. -/
def Valid (delayPresent : Bool) (p : OperatingPoint) : Prop :=
  p.operatingPointIdc < 2 ^ 12 ∧ p.seqLevelIdx < 2 ^ 5 ∧ (p.seqLevelIdx ≤ 7 → p.seqTier = false) ∧
    (∀ q, p.parameters = some q → ∃ d, model = some d ∧
      q.decoderBufferDelay < 2 ^ (d.bufferDelayLengthMinus1 + 1) ∧
      q.encoderBufferDelay < 2 ^ (d.bufferDelayLengthMinus1 + 1)) ∧
    ∀ n, p.initialDisplayDelayMinus1 = some n → delayPresent = true ∧ n < 2 ^ 4

def tierBits (p : OperatingPoint) : List Bool := if p.seqLevelIdx > 7 then [p.seqTier] else []

def parameterBits (p : OperatingPoint) : List Bool :=
  match model with
  | some d => flagged (OperatingParameters.bits (d.bufferDelayLengthMinus1 + 1)) p.parameters
  | none => []

def delayBits (delayPresent : Bool) (p : OperatingPoint) : List Bool :=
  if delayPresent then flagged (f 4) p.initialDisplayDelayMinus1 else []

def bits (delayPresent : Bool) (p : OperatingPoint) :
    List Bool :=
  f 12 p.operatingPointIdc ++ (f 5 p.seqLevelIdx ++ (p.tierBits ++
    (p.parameterBits model ++ p.delayBits delayPresent)))

end OperatingPoint

structure OrderHint where
  enableJntComp : Bool
  enableRefFrameMvs : Bool
  orderHintBitsMinus1 : Nat

/-- A tool that is selected for each frame, or forced on or off for all. -/
inductive Choice where
  | select
  | force (on : Bool)

def Choice.bits : Choice → List Bool
  | select => [true]
  | force on => [false, on]

/-- The tools of a header that is not reduced. -/
structure Tools where
  enableInterintraCompound : Bool
  enableMaskedCompound : Bool
  enableWarpedMotion : Bool
  enableDualFilter : Bool
  orderHint : Option OrderHint
  screenContentTools : Choice
  /-- Coded unless the screen content tools are forced off. -/
  integerMv : Choice

namespace Tools

def Valid (t : Tools) : Prop := ∀ o, t.orderHint = some o → o.orderHintBitsMinus1 < 2 ^ 3

def integerMvBits (t : Tools) : List Bool :=
  match t.screenContentTools with
  | .force false => []
  | _ => t.integerMv.bits

def bits (t : Tools) : List Bool :=
  [t.enableInterintraCompound] ++ ([t.enableMaskedCompound] ++ ([t.enableWarpedMotion] ++
    ([t.enableDualFilter] ++
      (flagged (fun o => [o.enableJntComp] ++ [o.enableRefFrameMvs]) t.orderHint ++
        (t.screenContentTools.bits ++ (t.integerMvBits ++
          (match t.orderHint with
          | some o => f 3 o.orderHintBitsMinus1
          | none => [])))))))

end Tools

/-- What only a header has that is not reduced. -/
structure FullHeader where
  timing : Option Timing
  initialDisplayDelayPresent : Bool
  /-- Operating point 0, and those after it. -/
  first : OperatingPoint
  others : List OperatingPoint
  /-- The lengths of frame ids, there when `frame_id_numbers_present_flag` is set. -/
  frameIds : Option (Nat × Nat)
  tools : Tools

namespace FullHeader

def model (h : FullHeader) : Option DecoderModelInfo := h.timing.bind Timing.decoderModelInfo

def Valid (h : FullHeader) : Prop :=
  (∀ t, h.timing = some t → t.Valid) ∧
    (∀ p ∈ h.first :: h.others, p.Valid h.model h.initialDisplayDelayPresent) ∧
    h.others.length < 32 ∧ (∀ ids, h.frameIds = some ids → ids.1 < 2 ^ 4 ∧ ids.2 < 2 ^ 3) ∧
    h.tools.Valid

def pointBits (h : FullHeader) : List Bool :=
  (h.first :: h.others).flatMap (OperatingPoint.bits h.model h.initialDisplayDelayPresent)

end FullHeader

inductive Form where
  /-- `reduced_still_picture_header`, with the level it has in place of operating points. -/
  | reduced (seqLevelIdx : Nat)
  | full (header : FullHeader)

namespace Form

def Valid : Form → Prop
  | reduced seqLevelIdx => seqLevelIdx < 2 ^ 5
  | full h => h.Valid

def isReduced : Form → Bool
  | reduced _ => true
  | full _ => false

def pointBits : Form → List Bool
  | reduced seqLevelIdx => f 5 seqLevelIdx
  | full h =>
      flagged Timing.bits h.timing ++ ([h.initialDisplayDelayPresent] ++
        (f 5 h.others.length ++ h.pointBits))

def frameIdBits : Form → List Bool
  | reduced _ => []
  | full h => flagged (fun ids : Nat × Nat => f 4 ids.1 ++ f 3 ids.2) h.frameIds

def toolBits : Form → List Bool
  | reduced _ => []
  | full h => h.tools.bits

def level : Form → Nat
  | reduced seqLevelIdx => seqLevelIdx
  | full h => h.first.seqLevelIdx

def tier : Form → Nat
  | reduced _ => 0
  | full h => h.first.seqTier.toNat

end Form

structure SequenceHeader where
  seqProfile : Nat
  stillPicture : Bool
  form : Form
  frameWidthBitsMinus1 : Nat
  frameHeightBitsMinus1 : Nat
  maxFrameWidthMinus1 : Nat
  maxFrameHeightMinus1 : Nat
  use128x128Superblock : Bool
  enableFilterIntra : Bool
  enableIntraEdgeFilter : Bool
  enableSuperres : Bool
  enableCdef : Bool
  enableRestoration : Bool
  highBitdepth : Bool
  /-- Coded for a high bit depth in profile 2. -/
  twelveBit : Bool

namespace SequenceHeader

def Valid (h : SequenceHeader) : Prop :=
  h.seqProfile ≤ 2 ∧ h.form.Valid ∧ h.frameWidthBitsMinus1 < 2 ^ 4 ∧
    h.frameHeightBitsMinus1 < 2 ^ 4 ∧
    h.maxFrameWidthMinus1 < 2 ^ (h.frameWidthBitsMinus1 + 1) ∧
    h.maxFrameHeightMinus1 < 2 ^ (h.frameHeightBitsMinus1 + 1)

def bitDepth (h : SequenceHeader) : Nat :=
  if h.seqProfile = 2 ∧ h.highBitdepth then if h.twelveBit then 12 else 10
  else if h.highBitdepth then 10 else 8

def bits (h : SequenceHeader) : List Bool :=
  f 3 h.seqProfile ++ ([h.stillPicture] ++ ([h.form.isReduced] ++ (h.form.pointBits ++
    (f 4 h.frameWidthBitsMinus1 ++ (f 4 h.frameHeightBitsMinus1 ++
      (f (h.frameWidthBitsMinus1 + 1) h.maxFrameWidthMinus1 ++
        (f (h.frameHeightBitsMinus1 + 1) h.maxFrameHeightMinus1 ++ (h.form.frameIdBits ++
          ([h.use128x128Superblock] ++ ([h.enableFilterIntra] ++ ([h.enableIntraEdgeFilter] ++
            (h.form.toolBits ++ ([h.enableSuperres] ++ ([h.enableCdef] ++ ([h.enableRestoration] ++
              ([h.highBitdepth] ++
                (if h.seqProfile = 2 ∧ h.highBitdepth then [h.twelveBit] else [])))))))))))))))))

end SequenceHeader

/-- A sequence header in its unit: a header byte with an extension or not, the size in any
number of bytes, and the payload, whose bits go on with anything behind the bit depth. -/
structure SequenceHeaderObu where
  header : SequenceHeader
  valid : header.Valid
  extension : Option UInt8
  reservedBit : Bool
  size : List (Fin 128)
  payload : List UInt8
  size_ne : size ≠ []
  size_le : size.length ≤ 8
  size_eq : Leb128.value size = payload.length
  rest : List Bool
  payload_eq : ofBytes payload = header.bits ++ rest

namespace SequenceHeaderObu

/-- Type 1, with a size field. -/
def headerByte (o : SequenceHeaderObu) : UInt8 :=
  match o.extension.isSome, o.reservedBit with
  | false, false => 0x0A
  | false, true => 0x0B
  | true, false => 0x0E
  | true, true => 0x0F

def bytes (o : SequenceHeaderObu) : List UInt8 :=
  o.headerByte :: (o.extension.toList ++ (Leb128.encode o.size ++ o.payload))

end SequenceHeaderObu

end MoonlightWeb.Frontend.Av1Syntax
