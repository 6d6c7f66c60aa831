import MoonlightWeb.Frontend.ObuWalk
import MoonlightWeb.Frontend.Av1SequenceSyntax

/-! # `parseSequenceHeader`

The bit reader and the walk over the fields of a sequence header, as far as the codec string
needs them. An error of the reader is null.
-/

namespace MoonlightWeb.Frontend.Av1Utils
open Lib Lib.Bits Lib.BitReading

namespace BitReader

/-- The loop of `f`, with the value so far. -/
def fFrom (bytes : Bytes) : Nat → Nat → Reader Nat
  | 0, v => return v
  | n + 1, v => do
      let bitPos ← get
      match bytes[bitPos >>> 3]? with
      | none => failure
      | some byte =>
          StateT.set (bitPos + 1)
          fFrom bytes n (v * 2 + ((byte.toNat >>> (7 - (bitPos &&& 7))) &&& 1))

def f (bytes : Bytes) (n : Nat) : Reader Nat := fFrom bytes n 0

/-- The zeros in front of a one, of which there may be `left` more. -/
def leadingZerosFrom (bytes : Bytes) : Nat → Nat → Reader Nat
  | left, leadingZeros => do
      let bit ← f bytes 1
      if bit ≠ 0 then return leadingZeros
      else
        match left with
        | 0 => failure
        | left + 1 => leadingZerosFrom bytes left (leadingZeros + 1)

/-- `1 << n` on 32 bits. -/
def shiftedOne (n : Nat) : Int := (BitVec.ofNat 32 (2 ^ (n % 32))).toInt

def uvlc (bytes : Bytes) : Reader Int := do
  let leadingZeros ← leadingZerosFrom bytes 32 0
  if leadingZeros = 0 then return 0
  else do
    let value ← f bytes leadingZeros
    return value + shiftedOne leadingZeros - 1

end BitReader

section
variable (br : Bytes)
open BitReader

/-- `br.f(n)` for each of some widths. -/
def skips : List Nat → Reader Unit
  | [] => return ()
  | n :: more => do
      let _ ← f br n
      skips more

/-- `if (c) ...`. -/
def ifSo (c : Prop) [Decidable c] (body : Reader Unit) : Reader Unit :=
  if c then body else pure ()

/-- `if (br.f(1)) ...`. -/
def whenSet (body : Reader Unit) : Reader Unit := do
  let isSet ← f br 1
  ifSo (isSet ≠ 0) body

def skipUvlc : Reader Unit := do
  let _ ← uvlc br
  return ()

/-- `decoderModelInfo` and `bufferDelayLen`, behind its flag. -/
def decoderModel : Reader (Nat × Nat) := do
  let decoderModelInfo ← f br 1
  if decoderModelInfo ≠ 0 then do
    let bufferDelayLen ← f br 5
    skips br [32, 5, 5]
    return (decoderModelInfo, bufferDelayLen + 1)
  else return (decoderModelInfo, 0)

def timing : Reader (Nat × Nat) := do
  let timingInfoPresent ← f br 1
  if timingInfoPresent ≠ 0 then do
    skips br [32, 32]
    whenSet br (skipUvlc br)
    decoderModel br
  else return (0, 0)

/-- `lvl` and `tr` of an operating point. -/
def levelAndTier : Reader (Nat × Nat) := do
  let lvl ← f br 5
  if lvl > 7 then do
    let tr ← f br 1
    return (lvl, tr)
  else return (lvl, 0)

/-- The loop over the operating points from `i` on, `left` of them. -/
def operatingPoints (decoderModelInfo bufferDelayLen initialDisplayDelay : Nat) :
    Nat → Nat → Nat × Nat → Reader (Nat × Nat)
  | 0, _, chosen => return chosen
  | left + 1, i, chosen => do
      let _ ← f br 12
      let point ← levelAndTier br
      ifSo (decoderModelInfo ≠ 0) (whenSet br (skips br [bufferDelayLen, bufferDelayLen, 1]))
      ifSo (initialDisplayDelay ≠ 0) (whenSet br (skips br [4]))
      operatingPoints decoderModelInfo bufferDelayLen initialDisplayDelay left (i + 1)
        (if i = 0 then point else chosen)

/-- `level` and `tier`. -/
def levels (reduced : Nat) : Reader (Nat × Nat) := do
  if reduced ≠ 0 then do
    let level ← f br 5
    return (level, 0)
  else do
    let (decoderModelInfo, bufferDelayLen) ← timing br
    let initialDisplayDelay ← f br 1
    let opCountMinus1 ← f br 5
    operatingPoints br decoderModelInfo bufferDelayLen initialDisplayDelay (opCountMinus1 + 1) 0
      (0, 0)

/-- `seq_choose_screen_content_tools` or `seq_force_screen_content_tools`. -/
def forceSct : Reader Nat := do
  let choose ← f br 1
  if choose ≠ 0 then return 2 else f br 1

/-- `seq_choose_integer_mv` or `seq_force_integer_mv`. -/
def integerMv : Reader Unit := do
  let choose ← f br 1
  ifSo (choose = 0) (skips br [1])

/-- What is enabled between frames, of a header that is not reduced. -/
def interTools : Reader Unit := do
  skips br [1, 1, 1, 1]
  let enableOrderHint ← f br 1
  ifSo (enableOrderHint ≠ 0) (skips br [1, 1])
  let forced ← forceSct br
  ifSo (forced > 0) (integerMv br)
  ifSo (enableOrderHint ≠ 0) (skips br [3])

def bitDepth (seqProfile : Nat) : Reader Nat := do
  let highBitdepth ← f br 1
  if seqProfile = 2 ∧ highBitdepth ≠ 0 then do
    let twelveBit ← f br 1
    return if twelveBit ≠ 0 then 12 else 10
  else return if highBitdepth ≠ 0 then 10 else 8

structure SeqInfo where
  profile : Nat
  level : Nat
  tier : Nat
  bitDepth : Nat
  maxWidth : Nat
  maxHeight : Nat
deriving DecidableEq, Repr

/-- The fields behind the unit's header and size. -/
def sequenceHeader : Reader SeqInfo := do
  let seqProfile ← f br 3
  skips br [1]
  let reduced ← f br 1
  let (level, tier) ← levels br reduced
  let widthBitsMinus1 ← f br 4
  let heightBitsMinus1 ← f br 4
  let maxWidthMinus1 ← f br (widthBitsMinus1 + 1)
  let maxHeightMinus1 ← f br (heightBitsMinus1 + 1)
  ifSo (reduced = 0) (whenSet br (skips br [4, 3]))
  skips br [1, 1, 1]
  ifSo (reduced = 0) (interTools br)
  skips br [1, 1, 1]
  let depth ← bitDepth br seqProfile
  return ⟨seqProfile, level, tier, depth, maxWidthMinus1 + 1, maxHeightMinus1 + 1⟩

end

/-- The bytes in front that have their top bit set: `undefined & 0x80` is 0. -/
def continued : Bytes → Nat
  | [] => 0
  | b :: rest => if b &&& 0x80 ≠ 0 then continued rest + 1 else 0

/-- Behind the header byte, the extension and the size field. -/
def payloadStart (obu : Bytes) : Nat :=
  let hasExtension := (byteAt obu 0 >>> 2) &&& 0x01
  let start := 1 + if hasExtension ≠ 0 then 1 else 0
  start + continued (obu.drop start) + 1

def parseSequenceHeader (obu : Bytes) : Option SeqInfo :=
  ((sequenceHeader (obu.drop (payloadStart obu))).run 0).map Prod.fst

end MoonlightWeb.Frontend.Av1Utils
