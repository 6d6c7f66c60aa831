import MoonlightWeb.Lib.Bits
import MoonlightWeb.Lib.EmulationPrevention
import MoonlightWeb.Lib.MachineInt

/-! # The rewrite of an H.264 sequence parameter set

`H264Vui.h` reads a sequence parameter set up to the bitstream restriction of its VUI, copies
what it read bit for bit and writes a restriction without reordering behind it. Numbers of
type `uint32_t` wrap; what is computed in `int32_t` has a value or is a fault.
-/

namespace MoonlightWeb.NativeHost.H264Vui

open Lib MachineInt EmulationPrevention

abbrev Bytes := List UInt8

def unescape (bytes : Bytes) : Bytes := unescapeFrom 0 bytes

def escapeInto (rbsp out : Bytes) : Bytes := out ++ escapeFrom 0 rbsp

/-- The bit at a position, 0 behind the end. -/
def bitAt (bytes : Bytes) (pos : Nat) : Nat :=
  ((bytes.getD (pos / 8) 0).toNat >>> (7 - pos % 8)) % 2

structure BitReader where
  bytes : Bytes
  pos : Nat
  overrun : Bool
deriving DecidableEq, Repr

namespace BitReader

/-- The loop of `u`, with `n` bits to go. -/
def uFrom : Nat → Nat → BitReader → Nat × BitReader
  | 0, v, r => (v, r)
  | n + 1, v, r =>
      if r.pos ≥ r.bytes.length * 8 then (0, { r with overrun := true })
      else uFrom n ((2 * v + bitAt r.bytes r.pos) % 2 ^ 32) { r with pos := r.pos + 1 }

def u (n : Nat) (r : BitReader) : Nat × BitReader := uFrom n 0 r

/-- The zeros of an Exp-Golomb code, `left` more of which are accepted. -/
def zerosFrom : Nat → Nat → BitReader → Option Nat × BitReader
  | left, zeros, r =>
      if (r.u 1).1 ≠ 0 then (some zeros, (r.u 1).2)
      else if (r.u 1).2.overrun then (none, { (r.u 1).2 with overrun := true })
      else
        match left with
        | 0 => (none, { (r.u 1).2 with overrun := true })
        | left + 1 => zerosFrom left (zeros + 1) (r.u 1).2

def ue (r : BitReader) : Nat × BitReader :=
  match r.zerosFrom 31 0 with
  | (none, r) => (0, r)
  | (some zeros, r) => ((2 ^ zeros - 1 + (r.u zeros).1) % 2 ^ 32, (r.u zeros).2)

end BitReader

/-- Why the parse ends early: with no answer, or in a fault. -/
inductive Stop
  | refused
  | fault (f : Fault)
deriving DecidableEq, Repr

abbrev Reading := StateT BitReader (Except Stop)

namespace Reading

def u (n : Nat) : Reading Nat := fun r => .ok (r.u n)

def ue : Reading Nat := fun r => .ok r.ue

def checked {α : Type} (e : Except Fault α) : Reading α := fun r =>
  match e with
  | .ok a => .ok (a, r)
  | .error f => .error (.fault f)

def se : Reading Int := do
  let v ← ue
  if v % 2 = 1 then checked (fit 32 (((v + 1) % 2 ^ 32 / 2 : Nat) : Int))
  else checked (do neg 32 (← fit 32 ((v / 2 : Nat) : Int)))

def overrun : Reading Bool := fun r => .ok (r.overrun, r)

def setOverrun : Reading Unit := fun r => .ok ((), { r with overrun := true })

/-- `return {}`. -/
def refuse {α : Type} : Reading α := fun _ => .error .refused

/-- `if (r.overrun) return {};`. -/
def refuseOverrun : Reading Unit := fun r => if r.overrun then .error .refused else .ok ((), r)

def position : Reading Nat := fun r => .ok (r.pos, r)

def optionally (condition : Bool) (m : Reading Unit) : Reading Unit :=
  if condition then m else pure ()

end Reading

open Reading

/-- `next = (last + r.se() + 256) % 256`, where `next` is not 0 yet. -/
def nextScale (last next : Int) : Reading Int :=
  if next ≠ 0 then do
    let delta ← se
    checked (do
      let moved ← add 32 last delta
      let shifted ← add 32 moved 256
      rem 32 shifted 256)
  else pure next

def skipScalesFrom : Nat → Int → Int → Reading Unit
  | 0, _, _ => pure ()
  | left + 1, last, next => do
      if ← overrun then pure ()
      else
        let next ← nextScale last next
        skipScalesFrom left (if next = 0 then last else next) next

def skipScalingList (size : Nat) : Reading Unit := skipScalesFrom size 8 8

/-- The scaling lists from the one numbered `i`. -/
def skipListsFrom : Nat → Nat → Reading Unit
  | 0, _ => pure ()
  | left + 1, i => do
      if ← overrun then pure ()
      else
        let present ← u 1
        optionally (present ≠ 0) (skipScalingList (if i < 6 then 16 else 64))
        skipListsFrom left (i + 1)

def skipCpbsFrom : Nat → Reading Unit
  | 0 => pure ()
  | left + 1 => do
      if ← overrun then pure ()
      else
        let _ ← ue
        let _ ← ue
        let _ ← u 1
        skipCpbsFrom left

def skipHrd : Reading Unit := do
  let cpbCountMinus1 ← ue
  let cpbCount := (cpbCountMinus1 + 1) % 2 ^ 32
  if cpbCount > 32 then setOverrun
  else
    let _ ← u 4
    let _ ← u 4
    skipCpbsFrom cpbCount
    let _ ← u 5
    let _ ← u 5
    let _ ← u 5
    let _ ← u 5

/-- The profiles with a chroma format and scaling lists of their own. -/
def highProfiles : List Nat := [100, 110, 122, 244, 44, 83, 86, 118, 128, 138, 139, 134, 135]

/-- What these profiles have up to their scaling lists; gives how many lists there are. -/
def skipChroma : Reading Nat := do
  let chroma ← ue
  optionally (chroma = 3) (do let _ ← u 1)
  let _ ← ue
  let _ ← ue
  let _ ← u 1
  let matrix ← u 1
  return if matrix ≠ 0 then if chroma = 3 then 12 else 8 else 0

/-- The parameter set up to its scaling lists; gives how many lists there are. -/
def skipHead : Reading Nat := do
  let profile ← u 8
  let _ ← u 8
  let _ ← u 8
  let _ ← ue
  if profile ∈ highProfiles then skipChroma else pure 0

def skipOffsetsFrom : Nat → Reading Unit
  | 0 => pure ()
  | left + 1 => do
      if ← overrun then pure ()
      else
        let _ ← se
        skipOffsetsFrom left

def skipPicOrderCnt : Reading Unit := do
  let pocType ← ue
  if pocType = 0 then
    let _ ← ue
  else if pocType = 1 then
    let _ ← u 1
    let _ ← se
    let _ ← se
    let cycle ← ue
    if cycle > 255 then refuse else skipOffsetsFrom cycle
  else pure ()

def skipCropping : Reading Unit := do
  let _ ← ue
  let _ ← ue
  let _ ← ue
  let _ ← ue

/-- From `log2_max_frame_num_minus4` to the cropping; gives `max_num_ref_frames`. -/
def skipFrames : Reading Nat := do
  let _ ← ue
  skipPicOrderCnt
  let refFrames ← ue
  let _ ← u 1
  let _ ← ue
  let _ ← ue
  let frameMbsOnly ← u 1
  optionally (frameMbsOnly = 0) (do let _ ← u 1)
  let _ ← u 1
  let crop ← u 1
  optionally (crop ≠ 0) skipCropping
  return refFrames

def skipAspectRatio : Reading Unit := do
  let idc ← u 8
  optionally (idc = 255) (do let _ ← u 32)

def skipVideoSignal : Reading Unit := do
  let _ ← u 4
  let colour ← u 1
  optionally (colour ≠ 0) (do let _ ← u 24)

def skipChromaLoc : Reading Unit := do
  let _ ← ue
  let _ ← ue

/-- A part of the VUI behind its flag. -/
def skipPresent (m : Reading Unit) : Reading Bool := do
  let present ← u 1
  optionally (present ≠ 0) m
  return present ≠ 0

/-- The VUI up to its `bitstream_restriction_flag`. -/
def skipVui : Reading Unit := do
  let _ ← skipPresent skipAspectRatio
  let _ ← skipPresent (do let _ ← u 1)
  let _ ← skipPresent skipVideoSignal
  let _ ← skipPresent skipChromaLoc
  let _ ← skipPresent (do let _ ← u 65)
  let nalHrd ← skipPresent skipHrd
  let vclHrd ← skipPresent skipHrd
  optionally (nalHrd || vclHrd) (do let _ ← u 1)
  let _ ← u 1

/-- What is known of a parameter set once it was read: where the part that is kept ends, and
whether a VUI is in it. -/
structure Parsed where
  refFrames : Nat
  keep : Nat
  hasVui : Bool
deriving DecidableEq, Repr

/-- From behind the cropping on. -/
def readTail (refFrames : Nat) : Reading Parsed := do
  refuseOverrun
  let keep ← position
  let hasVui ← u 1
  if hasVui ≠ 0 then
    skipVui
    refuseOverrun
    let keep ← position
    return ⟨refFrames, keep, true⟩
  else return ⟨refFrames, keep, false⟩

def readSps : Reading Parsed := do
  let lists ← skipHead
  skipListsFrom lists 0
  let refFrames ← skipFrames
  readTail refFrames

structure BitWriter where
  bytes : Bytes
  used : Nat
deriving DecidableEq, Repr

namespace BitWriter

def new : BitWriter := ⟨[], 8⟩

/-- `bytes.back() |= mask`. -/
def orBack (bytes : Bytes) (mask : UInt8) : Bytes :=
  bytes.dropLast ++ [bytes.getLastD 0 ||| mask]

/-- `bytes.push_back(0); used = 0`, where the last byte is full. -/
def opened (w : BitWriter) : BitWriter := if w.used = 8 then ⟨w.bytes ++ [0], 0⟩ else w

def bit (w : BitWriter) (b : Bool) : BitWriter where
  bytes :=
    if b then orBack w.opened.bytes (0x80 >>> UInt8.ofNat w.opened.used) else w.opened.bytes
  used := w.opened.used + 1

def u : Nat → Nat → BitWriter → BitWriter
  | 0, _, w => w
  | n + 1, v, w => u n v (w.bit (v.testBit n))

def ue (v : Nat) (w : BitWriter) : BitWriter :=
  u ((v + 1).log2 + 1) ((v + 1) % 2 ^ 32) (u (v + 1).log2 0 w)

end BitWriter

open BitWriter in
/-- A VUI that says nothing, up to its `bitstream_restriction_flag`. -/
def emptyVui (w : BitWriter) : BitWriter :=
  u 1 0 (u 1 0 (u 1 0 (u 1 0 (u 1 0 (u 1 0 (u 1 0 (u 1 0 (u 1 1 w))))))))

open BitWriter in
/-- The restriction without reordering, and the stop bit. -/
def restriction (refFrames : Nat) (w : BitWriter) : BitWriter :=
  let w := ue 15 (ue 15 (ue 1 (ue 2 (u 1 1 (u 1 1 w)))))
  u 1 1 (ue (if refFrames > 0 then refFrames else 1) (ue 0 w))

def copied (rbsp : Bytes) (keep : Nat) : BitWriter :=
  (List.range keep).foldl (fun w i => w.u 1 (bitAt rbsp i)) .new

def rewritten (header : UInt8) (rbsp : Bytes) (p : Parsed) : Bytes :=
  let kept := copied rbsp p.keep
  let vui := if p.hasVui then kept else emptyVui kept
  escapeInto (restriction p.refFrames vui).bytes [header]

/-- What is made of a parse: nothing where it was given up. -/
def answered (sps : Bytes) : Except Stop (Parsed × BitReader) → Except Fault Bytes
  | .ok (p, _) => .ok (rewritten (sps.headD 0) (unescape sps.tail) p)
  | .error .refused => .ok []
  | .error (.fault f) => .error f

/-- Empty where the bytes are not a parameter set that can be read. -/
def h264WithNoReorderVui (sps : Bytes) : Except Fault Bytes :=
  if sps.length < 4 ∨ sps.headD 0 &&& 0x1f ≠ 7 then .ok []
  else answered sps (readSps.run ⟨unescape sps.tail, 0, false⟩)

end MoonlightWeb.NativeHost.H264Vui
