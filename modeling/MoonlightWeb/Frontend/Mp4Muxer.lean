import MoonlightWeb.Lib.AnnexB
import MoonlightWeb.Lib.Bytes

/-! # Units of H.264 and HEVC in the browser

`Mp4Muxer.js` splits an Annex B buffer into units, keeps the parameter sets of a stream,
compares them with those of a later buffer and puts units behind length prefixes for the
decoder. Its tables and descriptions for the decoder's configuration are not part of this.
-/

namespace MoonlightWeb.Frontend.Mp4Muxer

open Lib AnnexB EmulationPrevention

abbrev Bytes := List UInt8

/-- The value of an `int32` with these low bits. -/
def toInt32 (n : Nat) : Int :=
  if n % 2 ^ 32 < 2 ^ 31 then (n % 2 ^ 32 : Nat) else (n % 2 ^ 32 : Nat) - 2 ^ 32

inductive Codec
  | h264
  | hevc
deriving DecidableEq, Repr

def H264_SPS : UInt8 := 7

def H264_PPS : UInt8 := 8

def HEVC_VPS : UInt8 := 32

def HEVC_SPS : UInt8 := 33

def HEVC_PPS : UInt8 := 34

def removeEmulationPrevention (buffer : Bytes) : Bytes := dropAhead buffer

/-- The units without their start codes. -/
def splitNals (annexB : Bytes) : List Bytes := (split (annexB.length + 1) annexB).map Prod.snd

/-- `n[0] & 0x1f`. -/
def h264Type (n : Bytes) : UInt8 := n.headD 0 &&& 0x1f

/-- `(n[0] >> 1) & 0x3f`. -/
def hevcType (n : Bytes) : UInt8 := (n.headD 0 >>> 1) &&& 0x3f

/-- What `toAvcc` is told: whether parameter sets are stripped, the codec, and whether start
codes are kept. -/
structure Mode where
  stripParams : Bool
  codec : Option Codec
  useAnnexB : Bool
deriving DecidableEq, Repr

def strips (m : Mode) (hevcFoundIrap : Bool) (n : Bytes) : Bool × Bool :=
  if m.stripParams && !m.useAnnexB then
    if m.codec = some .hevc ∧ 2 ≤ n.length then
      if hevcType n = HEVC_VPS ∨ hevcType n = HEVC_SPS ∨ hevcType n = HEVC_PPS then
        (true, hevcFoundIrap)
      else if !hevcFoundIrap then
        if 16 ≤ hevcType n ∧ hevcType n ≤ 21 then (false, true) else (true, false)
      else (false, true)
    else if m.codec = some .h264 ∨ (m.codec = none ∧ n.length < 2) then
      if h264Type n = H264_SPS ∨ h264Type n = H264_PPS then (true, hevcFoundIrap)
      else (false, hevcFoundIrap)
    else (false, hevcFoundIrap)
  else (false, hevcFoundIrap)

/-- The units that are kept. -/
def selected (m : Mode) : Bool → List Bytes → List Bytes
  | _, [] => []
  | hevcFoundIrap, n :: rest =>
      if n.length < 1 then selected m hevcFoundIrap rest
      else if (strips m hevcFoundIrap n).1 then selected m (strips m hevcFoundIrap n).2 rest
      else n :: selected m (strips m hevcFoundIrap n).2 rest

/-- The four bytes before a unit of a length, on 32 bits. -/
def lengthBytes (m : Mode) (l : UInt32) : Bytes :=
  if m.useAnnexB ∧ m.codec = some .hevc then [0, 0, 0, 1]
  else
    [((l >>> 24) &&& 0xFF).toUInt8, ((l >>> 16) &&& 0xFF).toUInt8, ((l >>> 8) &&& 0xFF).toUInt8,
      (l &&& 0xFF).toUInt8]

def copied (m : Mode) : List Bytes → Bytes → Nat → Bytes
  | [], out, _ => out
  | n :: rest, out, off =>
      copied m rest
        (Bytes.overwrite (Bytes.overwrite out off (lengthBytes m (UInt32.ofNat n.length))) (off + 4)
          n)
        (off + 4 + n.length)

def toAvcc (m : Mode) (annexB : Bytes) : Bytes :=
  copied m (selected m false (splitNals annexB))
    (List.replicate ((selected m false (splitNals annexB)).map fun n => 4 + n.length).sum 0) 0

/-- Bits of a byte that a comparison leaves out, by the byte's index. -/
abbrev Ignored := List (Nat × UInt8)

def HEVC_VPS_PTL : Ignored := [(6, 0x20), (17, 0xff)]

def HEVC_SPS_PTL : Ignored := [(3, 0x20), (14, 0xff)]

def H264_SPS_LEVEL : Ignored := [(3, 0xff)]

/-- The bits of a byte that count. -/
def mask (ignored : Ignored) (i : Nat) : UInt8 :=
  ignored.foldl (fun mask entry => if entry.1 = i then mask &&& ~~~entry.2 else mask) 0xff

def sameParameterSet (held : Option Bytes) (incoming : Bytes) (ignored : Option Ignored) : Bool :=
  match held with
  | none => false
  | some held =>
      if held = incoming then true
      else
        match ignored with
        | none => false
        | some ignored =>
            (removeEmulationPrevention held).length =
                (removeEmulationPrevention incoming).length &&
              (List.range (removeEmulationPrevention held).length).all fun i =>
                (removeEmulationPrevention held).getD i 0 &&& mask ignored i =
                  (removeEmulationPrevention incoming).getD i 0 &&& mask ignored i

structure NalParser where
  codec : Option Codec
  sps : Option Bytes
  pps : Option Bytes
  vps : Option Bytes
deriving DecidableEq, Repr

namespace NalParser

def new : NalParser := ⟨none, none, none, none⟩

variable (p : NalParser)

def isReady : Bool :=
  if p.codec = some .hevc then p.vps.isSome && p.sps.isSome && p.pps.isSome
  else p.sps.isSome && p.pps.isSome

def detect (n : Bytes) : Option Codec :=
  if n.length < 1 then none
  else if h264Type n = H264_SPS then some .h264
  else if 2 ≤ n.length ∧ hevcType n = HEVC_VPS then some .hevc
  else if 2 ≤ n.length ∧ hevcType n = HEVC_SPS then some .hevc
  else none

/-- The codec of a buffer: the first unit that tells one, or H.264. -/
def detectFirst (nals : List Bytes) : Codec := (nals.findSome? detect).getD .h264

def take (n : Bytes) : NalParser :=
  if p.codec = some .hevc ∧ 2 ≤ n.length then
    if hevcType n = HEVC_VPS then { p with vps := some n }
    else if hevcType n = HEVC_SPS then { p with sps := some n }
    else if hevcType n = HEVC_PPS then { p with pps := some n }
    else p
  else if 1 ≤ n.length then
    if h264Type n = H264_SPS then { p with sps := some n }
    else if h264Type n = H264_PPS then { p with pps := some n }
    else p
  else p

/-- The codec is settled before the sets are taken. -/
def settle (nals : List Bytes) : NalParser :=
  { p with codec := some (p.codec.getD (detectFirst nals)) }

def feed (buffer : Bytes) : NalParser :=
  if p.isReady then p else (splitNals buffer).foldl take (p.settle (splitNals buffer))

/-- Whether a unit is a parameter set that differs from the one held. -/
def differs (n : Bytes) : Bool :=
  if p.codec = some .hevc then
    if n.length < 2 then false
    else if hevcType n = HEVC_VPS ∧ !sameParameterSet p.vps n (some HEVC_VPS_PTL) then true
    else if hevcType n = HEVC_SPS ∧ !sameParameterSet p.sps n (some HEVC_SPS_PTL) then true
    else if hevcType n = HEVC_PPS ∧ !sameParameterSet p.pps n none then true
    else false
  else if n.length < 1 then false
  else if h264Type n = H264_SPS ∧ !sameParameterSet p.sps n (some H264_SPS_LEVEL) then true
  else if h264Type n = H264_PPS ∧ !sameParameterSet p.pps n none then true
  else false

def changedBy (buffer : Bytes) : Bool :=
  if !p.isReady then false else (splitNals buffer).any p.differs

def reset : NalParser := ⟨none, none, none, none⟩

end NalParser

end MoonlightWeb.Frontend.Mp4Muxer
