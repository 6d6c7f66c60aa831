import MoonlightWeb.Lib.Run
import MoonlightWeb.Lib.Lineage

/-! # The reference repair of the VA-API encoder

Five reconstructions in a ring, the one being written and four that may be referenced,
beside the window of a receiver that keeps the last four pictures since a keyframe. A run is
one of successful encodes, numbered upwards, with a keyframe forced after a refusal.
-/

namespace MoonlightWeb.NativeHost.Encode

open Lib

def kReconSurfaces : Nat := 5

def kMaxReferences : Nat := kReconSurfaces - 1

/-- The receiver's number of a picture, the bitstream's, and whether it may be referenced. -/
structure ReconState where
  engineFrame : Nat
  picNum : Nat
  valid : Bool

structure VaapiEncoder where
  reconState : Nat → ReconState
  reconCurrent : Nat
  frameNum : Nat
  supportsReferenceInvalidation : Bool

namespace VaapiEncoder

def init (supportsReferenceInvalidation : Bool) : VaapiEncoder :=
  ⟨fun _ => ⟨0, 0, false⟩, 0, 0, supportsReferenceInvalidation⟩

variable (e : VaapiEncoder)

/-- One turn of the loop that looks for the newest picture to predict from. -/
def newerReference (best : Option Nat) (i : Nat) : Option Nat :=
  if i = e.reconCurrent || !(e.reconState i).valid then best
  else
    match best with
    | none => some i
    | some b => if (e.reconState i).picNum ≥ (e.reconState b).picNum then some i else some b

def referenceSlot : Option Nat := (List.range kReconSurfaces).foldl e.newerReference none

/-- The slot a picture predicts from; none makes it an IDR. -/
def predictsFrom (forceKeyframe : Bool) : Option Nat :=
  if forceKeyframe then none else e.referenceSlot

/-- The encoder after a picture: an IDR empties the ring first. -/
def encode (forceKeyframe : Bool) (frameNumber : Nat) : VaapiEncoder :=
  let idr := (e.predictsFrom forceKeyframe).isNone
  let picNum := if idr then 0 else e.frameNum
  let kept : Nat → ReconState :=
    if idr then fun i => { e.reconState i with valid := false } else e.reconState
  { e with
    reconState := Function.update kept e.reconCurrent ⟨frameNumber, picNum, true⟩
    reconCurrent := (e.reconCurrent + 1) % kReconSurfaces
    frameNum := picNum + 1 }

/-- The reconstructions older than a frame. -/
def survivors (frameNumber : Nat) : Nat :=
  (List.range kReconSurfaces).countP fun i =>
    (e.reconState i).valid && decide ((e.reconState i).engineFrame < frameNumber)

def invalidateReference (frameNumber : Nat) : VaapiEncoder × Except String Unit :=
  if !e.supportsReferenceInvalidation then
    (e, .error "the driver writes the HEVC slice headers — a keyframe is the only repair")
  else
    let dropped : VaapiEncoder := { e with
      reconState := fun i =>
        { e.reconState i with
          valid := (e.reconState i).valid && decide ((e.reconState i).engineFrame < frameNumber) } }
    if e.survivors frameNumber = 0 then
      (dropped, .error ("no reconstruction older than frame " ++ toString frameNumber ++
        " is still held — a keyframe is the only repair"))
    else (dropped, .ok ())

end VaapiEncoder

/-- The ring and its pictures, the receiver's window with the newest first, and the stream. -/
structure VaapiSystem where
  encoder : VaapiEncoder
  surface : Nat → Option Picture
  window : List Picture
  stream : Stream
  keyframe : Bool

inductive VaapiEvent
  | invalidate (frameNumber : Nat)
  | encode (forceKeyframe : Bool) (frameNumber : Nat)

namespace VaapiSystem

def start (supportsReferenceInvalidation : Bool) : VaapiSystem :=
  ⟨.init supportsReferenceInvalidation, fun _ => none, [], .start, false⟩

variable (s : VaapiSystem)

def picture (forceKeyframe : Bool) (frameNumber : Nat) : Picture :=
  match (s.encoder.predictsFrom forceKeyframe).bind s.surface with
  | some reference => .delta frameNumber reference
  | none => .key frameNumber

def received (window : List Picture) (p : Picture) : List Picture :=
  match p with
  | .key _ => [p]
  | .delta _ _ => (p :: window).take kMaxReferences

def encode (s : VaapiSystem) (forceKeyframe : Bool) (frameNumber : Nat) : VaapiSystem where
  encoder := s.encoder.encode forceKeyframe frameNumber
  surface := Function.update s.surface s.encoder.reconCurrent
    (some (s.picture forceKeyframe frameNumber))
  window := received s.window (s.picture forceKeyframe frameNumber)
  stream := s.stream.emit (s.picture forceKeyframe frameNumber)
  keyframe := (s.encoder.predictsFrom forceKeyframe).isNone

/-- The caller numbers its frames upwards and forces a keyframe after a refusal. -/
def move : VaapiEvent → Option VaapiSystem
  | .invalidate frameNumber =>
      let (encoder, answer) := s.encoder.invalidateReference frameNumber
      some { s with encoder, stream := s.stream.name frameNumber answer.isOk }
  | .encode forceKeyframe frameNumber =>
      if (s.stream.newest.all fun p => p.number < frameNumber) &&
          (!s.stream.refused || forceKeyframe) then
        some (s.encode forceKeyframe frameNumber)
      else none

/-- The next picture is a delta, from a picture that is repaired, in the ring and in the
window of the receiver. -/
def Predicts (s next : VaapiSystem) (frameNumber : Nat) : Prop :=
  next.keyframe = false ∧
    ∃ slot reference, s.encoder.referenceSlot = some slot ∧ s.surface slot = some reference ∧
      reference ∈ s.window ∧ next.stream.newest = some (.delta frameNumber reference) ∧
      s.stream.Repaired reference

/-- What is promised of a step: an unforced encode after calls that were all accepted. -/
def Sound (event : VaapiEvent) (next : VaapiSystem) : Prop :=
  match event with
  | .invalidate _ => True
  | .encode forceKeyframe frameNumber =>
      forceKeyframe = false → s.stream.newest.isSome → s.stream.refused = false →
        s.Predicts next frameNumber

/-- A loss with some reconstruction before it has one that the next picture does not
overwrite. -/
def Reaches (event : VaapiEvent) : Prop :=
  match event with
  | .invalidate frameNumber =>
      (∃ i < kReconSurfaces, (s.encoder.reconState i).valid = true ∧
        (s.encoder.reconState i).engineFrame < frameNumber) →
          ∃ i < kReconSurfaces, i ≠ s.encoder.reconCurrent ∧
            (s.encoder.reconState i).valid = true ∧
            (s.encoder.reconState i).engineFrame < frameNumber
  | .encode _ _ => True

end VaapiSystem

end MoonlightWeb.NativeHost.Encode
