import MoonlightWeb.Lib.Run
import MoonlightWeb.Lib.Lineage
import MoonlightWeb.NativeHost.ReferenceSlots

/-! # The reference repair of the AMF encoder

The table of the encoder and the slots of the driver side by side. In its RESET_UNUSED
mode the driver drops every slot a forced bitfield does not name, and all at a keyframe;
its index is one above the table's, and its lowest is its own. A run is one of successful
encodes, numbered upwards, with a keyframe forced after a refusal.
-/

namespace MoonlightWeb.NativeHost.Encode

open Lib

def kLtrReservedIndices : Nat := 1

structure AmfEncoder where
  ltr : ReferenceSlots
  lostPending : Bool
  lostFrom : Nat
  forceKeyframeNext : Bool

/-- What `encode` asks of the driver with a picture. -/
structure Request where
  keyframe : Bool
  forced : Option Nat
  markSlot : Option Nat

/-- `forcedBits`. -/
def Request.forcedBits (request : Request) : Nat := request.forced.elim 0 ReferenceSlots.bitFor

structure Report where
  isIdr : Option Bool
  referenced : Option Nat
  markedIdx : Option Int

namespace AmfEncoder

def init (slots stride : Int) : AmfEncoder := ⟨.new slots stride, false, 0, false⟩

variable (e : AmfEncoder)

def lossFrom (frameNumber : Nat) : Nat :=
  if e.lostPending then min e.lostFrom frameNumber else frameNumber

def invalidateReference (frameNumber : Nat) : AmfEncoder × Except String Unit :=
  if !e.ltr.enabled then
    (e, .error "this AMD encoder granted no long-term reference slots")
  else
    match e.ltr.cleanSlotBefore (e.lossFrom frameNumber) with
    | none =>
        ({ e with lostPending := false },
          .error ("no long-term reference older than frame " ++ toString (e.lossFrom frameNumber) ++
            " is held — the loss is beyond the " ++ toString e.ltr.reachFrames ++
            "-frame reach"))
    | some _ => ({ e with lostFrom := e.lossFrom frameNumber, lostPending := true }, .ok ())

/-- The half of `encode` before the driver. -/
def submit (forceKeyframe : Bool) (frameNumber : Nat) : AmfEncoder × Request :=
  let keyframe := e.forceKeyframeNext || forceKeyframe
  let asked := { e with forceKeyframeNext := false, lostPending := false }
  if e.lostPending && !keyframe then
    match e.ltr.cleanSlotBefore e.lostFrom with
    | some slot =>
        let dropped := e.ltr.dropFrom e.lostFrom
        ({ asked with ltr := dropped }, ⟨false, some slot, dropped.slotFor frameNumber false⟩)
    | none => (asked, ⟨true, none, e.ltr.slotFor frameNumber true⟩)
  else (asked, ⟨keyframe, none, e.ltr.slotFor frameNumber keyframe⟩)

/-- The driver used the slot asked for, or only frames before the loss. -/
def clean (request : Request) (report : Report) : Bool :=
  match report.referenced with
  | none => true
  | some used =>
      let usedBits := used >>> kLtrReservedIndices
      usedBits &&& request.forcedBits ≠ 0 || e.ltr.allBefore usedBits e.lostFrom

def markedSlot (report : Report) : Option Int :=
  report.markedIdx.bind fun markedIdx =>
    let tableIdx := markedIdx - kLtrReservedIndices
    if 0 ≤ tableIdx ∧ tableIdx < e.ltr.count then some tableIdx else none

/-- The half of `encode` after the driver, and `out.keyframe`. -/
def collect (request : Request) (frameNumber : Nat) (report : Report) :
    AmfEncoder × Bool :=
  let keyframe := report.isIdr.getD request.keyframe
  if !e.ltr.enabled then (e, keyframe)
  else
    let refused := request.forcedBits ≠ 0 && !e.clean request report
    let table := if keyframe then e.ltr.clear else e.ltr
    let table :=
      if request.markSlot.isSome then
        match e.markedSlot report with
        | some idx => table.marked idx frameNumber
        | none => table
      else table
    ({ e with ltr := table, forceKeyframeNext := e.forceKeyframeNext || refused }, keyframe)

end AmfEncoder

/-- How the driver answers: whether it marks the slot asked for, what it says when it does
not, which properties its output carries, and the references it reports when the one asked
for is not there. -/
structure Reply where
  marks : Bool
  refusal : Option Int
  tellsType : Bool
  tellsReference : Bool
  stray : Nat

/-- A slot not marked is not reported as one of those granted. -/
def Reply.documented (reply : Reply) (count : Nat) : Bool :=
  reply.refusal.all fun (idx : Int) => decide (idx ≤ 0) || decide ((count : Int) < idx)

abbrev Driver := Nat → Option Picture

namespace Driver

def indexOf (slot : Nat) : Nat := slot + kLtrReservedIndices

variable (d : Driver)

/-- The picture the driver puts out: a keyframe when asked for or first, else a delta against
the slot it is told, or against the picture before. -/
def picture (previous : Option Picture) (frameNumber : Nat) (request : Request) :
    Picture :=
  match previous with
  | none => .key frameNumber
  | some before =>
      if request.keyframe then .key frameNumber
      else
        match request.forced.bind fun slot => d (indexOf slot) with
        | some reference => .delta frameNumber reference
        | none => .delta frameNumber before

/-- The slots that stay: none at a keyframe, the one named when one is forced. -/
def kept (previous : Option Picture) (request : Request) : Driver :=
  if request.keyframe || previous.isNone then fun _ => none
  else
    match request.forced with
    | some slot => fun index => if index = indexOf slot then d index else none
    | none => d

/-- The slots after the picture: those that stay, and the one marked. -/
def after (previous : Option Picture) (frameNumber : Nat) (request : Request)
    (reply : Reply) : Driver :=
  match request.markSlot with
  | some slot =>
      if reply.marks then
        Function.update (d.kept previous request) (indexOf slot)
          (some (d.picture previous frameNumber request))
      else d.kept previous request
  | none => d.kept previous request

def report (previous : Option Picture) (request : Request) (reply : Reply) :
    Report where
  isIdr := if reply.tellsType then some (request.keyframe || previous.isNone) else none
  referenced :=
    if reply.tellsReference then
      match request.forced with
      | some slot =>
          if (d (indexOf slot)).isSome then some (request.forcedBits <<< kLtrReservedIndices)
          else some reply.stray
      | none => some reply.stray
    else none
  markedIdx :=
    match request.markSlot with
    | some slot => if reply.marks then some (indexOf slot : Nat) else reply.refusal
    | none => none

end Driver

/-- Both tables, the stream put out, the flag it was put out with, and the frame the last
repair since a keyframe was forced onto. -/
structure AmfSystem where
  encoder : AmfEncoder
  driver : Driver
  stream : Stream
  keyframe : Bool
  forcedOnto : Option Nat

inductive AmfEvent
  | invalidate (frameNumber : Nat)
  | encode (forceKeyframe : Bool) (frameNumber : Nat) (reply : Reply)

namespace AmfSystem

def start (slots stride : Int) : AmfSystem :=
  ⟨.init slots stride, fun _ => none, .start, false, none⟩

variable (s : AmfSystem)

def request (forceKeyframe : Bool) (frameNumber : Nat) : Request :=
  (s.encoder.submit forceKeyframe frameNumber).2

def ontoOf (request : Request) : Option Nat :=
  if request.keyframe || s.stream.newest.isNone then none
  else
    match request.forced with
    | some slot => some (s.encoder.ltr.frame slot)
    | none => s.forcedOnto

def picture (s : AmfSystem) (request : Request) (frameNumber : Nat) : Picture :=
  s.driver.picture s.stream.newest frameNumber request

def collected (asked : AmfEncoder) (request : Request) (frameNumber : Nat)
    (reply : Reply) : AmfEncoder × Bool :=
  asked.collect request frameNumber (s.driver.report s.stream.newest request reply)

/-- The rest of an encode, once the request is made. -/
def finish (asked : AmfEncoder) (request : Request) (frameNumber : Nat)
    (reply : Reply) : AmfSystem where
  encoder := (s.collected asked request frameNumber reply).1
  driver := s.driver.after s.stream.newest frameNumber request reply
  stream := s.stream.emit (s.picture request frameNumber)
  keyframe := (s.collected asked request frameNumber reply).2
  forcedOnto := s.ontoOf request

def encode (forceKeyframe : Bool) (frameNumber : Nat) (reply : Reply) :
    AmfSystem :=
  let (asked, request) := s.encoder.submit forceKeyframe frameNumber
  s.finish asked request frameNumber reply

/-- The caller numbers its frames upwards and forces a keyframe after a refusal. -/
def move : AmfEvent → Option AmfSystem
  | .invalidate frameNumber =>
      let (encoder, answer) := s.encoder.invalidateReference frameNumber
      some { s with encoder, stream := s.stream.name frameNumber answer.isOk }
  | .encode forceKeyframe frameNumber reply =>
      if (s.stream.newest.all fun p => p.number < frameNumber) &&
          (!s.stream.refused || forceKeyframe) && reply.documented s.encoder.ltr.count then
        some (s.encode forceKeyframe frameNumber reply)
      else none

/-- The next picture is a delta: told a slot, it finds there what the table says, else it
follows the picture before; and what it predicts from is repaired. -/
def Predicts (request : Request) (next : AmfSystem) (frameNumber : Nat) : Prop :=
  request.keyframe = false ∧ next.keyframe = false ∧
    ∃ reference, next.stream.newest = some (.delta frameNumber reference) ∧
      s.stream.Repaired reference ∧
      match request.forced with
      | some slot => s.encoder.ltr.HeldAt slot reference.number ∧
          s.driver (Driver.indexOf slot) = some reference
      | none => s.stream.newest = some reference

/-- What is promised of a step: an unforced encode after calls that were all accepted. -/
def Sound (event : AmfEvent) (next : AmfSystem) : Prop :=
  match event with
  | .invalidate _ => True
  | .encode forceKeyframe frameNumber _ =>
      forceKeyframe = false → s.stream.newest.isSome → s.stream.refused = false →
        s.Predicts (s.request forceKeyframe frameNumber) next frameNumber

/-- A loss the table has a frame before, it has one before that is no older than the frame
the last repair was forced onto. -/
def Reaches (event : AmfEvent) : Prop :=
  match event with
  | .invalidate frameNumber =>
      ∀ onto, s.forcedOnto = some onto →
        (∃ slot f, s.encoder.ltr.HeldAt slot f ∧ f < s.encoder.lossFrom frameNumber) →
          ∃ slot f, s.encoder.ltr.HeldAt slot f ∧ f < s.encoder.lossFrom frameNumber ∧ onto ≤ f
  | .encode _ _ _ => True

end AmfSystem

end MoonlightWeb.NativeHost.Encode
