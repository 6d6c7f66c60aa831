import Mathlib
import MoonlightWeb.Lib.Run

/-! # The decode worker

`VideoDecodeWorker` feeds a WebCodecs decoder with H.264 or HEVC. Frames that come while
the decoder is not configured are held, and fed when the configuration completes; one
flag says whether a delta has its reference. Timestamps, the data of the chunks, the
drawing and the counters are not part of the model. What the browser answers at a call
(the depth of the decode queue, whether it takes a chunk, when a configuration completes)
is up to it.
-/

namespace MoonlightWeb.Frontend.VideoDecodeWorker

open Lib

def FLUSH_MIN_BACKLOG_MS : ℚ := 250

def FLUSH_COOLDOWN_MS : ℚ := 3000

def DEFAULT_ARRIVAL_MS : ℚ := 1000 / 60

/-- `none` for the time since the last flush is `Infinity`. -/
def shouldFlushAtKeyframe (queued : Nat) (arrivalMs : ℚ) (sinceLastFlushMs : Option ℚ) : Bool :=
  if queued * (if arrivalMs > 0 then arrivalMs else DEFAULT_ARRIVAL_MS) < FLUSH_MIN_BACKLOG_MS then
    false
  else
    match sinceLastFlushMs with
    | none => true
    | some ms => ms ≥ FLUSH_COOLDOWN_MS

/-- What the worker uses of `NalParser`: a new or reset parser holds no parameter set, so it
is not ready. `describes`: `buildDescription` and `getCodecString` both have an answer. -/
structure NalParser (δ : Type) where
  State : Type
  reset : State
  feed : State → δ → State
  isReady : State → Bool
  changedBy : State → δ → Bool
  describes : State → Bool
  reset_not_ready : isReady reset = false

inductive Arrival
  | key
  | delta
  /-- A notice that frames are missing here. -/
  | loss
deriving DecidableEq, Repr

/-- A frame, with its place among the arrivals. -/
structure Frame (δ : Type) where
  data : δ
  isKeyframe : Bool
  position : Nat
deriving DecidableEq, Repr

def Frame.arrival {δ : Type} (frame : Frame δ) : Arrival :=
  if frame.isKeyframe then .key else .delta

/-- `VideoDecoder.state`. -/
inductive DecoderState
  | unconfigured
  | configured
  | closed
deriving DecidableEq, Repr

/-- What the worker finds when it feeds a frame: the depth of the decode queue, the mean
interval of the arrivals, the clock, whether `reset` and `configure` succeed, and whether
`decode` takes the chunk. -/
structure Seen where
  decodeQueueSize : Nat
  arrivalAvgMs : ℚ
  now : ℚ
  flushes : Bool
  accepts : Bool
deriving DecidableEq, Repr

def DECODE_QUEUE_MAX : Nat := 8

def QUEUE_STALL_MS : ℚ := 200

def QUEUE_RESET_MS : ℚ := 1000

def MAX_RECOVERY_ATTEMPTS : Nat := 10

def pendingMax : Nat := 120

section

variable {δ : Type} (P : NalParser δ)

/-- The worker's state. `chains` counts the configurations under way. `arrived` has what
came until it was stopped, `fed` the places of the chunks the decoder took since it was last created, reset or
configured, and `past` the same of the times before. -/
structure Worker where
  stopped : Bool
  decoder : Option DecoderState
  decoderConfigured : Bool
  decoderConfiguring : Bool
  nalParser : P.State
  pendingFrames : List (Frame δ)
  referenceValid : Bool
  recoveryAttempts : Nat
  idrRequested : Bool
  queueStallStart : ℚ
  lastQueueFlushMs : Option ℚ
  activeDecoderCfg : Bool
  chains : Nat
  arrived : List Arrival
  fed : List Nat
  past : List (List Nat)

namespace Worker

/-- The worker after `init`. -/
def initial : Worker P where
  stopped := false
  decoder := some .unconfigured
  decoderConfigured := false
  decoderConfiguring := false
  nalParser := P.reset
  pendingFrames := []
  referenceValid := true
  recoveryAttempts := 0
  idrRequested := false
  queueStallStart := 0
  lastQueueFlushMs := none
  activeDecoderCfg := false
  chains := 0
  arrived := []
  fed := []
  past := []

variable {P} (w : Worker P)

/-- The decoder starts anew: nothing was fed to it yet. -/
def renew (state : DecoderState) : Worker P :=
  { w with decoder := some state, fed := [], past := w.past ++ [w.fed] }

def setupDecoder : Worker P :=
  { w.renew .unconfigured with decoderConfigured := false, decoderConfiguring := false }

def requestIdr : Worker P := { w with idrRequested := true }

def handleDecoderError : Worker P :=
  if w.stopped then w
  -- too many attempts: nothing is reset
  else if w.recoveryAttempts + 1 > MAX_RECOVERY_ATTEMPTS then
    { w with recoveryAttempts := w.recoveryAttempts + 1 }
  else
    { w.setupDecoder with
      recoveryAttempts := w.recoveryAttempts + 1
      referenceValid := false
      pendingFrames := []
      nalParser := P.reset
      idrRequested := true }

def configureDecoder : Worker P :=
  if w.stopped then w
  else if w.decoderConfigured || w.decoderConfiguring || !P.isReady w.nalParser then w
  else if P.describes w.nalParser then
    { w with decoderConfiguring := true, chains := w.chains + 1 }
  else w

def flushDecodeQueue (seen : Seen) : Worker P :=
  if !w.activeDecoderCfg then w
  else if seen.flushes then { w.renew .configured with lastQueueFlushMs := some seen.now }
  else w.renew .unconfigured

variable (frame : Frame δ)

/-- The chunk goes to the decoder. -/
def submit (seen : Seen) : Worker P :=
  if w.decoder = some .configured ∧ seen.accepts = true then
    if frame.isKeyframe then
      { w with
        fed := w.fed ++ [frame.position]
        referenceValid := true
        idrRequested := false
        queueStallStart := 0 }
    else { w with fed := w.fed ++ [frame.position] }
  else w.handleDecoderError

/-- Since when the decode queue is saturated. -/
def stallStart (seen : Seen) : ℚ :=
  if w.queueStallStart = 0 then seen.now else w.queueStallStart

def saturated (seen : Seen) : Worker P :=
  if seen.now - w.stallStart seen > QUEUE_RESET_MS then
    { w with queueStallStart := 0 }.handleDecoderError
  else if seen.now - w.stallStart seen > QUEUE_STALL_MS then
    { w with
      queueStallStart := w.stallStart seen
      referenceValid := false
      idrRequested := true }
  else { w with queueStallStart := w.stallStart seen }.submit frame seen

/-- A keyframe goes to the decoder, behind a queue that is flushed first where it is deep. -/
def feedKeyframe (seen : Seen) : Worker P :=
  if shouldFlushAtKeyframe seen.decodeQueueSize seen.arrivalAvgMs
      (w.lastQueueFlushMs.map fun ms => seen.now - ms) then
    ({ w with queueStallStart := 0 }.flushDecodeQueue seen).submit frame seen
  else { w with queueStallStart := 0 }.submit frame seen

/-- `decodeFrame` with a decoder that is not closed. -/
def offer (seen : Seen) : Worker P :=
  if frame.isKeyframe then w.feedKeyframe frame seen
  else if !w.referenceValid then w.requestIdr
  else if seen.decodeQueueSize ≥ DECODE_QUEUE_MAX then w.saturated frame seen
  else { w with queueStallStart := 0 }.submit frame seen

def decodeFrame (seen : Seen) : Worker P :=
  if !w.decoderConfigured then
    if w.pendingFrames.length < pendingMax then
      { w with pendingFrames := w.pendingFrames ++ [frame] }
    else w
  else
    match w.decoder with
    | none => w
    | some .closed => w.handleDecoderError
    | some _ => w.offer frame seen

/-- A keyframe must be fed first. -/
def keyFirst (frames : List (Frame δ)) : List (Frame δ) :=
  match frames with
  | first :: _ :: _ =>
      if first.isKeyframe then frames
      else
        match frames.find? Frame.isKeyframe with
        | some keyframe => keyframe :: frames.eraseP Frame.isKeyframe
        | none => frames
  | _ => frames

/-- The loop of `flushPendingFrames`: a frame is taken in every turn. -/
def drain : Nat → Worker P → (Nat → Seen) → Worker P
  | 0, w, _ => w
  | turns + 1, w, seen =>
      match w.pendingFrames with
      | [] => w
      | frame :: rest =>
          drain turns ({ w with pendingFrames := rest }.decodeFrame frame (seen 0))
            fun i => seen (i + 1)

def flushPendingFrames (seen : Nat → Seen) : Worker P :=
  drain w.pendingFrames.length { w with pendingFrames := keyFirst w.pendingFrames } seen

variable (data : δ)

/-- New parameter sets at a keyframe: the decoder is to be configured again. -/
def reconfigure (isKeyframe : Bool) : Worker P :=
  if isKeyframe && w.decoderConfigured && P.changedBy w.nalParser data then
    { w with
      nalParser := P.feed P.reset data
      decoderConfigured := false
      decoderConfiguring := false }.configureDecoder
  else w

/-- What is held behind a request for a keyframe goes when the keyframe comes. -/
def forget : Worker P :=
  if w.idrRequested && !w.pendingFrames.isEmpty then
    { w with pendingFrames := [], idrRequested := false }
  else w

/-- The parameter sets are taken from the first keyframe. -/
def parse (isKeyframe : Bool) : Worker P :=
  if P.isReady w.nalParser then w
  else if isKeyframe then
    if P.isReady (P.feed w.nalParser data) then
      { w.forget with nalParser := P.feed w.nalParser data }.configureDecoder
    else { w.forget with nalParser := P.feed w.nalParser data }
  else if w.pendingFrames.length > 30 && w.pendingFrames.length % 30 = 0 then w.requestIdr
  else w

/-- `processFrame` before the frame is decoded. -/
def prepare (isKeyframe : Bool) : Worker P :=
  let parsed := (w.reconfigure data isKeyframe).parse data isKeyframe
  if !parsed.decoderConfigured && P.isReady parsed.nalParser then parsed.configureDecoder
  else parsed

def processFrame (isKeyframe : Bool) (seen : Seen) : Worker P :=
  if w.stopped then w
  else
    ({ w with arrived := w.arrived ++ [if isKeyframe then Arrival.key else .delta] }.prepare
      data isKeyframe).decodeFrame ⟨data, isKeyframe, w.arrived.length⟩ seen

def frameloss : Worker P :=
  { w with
    referenceValid := false
    arrived := if w.stopped then w.arrived else w.arrived ++ [.loss] }

end Worker

/-- How one answer to a configuration under way ends: the decoder is configured (the
configuration is kept for a queue flush or not), `configure` throws and the next one is
tried, none is left, or the stream is to fall back to another codec. -/
inductive Outcome
  | applied (kept : Bool)
  | refused
  | exhausted
  | fallback
deriving DecidableEq, Repr

namespace Worker

variable {P} (w : Worker P)

def configure (kept : Bool) : Worker P :=
  { w.renew .configured with
    decoderConfigured := true
    decoderConfiguring := false
    activeDecoderCfg := w.activeDecoderCfg || kept
    chains := w.chains - 1 }

def settle (outcome : Outcome) (seen : Nat → Seen) : Worker P :=
  if w.chains = 0 then w
  else
    match outcome with
    | .applied kept =>
        match w.decoder with
        | none => { w with decoderConfiguring := false }
        | some .closed => { w with decoderConfiguring := false }
        | some _ => (w.configure kept).flushPendingFrames seen
    | .refused => { w with decoderConfiguring := false }
    | .exhausted => { w with decoderConfiguring := false, chains := w.chains - 1 }
    | .fallback =>
        { w with decoderConfiguring := false, stopped := true, chains := w.chains - 1 }

/-- The decoder reports an error of its own and is closed by it. -/
def fail : Worker P :=
  match w.decoder with
  | none => w
  | some .closed => w
  | some _ => { w with decoder := some .closed }.handleDecoderError

def stop : Worker P := { w with stopped := true, decoder := none, pendingFrames := [] }

end Worker

inductive Event (δ : Type)
  | frame (data : δ) (isKeyframe : Bool) (seen : Seen)
  | frameloss
  | configuration (outcome : Outcome) (seen : Nat → Seen)
  | error
  | output
  | stop

namespace Worker

variable {P}

def next (w : Worker P) : Event δ → Worker P
  | .frame data isKeyframe seen => w.processFrame data isKeyframe seen
  | .frameloss => w.frameloss
  | .configuration outcome seen => w.settle outcome seen
  | .error => w.fail
  | .output => { w with recoveryAttempts := 0 }
  | .stop => w.stop

end Worker

end

/-- A decoder's chunks begin with a keyframe, come in the order of arrival, and every delta
has before it the last keyframe that arrived before it and every delta in between, where
no loss was reported. -/
structure Ordered (arrived : List Arrival) (fed : List Nat) : Prop where
  first : ∀ place, fed.head? = some place → arrived[place]? = some .key
  inOrder : fed.Pairwise (· < ·)
  reference : ∀ place ∈ fed, arrived[place]? = some .delta →
    ∃ key ∈ fed, key < place ∧ arrived[key]? = some .key ∧
      ∀ between, key < between → between < place →
        arrived[between]? = some .delta ∧ between ∈ fed

section

variable {δ : Type} {P : NalParser δ}

namespace Worker

variable (w : Worker P)

def FedInOrder : Prop := ∀ fed ∈ w.fed :: w.past, Ordered w.arrived fed

def HoldsKey : Prop := ∃ frame ∈ w.pendingFrames, frame.isKeyframe = true

/-- The frame is held: the decoder is not configured, or is to be configured anew for it. -/
def Holds (data : δ) (isKeyframe : Bool) : Prop :=
  w.decoderConfigured = false ∨ (isKeyframe = true ∧ P.changedBy w.nalParser data = true)

/-- The frame is offered to a decoder that takes chunks, or may after a flush. -/
def Offers (isKeyframe : Bool) : Prop :=
  (w.decoder = some .configured ∧ (isKeyframe = true ∨ w.referenceValid = true)) ∨
    (w.decoder = some .unconfigured ∧ isKeyframe = true)

/-- What is held when a keyframe comes. -/
def keptFor : List (Frame δ) :=
  if P.isReady w.nalParser then w.pendingFrames else w.forget.pendingFrames

/-- Where the worker takes a frame: a keyframe is not held behind deltas, no frame is left
out behind a keyframe that is held, and a chunk that is not taken or a queue that stalls
for long starts a recovery. -/
structure Taken (w : Worker P) (data : δ) (isKeyframe : Bool) (seen : Seen) : Prop where
  leads : w.Holds data isKeyframe → isKeyframe = true →
    w.keptFor.length < pendingMax ∧
      ∀ frame, w.keptFor.head? = some frame → frame.isKeyframe = true
  room : w.Holds data isKeyframe → isKeyframe = false → w.HoldsKey →
    w.pendingFrames.length < pendingMax
  recovers : ¬ w.Holds data isKeyframe → w.Offers isKeyframe →
    w.recoveryAttempts < MAX_RECOVERY_ATTEMPTS ∨
      (seen.accepts = true ∧ (isKeyframe = true ∨ seen.decodeQueueSize < DECODE_QUEUE_MAX ∨
        seen.now - w.stallStart seen ≤ QUEUE_RESET_MS))

/-- Where a configuration completes: the decoder is not configured, and behind a keyframe
that is held a chunk that is not taken or a flush that takes long starts a recovery. -/
structure Completed (w : Worker P) (seen : Nat → Seen) : Prop where
  waited : w.decoderConfigured = false
  recovers : w.HoldsKey → (w.stopped = false ∧ w.recoveryAttempts < MAX_RECOVERY_ATTEMPTS) ∨
    ∀ i, (seen i).accepts = true ∧ ∀ j, (seen j).now - (seen i).now ≤ QUEUE_RESET_MS

/-- The step takes none of the branches that lose a reference in silence. -/
def Clean (e : Event δ) (_ : Worker P) : Prop :=
  match e with
  | .frame data isKeyframe seen => w.stopped = false → w.Taken data isKeyframe seen
  | .frameloss => w.stopped = false → ¬ w.HoldsKey
  | .configuration (.applied _) seen => w.chains ≠ 0 → w.decoder ≠ none →
      w.decoder ≠ some .closed → w.Completed seen
  | _ => True

end Worker

end

end MoonlightWeb.Frontend.VideoDecodeWorker
