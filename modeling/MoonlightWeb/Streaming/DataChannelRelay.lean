import MoonlightWeb.Qt.Json
import MoonlightWeb.Streaming.FrameSender
import MoonlightWeb.Streaming.FrameQueue

/-! # The video path of the DataChannel relay

`DataChannelRelay` takes the frames of the media engine to the sender: the gate
that holds deltas back until a keyframe went out, back-pressure, the keyframe
buffered while the channel is closed, the throttle on keyframe requests, and the
ring from wire ids to the numbers of the engine. The relay is the one before
`stop()`.
-/

namespace MoonlightWeb.Streaming.DataChannelRelay

open Lib Qt FrameSender

/-- The state of `m_VideoDc`. -/
inductive Channel
  | absent
  | closed
  | opened
deriving DecidableEq, Repr

/-- What a call reads of its surroundings. `steadyMs` is the clock of
`m_IdrCooldownTimer`, `nowMs` the wall clock. -/
structure Reading where
  nowMs : Int
  steadyMs : Int
  channel : Channel
  bufferedAmount : Nat
  workerDroppedDelta : Bool
  intraRefreshActive : Bool
  referenceInvalidation : Bool
  firstFrameArrivalSteadyMs : Int
  framePresentationTimeUs : Int
  frameSentSink : Bool
deriving Repr

/-- What is fixed for a relay: whether the engine is the native one, whether the
client rides out loss, and the patch of the first HEVC keyframe. -/
structure Config where
  native : Bool
  rideOutLoss : Bool
  patchHevcKeyframe : QByteArray → QByteArray

variable (cfg : Config)

def Config.maxQueuedDeltas : Nat := if cfg.native then 1 else 2

structure Carried where
  data : QByteArray
  frameId : UInt32
  backendTs : UInt32
  sink : Bool
deriving DecidableEq, Repr

/-- A call the relay makes on the engine, with the steady clock for a request. -/
inductive EngineCall
  | requestIdrFrame (steadyMs : Int)
  | invalidateReference (frameNumber : UInt32)
  | noteEviction
deriving DecidableEq, Repr

structure Relay where
  awaitingIdr : Bool
  idrWaitsForDrain : Bool
  idrWaitSinceMs : Int
  idrOutstanding : Bool
  idrCooldownMs : Int
  idrCooldownTimer : Option Int
  backlog : SendBacklog
  haveBufferedKeyframe : Bool
  bufferedKeyframe : QByteArray
  bufferedKeyframePresUs : Int
  newKeyframeArrived : Bool
  hevcPatched : Bool
  frameId : UInt32
  frameNumberById : Nat → Int
  sender : Sender Carried
  calls : List EngineCall

/-- Where the call on a frame returned. -/
inductive Verdict
  | buffered
  | notOpen
  | gated
  | empty
  | shed
  | sent (evicted : List UInt32)
deriving DecidableEq, Repr

/-- `kIdrCooldownBaseMs`. -/
def idrCooldownBaseMs : Int := 300

/-- `kIdrCooldownMaxMs`. -/
def idrCooldownMaxMs : Int := 5000

/-- `kFrameNumberRing`. -/
def frameNumberRing : Nat := 512

/-- The relay once its bitrate is set. -/
def Relay.prepared (streamBitrateKbps : Int) : Relay where
  awaitingIdr := false
  idrWaitsForDrain := false
  idrWaitSinceMs := 0
  idrOutstanding := false
  idrCooldownMs := idrCooldownBaseMs
  idrCooldownTimer := none
  backlog := SendBacklog.initial.setBitrateKbps streamBitrateKbps
  haveBufferedKeyframe := false
  bufferedKeyframe := []
  bufferedKeyframePresUs := -1
  newKeyframeArrived := false
  hevcPatched := false
  frameId := 0
  frameNumberById := fun _ => -1
  sender := ⟨[], 0⟩
  calls := []

def ridingOutLoss (rd : Reading) : Bool :=
  cfg.rideOutLoss && rd.intraRefreshActive

variable (r : Relay)

def cooling (steadyMs : Int) : Bool :=
  r.idrCooldownTimer.any fun started => steadyMs - started < r.idrCooldownMs

def sendIdrRequestThrottled (steadyMs : Int) : Relay :=
  if r.idrWaitsForDrain then r
  else if cooling r steadyMs then r
  else
    { r with
      idrCooldownMs :=
        if r.idrOutstanding then min (r.idrCooldownMs * 2) idrCooldownMaxMs else r.idrCooldownMs
      idrOutstanding := true
      idrCooldownTimer := some steadyMs
      calls := r.calls ++ [.requestIdrFrame steadyMs] }

def requestIdrOnDrain (steadyMs : Int) : Relay :=
  sendIdrRequestThrottled
    { r with
      idrWaitsForDrain := false
      idrOutstanding := false
      idrCooldownMs := idrCooldownBaseMs
      idrCooldownTimer := none } steadyMs

/-- The gate closes and a keyframe is asked for: the answer to a browser's request,
and to every hole in the stream. -/
def requestIdrFrame (steadyMs : Int) : Relay :=
  sendIdrRequestThrottled { r with awaitingIdr := true } steadyMs

def waitForDrain (nowMs : Int) : Relay :=
  if r.idrWaitsForDrain then r else { r with idrWaitsForDrain := true, idrWaitSinceMs := nowMs }

/-- The timestamp of a frame: its capture time, or the wall clock. -/
def backendTs (rd : Reading) (presentationTimeUs : Int) : UInt32 :=
  let presTimeUs :=
    if presentationTimeUs ≥ 0 then presentationTimeUs else rd.framePresentationTimeUs
  let ts : UInt32 :=
    if rd.firstFrameArrivalSteadyMs > 0 ∧ presTimeUs ≥ 0 then
      UInt32.ofNat (rd.firstFrameArrivalSteadyMs + presTimeUs / 1000).toNat
    else 0
  if ts = 0 then UInt32.ofNat rd.nowMs.toNat else ts

/-- What the ring keeps of a frame: the wire id above the number. The shift drops
into the sign from the id 2³¹ on. -/
def packed (frameId : UInt32) (frameNumber : Int) : Int :=
  if frameNumber ≥ 0 then
    (BitVec.ofNat 64 (frameId.toNat * 2 ^ 32 + (frameNumber % 2 ^ 32).toNat)).toInt
  else -1

/-- The evictions of a push answered: named to the engine that can heal them, or
by a keyframe. -/
def answerEvictions (rd : Reading) (r : Relay) (frameNumber : Int)
    (evicted : List UInt32) : Relay :=
  let nameEvictions := cfg.native && decide (frameNumber ≥ 0) && rd.referenceInvalidation
  let answered :=
    if evicted ≠ [] ∧ nameEvictions then
      { r with calls := r.calls ++ evicted.map .invalidateReference }
    else if evicted ≠ [] ∧ !ridingOutLoss cfg rd then requestIdrFrame r rd.steadyMs
    else r
  if evicted ≠ [] ∧ cfg.native then { answered with calls := answered.calls ++ [.noteEviction] }
  else answered

/-- The frame queued under the next wire id, and the deltas evicted for it. -/
def enqueue (rd : Reading) (r : Relay) (data : QByteArray) (isKeyframe : Bool)
    (presentationTimeUs frameNumber : Int) : Relay × List UInt32 :=
  let frameId := r.frameId
  let slot := frameId.toNat % frameNumberRing
  let job : Job Carried :=
    { isKeyframe
      frameNumber := UInt32.ofNat (if frameNumber < 0 then 0 else frameNumber).toNat
      body := ⟨data, frameId, backendTs rd presentationTimeUs,
        decide (frameNumber ≥ 0) && rd.frameSentSink⟩ }
  let pushed := push cfg.maxQueuedDeltas r.sender job
  ({ r with
      frameId := frameId + 1
      frameNumberById := Function.update r.frameNumberById slot (packed frameId frameNumber)
      sender := pushed.1 }, pushed.2)

/-- The rest of `sendFragmented`, once the frame goes out. -/
def handOver (rd : Reading) (r : Relay) (data : QByteArray) (isKeyframe : Bool)
    (presentationTimeUs frameNumber : Int) : Relay × Verdict :=
  let (queued, evicted) := enqueue cfg rd r data isKeyframe presentationTimeUs frameNumber
  (answerEvictions cfg rd queued frameNumber evicted, .sent evicted)

/-- A keyframe that gets through opens the gate and is the fresh start. -/
def keyframeThrough : Relay :=
  { r with
    awaitingIdr := false
    idrWaitsForDrain := false
    idrOutstanding := false
    idrCooldownMs := idrCooldownBaseMs
    backlog := r.backlog.reset }

def sendFragmented (rd : Reading) (r : Relay) (data : QByteArray)
    (isKeyframe : Bool) (presentationTimeUs frameNumber : Int) : Relay × Verdict :=
  if rd.channel ≠ .opened then (r, .notOpen)
  else if data = [] then (r, .empty)
  else
    let (backlog, shedding) := r.backlog.note rd.bufferedAmount rd.nowMs
    let r := { r with backlog }
    if !isKeyframe then
      if shedding then
        if ridingOutLoss cfg rd then (r, .shed)
        else (waitForDrain { r with awaitingIdr := true } rd.nowMs, .shed)
      else handOver cfg rd r data isKeyframe presentationTimeUs frameNumber
    else if shedding then
      (waitForDrain { r with awaitingIdr := true, idrOutstanding := false } rd.nowMs, .shed)
    else handOver cfg rd (keyframeThrough r) data isKeyframe presentationTimeUs frameNumber

def workerHole (rd : Reading) (r : Relay) : Relay :=
  if rd.workerDroppedDelta && !ridingOutLoss cfg rd then requestIdrFrame r rd.steadyMs else r

/-- A delta the closed gate drops, with the buffer sampled. -/
def gateDelta (rd : Reading) (r : Relay) : Relay :=
  let (backlog, shedding) := r.backlog.note rd.bufferedAmount rd.nowMs
  let r := { r with backlog }
  if r.idrWaitsForDrain then
    if !r.backlog.backedUp then requestIdrOnDrain r rd.steadyMs else r
  else if shedding then { r with idrWaitsForDrain := true, idrWaitSinceMs := rd.nowMs }
  else sendIdrRequestThrottled r rd.steadyMs

def handleVideoFrame (rd : Reading) (r : Relay) (data : QByteArray)
    (isKeyframe : Bool) (frameNumber presentationTimeUs : Int) : Relay × Verdict :=
  let r := workerHole cfg rd r
  -- Only the first keyframe of a session is looked at.
  let patches := isKeyframe && !r.hevcPatched
  let frameData := if patches then cfg.patchHevcKeyframe data else data
  let r := { r with hevcPatched := r.hevcPatched || patches }
  if isKeyframe && decide (rd.channel ≠ .opened) then
    ({ r with
        bufferedKeyframe := frameData
        bufferedKeyframePresUs := presentationTimeUs
        haveBufferedKeyframe := true
        newKeyframeArrived := false }, .buffered)
  else if rd.channel ≠ .opened then (requestIdrFrame r rd.steadyMs, .notOpen)
  else if r.awaitingIdr && !isKeyframe then (gateDelta rd r, .gated)
  else
    let r :=
      if isKeyframe && r.haveBufferedKeyframe then { r with newKeyframeArrived := true } else r
    sendFragmented cfg rd r frameData isKeyframe presentationTimeUs frameNumber

def clearBuffer : Relay :=
  { r with bufferedKeyframe := [], bufferedKeyframePresUs := -1, haveBufferedKeyframe := false,
           newKeyframeArrived := false }

/-- `sendBufferedKeyframe`, and where the send returned when there was one. -/
def sendBufferedKeyframe (rd : Reading) (r : Relay) : Relay × Option Verdict :=
  if !r.haveBufferedKeyframe then (r, none)
  else if rd.channel ≠ .opened then (r, none)
  else if r.newKeyframeArrived then
    ({ r with bufferedKeyframe := [], haveBufferedKeyframe := false, newKeyframeArrived := false },
      none)
  else
    let staleReferences := r.awaitingIdr
    let (sent, verdict) :=
      sendFragmented cfg rd r r.bufferedKeyframe true r.bufferedKeyframePresUs (-1)
    let sent := if staleReferences then requestIdrFrame sent rd.steadyMs else sent
    (clearBuffer sent, some verdict)

def ringLookup (id : Int) : Option UInt32 :=
  let slot := r.frameNumberById ((id % 2 ^ 32).toNat % frameNumberRing)
  if slot < 0 ∨ slot / 2 ^ 32 ≠ id then none else some (UInt32.ofNat (slot % 2 ^ 32).toNat)

/-- The loop over the named ids, `left` of them from `id` on: the numbers to
invalidate, and whether each id was mapped. -/
def nameReferences (r : Relay) (id : Int) : Nat → List UInt32 × Bool
  | 0 => ([], true)
  | left + 1 =>
      match ringLookup r id with
      | none => ([], false)
      | some number =>
          let (numbers, healed) := nameReferences r (id + 1) left
          (number :: numbers, healed)

/-- The ids of an `invalidateref` message mapped. -/
def mapReferences (r : Relay) (msg : QJsonObject) : List UInt32 × Bool :=
  let first := (msg.value "from").toInt64 (-1)
  let last := (msg.value "to").toInt64 (-1)
  if cfg.native && decide (first ≥ 0) && decide (last ≥ first) && decide (last - first < 16) then
    nameReferences r first (last - first + 1).toNat
  else ([], false)

/-- The message `invalidateref`. -/
def invalidateRef (r : Relay) (steadyMs : Int) (msg : QJsonObject) : Relay :=
  let (numbers, healed) := mapReferences cfg r msg
  let named := { r with calls := r.calls ++ numbers.map .invalidateReference }
  if healed then named else requestIdrFrame named steadyMs

inductive Event
  | frame (rd : Reading) (data : QByteArray) (isKeyframe : Bool)
      (frameNumber presentationTimeUs : Int)
  | sendBufferedKeyframe (rd : Reading)
  | requestIdr (steadyMs : Int)
  | invalidateRef (steadyMs : Int) (msg : QJsonObject)
  | senderTurn

def Event.steadyMs : Event → Option Int
  | .frame rd _ _ _ _ => some rd.steadyMs
  | .sendBufferedKeyframe rd => some rd.steadyMs
  | .requestIdr steadyMs => some steadyMs
  | .invalidateRef steadyMs _ => some steadyMs
  | .senderTurn => none

/-- The relay afterwards, and where a send returned. The sender waits while its
queue is empty. -/
def handle (r : Relay) : Event → Option (Relay × Option Verdict)
  | .frame rd data isKeyframe frameNumber presentationTimeUs =>
      let (r, verdict) :=
        handleVideoFrame cfg rd r data isKeyframe frameNumber presentationTimeUs
      some (r, some verdict)
  | .sendBufferedKeyframe rd => some (sendBufferedKeyframe cfg rd r)
  | .requestIdr steadyMs => some (requestIdrFrame r steadyMs, none)
  | .invalidateRef steadyMs msg => some (invalidateRef cfg r steadyMs msg, none)
  | .senderTurn => (pop r.sender).map fun (_, sender) => ({ r with sender }, none)

end MoonlightWeb.Streaming.DataChannelRelay
