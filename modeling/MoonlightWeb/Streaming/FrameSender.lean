import MoonlightWeb.Lib.Bytes
import MoonlightWeb.Qt.QString

/-! # Splitting a frame into chunks

`FrameSender`: every chunk carries a header of seventeen bytes in front of up to
16000 bytes of the frame. `buildFragments` makes the chunks ahead of time,
`sendJob` one after the other as it sends them.
-/

namespace MoonlightWeb.Streaming.FrameSender

open Lib Qt

/-- `kFragHeaderSize`. -/
def fragHeaderSize : Nat := 17

/-- `kMaxPayloadSize`. -/
def maxPayloadSize : Nat := 16000

def writeHeader (frameId : UInt32) (chunkIdx totalChunks : UInt16) (isKeyframe : Bool)
    (payloadSize backendTs : UInt32) : QByteArray :=
  [((frameId >>> 24) &&& 0xFF).toUInt8, ((frameId >>> 16) &&& 0xFF).toUInt8,
    ((frameId >>> 8) &&& 0xFF).toUInt8, (frameId &&& 0xFF).toUInt8] ++
  [((chunkIdx >>> 8) &&& 0xFF).toUInt8, (chunkIdx &&& 0xFF).toUInt8] ++
  [((totalChunks >>> 8) &&& 0xFF).toUInt8, (totalChunks &&& 0xFF).toUInt8] ++
  [if isKeyframe then (0x01 : UInt8) else 0x00] ++
  [((payloadSize >>> 24) &&& 0xFF).toUInt8, ((payloadSize >>> 16) &&& 0xFF).toUInt8,
    ((payloadSize >>> 8) &&& 0xFF).toUInt8, (payloadSize &&& 0xFF).toUInt8] ++
  [((backendTs >>> 24) &&& 0xFF).toUInt8, ((backendTs >>> 16) &&& 0xFF).toUInt8,
    ((backendTs >>> 8) &&& 0xFF).toUInt8, (backendTs &&& 0xFF).toUInt8]

def totalChunks (size : Nat) : Nat := (size + maxPayloadSize - 1) / maxPayloadSize

variable (data : QByteArray)

/-- The bytes of the frame that chunk `chunkIdx` carries. -/
def payload (chunkIdx : Nat) : QByteArray :=
  let offset := chunkIdx * maxPayloadSize
  (data.drop offset).take (min maxPayloadSize (data.length - offset))

/-- One chunk, header and payload. -/
def fragment (isKeyframe : Bool) (frameId backendTs : UInt32)
    (chunkIdx : Nat) : QByteArray :=
  let offset := chunkIdx * maxPayloadSize
  let payloadSize := min maxPayloadSize (data.length - offset)
  writeHeader frameId (UInt16.ofNat chunkIdx) (UInt16.ofNat (totalChunks data.length)) isKeyframe
    (UInt32.ofNat payloadSize) backendTs ++ payload data chunkIdx

def buildFragments (isKeyframe : Bool) (frameId backendTs : UInt32) :
    List QByteArray :=
  if data.length = 0 then []
  else (List.range (totalChunks data.length)).map (fragment data isKeyframe frameId backendTs)

/-- The loop of `sendJob` from a chunk on. -/
def sendChunks (data : QByteArray) (isKeyframe : Bool) (frameId backendTs : UInt32)
    (chunkIdx : Nat) : Nat → List QByteArray
  | 0 => []
  | left + 1 =>
      fragment data isKeyframe frameId backendTs chunkIdx ::
        sendChunks data isKeyframe frameId backendTs (chunkIdx + 1) left

/-- What `sendJob` hands to the channel, send errors and stops apart. -/
def sendJob (isKeyframe : Bool) (frameId backendTs : UInt32) :
    List QByteArray :=
  sendChunks data isKeyframe frameId backendTs 0 (totalChunks data.length)

/-- Ready-made or made on the way, the chunks are the same. -/
theorem sendJob_eq_buildFragments (isKeyframe : Bool)
    (frameId backendTs : UInt32) :
    sendJob data isKeyframe frameId backendTs =
      buildFragments data isKeyframe frameId backendTs := by
  have hloop : ∀ left chunkIdx, sendChunks data isKeyframe frameId backendTs chunkIdx left =
      (List.range' chunkIdx left).map (fragment data isKeyframe frameId backendTs) := by
    intro left
    induction left with
    | zero => intro chunkIdx; rfl
    | succ left ih =>
      intro chunkIdx
      rw [sendChunks, ih, List.range'_succ, List.map_cons]
  rw [sendJob, hloop, buildFragments, List.range_eq_range']
  by_cases hempty : data.length = 0
  · rw [if_pos hempty, hempty]
    rfl
  · rw [if_neg hempty]

theorem writeHeader_eq (frameId : UInt32) (chunkIdx total : UInt16) (isKeyframe : Bool)
    (payloadSize backendTs : UInt32) :
    writeHeader frameId chunkIdx total isKeyframe payloadSize backendTs =
      Bytes.bigEndian 4 frameId.toNat ++ Bytes.bigEndian 2 chunkIdx.toNat ++
        Bytes.bigEndian 2 total.toNat ++ Bytes.bigEndian 1 (if isKeyframe then 1 else 0) ++
        Bytes.bigEndian 4 payloadSize.toNat ++ Bytes.bigEndian 4 backendTs.toNat := by
  have hflag : [if isKeyframe then (0x01 : UInt8) else 0x00] =
      Bytes.bigEndian 1 (if isKeyframe then 1 else 0) := by
    cases isKeyframe <;> rfl
  rw [writeHeader, Bytes.bytes_uint32, Bytes.bytes_uint16, Bytes.bytes_uint16,
    Bytes.bytes_uint32, Bytes.bytes_uint32, hflag]

theorem totalChunks_pos {size : Nat} (h : 0 < size) : 0 < totalChunks size := by
  unfold totalChunks maxPayloadSize
  omega

/-- A payload is never empty and never too long. -/
theorem payload_length {data : QByteArray} {chunkIdx : Nat}
    (h : chunkIdx < totalChunks data.length) :
    (payload data chunkIdx).length =
        min maxPayloadSize (data.length - chunkIdx * maxPayloadSize) ∧
      0 < (payload data chunkIdx).length := by
  unfold totalChunks maxPayloadSize at h
  unfold payload maxPayloadSize
  simp only [List.length_take, List.length_drop]
  omega

theorem payloads_flatten (n : Nat) :
    (List.range n).flatMap (payload data) = data.take (n * maxPayloadSize) := by
  have hcut : ∀ i, payload data i = (data.drop (i * maxPayloadSize)).take maxPayloadSize := by
    intro i
    unfold payload
    simp only
    rw [← List.length_drop, List.take_eq_take_iff]
    omega
  rw [← Bytes.flatMap_slices]
  exact List.flatMap_congr fun i _ => hcut i

theorem payloads_all :
    (List.range (totalChunks data.length)).flatMap (payload data) = data := by
  rw [payloads_flatten, List.take_of_length_le]
  unfold totalChunks maxPayloadSize
  omega

end MoonlightWeb.Streaming.FrameSender

/-! ## How long the transport has not drained

`SendBacklog` answers the back-pressure question in time instead of bytes: frames
are shed once the buffer has stayed above its drained floor for longer than the
tolerance.
-/

namespace MoonlightWeb.Streaming

/-- `m_BackedUpSinceMs` (`none` for `kDrained`) and `m_DrainedBytes`. -/
structure SendBacklog where
  backedUpSinceMs : Option Int
  drainedBytes : Nat
deriving DecidableEq, Repr

namespace SendBacklog

/-- `kDrainedBytesMax`. -/
def drainedBytesMax : Nat := 48 * 1024

/-- `kDrainedBytesMin`. -/
def drainedBytesMin : Nat := 8 * 1024

/-- `kDrainedMs`. -/
def drainedMs : Nat := 50

/-- `kToleranceMs`. -/
def toleranceMs : Int := 250

def bytesOf (bitrateKbps : Int) (ms : Nat) : Nat :=
  if bitrateKbps ≤ 0 then 0 else bitrateKbps.toNat * 1000 / 8 * ms / 1000

def drainedBytesFor (bitrateKbps : Int) : Nat :=
  let b := bytesOf bitrateKbps drainedMs
  if b < drainedBytesMin then drainedBytesMin
  else if b > drainedBytesMax then drainedBytesMax
  else b

variable (b : SendBacklog)

def setBitrateKbps (bitrateKbps : Int) : SendBacklog :=
  { b with drainedBytes := if bitrateKbps > 0 then drainedBytesFor bitrateKbps else drainedBytesMax }

def initial : SendBacklog := ⟨none, drainedBytesMax⟩

/-- Feed the occupancy; whether the caller should shed load. -/
def note (bufferedBytes : Nat) (nowMs : Int) : SendBacklog × Bool :=
  if bufferedBytes ≤ b.drainedBytes then ({ b with backedUpSinceMs := none }, false)
  else
    match b.backedUpSinceMs with
    | none => ({ b with backedUpSinceMs := some nowMs }, false)
    | some since =>
        -- A clock that went back would otherwise read as a huge age.
        let since := if nowMs < since then nowMs else since
        ({ b with backedUpSinceMs := some since }, toleranceMs < nowMs - since)

def backedUp : Bool := b.backedUpSinceMs.isSome

def reset : SendBacklog := { b with backedUpSinceMs := none }

@[simp] theorem reset_drainedBytes : b.reset.drainedBytes = b.drainedBytes := rfl

/-- A drained buffer is not backed up, and sheds nothing. -/
theorem note_drained {bufferedBytes : Nat} (nowMs : Int)
    (h : bufferedBytes ≤ b.drainedBytes) :
    (b.note bufferedBytes nowMs).1.backedUp = false ∧ (b.note bufferedBytes nowMs).2 = false := by
  unfold note
  rw [if_pos h]
  exact ⟨rfl, rfl⟩

end SendBacklog

end MoonlightWeb.Streaming
