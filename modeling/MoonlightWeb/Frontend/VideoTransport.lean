import MoonlightWeb.Frontend.WebRtcDataChannel
import MoonlightWeb.Lib.Run
import MoonlightWeb.Streaming.FrameSender

/-! # Video from the sender to the browser

The frames of a stream, cut into chunks by the sender, over a channel that keeps
their order and may give up on any of them, put together again by the browser.
-/

namespace MoonlightWeb.Frontend.VideoTransport

open Lib Js Qt Streaming
open WebRtcDataChannel Bytes JsMap List

structure Frame where
  data : QByteArray
  isKeyframe : Bool
  backendTs : UInt32

namespace Frame

def total (frame : Frame) : Nat := FrameSender.totalChunks frame.data.length

/-- A frame the chunk header has room for. -/
structure Fits (frame : Frame) : Prop where
  nonempty : 0 < frame.data.length
  room : frame.data.length ≤ 65535 * FrameSender.maxPayloadSize

end Frame

structure Sent where
  frame : Nat
  chunk : Nat
  bytes : QByteArray

variable (firstId : Nat)

def sentOf (frame : Frame) (n : Nat) : List Sent :=
  (FrameSender.buildFragments frame.data frame.isKeyframe (UInt32.ofNat (firstId + n))
    frame.backendTs).zipIdx.map fun (bytes, chunk) => ⟨n, chunk, bytes⟩

def stream (frames : List Frame) : List Sent :=
  frames.zipIdx.flatMap fun (frame, n) => sentOf firstId frame n

/-- The clock, the chunks still on their way, the browser's side, and the chunks
that reached it so far. -/
structure Transport where
  now : ℚ
  channel : List Sent
  receiver : Receiver
  arrived : List (Nat × Nat)

def start (frames : List Frame) : Transport :=
  ⟨0, stream firstId frames, ⟨empty, [], []⟩, []⟩

inductive Move where
  | deliver
  | giveUp
  | cleanup
  | tick (ms : ℚ)

def move (t : Transport) : Move → Option Transport
  | .deliver =>
      match t.channel with
      | [] => none
      | sent :: rest =>
          some { t with
            channel := rest
            receiver := onVideoChunk t.now t.receiver sent.bytes
            arrived := t.arrived ++ [(sent.frame, sent.chunk)] }
  | .giveUp =>
      match t.channel with
      | [] => none
      | _ :: rest => some { t with channel := rest }
  | .cleanup => some { t with receiver := cleanupStaleFrames t.now t.receiver }
  | .tick ms => if 0 ≤ ms then some { t with now := t.now + ms } else none

def lostIds (t : Transport) : List Nat := t.receiver.losses.map Prod.fst

section Chunks

variable {firstId : Nat} {frames : List Frame}

variable {frame : Frame}

theorem total_le (h : frame.Fits) : frame.total ≤ 65535 := by
  have hroom := h.room
  unfold Frame.total FrameSender.totalChunks
  unfold FrameSender.maxPayloadSize at *
  omega

theorem total_pos (h : frame.Fits) : 0 < frame.total :=
  FrameSender.totalChunks_pos h.nonempty

/-- The browser reads off a chunk what the sender put in it. -/
theorem parseChunk_fragment {id i : Nat} (hfits : frame.Fits) (hid : id < 2 ^ 32)
    (hi : i < frame.total) :
    parseChunk (FrameSender.fragment frame.data frame.isKeyframe (UInt32.ofNat id)
        frame.backendTs i) =
      some ⟨id, i, frame.total, frame.isKeyframe, frame.backendTs.toNat,
        FrameSender.payload frame.data i⟩ := by
  have htotal := total_le hfits
  obtain ⟨hlength, -⟩ := FrameSender.payload_length hi
  set size := min FrameSender.maxPayloadSize (frame.data.length - i * FrameSender.maxPayloadSize)
    with hsize
  have hsmall : size ≤ 16000 := Nat.min_le_left _ _
  have hidNat : (UInt32.ofNat id).toNat = id := by
    simpa using Nat.mod_eq_of_lt hid
  have hiNat : (UInt16.ofNat i).toNat = i := by
    rw [UInt16.toNat_ofNat']
    omega
  have htotalNat : (UInt16.ofNat (FrameSender.totalChunks frame.data.length)).toNat =
      frame.total := by
    rw [UInt16.toNat_ofNat']
    exact Nat.mod_eq_of_lt (by unfold Frame.total at htotal; omega)
  have hsizeNat : (UInt32.ofNat size).toNat = size := by
    rw [UInt32.toNat_ofNat']
    omega
  have hts := frame.backendTs.toNat_lt
  set bytes := FrameSender.fragment frame.data frame.isKeyframe (UInt32.ofNat id)
    frame.backendTs i with hbytes
  have hheader : bytes = bigEndian 4 id ++ (bigEndian 2 i ++
      (bigEndian 2 frame.total ++ (bigEndian 1 (if frame.isKeyframe then 1 else 0) ++
        (bigEndian 4 size ++ (bigEndian 4 frame.backendTs.toNat ++
          FrameSender.payload frame.data i))))) := by
    rw [hbytes, FrameSender.fragment, FrameSender.writeHeader_eq, hidNat, hiNat, htotalNat,
      ← hsize, hsizeNat]
    simp only [append_assoc]
  have read : ∀ {width n offset : Nat} (before after : List UInt8),
      bytes = before ++ bigEndian width n ++ after → before.length = offset →
      n < 256 ^ width → getUint width bytes offset = some n := by
    intro width n offset before after hcut hoffset hn
    rw [hcut]
    exact getUint_append hoffset hn
  have hidRead : getUint32 bytes 0 = some id :=
    read [] _ (by rw [hheader, nil_append]) rfl (by omega)
  have hiRead : getUint16 bytes 4 = some i :=
    read (bigEndian 4 id) _ (by rw [hheader, append_assoc])
      (bigEndian_length 4 id) (by omega)
  have htotalRead : getUint16 bytes 6 = some frame.total :=
    read (bigEndian 4 id ++ bigEndian 2 i) _
      (by rw [hheader, append_assoc, append_assoc]) rfl (by omega)
  have hkeyRead : getUint8 bytes 8 = some (if frame.isKeyframe then 1 else 0) :=
    read (bigEndian 4 id ++ (bigEndian 2 i ++ bigEndian 2 frame.total)) _
      (by rw [hheader]; simp only [append_assoc]; rfl) rfl (by split <;> omega)
  have hsizeRead : getUint32 bytes 9 = some size :=
    read (bigEndian 4 id ++ (bigEndian 2 i ++ (bigEndian 2 frame.total ++
      bigEndian 1 (if frame.isKeyframe then 1 else 0)))) _
      (by rw [hheader]; simp only [append_assoc]; rfl) rfl (by omega)
  have htsRead : getUint32 bytes 13 = some frame.backendTs.toNat :=
    read (bigEndian 4 id ++ (bigEndian 2 i ++ (bigEndian 2 frame.total ++
      (bigEndian 1 (if frame.isKeyframe then 1 else 0) ++ bigEndian 4 size)))) _
      (by rw [hheader]; simp only [append_assoc]; rfl) rfl (by omega)
  have hcount : bytes.length = fragHeaderSize + size := by
    rw [hheader]
    simp only [length_append, bigEndian_length, hlength, fragHeaderSize]
    omega
  have hpayload : bytes.drop fragHeaderSize = FrameSender.payload frame.data i := by
    rw [hheader]
    rfl
  have hlong : ¬ bytes.length < fragHeaderSize := by omega
  have hroom : fragHeaderSize + size ≤ bytes.length := by omega
  have hflag : decide ((if frame.isKeyframe then 1 else 0) ≠ 0) = frame.isKeyframe := by
    cases frame.isKeyframe <;> rfl
  rw [parseChunk, if_neg hlong, hidRead, hiRead, htotalRead, hkeyRead, hsizeRead, htsRead]
  simp only [Option.bind_eq_bind, Option.bind_some]
  rw [if_pos hroom, hpayload, take_of_length_le (by omega), hflag]

/-- The order of the chunks of a stream. -/
def Before (a b : Nat × Nat) : Prop := a.1 < b.1 ∨ a.1 = b.1 ∧ a.2 < b.2

/-- A chunk the sender made. -/
structure Genuine (firstId : Nat) (frames : List Frame) (sent : Sent) (frame : Frame) : Prop where
  frame_eq : frames[sent.frame]? = some frame
  chunk_lt : sent.chunk < frame.total
  bytes_eq : sent.bytes = FrameSender.fragment frame.data frame.isKeyframe
    (UInt32.ofNat (firstId + sent.frame)) frame.backendTs sent.chunk

theorem mem_sentOf {n : Nat} {sent : Sent} (h : sent ∈ sentOf firstId frame n) :
    sent.frame = n ∧ sent.chunk < frame.total ∧
      sent.bytes = FrameSender.fragment frame.data frame.isKeyframe
        (UInt32.ofNat (firstId + n)) frame.backendTs sent.chunk := by
  obtain ⟨⟨bytes, chunk⟩, hmem, rfl⟩ := mem_map.mp h
  rw [mem_zipIdx_iff_getElem?, FrameSender.buildFragments] at hmem
  by_cases hempty : frame.data.length = 0
  · rw [if_pos hempty] at hmem
    simp at hmem
  · rw [if_neg hempty, List.getElem?_map, Option.map_eq_some_iff] at hmem
    obtain ⟨i, hi, hbytes⟩ := hmem
    obtain ⟨hlt, rfl⟩ := List.getElem?_eq_some_iff.mp hi
    rw [getElem_range] at hbytes
    rw [length_range] at hlt
    exact ⟨rfl, hlt, hbytes.symm⟩

theorem mem_stream {sent : Sent} (h : sent ∈ stream firstId frames) :
    ∃ frame, Genuine firstId frames sent frame := by
  obtain ⟨⟨frame, n⟩, hframe, hsent⟩ := mem_flatMap.mp h
  rw [mem_zipIdx_iff_getElem?] at hframe
  obtain ⟨rfl, hchunk, hbytes⟩ := mem_sentOf hsent
  exact ⟨frame, hframe, hchunk, hbytes⟩

theorem stream_ordered (firstId : Nat) (frames : List Frame) :
    (stream firstId frames).Pairwise fun a b => Before (a.frame, a.chunk) (b.frame, b.chunk) := by
  rw [stream, pairwise_flatMap]
  constructor
  · rintro ⟨frame, n⟩ -
    show (sentOf firstId frame n).Pairwise _
    rw [sentOf, pairwise_map, pairwise_iff_getElem]
    intro i j hi hj hij
    rw [getElem_zipIdx, getElem_zipIdx]
    refine Or.inr ⟨rfl, ?_⟩
    show 0 + i < 0 + j
    omega
  · rw [pairwise_iff_getElem]
    intro i j hi hj hij a ha b hb
    rw [getElem_zipIdx] at ha hb
    have hfirst := (mem_sentOf ha).1
    have hsecond := (mem_sentOf hb).1
    exact Or.inl (by omega)

end Chunks

section Invariant

variable {firstId : Nat} {frames : List Frame}

/-- An entry holds payloads of the frame it is for that arrived, and not all of them. -/
structure EntryOf (frames : List Frame) (arrived : List (Nat × Nat)) (n : Nat) (frame : Frame)
    (entry : Entry) : Prop where
  frame_eq : frames[n]? = some frame
  total_eq : entry.total = frame.total
  keyframe_eq : entry.keyframe = frame.isKeyframe
  backendTs_eq : entry.backendTs = frame.backendTs.toNat
  open_eq : entry.completed = false
  stored : ∀ i p, entry.chunks i = some p →
    i < frame.total ∧ p = FrameSender.payload frame.data i ∧ (n, i) ∈ arrived
  counted : entry.received =
    ((Finset.range frame.total).filter fun i => (entry.chunks i).isSome).card

def EmittedOf (firstId : Nat) (frames : List Frame) (arrived : List (Nat × Nat)) (video : Video) :
    Prop :=
  ∃ n frame, frames[n]? = some frame ∧
    video = ⟨frame.data, frame.isKeyframe, frame.backendTs.toNat, firstId + n⟩ ∧
    ∀ i < frame.total, (n, i) ∈ arrived

/-- A lost frame had a chunk that arrived and that no entry has any more. -/
def LostOf (firstId : Nat) (frames : List Frame) (t : Transport) (id : Nat) : Prop :=
  ∃ n frame i, id = firstId + n ∧ frames[n]? = some frame ∧ i < frame.total ∧
    (n, i) ∈ t.arrived ∧ ∀ entry, t.receiver.reassembly.get id = some entry → entry.chunks i = none

structure Inv (firstId : Nat) (frames : List Frame) (t : Transport) : Prop where
  genuine : ∀ sent ∈ t.channel, ∃ frame, Genuine firstId frames sent frame
  ordered : t.channel.Pairwise fun a b => Before (a.frame, a.chunk) (b.frame, b.chunk)
  passed : ∀ a ∈ t.arrived, ∀ sent ∈ t.channel, Before a (sent.frame, sent.chunk)
  entries : ∀ id entry, t.receiver.reassembly.get id = some entry →
    ∃ n frame, id = firstId + n ∧ EntryOf frames t.arrived n frame entry ∧
      0 < entry.received ∧ entry.received < entry.total
  emitted : ∀ video ∈ t.receiver.videos, EmittedOf firstId frames t.arrived video
  increasing : (t.receiver.videos.map Video.frameId).Pairwise (· < ·)
  below : ∀ video ∈ t.receiver.videos, ∀ id entry, t.receiver.reassembly.get id = some entry →
    video.frameId < id
  lost : ∀ id ∈ lostIds t, LostOf firstId frames t id
  apart : ∀ video ∈ t.receiver.videos, video.frameId ∉ lostIds t

theorem inv_start : Inv firstId frames (start firstId frames) where
  genuine := fun _ h => mem_stream h
  ordered := stream_ordered firstId frames
  passed := by simp [start]
  entries := by simp [start]
  emitted := by simp [start]
  increasing := by simp [start]
  below := by simp [start]
  lost := by simp [start, lostIds]
  apart := by simp [start]

/-! ### Entries -/

variable {frame : Frame} {entry : Entry} {arrived : List (Nat × Nat)} {n : Nat}

theorem EntryOf.received_le
    (h : EntryOf frames arrived n frame entry) : entry.received ≤ frame.total := by
  rw [h.counted]
  have hcard := Finset.card_filter_le (Finset.range frame.total)
    fun i => (entry.chunks i).isSome = true
  rwa [Finset.card_range] at hcard

theorem EntryOf.mono {arrived later : List (Nat × Nat)}
    (h : EntryOf frames arrived n frame entry) (hsub : ∀ a ∈ arrived, a ∈ later) :
    EntryOf frames later n frame entry where
  frame_eq := h.frame_eq
  total_eq := h.total_eq
  keyframe_eq := h.keyframe_eq
  backendTs_eq := h.backendTs_eq
  open_eq := h.open_eq
  stored := fun i p hp => ⟨(h.stored i p hp).1, (h.stored i p hp).2.1, hsub _ (h.stored i p hp).2.2⟩
  counted := h.counted

theorem EntryOf.holds (h : EntryOf frames arrived n frame entry) (hpos : 0 < entry.received) :
    ∃ i, i < frame.total ∧ (n, i) ∈ arrived := by
  rw [h.counted, Finset.card_pos] at hpos
  obtain ⟨i, hi⟩ := hpos
  obtain ⟨-, hsome⟩ := Finset.mem_filter.mp hi
  obtain ⟨p, hp⟩ := Option.isSome_iff_exists.mp hsome
  have hstored := h.stored i p hp
  exact ⟨i, hstored.1, hstored.2.2⟩

/-- An entry that received all its chunks holds the frame. -/
theorem EntryOf.whole
    (h : EntryOf frames arrived n frame entry) (hall : frame.total ≤ entry.received) :
    ((List.range entry.total).flatMap fun i => (entry.chunks i).getD []) = frame.data ∧
      ∀ i < frame.total,
        entry.chunks i = some (FrameSender.payload frame.data i) ∧ (n, i) ∈ arrived := by
  have hcard : ((Finset.range frame.total).filter fun i => (entry.chunks i).isSome).card =
      (Finset.range frame.total).card := by
    rw [← h.counted, Finset.card_range]
    exact Nat.le_antisymm h.received_le hall
  rw [Finset.card_filter_eq_iff] at hcard
  have hstored : ∀ i < frame.total,
      entry.chunks i = some (FrameSender.payload frame.data i) ∧ (n, i) ∈ arrived := by
    intro i hi
    obtain ⟨p, hp⟩ := Option.isSome_iff_exists.mp (hcard i (Finset.mem_range.mpr hi))
    obtain ⟨-, rfl, harrived⟩ := h.stored i p hp
    exact ⟨hp, harrived⟩
  refine ⟨?_, hstored⟩
  rw [h.total_eq]
  calc ((List.range frame.total).flatMap fun i => (entry.chunks i).getD [])
      = (List.range frame.total).flatMap (FrameSender.payload frame.data) := by
        refine flatMap_congr fun i hi => ?_
        rw [(hstored i (mem_range.mp hi)).1, Option.getD_some]
    _ = frame.data := FrameSender.payloads_all frame.data

/-- A chunk that was not there yet, stored. -/
theorem EntryOf.store {n i : Nat}
    (h : EntryOf frames arrived n frame entry) (chunk : Chunk) (hi : i < frame.total)
    (hfree : entry.chunks i = none) (hindex : chunk.chunkIndex = i)
    (htotal : chunk.totalChunks = frame.total)
    (hpayload : chunk.payload = FrameSender.payload frame.data i) :
    EntryOf frames (arrived ++ [(n, i)]) n frame (storeChunk entry chunk) ∧
      (storeChunk entry chunk).received = entry.received + 1 ∧
      ∀ j, j ≠ i → (storeChunk entry chunk).chunks j = entry.chunks j := by
  have hstore : storeChunk entry chunk =
      { entry with
        chunks := Function.update entry.chunks i (some (FrameSender.payload frame.data i))
        received := entry.received + 1 } := by
    rw [storeChunk, hindex, htotal, hpayload, if_pos ⟨hi, hfree⟩]
  rw [hstore]
  refine ⟨?_, rfl, fun j hj => Function.update_of_ne hj _ _⟩
  refine ⟨h.frame_eq, h.total_eq, h.keyframe_eq, h.backendTs_eq, h.open_eq, ?_, ?_⟩
  · intro j p hp
    change Function.update entry.chunks i (some (FrameSender.payload frame.data i)) j = some p at hp
    by_cases hj : j = i
    · subst hj
      rw [Function.update_self, Option.some.injEq] at hp
      exact ⟨hi, hp.symm, mem_append_right _ (mem_singleton.mpr rfl)⟩
    · rw [Function.update_of_ne hj] at hp
      obtain ⟨hlt, hpayload', harrived⟩ := h.stored j p hp
      exact ⟨hlt, hpayload', mem_append_left _ harrived⟩
  · have hinsert : ((Finset.range frame.total).filter fun j =>
        (Function.update entry.chunks i (some (FrameSender.payload frame.data i)) j).isSome) =
        insert i ((Finset.range frame.total).filter fun j => (entry.chunks j).isSome) := by
      ext j
      by_cases hj : j = i
      · subst hj
        simp [hi]
      · simp [hj]
    have hnew : i ∉ (Finset.range frame.total).filter fun j => (entry.chunks j).isSome := by
      simp [hfree]
    show entry.received + 1 = _
    rw [hinsert, Finset.card_insert_of_notMem hnew, h.counted]

/-! ### Steps -/

variable {t : Transport} {rest : List Sent} {sent : Sent}

theorem Inv.skip (h : Inv firstId frames t)
    (hchannel : t.channel = sent :: rest) : Inv firstId frames { t with channel := rest } :=
  have hsub : ∀ s ∈ rest, s ∈ t.channel := fun s hs => hchannel ▸ mem_cons_of_mem _ hs
  { h with
    genuine := fun s hs => h.genuine s (hsub s hs)
    ordered := by
      have hordered := h.ordered
      rw [hchannel] at hordered
      exact (pairwise_cons.mp hordered).2
    passed := fun a ha s hs => h.passed a ha s (hsub s hs) }

variable {r' : Receiver}

/-- Frames reported lost, none of them emitted before. -/
theorem Inv.lostOf_dropped {dropped : List (Nat × Bool)}
    (h : Inv firstId frames t) (hdrops : Drops t.receiver r' dropped) {id : Nat}
    (hid : id ∈ dropped.map Prod.fst) :
    (∃ n frame i, id = firstId + n ∧ frames[n]? = some frame ∧ i < frame.total ∧
      (n, i) ∈ t.arrived) ∧ ∀ video ∈ t.receiver.videos, video.frameId < id := by
  obtain ⟨entry, hget⟩ := hdrops.had id hid
  obtain ⟨n, frame, rfl, hentry, hpos, -⟩ := h.entries id entry hget
  obtain ⟨i, hi, harrived⟩ := hentry.holds hpos
  exact ⟨⟨n, frame, i, rfl, hentry.frame_eq, hi, harrived⟩,
    fun video hvideo => h.below video hvideo _ entry hget⟩

theorem Inv.cleanup (h : Inv firstId frames t) :
    Inv firstId frames { t with receiver := cleanupStaleFrames t.now t.receiver } := by
  obtain ⟨⟨dropped, hdrops⟩, hvideos, hkept⟩ := cleanupStaleFrames_drops t.now t.receiver
  have hlost : lostIds { t with receiver := cleanupStaleFrames t.now t.receiver } =
      lostIds t ++ dropped.map Prod.fst := by
    rw [lostIds, hdrops.losses_eq, map_append, lostIds]
  refine ⟨h.genuine, h.ordered, h.passed, ?_, ?_, ?_, ?_, ?_, ?_⟩
  · intro id entry hget
    exact h.entries id entry (hkept id entry hget)
  · rw [hvideos]
    exact h.emitted
  · rw [hvideos]
    exact h.increasing
  · rw [hvideos]
    intro video hvideo id entry hget
    exact h.below video hvideo id entry (hkept id entry hget)
  · intro id hid
    rw [hlost, mem_append] at hid
    rcases hid with hid | hid
    · obtain ⟨n, frame, i, hn, hframe, hi, harrived, hnone⟩ := h.lost id hid
      exact ⟨n, frame, i, hn, hframe, hi, harrived,
        fun entry hget => hnone entry (hkept id entry hget)⟩
    · obtain ⟨⟨n, frame, i, hn, hframe, hi, harrived⟩, -⟩ := h.lostOf_dropped hdrops hid
      refine ⟨n, frame, i, hn, hframe, hi, harrived, fun entry hget => ?_⟩
      rw [hdrops.gone id hid] at hget
      exact absurd hget (by simp)
  · rw [hvideos, hlost]
    intro video hvideo hmem
    rw [mem_append] at hmem
    rcases hmem with hmem | hmem
    · exact h.apart video hvideo hmem
    · have hlt := (h.lostOf_dropped hdrops hmem).2 video hvideo
      omega

/-- What a chunk does that reaches the browser. -/
structure Arrival (firstId : Nat) (frames : List Frame) (t : Transport) (sent : Sent)
    (frame : Frame) (entry : Entry) (r' : Receiver) : Prop where
  genuine : Genuine firstId frames sent frame
  entryOf : EntryOf frames (t.arrived ++ [(sent.frame, sent.chunk)]) sent.frame frame entry
  received_pos : 0 < entry.received
  missing : ∀ i, i ≠ sent.chunk →
    (∀ e, t.receiver.reassembly.get (firstId + sent.frame) = some e → e.chunks i = none) →
    entry.chunks i = none
  outcome :
    (entry.received < entry.total ∧
      r' = { t.receiver with
        reassembly := t.receiver.reassembly.set (firstId + sent.frame) entry }) ∨
    (frame.total ≤ entry.received ∧
      ∃ overtaken, Completes t.receiver (firstId + sent.frame) entry r' overtaken)

variable (h : Inv firstId frames t)

include h

theorem Inv.not_arrived
    (hchannel : t.channel = sent :: rest) : (sent.frame, sent.chunk) ∉ t.arrived := by
  intro hmem
  have hbefore := h.passed _ hmem sent (hchannel ▸ mem_cons_self)
  rcases hbefore with hlt | ⟨-, hlt⟩
  · exact Nat.lt_irrefl _ hlt
  · exact Nat.lt_irrefl _ hlt

theorem Inv.arrival
    (hfits : ∀ frame ∈ frames, frame.Fits) (hids : firstId + frames.length ≤ 2 ^ 32)
    (hchannel : t.channel = sent :: rest) :
    ∃ frame entry, Arrival firstId frames t sent frame entry
      (onVideoChunk t.now t.receiver sent.bytes) := by
  obtain ⟨frame, hgenuine⟩ := h.genuine sent (hchannel ▸ mem_cons_self)
  obtain ⟨hlength, hframe⟩ := List.getElem?_eq_some_iff.mp hgenuine.frame_eq
  have hfit : frame.Fits := hfits frame (hframe ▸ getElem_mem hlength)
  set id := firstId + sent.frame with hid
  set chunk : Chunk := ⟨id, sent.chunk, frame.total, frame.isKeyframe, frame.backendTs.toNat,
    FrameSender.payload frame.data sent.chunk⟩ with hchunk
  have hparse : onVideoChunk t.now t.receiver sent.bytes = onChunk t.now t.receiver chunk := by
    rw [onVideoChunk, hgenuine.bytes_eq,
      parseChunk_fragment hfit (by omega) hgenuine.chunk_lt]
  -- The entry before the chunk is stored.
  set base := (t.receiver.reassembly.get id).getD (newEntry t.now chunk) with hbase
  have hbaseOf : EntryOf frames t.arrived sent.frame frame base := by
    cases hget : t.receiver.reassembly.get id with
    | none =>
      rw [hbase, hget, Option.getD_none]
      exact ⟨hgenuine.frame_eq, rfl, rfl, rfl, rfl, fun i p hp => by simp [newEntry] at hp,
        by simp [newEntry]⟩
    | some e =>
      obtain ⟨n, frame', hn, hof, -⟩ := h.entries id e hget
      obtain rfl : n = sent.frame := by omega
      obtain rfl : frame' = frame := by
        simpa [hgenuine.frame_eq] using hof.frame_eq.symm
      rw [hbase, hget, Option.getD_some]
      exact hof
  have hfree : base.chunks sent.chunk = none := by
    cases hstored : base.chunks sent.chunk with
    | none => rfl
    | some p => exact absurd (hbaseOf.stored _ p hstored).2.2 (h.not_arrived hchannel)
  obtain ⟨hentryOf, hreceived, hother⟩ :=
    hbaseOf.store chunk hgenuine.chunk_lt hfree rfl rfl rfl
  refine ⟨frame, entryAfter t.now t.receiver chunk, hgenuine, hentryOf, ?_, ?_, ?_⟩
  · show 0 < (storeChunk base chunk).received
    omega
  · intro i hi hmissing
    show (storeChunk base chunk).chunks i = none
    rw [hother i hi, hbase]
    cases hget : t.receiver.reassembly.get id with
    | none => rfl
    | some e => exact hmissing e hget
  · rw [hparse]
    by_cases hlt : (entryAfter t.now t.receiver chunk).received < frame.total
    · have htotal : (entryAfter t.now t.receiver chunk).total = frame.total := hentryOf.total_eq
      exact Or.inl ⟨by rw [htotal]; exact hlt, onChunk_of_lt hlt⟩
    · have htotal : (entryAfter t.now t.receiver chunk).total = frame.total := hentryOf.total_eq
      exact Or.inr ⟨by omega, onChunk_of_complete (by show frame.total ≤ _; omega) (by omega)
        hentryOf.open_eq⟩

theorem Inv.emitted_lt (hfits : ∀ frame ∈ frames, frame.Fits)
    (hchannel : t.channel = sent :: rest) (hgenuine : Genuine firstId frames sent frame)
    {video : Video} (hvideo : video ∈ t.receiver.videos) :
    video.frameId < firstId + sent.frame := by
  obtain ⟨n, frame', hframe', rfl, hall⟩ := h.emitted video hvideo
  have hpos : 0 < frame'.total := by
    obtain ⟨hlength, rfl⟩ := List.getElem?_eq_some_iff.mp hframe'
    exact total_pos (hfits _ (getElem_mem hlength))
  have hlast := h.passed _ (hall (frame'.total - 1) (by omega)) sent
    (hchannel ▸ mem_cons_self)
  show firstId + n < firstId + sent.frame
  rcases hlast with hlt | ⟨heq, hlt⟩
  · exact Nat.add_lt_add_left hlt firstId
  · obtain rfl : n = sent.frame := heq
    obtain rfl : frame' = frame := by
      simpa [hgenuine.frame_eq] using hframe'.symm
    have hchunk := hgenuine.chunk_lt
    change frame'.total - 1 < sent.chunk at hlt
    omega

/-- A frame reported lost lacks a chunk, whatever arrives. -/
theorem Inv.lost_missing (hchannel : t.channel = sent :: rest)
    (ha : Arrival firstId frames t sent frame entry r') (hlost : firstId + sent.frame ∈ lostIds t) :
    ∃ i, i < frame.total ∧ (sent.frame, i) ∈ t.arrived ∧ entry.chunks i = none := by
  obtain ⟨n, frame', i, hn, hframe', hi, harrived, hnone⟩ := h.lost _ hlost
  obtain rfl : n = sent.frame := by omega
  obtain rfl : frame' = frame := by
    simpa [ha.genuine.frame_eq] using hframe'.symm
  have hne : i ≠ sent.chunk := fun heq => h.not_arrived hchannel (heq ▸ harrived)
  exact ⟨i, hi, harrived, ha.missing i hne hnone⟩

theorem Inv.arrive (hchannel : t.channel = sent :: rest) :
    Inv firstId frames
      { t with channel := rest, arrived := t.arrived ++ [(sent.frame, sent.chunk)] } := by
  have hskip := h.skip hchannel
  have hlater : ∀ a ∈ t.arrived, a ∈ t.arrived ++ [(sent.frame, sent.chunk)] :=
    fun a ha => mem_append_left _ ha
  refine ⟨hskip.genuine, hskip.ordered, ?_, ?_, ?_, h.increasing, h.below, ?_, h.apart⟩
  · intro a hmem s hs
    rcases mem_append.mp hmem with hmem | hmem
    · exact hskip.passed a hmem s hs
    · have hordered := h.ordered
      rw [hchannel] at hordered
      rw [mem_singleton.mp hmem]
      exact (pairwise_cons.mp hordered).1 s hs
  · intro id entry hget
    obtain ⟨n, frame, hn, hof, hbounds⟩ := h.entries id entry hget
    exact ⟨n, frame, hn, hof.mono hlater, hbounds⟩
  · intro video hvideo
    obtain ⟨n, frame, hframe, heq, hall⟩ := h.emitted video hvideo
    exact ⟨n, frame, hframe, heq, fun i hi => hlater _ (hall i hi)⟩
  · intro id hid
    obtain ⟨n, frame, i, hn, hframe, hi, harrived, hnone⟩ := h.lost id hid
    exact ⟨n, frame, i, hn, hframe, hi, hlater _ harrived, hnone⟩

/-- A chunk that does not complete its frame. -/
theorem Inv.deliver_stores
    (hfits : ∀ frame ∈ frames, frame.Fits) (hchannel : t.channel = sent :: rest)
    (ha : Arrival firstId frames t sent frame entry r') (hlt : entry.received < entry.total) :
    Inv firstId frames { t with
        channel := rest
        receiver := { t.receiver with
          reassembly := t.receiver.reassembly.set (firstId + sent.frame) entry }
        arrived := t.arrived ++ [(sent.frame, sent.chunk)] } := by
  have harrive := h.arrive hchannel
  have hget : ∀ id e, (t.receiver.reassembly.set (firstId + sent.frame) entry).get id = some e →
      (id = firstId + sent.frame ∧ e = entry) ∨ t.receiver.reassembly.get id = some e := by
    intro id e hget
    by_cases hid : id = firstId + sent.frame
    · subst hid
      rw [get_set_self, Option.some.injEq] at hget
      exact Or.inl ⟨rfl, hget.symm⟩
    · rw [get_set_of_ne _ _ hid] at hget
      exact Or.inr hget
  refine ⟨harrive.genuine, harrive.ordered, harrive.passed, ?_, harrive.emitted, h.increasing, ?_,
    ?_, h.apart⟩
  · intro id e hset
    rcases hget id e hset with ⟨rfl, rfl⟩ | hold
    · exact ⟨sent.frame, frame, rfl, ha.entryOf, ha.received_pos, hlt⟩
    · exact harrive.entries id e hold
  · intro video hvideo id e hset
    rcases hget id e hset with ⟨rfl, -⟩ | hold
    · exact h.emitted_lt hfits hchannel ha.genuine hvideo
    · exact h.below video hvideo id e hold
  · intro id hid
    by_cases hself : id = firstId + sent.frame
    · subst hself
      obtain ⟨i, hi, harrived, hnone⟩ := h.lost_missing hchannel ha hid
      refine ⟨sent.frame, frame, i, rfl, ha.genuine.frame_eq, hi, mem_append_left _ harrived,
        fun e hset => ?_⟩
      obtain rfl : entry = e := by simpa using hset
      exact hnone
    · obtain ⟨n, frame', i, hn, hframe, hi, harrived, hnone⟩ := harrive.lost id hid
      refine ⟨n, frame', i, hn, hframe, hi, harrived, fun e hset => ?_⟩
      rcases hget id e hset with ⟨heq, -⟩ | hold
      · exact absurd heq hself
      · exact hnone e hold

theorem Inv.deliver_completes {overtaken : List (Nat × Bool)}
    (hfits : ∀ frame ∈ frames, frame.Fits) (hchannel : t.channel = sent :: rest)
    (ha : Arrival firstId frames t sent frame entry r') (hall : frame.total ≤ entry.received)
    (hcompletes : Completes t.receiver (firstId + sent.frame) entry r' overtaken) :
    Inv firstId frames { t with
        channel := rest
        receiver := r'
        arrived := t.arrived ++ [(sent.frame, sent.chunk)] } := by
  have harrive := h.arrive hchannel
  obtain ⟨hwhole, hchunks⟩ := ha.entryOf.whole hall
  have hvideos := hcompletes.videos_eq
  rw [hwhole, ha.entryOf.keyframe_eq, ha.entryOf.backendTs_eq] at hvideos
  have hbelow : ∀ video ∈ t.receiver.videos, video.frameId < firstId + sent.frame :=
    fun video hvideo => h.emitted_lt hfits hchannel ha.genuine hvideo
  have hkept : ∀ k e, r'.reassembly.get k = some e →
      t.receiver.reassembly.get k = some e ∧ firstId + sent.frame < k := by
    intro k e hget
    obtain ⟨hold, hlt | hcompleted⟩ := hcompletes.kept k e hget
    · exact ⟨hold, hlt⟩
    · obtain ⟨n, frame', -, hof, -⟩ := h.entries k e hold
      rw [hof.open_eq] at hcompleted
      exact absurd hcompleted (by decide)
  have hlost : r'.losses.map Prod.fst = lostIds t ++ overtaken.map Prod.fst := by
    rw [hcompletes.drops.losses_eq, map_append, lostIds]
  have hself : firstId + sent.frame ∉ lostIds t := by
    intro hmem
    obtain ⟨i, hi, -, hnone⟩ := h.lost_missing hchannel ha hmem
    rw [(hchunks i hi).1] at hnone
    exact absurd hnone (by simp)
  refine ⟨harrive.genuine, harrive.ordered, harrive.passed, ?_, ?_, ?_, ?_, ?_, ?_⟩
  · intro id e hget
    exact harrive.entries id e (hkept id e hget).1
  · show ∀ video ∈ r'.videos, _
    intro video hvideo
    rw [hvideos, mem_append, mem_singleton] at hvideo
    rcases hvideo with hvideo | rfl
    · exact harrive.emitted video hvideo
    · exact ⟨sent.frame, frame, ha.genuine.frame_eq, rfl, fun i hi => (hchunks i hi).2⟩
  · show (r'.videos.map Video.frameId).Pairwise (· < ·)
    rw [hvideos, map_append, pairwise_append]
    refine ⟨h.increasing, pairwise_singleton _ _, ?_⟩
    intro id hid last hlast
    obtain ⟨video, hvideo, rfl⟩ := mem_map.mp hid
    rw [map_singleton, mem_singleton] at hlast
    rw [hlast]
    exact hbelow video hvideo
  · show ∀ video ∈ r'.videos, _
    intro video hvideo id e hget
    rw [hvideos, mem_append, mem_singleton] at hvideo
    rcases hvideo with hvideo | rfl
    · exact h.below video hvideo id e (hkept id e hget).1
    · exact (hkept id e hget).2
  · show ∀ id ∈ r'.losses.map Prod.fst, _
    intro id hid
    rw [hlost, mem_append] at hid
    rcases hid with hid | hid
    · obtain ⟨n, frame', i, hn, hframe, hi, harrived, hnone⟩ := harrive.lost id hid
      exact ⟨n, frame', i, hn, hframe, hi, harrived,
        fun e hget => hnone e (hkept id e hget).1⟩
    · obtain ⟨⟨n, frame', i, hn, hframe, hi, harrived⟩, -⟩ :=
        h.lostOf_dropped hcompletes.drops hid
      refine ⟨n, frame', i, hn, hframe, hi, mem_append_left _ harrived, fun e hget => ?_⟩
      rw [show r'.reassembly.get id = none from hcompletes.drops.gone id hid] at hget
      exact absurd hget (by simp)
  · show ∀ video ∈ r'.videos, video.frameId ∉ r'.losses.map Prod.fst
    intro video hvideo hmem
    rw [hvideos, mem_append, mem_singleton] at hvideo
    rw [hlost, mem_append] at hmem
    rcases hvideo with hvideo | rfl
    · rcases hmem with hmem | hmem
      · exact h.apart video hvideo hmem
      · have hlt := (h.lostOf_dropped hcompletes.drops hmem).2 video hvideo
        omega
    · rcases hmem with hmem | hmem
      · exact hself hmem
      · have hlt := hcompletes.older _ hmem
        exact Nat.lt_irrefl _ hlt

omit h

theorem Inv.step {t u : Transport} {m : Move} (hfits : ∀ frame ∈ frames, frame.Fits)
    (hids : firstId + frames.length ≤ 2 ^ 32) (h : Inv firstId frames t)
    (hstep : moves move t m u) : Inv firstId frames u := by
  cases m with
  | deliver =>
    cases hchannel : t.channel with
    | nil => simp [moves, move, hchannel] at hstep
    | cons sent rest =>
      simp only [moves, move, hchannel, Option.some.injEq] at hstep
      subst hstep
      obtain ⟨frame, entry, ha⟩ := h.arrival hfits hids hchannel
      rcases ha.outcome with ⟨hlt, heq⟩ | ⟨hall, overtaken, hcompletes⟩
      · rw [heq]
        exact h.deliver_stores hfits hchannel ha hlt
      · exact h.deliver_completes hfits hchannel ha hall hcompletes
  | giveUp =>
    cases hchannel : t.channel with
    | nil => simp [moves, move, hchannel] at hstep
    | cons sent rest =>
      simp only [moves, move, hchannel, Option.some.injEq] at hstep
      subst hstep
      exact h.skip hchannel
  | cleanup =>
    simp only [moves, move, Option.some.injEq] at hstep
    subst hstep
    exact h.cleanup
  | tick ms =>
    simp only [moves, move] at hstep
    split_ifs at hstep with hms
    obtain rfl := Option.some.inj hstep
    exact { h with }

end Invariant

/-- What is emitted is frames of the stream, whole, once each and in order, none
of them reported lost. -/
structure Transported (firstId : Nat) (frames : List Frame) (t : Transport) : Prop where
  exact : ∀ video ∈ t.receiver.videos, EmittedOf firstId frames t.arrived video
  increasing : (t.receiver.videos.map Video.frameId).Pairwise (· < ·)
  apart : ∀ video ∈ t.receiver.videos, video.frameId ∉ lostIds t

/-- No frame is reported lost twice. -/
def LostOnce (t : Transport) : Prop := (lostIds t).Nodup

/-- No chunk arrives of a frame that was reported lost. -/
def Punctual (t : Transport) (m : Move) : Prop :=
  m = .deliver → ∀ sent ∈ t.channel.head?, firstId + sent.frame ∉ lostIds t

section Stream

variable {firstId : Nat} {frames : List Frame}

structure Settled (t : Transport) : Prop where
  once : LostOnce t
  cleared : ∀ id ∈ lostIds t, t.receiver.reassembly.get id = none

theorem Settled.drops {t u : Transport} {dropped : List (Nat × Bool)} (h : Settled t)
    (hdrops : Drops t.receiver u.receiver dropped)
    (hkept : ∀ id ∈ lostIds t, t.receiver.reassembly.get id = none →
      u.receiver.reassembly.get id = none) : Settled u := by
  have hlost : lostIds u = lostIds t ++ dropped.map Prod.fst := by
    rw [lostIds, hdrops.losses_eq, map_append, lostIds]
  constructor
  · rw [LostOnce, hlost, nodup_append]
    refine ⟨h.once, hdrops.nodup, ?_⟩
    intro id hold other hnew heq
    obtain ⟨entry, hget⟩ := hdrops.had other hnew
    rw [← heq, h.cleared id hold] at hget
    exact absurd hget (by simp)
  · intro id hid
    rw [hlost, mem_append] at hid
    rcases hid with hid | hid
    · exact hkept id hid (h.cleared id hid)
    · exact hdrops.gone id hid

theorem Settled.step {t u : Transport} {m : Move} (hfits : ∀ frame ∈ frames, frame.Fits)
    (hids : firstId + frames.length ≤ 2 ^ 32) (hinv : Inv firstId frames t) (h : Settled t)
    (hpunctual : Punctual firstId t m) (hstep : moves move t m u) : Settled u := by
  have hnone : ∀ {r r' : JsMap Nat Entry} {id : Nat},
      (∀ entry, r'.get id = some entry → r.get id = some entry) → r.get id = none →
        r'.get id = none := by
    intro r r' id hkept hget
    cases hget' : r'.get id with
    | none => rfl
    | some entry =>
      rw [hkept entry hget'] at hget
      exact absurd hget (by simp)
  cases m with
  | deliver =>
    cases hchannel : t.channel with
    | nil => simp [moves, move, hchannel] at hstep
    | cons sent rest =>
      simp only [moves, move, hchannel, Option.some.injEq] at hstep
      obtain ⟨frame, entry, ha⟩ := hinv.arrival hfits hids hchannel
      have hfresh : firstId + sent.frame ∉ lostIds t :=
        hpunctual rfl sent (by rw [hchannel]; rfl)
      subst hstep
      rcases ha.outcome with ⟨-, heq⟩ | ⟨-, overtaken, hcompletes⟩
      · rw [heq]
        refine ⟨h.once, fun id hid => ?_⟩
        have hne : id ≠ firstId + sent.frame := fun hself => hfresh (hself ▸ hid)
        show (t.receiver.reassembly.set (firstId + sent.frame) entry).get id = none
        rw [get_set_of_ne _ _ hne]
        exact h.cleared id hid
      · exact h.drops hcompletes.drops fun id _ =>
          hnone fun entry hget => (hcompletes.kept id entry hget).1
  | giveUp =>
    cases hchannel : t.channel with
    | nil => simp [moves, move, hchannel] at hstep
    | cons sent rest =>
      simp only [moves, move, hchannel, Option.some.injEq] at hstep
      subst hstep
      exact ⟨h.once, h.cleared⟩
  | cleanup =>
    simp only [moves, move, Option.some.injEq] at hstep
    obtain ⟨⟨dropped, hdrops⟩, -, hkept⟩ := cleanupStaleFrames_drops t.now t.receiver
    subst hstep
    exact h.drops hdrops fun id _ => hnone (hkept id)
  | tick ms =>
    simp only [moves, move] at hstep
    split_ifs at hstep with hms
    obtain rfl := Option.some.inj hstep
    exact ⟨h.once, h.cleared⟩

/-- What every run of the transport delivers; a frame is reported lost once as
long as none of its chunks comes after that. -/
theorem transported_along (hfits : ∀ frame ∈ frames, frame.Fits)
    (hids : firstId + frames.length ≤ 2 ^ 32) (labels : List Move) :
    AllAlong (moves move) (Transported firstId frames) (start firstId frames) labels ∧
      (EachStep (moves move) (fun t m _ => Punctual firstId t m) (start firstId frames) labels →
        AllAlong (moves move) LostOnce (start firstId frames) labels) := by
  constructor
  · intro visited rest t hl hrun
    have hinv : Inv firstId frames t :=
      hrun.invariant (fun s m u hs hstep => hs.step hfits hids hstep) inv_start
    exact ⟨hinv.emitted, hinv.increasing, hinv.apart⟩
  · intro hpunctual visited rest t hl hrun
    have hstart : Inv firstId frames (start firstId frames) ∧ Settled (start firstId frames) :=
      ⟨inv_start, List.nodup_nil, fun id hid => absurd hid (by simp [lostIds, start])⟩
    have hboth : Inv firstId frames t ∧ Settled t := by
      refine (hpunctual.take hl).invariant
        (I := fun t => Inv firstId frames t ∧ Settled t) ?_ hstart hrun
      intro s m u hs hstep hC
      exact ⟨hs.1.step hfits hids hstep, hs.2.step hfits hids hs.1 hC hstep⟩
    exact hboth.2.once

def longFrame : Frame := ⟨List.replicate 16001 0, false, 0⟩

theorem longFrame_total : longFrame.total = 2 := by
  rw [Frame.total, longFrame, length_replicate]
  rfl

theorem longFrame_fits : longFrame.Fits := by
  constructor
  · rw [longFrame, length_replicate]
    omega
  · rw [longFrame, length_replicate, FrameSender.maxPayloadSize]
    omega

theorem transported_along_longFrame :
    AllAlong (moves move) (Transported 7 [longFrame]) (start 7 [longFrame]) [.deliver] ∧
      AllAlong (moves move) LostOnce (start 7 [longFrame]) [.deliver] := by
  have hfits : ∀ frame ∈ [longFrame], frame.Fits := by
    intro frame hframe
    rw [List.mem_singleton.mp hframe]
    exact longFrame_fits
  obtain ⟨hexact, hlost⟩ := @transported_along 7 [longFrame] hfits (by decide) [.deliver]
  refine ⟨hexact, hlost ?_⟩
  intro visited m rest t u hl hrun hstep hm sent hsent
  cases visited with
  | nil =>
      rw [hrun.eq_of_nil]
      simp [lostIds, start]
  | cons first visited => simp at hl

/-- The first chunk of a frame comes, the frame times out, the second comes and
the frame times out again. -/
def lateChunk : List Move := [.deliver, .tick 501, .cleanup, .deliver, .tick 501, .cleanup]

theorem cleanup_single {now : ℚ} {id : Nat} {entry : Entry} {videos : List Video}
    {losses : List (Nat × Bool)} (hopen : entry.completed = false)
    (hlate : frameTimeoutMs < now - entry.firstChunkTime) :
    cleanupStaleFrames now ⟨JsMap.empty.set id entry, videos, losses⟩ =
      ⟨JsMap.empty, videos, losses ++ [(id, entry.keyframe)]⟩ := by
  have hstale : stale now entry = true := by
    simp [stale, hopen, hlate]
  have hentries : (JsMap.empty.set id entry).entries = [(id, entry)] := rfl
  have hdelete : (JsMap.empty.set id entry).delete id = JsMap.empty := by
    simp [JsMap.delete, JsMap.empty, JsMap.set, JsMap.setEntries]
  rw [cleanupStaleFrames, hentries]
  simp only [filter_cons, filter_nil, hstale, Bool.or_true, if_true, map_cons,
    map_nil, deleteAll, foldl_cons, foldl_nil, hdelete]

theorem twoChunks_lostTwice {bytes₀ bytes₁ payload₀ payload₁ : List UInt8}
    (h₀ : parseChunk bytes₀ = some ⟨0, 0, 2, false, 0, payload₀⟩)
    (h₁ : parseChunk bytes₁ = some ⟨0, 1, 2, false, 0, payload₁⟩) :
    ∃ t, runMoves move ⟨0, [⟨0, 0, bytes₀⟩, ⟨0, 1, bytes₁⟩], ⟨empty, [], []⟩, []⟩ lateChunk =
        some t ∧ lostIds t = [0, 0] := by
  have hms : (0 : ℚ) ≤ 501 := by norm_num
  simp only [lateChunk, runMoves, move, onVideoChunk, h₀, h₁, if_pos hms]
  refine ⟨_, rfl, ?_⟩
  have hfirst : onChunk 0 ⟨empty, [], []⟩ ⟨0, 0, 2, false, 0, payload₀⟩ =
      ⟨empty.set 0 (storeChunk (newEntry 0 ⟨0, 0, 2, false, 0, payload₀⟩)
        ⟨0, 0, 2, false, 0, payload₀⟩), [], []⟩ := rfl
  have hsecond : onChunk (0 + 501) ⟨empty, [], [(0, false)]⟩ ⟨0, 1, 2, false, 0, payload₁⟩ =
      ⟨empty.set 0 (storeChunk (newEntry (0 + 501) ⟨0, 1, 2, false, 0, payload₁⟩)
        ⟨0, 1, 2, false, 0, payload₁⟩), [], [(0, false)]⟩ := rfl
  rw [hfirst, cleanup_single rfl (by show (500 : ℚ) < 0 + 501 - 0; norm_num)]
  show lostIds ⟨_, _, cleanupStaleFrames _ (onChunk _ ⟨empty, [], [(0, false)]⟩ _), _⟩ = _
  rw [hsecond, cleanup_single rfl (by show (500 : ℚ) < 0 + 501 + 501 - (0 + 501); norm_num)]
  rfl

theorem lateChunk_lostTwice : longFrame.Fits ∧
    ¬ AllAlong (moves move) (fun t => Transported 0 [longFrame] t ∧ LostOnce t)
      (start 0 [longFrame]) lateChunk := by
  refine ⟨longFrame_fits, fun h => ?_⟩
  have hstream : stream 0 [longFrame] =
      [⟨0, 0, FrameSender.fragment longFrame.data false 0 0 0⟩,
        ⟨0, 1, FrameSender.fragment longFrame.data false 0 0 1⟩] := by
    have hdata : longFrame.data.length ≠ 0 := longFrame_fits.nonempty.ne'
    have htotal : FrameSender.totalChunks longFrame.data.length = 2 := longFrame_total
    rw [stream, List.zipIdx_singleton, List.flatMap_singleton]
    show sentOf 0 longFrame 0 = _
    rw [sentOf, FrameSender.buildFragments, if_neg hdata, htotal]
    rfl
  have hfirst := parseChunk_fragment (i := 0) longFrame_fits (show 0 < 2 ^ 32 by decide)
    (by rw [longFrame_total]; decide)
  have hsecond := parseChunk_fragment (i := 1) longFrame_fits (show 0 < 2 ^ 32 by decide)
    (by rw [longFrame_total]; decide)
  have hrun : ∃ t, runMoves move (start 0 [longFrame]) lateChunk = some t ∧
      lostIds t = [0, 0] := by
    rw [longFrame_total] at hfirst hsecond
    rw [start, hstream]
    exact twoChunks_lostTwice hfirst hsecond
  obtain ⟨t, ht, hids⟩ := hrun
  have hlost := (h.last (run_of_runMoves move ht)).2
  rw [LostOnce, hids] at hlost
  exact absurd hlost (by decide)

end Stream

end MoonlightWeb.Frontend.VideoTransport
