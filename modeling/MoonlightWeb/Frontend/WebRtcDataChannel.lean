import MoonlightWeb.Js.Text
import MoonlightWeb.Js.Maps

/-! # Putting frames together again

`WebRtcDataChannel`: the chunks of the video channel, the frames they make, and
what is given up as lost.
-/

namespace MoonlightWeb.Frontend.WebRtcDataChannel

open Js

/-- `FRAG_HEADER_SIZE`. -/
def fragHeaderSize : Nat := 17

/-- `FRAME_TIMEOUT_MS`. -/
def frameTimeoutMs : ℚ := 500

structure Chunk where
  frameId : Nat
  chunkIndex : Nat
  totalChunks : Nat
  isKeyframe : Bool
  backendTs : Nat
  payload : List UInt8

/-- The bytes of a chunk as `_onVideoChunk` takes them apart; `none` when they
are too few or a read throws. -/
def parseChunk (data : List UInt8) : Option Chunk :=
  if data.length < fragHeaderSize then none
  else do
    let frameId ← getUint32 data 0
    let chunkIndex ← getUint16 data 4
    let totalChunks ← getUint16 data 6
    let isKeyframe ← getUint8 data 8
    let payloadSize ← getUint32 data 9
    let backendTs ← getUint32 data 13
    if fragHeaderSize + payloadSize ≤ data.length then
      some ⟨frameId, chunkIndex, totalChunks, isKeyframe ≠ 0, backendTs,
        (data.drop fragHeaderSize).take payloadSize⟩
    else none

/-- A frame of which some chunk came; a chunk that did not is `none`. -/
structure Entry where
  chunks : Nat → Option (List UInt8)
  total : Nat
  received : Nat
  keyframe : Bool
  firstChunkTime : ℚ
  completed : Bool
  backendTs : Nat

/-- What `onVideo` is called with. -/
structure Video where
  assembled : List UInt8
  keyframe : Bool
  backendTs : Nat
  frameId : Nat
  deriving DecidableEq

/-- The entries, and the calls of `onVideo` and `onFrameLoss` so far. -/
structure Receiver where
  reassembly : JsMap Nat Entry
  videos : List Video
  losses : List (Nat × Bool)

def deleteAll (reassembly : JsMap Nat Entry) (entries : List (Nat × Entry)) : JsMap Nat Entry :=
  entries.foldl (fun m entry => m.delete entry.1) reassembly

/-- `_assembleFrame`. -/
def assembleFrame (r : Receiver) (frameId : Nat) (entry : Entry) : Receiver :=
  if entry.received < entry.total then
    { r with losses := r.losses ++ [(frameId, entry.keyframe)] }
  else
    let assembled := (List.range entry.total).flatMap fun i => (entry.chunks i).getD []
    -- Frames this one overtook cannot complete any more on an ordered channel.
    let overtaken := r.reassembly.entries.filter fun older =>
      !(older.1 ≥ frameId || older.2.completed)
    { reassembly := deleteAll r.reassembly overtaken
      losses := r.losses ++ overtaken.map fun older => (older.1, older.2.keyframe)
      videos := r.videos ++ [⟨assembled, entry.keyframe, entry.backendTs, frameId⟩] }

variable (now : ℚ)

/-- The entry of a frame none of whose chunks came before. -/
def newEntry (chunk : Chunk) : Entry :=
  ⟨fun _ => none, chunk.totalChunks, 0, chunk.isKeyframe, now, false, chunk.backendTs⟩

/-- A chunk stored in its entry, unless it is there. -/
def storeChunk (entry : Entry) (chunk : Chunk) : Entry :=
  if chunk.chunkIndex < chunk.totalChunks ∧ entry.chunks chunk.chunkIndex = none then
    { entry with
      chunks := Function.update entry.chunks chunk.chunkIndex (some chunk.payload)
      received := entry.received + 1 }
  else entry

/-- `_onVideoChunk` once the bytes are taken apart. -/
def onChunk (r : Receiver) (chunk : Chunk) : Receiver :=
  let entry := storeChunk ((r.reassembly.get chunk.frameId).getD (newEntry now chunk)) chunk
  if entry.received ≥ chunk.totalChunks ∧ entry.completed = false then
    let entry := { entry with completed := true }
    let r := assembleFrame { r with reassembly := r.reassembly.set chunk.frameId entry }
      chunk.frameId entry
    { r with reassembly := r.reassembly.delete chunk.frameId }
  else { r with reassembly := r.reassembly.set chunk.frameId entry }

/-- `_onVideoChunk`. -/
def onVideoChunk (r : Receiver) (data : List UInt8) : Receiver :=
  match parseChunk data with
  | none => r
  | some chunk => onChunk now r chunk

def stale (entry : Entry) : Bool :=
  !entry.completed && decide (now - entry.firstChunkTime > frameTimeoutMs)

/-- `_cleanupStaleFrames`. -/
def cleanupStaleFrames (r : Receiver) : Receiver :=
  let staleFrames := r.reassembly.entries.filter fun entry => stale now entry.2
  let toDelete := r.reassembly.entries.filter fun entry => entry.2.completed || stale now entry.2
  { r with
    reassembly := deleteAll r.reassembly toDelete
    losses := r.losses ++ staleFrames.map fun entry => (entry.1, entry.2.keyframe) }

theorem get_deleteAll (reassembly : JsMap Nat Entry) (entries : List (Nat × Entry)) (id : Nat) :
    (deleteAll reassembly entries).get id =
      if id ∈ entries.map Prod.fst then none else reassembly.get id := by
  unfold deleteAll
  induction entries generalizing reassembly with
  | nil => simp
  | cons entry entries ih =>
    rw [List.foldl_cons, ih, List.map_cons]
    by_cases hrest : id ∈ entries.map Prod.fst
    · rw [if_pos hrest, if_pos (List.mem_cons_of_mem _ hrest)]
    · rw [if_neg hrest]
      by_cases hhead : id = entry.1
      · rw [hhead, JsMap.get_delete_self, if_pos (List.mem_cons_self)]
      · have hnot : id ∉ entry.1 :: entries.map Prod.fst := by
          rw [List.mem_cons, not_or]
          exact ⟨hhead, hrest⟩
        rw [JsMap.get_delete_of_ne _ hhead, if_neg hnot]

theorem mem_filter_keys (m : JsMap Nat Entry) (p : Nat × Entry → Bool) (id : Nat) :
    id ∈ (m.entries.filter p).map Prod.fst ↔ ∃ entry, m.get id = some entry ∧ p (id, entry) := by
  constructor
  · intro h
    obtain ⟨⟨id', entry⟩, hmem, rfl⟩ := List.mem_map.mp h
    rw [List.mem_filter, JsMap.mem_entries_iff] at hmem
    exact ⟨entry, hmem.1, hmem.2⟩
  · rintro ⟨entry, hget, hp⟩
    have hmem := (m.mem_entries_iff id entry).mpr hget
    exact List.mem_map.mpr ⟨(id, entry), List.mem_filter.mpr ⟨hmem, hp⟩, rfl⟩

structure Drops (r r' : Receiver) (dropped : List (Nat × Bool)) : Prop where
  losses_eq : r'.losses = r.losses ++ dropped
  nodup : (dropped.map Prod.fst).Nodup
  had : ∀ id ∈ dropped.map Prod.fst, ∃ entry, r.reassembly.get id = some entry
  gone : ∀ id ∈ dropped.map Prod.fst, r'.reassembly.get id = none

def entryAfter (r : Receiver) (chunk : Chunk) : Entry :=
  storeChunk ((r.reassembly.get chunk.frameId).getD (newEntry now chunk)) chunk

theorem onChunk_of_lt {now : ℚ} {r : Receiver} {chunk : Chunk}
    (h : (entryAfter now r chunk).received < chunk.totalChunks) :
    onChunk now r chunk =
      { r with reassembly := r.reassembly.set chunk.frameId (entryAfter now r chunk) } := by
  have hnot : ¬ ((entryAfter now r chunk).received ≥ chunk.totalChunks ∧
      (entryAfter now r chunk).completed = false) := by omega
  rw [onChunk]
  exact if_neg hnot

/-- A chunk that completes its frame. -/
structure Completes (r : Receiver) (id : Nat) (entry : Entry) (r' : Receiver)
    (overtaken : List (Nat × Bool)) : Prop where
  videos_eq : r'.videos = r.videos ++
    [⟨(List.range entry.total).flatMap fun i => (entry.chunks i).getD [], entry.keyframe,
      entry.backendTs, id⟩]
  drops : Drops r r' overtaken
  older : ∀ k ∈ overtaken.map Prod.fst, k < id
  kept : ∀ k entry, r'.reassembly.get k = some entry →
    r.reassembly.get k = some entry ∧ (id < k ∨ entry.completed = true)

theorem onChunk_of_complete {now : ℚ} {r : Receiver} {chunk : Chunk}
    (hall : chunk.totalChunks ≤ (entryAfter now r chunk).received)
    (htotal : (entryAfter now r chunk).total ≤ (entryAfter now r chunk).received)
    (hopen : (entryAfter now r chunk).completed = false) :
    ∃ overtaken, Completes r chunk.frameId (entryAfter now r chunk) (onChunk now r chunk)
      overtaken := by
  set entry := entryAfter now r chunk with hentry
  set id := chunk.frameId with hid
  set done : Entry := { entry with completed := true } with hdone
  set filled := r.reassembly.set id done with hfilled
  set late := filled.entries.filter fun older => !(older.1 ≥ id || older.2.completed) with hlate
  have hnot : ¬ done.received < done.total := by
    show ¬ entry.received < entry.total
    omega
  have heq : onChunk now r chunk =
      { reassembly := (deleteAll filled late).delete id
        losses := r.losses ++ late.map fun older => (older.1, older.2.keyframe)
        videos := r.videos ++ [⟨(List.range entry.total).flatMap fun i =>
          (entry.chunks i).getD [], entry.keyframe, entry.backendTs, id⟩] } := by
    have hfull : onChunk now r chunk =
        { assembleFrame { r with reassembly := filled } id done with
          reassembly := (assembleFrame { r with reassembly := filled } id done).reassembly.delete
            id } := by
      rw [onChunk]
      exact if_pos ⟨hall, hopen⟩
    rw [hfull, assembleFrame, if_neg hnot]
  have hids : (late.map fun older => (older.1, older.2.keyframe)).map Prod.fst =
      late.map Prod.fst := by
    rw [List.map_map]
    rfl
  -- What is overtaken is an older entry that was there before.
  have hlateIff : ∀ k, k ∈ late.map Prod.fst ↔
      ∃ older, r.reassembly.get k = some older ∧ k < id ∧ older.completed = false := by
    intro k
    rw [hlate, mem_filter_keys]
    by_cases hk : k = id
    · subst hk
      simp
    · rw [hfilled, JsMap.get_set_of_ne _ _ hk]
      simp
  refine ⟨late.map fun older => (older.1, older.2.keyframe), ?_⟩
  rw [heq]
  refine ⟨rfl, ⟨rfl, ?_, ?_, ?_⟩, ?_, ?_⟩
  · rw [hids]
    exact filled.nodup.sublist (List.filter_sublist.map Prod.fst)
  · intro k hk
    rw [hids, hlateIff] at hk
    obtain ⟨older, hget, -⟩ := hk
    exact ⟨older, hget⟩
  · intro k hk
    rw [hids] at hk
    have hne : k ≠ id := by
      obtain ⟨older, -, hlt, -⟩ := (hlateIff k).mp hk
      omega
    show ((deleteAll filled late).delete id).get k = none
    rw [JsMap.get_delete_of_ne _ hne, get_deleteAll, if_pos hk]
  · intro k hk
    rw [hids, hlateIff] at hk
    obtain ⟨older, -, hlt, -⟩ := hk
    exact hlt
  · intro k older hget
    change ((deleteAll filled late).delete id).get k = some older at hget
    by_cases hk : k = id
    · rw [hk, JsMap.get_delete_self] at hget
      exact absurd hget (by simp)
    · rw [JsMap.get_delete_of_ne _ hk, get_deleteAll] at hget
      by_cases hmem : k ∈ late.map Prod.fst
      · rw [if_pos hmem] at hget
        exact absurd hget (by simp)
      · rw [if_neg hmem, hfilled, JsMap.get_set_of_ne _ _ hk] at hget
        refine ⟨hget, ?_⟩
        by_contra hboth
        rw [not_or, Bool.not_eq_true] at hboth
        exact hmem ((hlateIff k).mpr ⟨older, hget, by omega, hboth.2⟩)

/-- What a cleanup leaves was there, and what it reports lost was there and is gone. -/
theorem cleanupStaleFrames_drops (r : Receiver) :
    (∃ dropped, Drops r (cleanupStaleFrames now r) dropped) ∧
      (cleanupStaleFrames now r).videos = r.videos ∧
      ∀ id entry, (cleanupStaleFrames now r).reassembly.get id = some entry →
        r.reassembly.get id = some entry := by
  set late := r.reassembly.entries.filter fun entry => stale now entry.2 with hlate
  have hids : (late.map fun older => (older.1, older.2.keyframe)).map Prod.fst =
      late.map Prod.fst := by
    rw [List.map_map]
    rfl
  refine ⟨⟨_, rfl, ?_, ?_, ?_⟩, rfl, ?_⟩
  · rw [hids]
    exact r.reassembly.nodup.sublist (List.filter_sublist.map Prod.fst)
  · intro id hid
    rw [hids, hlate, mem_filter_keys] at hid
    obtain ⟨entry, hget, -⟩ := hid
    exact ⟨entry, hget⟩
  · intro id hid
    rw [hids, hlate, mem_filter_keys] at hid
    obtain ⟨entry, hget, hstale⟩ := hid
    have hdelete : id ∈ (r.reassembly.entries.filter fun entry =>
        entry.2.completed || stale now entry.2).map Prod.fst := by
      rw [mem_filter_keys]
      exact ⟨entry, hget, by simp [hstale]⟩
    show (deleteAll r.reassembly _).get id = none
    rw [get_deleteAll, if_pos hdelete]
  · intro id entry hget
    change (deleteAll r.reassembly _).get id = some entry at hget
    rw [get_deleteAll] at hget
    split_ifs at hget with hmem
    exact hget

end MoonlightWeb.Frontend.WebRtcDataChannel
