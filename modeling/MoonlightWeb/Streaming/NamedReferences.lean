import MoonlightWeb.Streaming.RecoveryGate

/-! # Lost frames named by their wire ids

The browser names a frame it never got by its wire id. The ring of the relay knows
the engine's number of each of the last 512 frames, so an invalidation names the
frame that went out under the id, and an id the ring cannot answer is answered by
asking for a keyframe.
-/

namespace MoonlightWeb.Streaming.DataChannelRelay

open Lib Qt FrameSender List

def Relay.wire (r : Relay) : UInt32 × (Nat → Int) := (r.frameId, r.frameNumberById)

/-- The frame `j` of those sent is the one a wire id names: one of the last 512, whose
id is `j` in 32 bits. -/
structure Names (sent : List Int) (id : Int) (j : Nat) : Prop where
  was : j < sent.length
  recent : sent.length ≤ j + frameNumberRing
  id : ((j % 2 ^ 32 : Nat) : Int) = id

/-- The engine's number of the frame a wire id names. Ids from 2³¹ on do not fit the
ring's entries. -/
def Mapped (sent : List Int) (id : Int) (number : UInt32) : Prop :=
  ∃ j n, Names sent id j ∧ sent[j]? = some n ∧ 0 ≤ n ∧ id < 2 ^ 31 ∧
    number = UInt32.ofNat n.toNat

/-- The ring holds the last 512 frames, and nothing where none went yet. -/
structure Rings (r : Relay) (sent : List Int) : Prop where
  next : r.frameId = UInt32.ofNat sent.length
  held : ∀ j n, sent[j]? = some n → sent.length ≤ j + frameNumberRing →
    r.frameNumberById (j % frameNumberRing) = packed (UInt32.ofNat j) n
  unused : ∀ slot, slot < frameNumberRing → sent.length ≤ slot → r.frameNumberById slot = -1

section

variable {r : Relay} {sent : List Int}

theorem toNat_ofNat (j : Nat) : (UInt32.ofNat j).toNat = j % 2 ^ 32 := by
  simp

theorem packed_eq {frameId : UInt32} {n : Int} (hn : 0 ≤ n) (hid : frameId.toNat < 2 ^ 31) :
    packed frameId n = (frameId.toNat : Int) * 2 ^ 32 + n % 2 ^ 32 := by
  unfold packed
  rw [if_pos hn, BitVec.toInt_eq_toNat_bmod, BitVec.toNat_ofNat]
  push_cast
  rw [Int.bmod_def]
  omega

theorem packed_neg {frameId : UInt32} {n : Int} (h : n < 0 ∨ 2 ^ 31 ≤ frameId.toNat) :
    packed frameId n < 0 := by
  have hbound : frameId.toNat < 2 ^ 32 := frameId.toNat_lt
  unfold packed
  by_cases hn : 0 ≤ n
  · have hid : 2 ^ 31 ≤ frameId.toNat := h.resolve_left (not_lt.mpr hn)
    rw [if_pos hn, BitVec.toInt_eq_toNat_bmod, BitVec.toNat_ofNat]
    push_cast
    rw [Int.bmod_def]
    omega
  · rw [if_neg hn]
    omega

theorem held_at {slot length : Nat} (hslot : slot < frameNumberRing) (hused : slot < length) :
    ∃ j, j < length ∧ length ≤ j + frameNumberRing ∧ j % frameNumberRing = slot := by
  unfold frameNumberRing at hslot ⊢
  exact ⟨length - 1 - (length - 1 - slot) % 512, by omega, by omega, by omega⟩

theorem Rings.lookup_iff (h : Rings r sent) (id : Int) (number : UInt32) :
    ringLookup r id = some number ↔ Mapped sent id number := by
  have hslot : (id % 2 ^ 32).toNat % frameNumberRing < frameNumberRing :=
    Nat.mod_lt _ (by decide)
  unfold ringLookup
  simp only
  constructor
  · intro hlookup
    by_cases hempty : r.frameNumberById ((id % 2 ^ 32).toNat % frameNumberRing) < 0 ∨
        r.frameNumberById ((id % 2 ^ 32).toNat % frameNumberRing) / 2 ^ 32 ≠ id
    · rw [if_pos hempty] at hlookup
      cases hlookup
    · rw [if_neg hempty] at hlookup
      rw [not_or, not_lt, not_not] at hempty
      obtain ⟨hpos, hid⟩ := hempty
      by_cases hused : (id % 2 ^ 32).toNat % frameNumberRing < sent.length
      · obtain ⟨j, hj, hrecent, hjslot⟩ := held_at hslot hused
        have hn : sent[j]? = some sent[j] := List.getElem?_eq_getElem hj
        have hheld := h.held j sent[j] hn hrecent
        rw [hjslot] at hheld
        rw [hheld] at hpos hid hlookup
        have hsmall : 0 ≤ sent[j] ∧ (UInt32.ofNat j).toNat < 2 ^ 31 := by
          by_contra hbad
          rw [not_and_or, not_le, not_lt] at hbad
          exact absurd hpos (not_le.mpr (packed_neg hbad))
        rw [packed_eq hsmall.1 hsmall.2, toNat_ofNat] at hid hlookup
        have hnumber : (((j % 2 ^ 32 : Nat) : Int) * 2 ^ 32 + sent[j] % 2 ^ 32) % 2 ^ 32 =
            sent[j] % 2 ^ 32 := by omega
        have hsplit : (((j % 2 ^ 32 : Nat) : Int) * 2 ^ 32 + sent[j] % 2 ^ 32) / 2 ^ 32 =
            ((j % 2 ^ 32 : Nat) : Int) := by omega
        rw [hsplit] at hid
        have hlow := hsmall.2
        rw [toNat_ofNat] at hlow
        refine ⟨j, sent[j], ⟨hj, hrecent, hid⟩, hn, hsmall.1, by omega, ?_⟩
        rw [← Option.some.inj hlookup, hnumber]
        apply UInt32.toNat.inj
        rw [toNat_ofNat, toNat_ofNat]
        omega
      · rw [h.unused _ hslot (not_lt.mp hused)] at hpos
        omega
  · rintro ⟨j, n, hnames, hn, hpos, hlow, rfl⟩
    have hid := hnames.id
    have hjslot : (id % 2 ^ 32).toNat % frameNumberRing = j % frameNumberRing := by
      unfold frameNumberRing
      omega
    have hsmall : (UInt32.ofNat j).toNat < 2 ^ 31 := by
      rw [toNat_ofNat]
      omega
    rw [hjslot, h.held j n hn hnames.recent, packed_eq hpos hsmall, toNat_ofNat]
    have hfull : ¬ (((j % 2 ^ 32 : Nat) : Int) * 2 ^ 32 + n % 2 ^ 32 < 0 ∨
        (((j % 2 ^ 32 : Nat) : Int) * 2 ^ 32 + n % 2 ^ 32) / 2 ^ 32 ≠ id) := by omega
    rw [if_neg hfull]
    congr 1
    apply UInt32.toNat.inj
    rw [toNat_ofNat, toNat_ofNat]
    omega

theorem Rings.prepared (streamBitrateKbps : Int) : Rings (Relay.prepared streamBitrateKbps) [] where
  next := rfl
  held _ _ h := by cases h
  unused _ _ _ := rfl

theorem Rings.congr {r' : Relay} (h : Rings r sent) (hwire : r'.wire = r.wire) :
    Rings r' sent := by
  obtain ⟨hid, hring⟩ := Prod.mk.inj hwire
  exact ⟨hid.trans h.next, fun j n => hring ▸ h.held j n, fun slot => hring ▸ h.unused slot⟩

/-- The next frame takes its place in the ring. -/
theorem Rings.enqueue (h : Rings r sent) (cfg : Config) (rd : Reading) (data : QByteArray)
    (isKeyframe : Bool) (presentationTimeUs frameNumber : Int) :
    Rings (enqueue cfg rd r data isKeyframe presentationTimeUs frameNumber).1
      (sent ++ [frameNumber]) := by
  have hplace : r.frameId.toNat % frameNumberRing = sent.length % frameNumberRing := by
    rw [h.next, toNat_ofNat]
    unfold frameNumberRing
    omega
  constructor
  · change r.frameId + 1 = _
    rw [h.next, length_append]
    apply UInt32.toNat.inj
    simp
  · intro j n hj hrecent
    rw [length_append, length_singleton] at hrecent
    change Function.update r.frameNumberById (r.frameId.toNat % frameNumberRing)
      (packed r.frameId frameNumber) (j % frameNumberRing) = _
    rw [hplace]
    by_cases hlast : j = sent.length
    · rw [hlast, Function.update_self, h.next]
      rw [hlast, List.getElem?_concat_length] at hj
      rw [Option.some.inj hj]
    · have hlt : j < sent.length := by
        have hbound := (List.getElem?_eq_some_iff.mp hj).1
        rw [length_append, length_singleton] at hbound
        omega
      have hother : j % frameNumberRing ≠ sent.length % frameNumberRing := by
        unfold frameNumberRing at hrecent ⊢
        omega
      rw [Function.update_of_ne hother]
      rw [List.getElem?_append_left hlt] at hj
      exact h.held j n hj (by omega)
  · intro slot hslot hunused
    rw [length_append, length_singleton] at hunused
    change Function.update r.frameNumberById (r.frameId.toNat % frameNumberRing)
      (packed r.frameId frameNumber) slot = _
    have hother : slot ≠ r.frameId.toNat % frameNumberRing := by
      rw [hplace]
      unfold frameNumberRing at hslot ⊢
      omega
    rw [Function.update_of_ne hother]
    exact h.unused slot hslot (by omega)

variable {cfg : Config} {rd : Reading} {steadyMs nowMs : Int}

theorem throttled_wire (r : Relay) (steadyMs : Int) :
    (sendIdrRequestThrottled r steadyMs).wire = r.wire := by
  rcases throttled_cases r steadyMs with ⟨heq, _⟩ | ⟨_, heq⟩
  · rw [heq]
  · rw [heq]
    rfl

theorem requestIdrFrame_wire (r : Relay) (steadyMs : Int) :
    (requestIdrFrame r steadyMs).wire = r.wire :=
  throttled_wire { r with awaitingIdr := true } steadyMs

theorem waitForDrain_wire (r : Relay) (nowMs : Int) : (waitForDrain r nowMs).wire = r.wire := by
  unfold waitForDrain
  split <;> rfl

theorem workerHole_wire (cfg : Config) (rd : Reading) (r : Relay) :
    (workerHole cfg rd r).wire = r.wire := by
  unfold workerHole
  split
  · exact requestIdrFrame_wire r rd.steadyMs
  · rfl

theorem gateDelta_wire (rd : Reading) (r : Relay) : (gateDelta rd r).wire = r.wire := by
  unfold gateDelta requestIdrOnDrain
  simp only
  split
  · split
    · rw [throttled_wire]
      rfl
    · rfl
  · split
    · rfl
    · rw [throttled_wire]
      rfl

theorem answerEvictions_wire (cfg : Config) (rd : Reading) (r : Relay) (frameNumber : Int)
    (evicted : List UInt32) :
    (answerEvictions cfg rd r frameNumber evicted).wire = r.wire := by
  have hcalls : ∀ (r' : Relay) (calls : List EngineCall),
      Relay.wire { r' with calls := calls } = r'.wire := fun _ _ => rfl
  unfold answerEvictions
  simp only
  split
  · rw [hcalls]
    split
    · rw [hcalls]
    · split
      · exact requestIdrFrame_wire r rd.steadyMs
      · rfl
  · split
    · rw [hcalls]
    · split
      · exact requestIdrFrame_wire r rd.steadyMs
      · rfl

def handedOver (frameNumber : Int) : Verdict → List Int
  | .sent _ => [frameNumber]
  | _ => []

/-- A send that goes out takes the next id, any other none. -/
theorem Rings.sendFragmented (h : Rings r sent) (data : QByteArray) (isKeyframe : Bool)
    (presentationTimeUs frameNumber : Int) :
    Rings (sendFragmented cfg rd r data isKeyframe presentationTimeUs frameNumber).1
      (sent ++ handedOver frameNumber
        (sendFragmented cfg rd r data isKeyframe presentationTimeUs frameNumber).2) := by
  have hkept : ∀ r' : Relay, r'.wire = r.wire → Rings r' (sent ++ []) := fun r' hwire => by
    rw [append_nil]
    exact h.congr hwire
  have hout : ∀ r' : Relay, r'.wire = r.wire →
      Rings (handOver cfg rd r' data isKeyframe presentationTimeUs frameNumber).1
        (sent ++ [frameNumber]) := fun r' hwire =>
    ((h.congr hwire).enqueue cfg rd data isKeyframe presentationTimeUs frameNumber).congr
      (answerEvictions_wire cfg rd _ frameNumber _)
  unfold DataChannelRelay.sendFragmented
  simp only
  split
  · exact hkept r rfl
  · split
    · exact hkept r rfl
    · split
      · split
        · split
          · exact hkept _ rfl
          · exact hkept _ (waitForDrain_wire _ rd.nowMs)
        · exact hout _ rfl
      · split
        · exact hkept _ (waitForDrain_wire _ rd.nowMs)
        · exact hout _ rfl

def Event.frameNumber : Event → Int
  | .frame _ _ _ frameNumber _ => frameNumber
  | _ => -1

def Event.handed (e : Event) (verdict : Option Verdict) : List Int :=
  (verdict.map (handedOver e.frameNumber)).getD []

theorem wire_of_stream {r' : Relay} (h : r'.stream = r.stream) : r'.wire = r.wire := by
  change r'.stream.wire = r.stream.wire
  rw [h]

theorem Rings.handle {e : Event} {r' : Relay} {verdict : Option Verdict} (h : Rings r sent)
    (hhandle : handle cfg r e = some (r', verdict)) : Rings r' (sent ++ e.handed verdict) := by
  have hkept : ∀ r' : Relay, r'.wire = r.wire → Rings r' (sent ++ []) := fun r' hwire => by
    rw [append_nil]
    exact h.congr hwire
  cases e with
  | frame rd data isKeyframe frameNumber presentationTimeUs =>
    obtain rfl : (handleVideoFrame cfg rd r data isKeyframe frameNumber
        presentationTimeUs).1 = r' := congrArg Prod.fst (Option.some.inj hhandle)
    obtain rfl : some (handleVideoFrame cfg rd r data isKeyframe frameNumber
        presentationTimeUs).2 = verdict := congrArg Prod.snd (Option.some.inj hhandle)
    obtain ⟨r₁, frameData, hstream, _, hcases⟩ :=
      handleVideoFrame_cases cfg rd r data isKeyframe frameNumber presentationTimeUs
    have hwire : r₁.wire = r.wire := (wire_of_stream hstream).trans (workerHole_wire cfg rd r)
    rcases hcases with ⟨_, heq⟩ | ⟨_, _, heq⟩ | ⟨_, _, heq⟩ | ⟨_, heq⟩
    · rw [heq]
      exact hkept r₁ hwire
    · rw [heq]
      exact hkept _ ((requestIdrFrame_wire r₁ rd.steadyMs).trans hwire)
    · rw [heq]
      exact hkept _ ((gateDelta_wire rd r₁).trans hwire)
    · rw [heq]
      exact (h.congr hwire).sendFragmented frameData isKeyframe presentationTimeUs frameNumber
  | sendBufferedKeyframe rd =>
    obtain rfl : (DataChannelRelay.sendBufferedKeyframe cfg rd r).1 = r' :=
      congrArg Prod.fst (Option.some.inj hhandle)
    obtain rfl : (DataChannelRelay.sendBufferedKeyframe cfg rd r).2 = verdict :=
      congrArg Prod.snd (Option.some.inj hhandle)
    rcases sendBufferedKeyframe_cases cfg rd r with
      ⟨hstream, hnone⟩ | ⟨after, sentVerdict, hsend, hstream, hsome⟩
    · rw [hnone]
      exact hkept _ (wire_of_stream hstream)
    · rw [hsome]
      have hrings := @Rings.sendFragmented r sent cfg rd h r.bufferedKeyframe true
        r.bufferedKeyframePresUs (-1)
      rw [hsend] at hrings
      refine hrings.congr ((wire_of_stream hstream).trans ?_)
      split
      · exact requestIdrFrame_wire after rd.steadyMs
      · rfl
  | requestIdr steadyMs =>
    obtain ⟨rfl, rfl⟩ := Prod.mk.inj (Option.some.inj hhandle)
    exact hkept _ (requestIdrFrame_wire r steadyMs)
  | invalidateRef steadyMs msg =>
    obtain ⟨rfl, rfl⟩ := Prod.mk.inj (Option.some.inj hhandle)
    refine hkept _ ?_
    unfold invalidateRef
    simp only
    split
    · rfl
    · exact requestIdrFrame_wire _ steadyMs
  | senderTurn =>
    simp only [DataChannelRelay.handle, Option.map_eq_some_iff, Prod.mk.injEq] at hhandle
    obtain ⟨_, _, rfl, rfl⟩ := hhandle
    exact hkept _ rfl

/-- The loop stops at the first id the ring cannot answer. -/
theorem Rings.nameReferences (h : Rings r sent) (id : Int) (left : Nat) :
    (∀ number ∈ (nameReferences r id left).1,
        ∃ named, id ≤ named ∧ named < id + left ∧ Mapped sent named number) ∧
      ((nameReferences r id left).2 = true →
        ∀ named, id ≤ named → named < id + left → ∃ number, Mapped sent named number) := by
  induction left generalizing id with
  | zero =>
    constructor
    · exact forall_mem_nil _
    · intro _ named _ _
      omega
  | succ left ih =>
    unfold DataChannelRelay.nameReferences
    cases hlookup : ringLookup r id with
    | none =>
      constructor
      · exact forall_mem_nil _
      · intro hhealed
        cases hhealed
    | some number =>
      obtain ⟨hnumbers, hall⟩ := ih (id + 1)
      have hhere : Mapped sent id number := (h.lookup_iff id number).mp hlookup
      constructor
      · intro other hother
        rcases mem_cons.mp hother with rfl | hrest
        · exact ⟨id, le_refl _, by omega, hhere⟩
        · obtain ⟨named, hfrom, hto, hmapped⟩ := hnumbers other hrest
          exact ⟨named, by omega, by omega, hmapped⟩
      · intro hhealed named hfrom hto
        by_cases hfirst : named = id
        · exact ⟨number, hfirst ▸ hhere⟩
        · exact hall hhealed named (by omega) (by omega)

/-- The ids a message names, when it names a range the relay looks at. -/
structure InRange (msg : QJsonObject) (id : Int) : Prop where
  first : (msg.value "from").toInt64 (-1) ≤ id
  last : id ≤ (msg.value "to").toInt64 (-1)

/-- A range the relay looks at: from an id on, in order, and below 16 wide. -/
structure Fits (msg : QJsonObject) : Prop where
  start : 0 ≤ (msg.value "from").toInt64 (-1)
  order : (msg.value "from").toInt64 (-1) ≤ (msg.value "to").toInt64 (-1)
  width : (msg.value "to").toInt64 (-1) - (msg.value "from").toInt64 (-1) < 16

theorem Rings.mapReferences (h : Rings r sent) (msg : QJsonObject) :
    (∀ number ∈ (mapReferences cfg r msg).1,
        ∃ named, InRange msg named ∧ Mapped sent named number) ∧
      ((mapReferences cfg r msg).2 = true → cfg.native = true ∧ Fits msg ∧
        ∀ named, InRange msg named → ∃ number, Mapped sent named number) := by
  unfold DataChannelRelay.mapReferences
  simp only
  split
  · rename_i hfits
    simp only [Bool.and_eq_true, decide_eq_true_eq] at hfits
    obtain ⟨⟨⟨hnative, hstart⟩, horder⟩, hwidth⟩ := hfits
    obtain ⟨hnumbers, hall⟩ := h.nameReferences ((msg.value "from").toInt64 (-1))
      ((msg.value "to").toInt64 (-1) - (msg.value "from").toInt64 (-1) + 1).toNat
    constructor
    · intro number hnumber
      obtain ⟨named, hfrom, hto, hmapped⟩ := hnumbers number hnumber
      exact ⟨named, ⟨hfrom, by omega⟩, hmapped⟩
    · intro hhealed
      refine ⟨hnative, ⟨hstart, horder, hwidth⟩, fun named hin => ?_⟩
      have hlast := hin.last
      exact hall hhealed named hin.first (by omega)
  · constructor
    · exact forall_mem_nil _
    · intro hhealed
      cases hhealed

end

structure Wires where
  relay : Relay
  clockMs : Int
  sent : List Int

namespace Wires

def start (streamBitrateKbps clockMs : Int) : Wires := ⟨Relay.prepared streamBitrateKbps, clockMs, []⟩

/-- The clock does not go back. -/
def next (cfg : Config) (w : Wires) (e : Event) : Option Wires :=
  let clockMs := e.steadyMs.getD w.clockMs
  if clockMs < w.clockMs then none
  else
    (handle cfg w.relay e).map fun (relay, verdict) =>
      { relay, clockMs, sent := w.sent ++ e.handed verdict }

def Invalidates (w w' : Wires) (number : UInt32) : Prop :=
  .invalidateReference number ∈ w'.relay.calls.drop w.relay.calls.length

/-- A keyframe is on its way to be asked for: the gate is closed, and the drain asks or
the engine was asked within the cooldown. -/
def Asking (w : Wires) : Prop :=
  w.relay.awaitingIdr = true ∧
    (w.relay.idrWaitsForDrain = true ∨ Asked w.relay w.clockMs)

/-- A message names the frames that went out under its ids, or a keyframe is asked for. -/
def Names (cfg : Config) (w : Wires) (e : Event) (w' : Wires) : Prop :=
  match e with
  | .invalidateRef _ msg =>
      (∀ number, Invalidates w w' number → ∃ id, InRange msg id ∧ Mapped w.sent id number) ∧
        (cfg.native = false ∨ ¬ Fits msg ∨
            (∃ id, InRange msg id ∧ ∀ number, ¬ Mapped w.sent id number) →
          Asking w')
  | _ => True

structure Kept (w : Wires) : Prop where
  rings : Rings w.relay w.sent
  throttled : Throttled w.relay w.clockMs

variable {cfg : Config} {w w' : Wires} {e : Event}

theorem next_cases (hnext : w.next cfg e = some w') :
    ∃ relay verdict, handle cfg w.relay e = some (relay, verdict) ∧
      w.clockMs ≤ e.steadyMs.getD w.clockMs ∧
      w' = ⟨relay, e.steadyMs.getD w.clockMs, w.sent ++ e.handed verdict⟩ := by
  unfold next at hnext
  simp only at hnext
  by_cases hback : e.steadyMs.getD w.clockMs < w.clockMs
  · rw [if_pos hback] at hnext
    cases hnext
  · rw [if_neg hback, Option.map_eq_some_iff] at hnext
    obtain ⟨⟨relay, verdict⟩, hhandle, rfl⟩ := hnext
    exact ⟨relay, verdict, hhandle, not_lt.mp hback, rfl⟩

theorem Kept.step (h : w.Kept) (hnext : w.next cfg e = some w') : w'.Kept := by
  obtain ⟨relay, verdict, hhandle, hclock, rfl⟩ := next_cases hnext
  exact ⟨h.rings.handle hhandle, h.throttled.handle hclock hhandle⟩

/-- An `invalidateref` adds the invalidations it could map, and at most a request. -/
theorem calls_invalidateRef (cfg : Config) (r : Relay) (steadyMs : Int) (msg : QJsonObject) :
    ∃ requests : List EngineCall, (∀ call ∈ requests, call = .requestIdrFrame steadyMs) ∧
      (invalidateRef cfg r steadyMs msg).calls =
        r.calls ++ ((mapReferences cfg r msg).1.map .invalidateReference ++ requests) := by
  unfold invalidateRef
  simp only
  split
  · exact ⟨[], forall_mem_nil _, by rw [append_nil]⟩
  · unfold requestIdrFrame
    rcases throttled_cases
      { r with
        calls := r.calls ++ (mapReferences cfg r msg).1.map .invalidateReference
        awaitingIdr := true } steadyMs with ⟨heq, _⟩ | ⟨_, heq⟩
    · rw [heq]
      exact ⟨[], forall_mem_nil _, by rw [append_nil]⟩
    · rw [heq]
      refine ⟨[.requestIdrFrame steadyMs], ?_, by rw [← append_assoc]⟩
      intro call hcall
      exact mem_singleton.mp hcall

theorem asking_requestIdrFrame {r : Relay} {steadyMs : Int} (h : Throttled r steadyMs) :
    (requestIdrFrame r steadyMs).awaitingIdr = true ∧
      ((requestIdrFrame r steadyMs).idrWaitsForDrain = true ∨
        Asked (requestIdrFrame r steadyMs) steadyMs) := by
  refine ⟨requestIdrFrame_awaiting r steadyMs, ?_⟩
  have hclosed : Throttled { r with awaitingIdr := true } steadyMs :=
    ⟨fun _ => rfl, h.base, h.max, h.timer⟩
  by_cases hwaits : r.idrWaitsForDrain = true
  · left
    unfold requestIdrFrame sendIdrRequestThrottled
    rw [if_pos hwaits]
    exact hwaits
  · exact Or.inr (hclosed.asked (by simpa using hwaits))

theorem Kept.names (h : w.Kept) (hnext : w.next cfg e = some w') : Names cfg w e w' := by
  obtain ⟨relay, verdict, hhandle, hclock, rfl⟩ := next_cases hnext
  cases e with
  | invalidateRef steadyMs msg =>
    obtain ⟨rfl, rfl⟩ := Prod.mk.inj (Option.some.inj hhandle)
    obtain ⟨hnumbers, hhealed⟩ := @Rings.mapReferences _ _ cfg h.rings msg
    obtain ⟨requests, hrequests, hcalls⟩ := calls_invalidateRef cfg w.relay steadyMs msg
    constructor
    · intro number hcall
      unfold Invalidates at hcall
      simp only [hcalls, drop_left'] at hcall
      rcases mem_append.mp hcall with hnamed | hrequest
      · obtain ⟨mapped, hmapped, hsame⟩ := mem_map.mp hnamed
        obtain rfl := EngineCall.invalidateReference.inj hsame
        exact hnumbers mapped hmapped
      · cases hrequests _ hrequest
    · intro hunmapped
      have hfail : (mapReferences cfg w.relay msg).2 = false := by
        by_contra hhealed'
        rw [Bool.not_eq_false] at hhealed'
        obtain ⟨hnative, hfits, hall⟩ := hhealed hhealed'
        rcases hunmapped with hforeign | hwide | ⟨id, hin, hnone⟩
        · rw [hnative] at hforeign
          cases hforeign
        · exact hwide hfits
        · obtain ⟨number, hmapped⟩ := hall id hin
          exact hnone number hmapped
      have hnamed : Throttled
          { w.relay with
            calls := w.relay.calls ++
              (mapReferences cfg w.relay msg).1.map .invalidateReference } steadyMs :=
        (h.throttled.later hclock).congr rfl fun _ hcall => mem_append_left _ hcall
      have hasking := asking_requestIdrFrame hnamed
      change Asking ⟨invalidateRef cfg w.relay steadyMs msg, steadyMs, _⟩
      unfold Asking invalidateRef
      simp only [hfail, Bool.false_eq_true, if_false]
      exact hasking
  | frame rd data isKeyframe frameNumber presentationTimeUs => trivial
  | sendBufferedKeyframe rd => trivial
  | requestIdr steadyMs => trivial
  | senderTurn => trivial

end Wires

/-- Along every run, whatever a browser names, the engine is told of frames that went
out under the ids named, and an id that cannot be mapped has a keyframe asked for. -/
theorem references_named_along (cfg : Config) (streamBitrateKbps clockMs : Int)
    (labels : List Event) :
    EachStep (moves (Wires.next cfg)) (Wires.Names cfg) (Wires.start streamBitrateKbps clockMs)
      labels := by
  intro visited _ _ w _ _ hrun hnext
  have hkept : w.Kept := hrun.invariant (fun _ _ _ h hstep => h.step hstep)
    ⟨Rings.prepared streamBitrateKbps, Throttled.prepared streamBitrateKbps clockMs⟩
  exact hkept.names hnext

def namesFive : QJsonObject := [(qs "from", .number 5), (qs "to", .number 5)]

/-- Two ids that never went out: the second message asks the engine for nothing. -/
theorem second_message_absorbed :
    ¬ ∀ (cfg : Config) (streamBitrateKbps clockMs : Int) (labels : List Event),
      EachStep (moves (Wires.next cfg))
        (fun w e w' => ∀ steadyMs msg, e = .invalidateRef steadyMs msg →
          (∃ id, InRange msg id ∧ ∀ number, ¬ Mapped w.sent id number) →
            .requestIdrFrame steadyMs ∈ w'.relay.calls.drop w.relay.calls.length)
        (Wires.start streamBitrateKbps clockMs) labels := by
  intro hall
  have hrun : Run (moves (Wires.next ⟨true, false, id⟩)) (Wires.start 0 0)
      [.invalidateRef 0 namesFive] _ := run_of_runMoves _ rfl
  have hstep := hall ⟨true, false, id⟩ 0 0
    ([.invalidateRef 0 namesFive] ++ [.invalidateRef 100 namesFive])
    [.invalidateRef 0 namesFive] (.invalidateRef 100 namesFive) [] _ _ rfl hrun rfl
    100 namesFive rfl
  have hunmapped : ∃ id, InRange namesFive id ∧ ∀ number, ¬ Mapped [] id number := by
    refine ⟨5, ⟨by decide +kernel, by decide +kernel⟩, ?_⟩
    rintro number ⟨j, n, hnames, _⟩
    exact absurd hnames.was (Nat.not_lt_zero j)
  have hcall := hstep hunmapped
  change EngineCall.requestIdrFrame 100 ∈ ([] : List EngineCall) at hcall
  cases hcall

end MoonlightWeb.Streaming.DataChannelRelay
