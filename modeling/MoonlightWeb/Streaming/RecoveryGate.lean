import MoonlightWeb.Streaming.DataChannelRelay

/-! # The gate that waits for a keyframe

The relay waits for the buffer to drain only behind a closed gate, a keyframe that
gets through reopens it, and while it drops deltas in front of a drained buffer a
keyframe has been asked for within the cooldown.
-/

namespace MoonlightWeb.Streaming.DataChannelRelay

open Lib Qt FrameSender

structure Throttled (r : Relay) (clockMs : Int) : Prop where
  waits : r.idrWaitsForDrain = true → r.awaitingIdr = true
  base : idrCooldownBaseMs ≤ r.idrCooldownMs
  max : r.idrCooldownMs ≤ idrCooldownMaxMs
  timer : ∀ started, r.idrCooldownTimer = some started →
    .requestIdrFrame started ∈ r.calls ∧ started ≤ clockMs

/-- A keyframe has been asked of the engine within the cooldown. -/
def Asked (r : Relay) (clockMs : Int) : Prop :=
  ∃ started, .requestIdrFrame started ∈ r.calls ∧ started ≤ clockMs ∧
    clockMs - started < r.idrCooldownMs

section

variable {cfg : Config} {rd : Reading} {r : Relay} {clockMs steadyMs nowMs : Int}

theorem base_le_max : idrCooldownBaseMs ≤ idrCooldownMaxMs := by decide

theorem Throttled.prepared (streamBitrateKbps clockMs : Int) :
    Throttled (Relay.prepared streamBitrateKbps) clockMs where
  waits h := by cases h
  base := le_refl _
  max := base_le_max
  timer _ h := by cases h

theorem Throttled.later (h : Throttled r clockMs) (hle : clockMs ≤ steadyMs) :
    Throttled r steadyMs where
  waits := h.waits
  base := h.base
  max := h.max
  timer started hstarted := ⟨(h.timer started hstarted).1, (h.timer started hstarted).2.trans hle⟩

/-- What the throttle does: nothing while the drain is waited for or the cooldown
runs, and a request otherwise. -/
theorem throttled_cases (r : Relay) (steadyMs : Int) :
    (sendIdrRequestThrottled r steadyMs = r ∧
        (r.idrWaitsForDrain = true ∨ cooling r steadyMs = true)) ∨
      (r.idrWaitsForDrain = false ∧ sendIdrRequestThrottled r steadyMs = { r with
          idrCooldownMs :=
            if r.idrOutstanding then min (r.idrCooldownMs * 2) idrCooldownMaxMs
            else r.idrCooldownMs
          idrOutstanding := true
          idrCooldownTimer := some steadyMs
          calls := r.calls ++ [.requestIdrFrame steadyMs] }) := by
  unfold sendIdrRequestThrottled
  by_cases hwaits : r.idrWaitsForDrain = true
  · rw [if_pos hwaits]
    exact Or.inl ⟨rfl, Or.inl hwaits⟩
  · rw [if_neg hwaits]
    by_cases hcooling : cooling r steadyMs = true
    · rw [if_pos hcooling]
      exact Or.inl ⟨rfl, Or.inr hcooling⟩
    · rw [if_neg hcooling]
      exact Or.inr ⟨by simpa using hwaits, rfl⟩

theorem Throttled.request (h : Throttled r steadyMs) :
    Throttled (sendIdrRequestThrottled r steadyMs) steadyMs := by
  rcases throttled_cases r steadyMs with ⟨heq, _⟩ | ⟨_, heq⟩
  · rw [heq]
    exact h
  · rw [heq]
    have hbase := h.base
    have hmax := h.max
    unfold idrCooldownBaseMs at hbase
    unfold idrCooldownMaxMs at hmax
    constructor
    · exact h.waits
    · simp only [idrCooldownBaseMs, idrCooldownMaxMs]
      split <;> omega
    · simp only [idrCooldownMaxMs]
      split <;> omega
    · intro started hstarted
      obtain rfl := Option.some.inj hstarted
      exact ⟨List.mem_append_right _ (List.mem_singleton.mpr rfl), le_refl _⟩

theorem Throttled.asked (h : Throttled r steadyMs) (hwaits : r.idrWaitsForDrain = false) :
    Asked (sendIdrRequestThrottled r steadyMs) steadyMs := by
  have hkept : Throttled (sendIdrRequestThrottled r steadyMs) steadyMs := h.request
  rcases throttled_cases r steadyMs with ⟨heq, hskip⟩ | ⟨_, heq⟩
  · rw [heq]
    rcases hskip with hyes | hcooling
    · rw [hwaits] at hyes
      cases hyes
    · obtain ⟨started, hstarted, hrecent⟩ := Option.any_eq_true _ _ |>.mp hcooling
      obtain ⟨hcall, hle⟩ := h.timer started hstarted
      exact ⟨started, hcall, hle, of_decide_eq_true hrecent⟩
  · have hbase := hkept.base
    rw [heq] at hbase ⊢
    refine ⟨steadyMs, List.mem_append_right _ (List.mem_singleton.mpr rfl), le_refl _, ?_⟩
    unfold idrCooldownBaseMs at hbase
    omega

theorem Throttled.requestIdrFrame (h : Throttled r steadyMs) :
    Throttled (requestIdrFrame r steadyMs) steadyMs :=
  Throttled.request ⟨fun _ => rfl, h.base, h.max, h.timer⟩

theorem requestIdrFrame_awaiting (r : Relay) (steadyMs : Int) :
    (requestIdrFrame r steadyMs).awaitingIdr = true := by
  unfold DataChannelRelay.requestIdrFrame
  rcases throttled_cases { r with awaitingIdr := true } steadyMs with ⟨heq, _⟩ | ⟨_, heq⟩ <;>
    rw [heq]

theorem requestIdrOnDrain_asked (r : Relay) (steadyMs : Int) :
    Throttled (requestIdrOnDrain r steadyMs) steadyMs ∧
      Asked (requestIdrOnDrain r steadyMs) steadyMs := by
  have hfresh : Throttled
      { r with idrWaitsForDrain := false, idrOutstanding := false,
               idrCooldownMs := idrCooldownBaseMs, idrCooldownTimer := none } steadyMs := by
    constructor
    · intro hwaits
      cases hwaits
    · exact le_refl _
    · exact base_le_max
    · intro _ hstarted
      cases hstarted
  exact ⟨hfresh.request, hfresh.asked rfl⟩

theorem Throttled.waitForDrain (h : Throttled r clockMs) (hawaiting : r.awaitingIdr = true) :
    Throttled (waitForDrain r nowMs) clockMs := by
  unfold DataChannelRelay.waitForDrain
  split
  · exact h
  · exact ⟨fun _ => hawaiting, h.base, h.max, h.timer⟩

/-- The state of the gate does not depend on the rest of the relay. -/
theorem Throttled.congr {r' : Relay} (h : Throttled r clockMs)
    (hgate : (r'.idrWaitsForDrain, r'.awaitingIdr, r'.idrCooldownMs, r'.idrCooldownTimer) =
      (r.idrWaitsForDrain, r.awaitingIdr, r.idrCooldownMs, r.idrCooldownTimer))
    (hcalls : ∀ call ∈ r.calls, call ∈ r'.calls) : Throttled r' clockMs := by
  simp only [Prod.mk.injEq] at hgate
  obtain ⟨hwaits, hawaiting, hcooldown, htimer⟩ := hgate
  constructor
  · rw [hwaits, hawaiting]
    exact h.waits
  · rw [hcooldown]
    exact h.base
  · rw [hcooldown]
    exact h.max
  · rw [htimer]
    intro started hstarted
    obtain ⟨hcall, hle⟩ := h.timer started hstarted
    exact ⟨hcalls _ hcall, hle⟩

variable (h : Throttled r rd.steadyMs)

include h

theorem Throttled.workerHole :
    Throttled (workerHole cfg rd r) rd.steadyMs := by
  unfold DataChannelRelay.workerHole
  split
  · exact h.requestIdrFrame
  · exact h

/-- The gate keeps the throttle, and in front of a drained buffer a keyframe has
been asked for. -/
theorem Throttled.gateDelta (hawaiting : r.awaitingIdr = true) :
    Throttled (gateDelta rd r) rd.steadyMs ∧
      (rd.bufferedAmount ≤ r.backlog.drainedBytes → Asked (gateDelta rd r) rd.steadyMs) := by
  have hsampled : Throttled { r with backlog := (r.backlog.note rd.bufferedAmount rd.nowMs).1 }
      rd.steadyMs := h.congr rfl fun _ hcall => hcall
  unfold DataChannelRelay.gateDelta
  simp only
  by_cases hwaits : r.idrWaitsForDrain = true
  · rw [if_pos hwaits]
    by_cases hbacked : (r.backlog.note rd.bufferedAmount rd.nowMs).1.backedUp = true
    · rw [hbacked]
      refine ⟨hsampled, fun hdrained => ?_⟩
      rw [(SendBacklog.note_drained _ rd.nowMs hdrained).1] at hbacked
      cases hbacked
    · rw [Bool.not_eq_true] at hbacked
      rw [hbacked]
      have hasked := requestIdrOnDrain_asked
        { r with backlog := (r.backlog.note rd.bufferedAmount rd.nowMs).1 } rd.steadyMs
      exact ⟨hasked.1, fun _ => hasked.2⟩
  · rw [if_neg hwaits]
    by_cases hshedding : (r.backlog.note rd.bufferedAmount rd.nowMs).2 = true
    · rw [if_pos hshedding]
      refine ⟨⟨fun _ => hawaiting, h.base, h.max, h.timer⟩, fun hdrained => ?_⟩
      rw [(SendBacklog.note_drained _ rd.nowMs hdrained).2] at hshedding
      cases hshedding
    · rw [if_neg hshedding]
      exact ⟨hsampled.request, fun _ => hsampled.asked (by simpa using hwaits)⟩

theorem Throttled.answerEvictions (frameNumber : Int)
    (evicted : List UInt32) :
    Throttled (answerEvictions cfg rd r frameNumber evicted) rd.steadyMs := by
  have hmore : ∀ {r' : Relay} (more : List EngineCall), Throttled r' rd.steadyMs →
      Throttled { r' with calls := r'.calls ++ more } rd.steadyMs := fun _ hr' =>
    hr'.congr rfl fun _ hcall => List.mem_append_left _ hcall
  unfold DataChannelRelay.answerEvictions
  simp only
  split
  · split
    · exact hmore _ (hmore _ h)
    · split
      · exact hmore _ h.requestIdrFrame
      · exact hmore _ h
  · split
    · exact hmore _ h
    · split
      · exact h.requestIdrFrame
      · exact h

theorem Throttled.handOver (data : QByteArray) (isKeyframe : Bool)
    (presentationTimeUs frameNumber : Int) :
    Throttled (handOver cfg rd r data isKeyframe presentationTimeUs frameNumber).1 rd.steadyMs := by
  have hqueued : Throttled
      (enqueue cfg rd r data isKeyframe presentationTimeUs frameNumber).1 rd.steadyMs :=
    h.congr rfl fun _ hcall => hcall
  exact hqueued.answerEvictions frameNumber _

omit h

theorem Throttled.keyframeThrough (h : Throttled r clockMs) :
    Throttled (keyframeThrough r) clockMs := by
  constructor
  · intro hwaits
    cases hwaits
  · exact le_refl _
  · exact base_le_max
  · exact h.timer

theorem Throttled.sendFragmented (h : Throttled r rd.steadyMs) (data : QByteArray)
    (isKeyframe : Bool) (presentationTimeUs frameNumber : Int) :
    Throttled (sendFragmented cfg rd r data isKeyframe presentationTimeUs frameNumber).1
      rd.steadyMs := by
  have hsampled : Throttled { r with backlog := (r.backlog.note rd.bufferedAmount rd.nowMs).1 }
      rd.steadyMs := h.congr rfl fun _ hcall => hcall
  unfold DataChannelRelay.sendFragmented
  simp only
  split
  · exact h
  · split
    · exact h
    · split
      · split
        · split
          · exact hsampled
          · exact Throttled.waitForDrain ⟨fun _ => rfl, h.base, h.max, h.timer⟩ rfl
        · exact hsampled.handOver data isKeyframe presentationTimeUs frameNumber
      · split
        · exact Throttled.waitForDrain ⟨fun _ => rfl, h.base, h.max, h.timer⟩ rfl
        · exact hsampled.keyframeThrough.handOver data isKeyframe presentationTimeUs frameNumber

def Relay.stream (r : Relay) : Relay :=
  { clearBuffer r with hevcPatched := false }

theorem Throttled.of_stream {r' : Relay} (h : Throttled r clockMs) (hr : r'.stream = r.stream) :
    Throttled r' clockMs := by
  have hgate := congrArg (fun x : Relay =>
    (x.idrWaitsForDrain, x.awaitingIdr, x.idrCooldownMs, x.idrCooldownTimer)) hr
  have hcalls : r'.stream.calls = r.stream.calls := congrArg Relay.calls hr
  refine h.congr hgate fun call hcall => ?_
  change call ∈ r'.stream.calls
  rw [hcalls]
  exact hcall

/-- A send returns at once, sheds, or hands the frame over. -/
theorem sendFragmented_cases (cfg : Config) (rd : Reading) (r : Relay) (data : QByteArray)
    (isKeyframe : Bool) (presentationTimeUs frameNumber : Int) :
    (rd.channel ≠ .opened ∧
        sendFragmented cfg rd r data isKeyframe presentationTimeUs frameNumber = (r, .notOpen)) ∨
      (data = [] ∧
        sendFragmented cfg rd r data isKeyframe presentationTimeUs frameNumber = (r, .empty)) ∨
      ((r.backlog.note rd.bufferedAmount rd.nowMs).2 = true ∧
        (sendFragmented cfg rd r data isKeyframe presentationTimeUs frameNumber).2 = .shed) ∨
      sendFragmented cfg rd r data isKeyframe presentationTimeUs frameNumber =
        handOver cfg rd (if isKeyframe then
            keyframeThrough { r with backlog := (r.backlog.note rd.bufferedAmount rd.nowMs).1 }
          else { r with backlog := (r.backlog.note rd.bufferedAmount rd.nowMs).1 })
          data isKeyframe presentationTimeUs frameNumber := by
  unfold sendFragmented
  by_cases hchannel : rd.channel = .opened
  · rw [if_neg (not_not.mpr hchannel)]
    by_cases hempty : data = []
    · rw [if_pos hempty]
      exact Or.inr (Or.inl ⟨hempty, rfl⟩)
    · rw [if_neg hempty]
      right
      right
      cases isKeyframe with
      | true =>
        by_cases hshedding : (r.backlog.note rd.bufferedAmount rd.nowMs).2 = true
        · left
          simp [hshedding]
        · right
          simp [hshedding]
      | false =>
        by_cases hshedding : (r.backlog.note rd.bufferedAmount rd.nowMs).2 = true
        · left
          simp only [hshedding, Bool.not_false, if_true, true_and]
          split <;> rfl
        · right
          simp [hshedding]
  · rw [if_pos hchannel]
    exact Or.inl ⟨hchannel, rfl⟩

/-- A frame is buffered, dropped in front of a closed channel or a closed gate, or
sent. -/
theorem handleVideoFrame_cases (cfg : Config) (rd : Reading) (r : Relay) (data : QByteArray)
    (isKeyframe : Bool) (frameNumber presentationTimeUs : Int) :
    ∃ r' frameData, r'.stream = (workerHole cfg rd r).stream ∧
      (isKeyframe = false → frameData = data) ∧
      ((isKeyframe = true ∧
          handleVideoFrame cfg rd r data isKeyframe frameNumber presentationTimeUs =
            (r', .buffered)) ∨
        (isKeyframe = false ∧ rd.channel ≠ .opened ∧
          handleVideoFrame cfg rd r data isKeyframe frameNumber presentationTimeUs =
            (requestIdrFrame r' rd.steadyMs, .notOpen)) ∨
        (isKeyframe = false ∧ r'.awaitingIdr = true ∧
          handleVideoFrame cfg rd r data isKeyframe frameNumber presentationTimeUs =
            (gateDelta rd r', .gated)) ∨
        (rd.channel = .opened ∧
          handleVideoFrame cfg rd r data isKeyframe frameNumber presentationTimeUs =
            sendFragmented cfg rd r' frameData isKeyframe presentationTimeUs frameNumber)) := by
  unfold handleVideoFrame
  generalize hhole : workerHole cfg rd r = hole
  cases isKeyframe with
  | true =>
    by_cases hchannel : rd.channel = .opened
    · simp only [Bool.true_and, hchannel, ne_eq, not_true_eq_false, decide_false,
        Bool.false_eq_true, if_false, Bool.not_true, Bool.and_false]
      refine ⟨_, _, ?_, ?_, Or.inr (Or.inr (Or.inr ⟨trivial, rfl⟩))⟩
      · split <;> rfl
      · intro hdelta
        cases hdelta
    · simp only [Bool.true_and, ne_eq, hchannel, not_false_eq_true, decide_true, if_true]
      refine ⟨_, [], ?_, ?_, Or.inl ⟨trivial, rfl⟩⟩
      · rfl
      · intro hdelta
        cases hdelta
  | false =>
    simp only [Bool.false_and, Bool.false_eq_true, if_false, Bool.or_false, Bool.not_false,
      Bool.and_true]
    by_cases hchannel : rd.channel = .opened
    · rw [if_neg (not_not.mpr hchannel)]
      by_cases hgate : hole.awaitingIdr = true
      · rw [if_pos hgate]
        exact ⟨hole, data, rfl, fun _ => rfl, Or.inr (Or.inr (Or.inl ⟨trivial, hgate, rfl⟩))⟩
      · rw [if_neg hgate]
        exact ⟨hole, data, rfl, fun _ => rfl, Or.inr (Or.inr (Or.inr ⟨hchannel, rfl⟩))⟩
    · rw [if_pos hchannel]
      exact ⟨hole, data, rfl, fun _ => rfl, Or.inr (Or.inl ⟨trivial, hchannel, rfl⟩)⟩

theorem sendBufferedKeyframe_cases (cfg : Config) (rd : Reading) (r : Relay) :
    ((sendBufferedKeyframe cfg rd r).1.stream = r.stream ∧
        (sendBufferedKeyframe cfg rd r).2 = none) ∨
      ∃ sent verdict,
        sendFragmented cfg rd r r.bufferedKeyframe true r.bufferedKeyframePresUs (-1) =
          (sent, verdict) ∧
        (sendBufferedKeyframe cfg rd r).1.stream =
          (if r.awaitingIdr then requestIdrFrame sent rd.steadyMs else sent).stream ∧
        (sendBufferedKeyframe cfg rd r).2 = some verdict := by
  unfold sendBufferedKeyframe
  split
  · exact Or.inl ⟨rfl, rfl⟩
  · split
    · exact Or.inl ⟨rfl, rfl⟩
    · split
      · exact Or.inl ⟨rfl, rfl⟩
      · exact Or.inr ⟨_, _, rfl, rfl, rfl⟩

theorem Throttled.handle {e : Event} {r' : Relay} {verdict : Option Verdict}
    (h : Throttled r clockMs) (hle : clockMs ≤ e.steadyMs.getD clockMs)
    (hhandle : handle cfg r e = some (r', verdict)) :
    Throttled r' (e.steadyMs.getD clockMs) := by
  cases e with
  | frame rd data isKeyframe frameNumber presentationTimeUs =>
    have hnow : Throttled r rd.steadyMs := h.later hle
    obtain rfl : (handleVideoFrame cfg rd r data isKeyframe frameNumber
        presentationTimeUs).1 = r' := congrArg Prod.fst (Option.some.inj hhandle)
    obtain ⟨r₁, frameData, hstream, _, hcases⟩ :=
      handleVideoFrame_cases cfg rd r data isKeyframe frameNumber presentationTimeUs
    have hr₁ : Throttled r₁ rd.steadyMs :=
      (Throttled.workerHole hnow).of_stream hstream
    change Throttled _ rd.steadyMs
    rcases hcases with ⟨_, heq⟩ | ⟨_, _, heq⟩ | ⟨_, hgate, heq⟩ | ⟨_, heq⟩
    · rw [heq]
      exact hr₁
    · rw [heq]
      exact hr₁.requestIdrFrame
    · rw [heq]
      exact (hr₁.gateDelta hgate).1
    · rw [heq]
      exact hr₁.sendFragmented frameData isKeyframe presentationTimeUs frameNumber
  | sendBufferedKeyframe rd =>
    have hnow : Throttled r rd.steadyMs := h.later hle
    obtain rfl : (DataChannelRelay.sendBufferedKeyframe cfg rd r).1 = r' :=
      congrArg Prod.fst (Option.some.inj hhandle)
    change Throttled _ rd.steadyMs
    rcases sendBufferedKeyframe_cases cfg rd r with ⟨hstream, _⟩ | ⟨sent, _, hsend, hstream, _⟩
    · exact hnow.of_stream hstream
    · have hsent : Throttled sent rd.steadyMs := by
        have hkept := @Throttled.sendFragmented cfg rd r hnow r.bufferedKeyframe true
          r.bufferedKeyframePresUs (-1)
        rw [hsend] at hkept
        exact hkept
      refine Throttled.of_stream ?_ hstream
      split
      · exact hsent.requestIdrFrame
      · exact hsent
  | requestIdr steadyMs =>
    obtain rfl : DataChannelRelay.requestIdrFrame r steadyMs = r' := congrArg Prod.fst (Option.some.inj hhandle)
    exact (h.later hle).requestIdrFrame
  | invalidateRef steadyMs msg =>
    obtain rfl : DataChannelRelay.invalidateRef cfg r steadyMs msg = r' :=
      congrArg Prod.fst (Option.some.inj hhandle)
    have hnamed : Throttled
        { r with calls := r.calls ++ (mapReferences cfg r msg).1.map .invalidateReference }
        steadyMs :=
      (h.later hle).congr rfl fun _ hcall => List.mem_append_left _ hcall
    change Throttled _ steadyMs
    unfold DataChannelRelay.invalidateRef
    simp only
    split
    · exact hnamed
    · exact hnamed.requestIdrFrame
  | senderTurn =>
    simp only [DataChannelRelay.handle, Option.map_eq_some_iff, Prod.mk.injEq] at hhandle
    obtain ⟨_, _, rfl, _⟩ := hhandle
    exact h.congr rfl fun _ hcall => hcall

end

/-- The relay with the clock. `intact`: a live keyframe was accepted and no delta
dropped or evicted since. `asked`: since that keyframe one was asked for, or dropped. -/
structure Watched where
  relay : Relay
  clockMs : Int
  intact : Bool
  asked : Bool

open Watched

namespace Verdict

def drops : Verdict → Bool
  | .buffered => false
  | .sent _ => false
  | _ => true

def evicts : Verdict → Bool
  | .sent evicted => evicted ≠ []
  | _ => false

end Verdict

namespace Event

/-- A live keyframe is accepted, and nothing evicted for it. -/
def accepts (e : Event) (verdict : Option Verdict) : Bool :=
  match e with
  | .frame _ _ isKeyframe _ _ => isKeyframe && decide (verdict = some (.sent []))
  | _ => false

/-- A delta is dropped or evicted. -/
def loses (e : Event) (verdict : Option Verdict) : Bool :=
  match e with
  | .frame rd _ isKeyframe _ _ =>
      rd.workerDroppedDelta || verdict.any Verdict.evicts ||
        (!isKeyframe && verdict.any Verdict.drops)
  | _ => verdict.any Verdict.evicts

/-- A keyframe is asked for, or dropped by back-pressure. -/
def asks (cfg : Config) (r : Relay) (e : Event) (verdict : Option Verdict) : Bool :=
  match e with
  | .frame _ _ isKeyframe _ _ => isKeyframe && decide (verdict = some .shed)
  | .sendBufferedKeyframe _ => decide (verdict = some .shed)
  | .requestIdr _ => true
  | .invalidateRef _ msg => !(mapReferences cfg r msg).2
  | .senderTurn => false

end Event

namespace Watched

def start (streamBitrateKbps clockMs : Int) : Watched :=
  ⟨Relay.prepared streamBitrateKbps, clockMs, false, false⟩

/-- The clock does not go back. -/
def next (cfg : Config) (w : Watched) (e : Event) : Option Watched :=
  let clockMs := e.steadyMs.getD w.clockMs
  if clockMs < w.clockMs then none
  else
    (handle cfg w.relay e).map fun (relay, verdict) =>
      { relay
        clockMs
        intact := e.accepts verdict || (w.intact && !e.loses verdict)
        asked := !e.accepts verdict && (w.asked || e.asks cfg w.relay verdict) }

end Watched

/-- The gate is open and the cooldown at its base. -/
def Recovered (r : Relay) : Prop :=
  r.awaitingIdr = false ∧ r.idrCooldownMs = idrCooldownBaseMs

section

variable {cfg : Config} {rd : Reading} {r : Relay}

theorem Recovered.of_stream {r' : Relay} (h : Recovered r) (hr : r'.stream = r.stream) :
    Recovered r' := by
  have hgate := congrArg (fun x : Relay => (x.awaitingIdr, x.idrCooldownMs)) hr
  obtain ⟨hawaiting, hcooldown⟩ := Prod.mk.inj hgate
  exact ⟨hawaiting.trans h.1, hcooldown.trans h.2⟩

theorem answerEvictions_nil (cfg : Config) (rd : Reading) (r : Relay) (frameNumber : Int) :
    answerEvictions cfg rd r frameNumber [] = r := by
  simp [answerEvictions]

variable {data : QByteArray} {isKeyframe : Bool}

/-- A frame handed over without an eviction leaves the gate as it is. -/
theorem Recovered.handOver (h : Recovered r) {presentationTimeUs frameNumber : Int}
    (hsent : (handOver cfg rd r data isKeyframe presentationTimeUs frameNumber).2 = .sent []) :
    Recovered (handOver cfg rd r data isKeyframe presentationTimeUs frameNumber).1 := by
  have hevicted : (enqueue cfg rd r data isKeyframe presentationTimeUs frameNumber).2 = [] :=
    Verdict.sent.inj hsent
  have hleft : (DataChannelRelay.handOver cfg rd r data isKeyframe presentationTimeUs
      frameNumber).1 =
        (enqueue cfg rd r data isKeyframe presentationTimeUs frameNumber).1 := by
    unfold DataChannelRelay.handOver
    simp only [hevicted, answerEvictions_nil]
  rw [hleft]
  exact h

/-- A keyframe sent without an eviction recovers the relay; a frame that was not
dropped, nor evicted another, leaves it recovered. -/
theorem recovered_sendFragmented
    {presentationTimeUs frameNumber : Int} {r' : Relay} {verdict : Verdict}
    (hsend : sendFragmented cfg rd r data isKeyframe presentationTimeUs frameNumber = (r', verdict))
    (hsent : (isKeyframe = true ∧ verdict = .sent []) ∨
      (Recovered r ∧ verdict ≠ .shed ∧ verdict.evicts = false)) :
    Recovered r' := by
  rcases sendFragmented_cases cfg rd r data isKeyframe presentationTimeUs frameNumber with
    ⟨_, heq⟩ | ⟨_, heq⟩ | ⟨_, hshed⟩ | heq
  · obtain ⟨rfl, rfl⟩ := Prod.mk.inj (heq.symm.trans hsend)
    rcases hsent with ⟨_, hverdict⟩ | ⟨hrecovered, _⟩
    · cases hverdict
    · exact hrecovered
  · obtain ⟨rfl, rfl⟩ := Prod.mk.inj (heq.symm.trans hsend)
    rcases hsent with ⟨_, hverdict⟩ | ⟨hrecovered, _⟩
    · cases hverdict
    · exact hrecovered
  · rw [hsend] at hshed
    simp only at hshed
    rw [hshed] at hsent
    rcases hsent with ⟨_, hverdict⟩ | ⟨_, hkept, _⟩
    · cases hverdict
    · exact absurd rfl hkept
  · rw [hsend] at heq
    have hnone : verdict = .sent [] := by
      rcases hsent with ⟨_, hverdict⟩ | ⟨_, _, hevicts⟩
      · exact hverdict
      · have hverdict := congrArg Prod.snd heq
        simp only [handOver] at hverdict
        rw [hverdict] at hevicts ⊢
        simpa [Verdict.evicts] using hevicts
    have hbefore : Recovered (if isKeyframe then
        keyframeThrough { r with backlog := (r.backlog.note rd.bufferedAmount rd.nowMs).1 }
      else { r with backlog := (r.backlog.note rd.bufferedAmount rd.nowMs).1 }) := by
      rcases hsent with ⟨hkey, _⟩ | ⟨hrecovered, _⟩
      · rw [if_pos hkey]
        exact ⟨rfl, rfl⟩
      · split
        · exact ⟨rfl, rfl⟩
        · exact hrecovered
    have hleft := hbefore.handOver ((congrArg Prod.snd heq).symm.trans hnone)
    rw [← heq] at hleft
    exact hleft

theorem recovered_handle {e : Event} {r' : Relay} {verdict : Option Verdict}
    (hhandle : handle cfg r e = some (r', verdict)) (hkept : e.accepts verdict = true ∨
      (Recovered r ∧ e.loses verdict = false ∧ e.asks cfg r verdict = false)) :
    Recovered r' := by
  cases e with
  | frame rd data isKeyframe frameNumber presentationTimeUs =>
    obtain ⟨r₁, frameData, hstream, _, hcases⟩ :=
      handleVideoFrame_cases cfg rd r data isKeyframe frameNumber presentationTimeUs
    have hr' : (handleVideoFrame cfg rd r data isKeyframe frameNumber
        presentationTimeUs).1 = r' := congrArg Prod.fst (Option.some.inj hhandle)
    have hverdict : some (handleVideoFrame cfg rd r data isKeyframe frameNumber
        presentationTimeUs).2 = verdict := congrArg Prod.snd (Option.some.inj hhandle)
    have hr₁ : Recovered r ∧ rd.workerDroppedDelta = false → Recovered r₁ := by
      rintro ⟨hrecovered, hworker⟩
      have hhole : workerHole cfg rd r = r := by
        unfold workerHole
        simp [hworker]
      exact (hhole.symm ▸ hrecovered : Recovered (workerHole cfg rd r)).of_stream hstream
    rcases hcases with ⟨hkey, heq⟩ | ⟨hdelta, _, heq⟩ | ⟨hdelta, _, heq⟩ | ⟨_, heq⟩
    · rw [heq] at hr' hverdict
      rw [← hr']
      simp only at hverdict
      rw [← hverdict] at hkept
      rcases hkept with haccepts | ⟨hrecovered, hloses, _⟩
      · simp [Event.accepts] at haccepts
      · simp only [Event.loses, Bool.or_eq_false_iff] at hloses
        exact hr₁ ⟨hrecovered, hloses.1.1⟩
    · rw [heq] at hverdict
      simp only at hverdict
      rw [← hverdict, hdelta] at hkept
      rcases hkept with haccepts | ⟨_, hloses, _⟩
      · simp [Event.accepts] at haccepts
      · simp [Event.loses, Verdict.drops] at hloses
    · rw [heq] at hverdict
      simp only at hverdict
      rw [← hverdict, hdelta] at hkept
      rcases hkept with haccepts | ⟨_, hloses, _⟩
      · simp [Event.accepts] at haccepts
      · simp [Event.loses, Verdict.drops] at hloses
    · rw [heq] at hr' hverdict
      rw [← hverdict] at hkept
      have hsend : sendFragmented cfg rd r₁ frameData isKeyframe presentationTimeUs frameNumber =
          (r', (sendFragmented cfg rd r₁ frameData isKeyframe presentationTimeUs
            frameNumber).2) := Prod.ext hr' rfl
      generalize (sendFragmented cfg rd r₁ frameData isKeyframe presentationTimeUs
        frameNumber).2 = sent at hsend hkept
      refine recovered_sendFragmented hsend ?_
      rcases hkept with haccepts | ⟨hrecovered, hloses, hasks⟩
      · simp only [Event.accepts, Bool.and_eq_true, decide_eq_true_eq,
          Option.some.injEq] at haccepts
        exact Or.inl haccepts
      · simp only [Event.loses, Option.any_some, Bool.or_eq_false_iff] at hloses
        simp only [Event.asks, Option.some.injEq] at hasks
        refine Or.inr ⟨hr₁ ⟨hrecovered, hloses.1.1⟩, ?_, hloses.1.2⟩
        rintro rfl
        cases isKeyframe with
        | true => simp at hasks
        | false => simp [Verdict.drops] at hloses
  | sendBufferedKeyframe rd =>
    have hpair := Option.some.inj hhandle
    rcases hkept with haccepts | ⟨hrecovered, hloses, hasks⟩
    · cases haccepts
    · rcases sendBufferedKeyframe_cases cfg rd r with
        ⟨hstream, _⟩ | ⟨sent, sentVerdict, hsend, hstream, hsome⟩
      · rw [hpair] at hstream
        exact hrecovered.of_stream hstream
      · rw [hpair] at hstream hsome
        simp only at hsome
        rw [hsome] at hloses hasks
        simp only [hrecovered.1, Bool.false_eq_true, if_false] at hstream
        refine Recovered.of_stream (recovered_sendFragmented hsend (Or.inr ⟨hrecovered, ?_, ?_⟩))
          hstream
        · rintro rfl
          simp [Event.asks] at hasks
        · simpa [Event.loses] using hloses
  | requestIdr steadyMs =>
    rcases hkept with haccepts | ⟨_, _, hasks⟩
    · cases haccepts
    · cases hasks
  | invalidateRef steadyMs msg =>
    rcases hkept with haccepts | ⟨hrecovered, _, hasks⟩
    · cases haccepts
    · have hhealed : (mapReferences cfg r msg).2 = true := by
        simpa [Event.asks] using hasks
      obtain rfl : invalidateRef cfg r steadyMs msg = r' :=
        congrArg Prod.fst (Option.some.inj hhandle)
      unfold invalidateRef
      simp only [hhealed, if_true]
      exact hrecovered
  | senderTurn =>
    simp only [handle, Option.map_eq_some_iff, Prod.mk.injEq] at hhandle
    obtain ⟨_, _, rfl, _⟩ := hhandle
    rcases hkept with haccepts | ⟨hrecovered, _⟩
    · cases haccepts
    · exact hrecovered

/-- A delta in front of an open gate is handed over, unless the link does not drain. -/
theorem Recovered.forwards (h : Recovered r)
    {frameNumber presentationTimeUs : Int} (hworker : rd.workerDroppedDelta = false)
    (hchannel : rd.channel = .opened) (hdata : data ≠ [])
    (hdrains : (r.backlog.note rd.bufferedAmount rd.nowMs).2 = false) :
    ∃ evicted,
      (handleVideoFrame cfg rd r data false frameNumber presentationTimeUs).2 = .sent evicted := by
  have hhole : workerHole cfg rd r = r := by
    unfold workerHole
    simp [hworker]
  obtain ⟨r₁, frameData, hstream, hframe, hcases⟩ :=
    handleVideoFrame_cases cfg rd r data false frameNumber presentationTimeUs
  rw [hhole] at hstream
  have hopen : Recovered r₁ := h.of_stream hstream
  have hbacklog : r₁.stream.backlog = r.stream.backlog := congrArg Relay.backlog hstream
  rcases hcases with ⟨hkey, _⟩ | ⟨_, hclosed, _⟩ | ⟨_, hgate, _⟩ | ⟨_, heq⟩
  · cases hkey
  · exact absurd hchannel hclosed
  · rw [hopen.1] at hgate
    cases hgate
  · rw [heq]
    rcases sendFragmented_cases cfg rd r₁ frameData false presentationTimeUs frameNumber with
      ⟨hclosed, _⟩ | ⟨hempty, _⟩ | ⟨hshedding, _⟩ | hsend
    · exact absurd hchannel hclosed
    · exact absurd ((hframe rfl).symm.trans hempty) hdata
    · change (r₁.stream.backlog.note rd.bufferedAmount rd.nowMs).2 = true at hshedding
      rw [hbacklog] at hshedding
      exact absurd (hdrains.symm.trans hshedding) Bool.false_ne_true
    · rw [hsend]
      exact ⟨_, rfl⟩

/-- In front of a drained buffer, a delta the gate drops finds a keyframe asked for. -/
theorem asked_of_gated (h : Throttled r rd.steadyMs) {frameNumber presentationTimeUs : Int}
    (hgated : (handleVideoFrame cfg rd r data isKeyframe frameNumber
      presentationTimeUs).2 = .gated)
    (hdrained : rd.bufferedAmount ≤ r.backlog.drainedBytes) :
    Asked (handleVideoFrame cfg rd r data isKeyframe frameNumber presentationTimeUs).1
      rd.steadyMs := by
  have hhole : (workerHole cfg rd r).backlog = r.backlog := by
    unfold workerHole
    split
    · unfold DataChannelRelay.requestIdrFrame
      rcases throttled_cases { r with awaitingIdr := true } rd.steadyMs with ⟨heq, _⟩ | ⟨_, heq⟩ <;>
        rw [heq]
    · rfl
  obtain ⟨r₁, frameData, hstream, _, hcases⟩ :=
    handleVideoFrame_cases cfg rd r data isKeyframe frameNumber presentationTimeUs
  have hr₁ : Throttled r₁ rd.steadyMs := (Throttled.workerHole h).of_stream hstream
  have hbacklog : r₁.stream.backlog = (workerHole cfg rd r).stream.backlog :=
    congrArg Relay.backlog hstream
  rcases hcases with ⟨_, heq⟩ | ⟨_, _, heq⟩ | ⟨_, hgate, heq⟩ | ⟨_, heq⟩
  · rw [heq] at hgated
    cases hgated
  · rw [heq] at hgated
    cases hgated
  · rw [heq]
    refine (hr₁.gateDelta hgate).2 ?_
    change rd.bufferedAmount ≤ r₁.stream.backlog.drainedBytes
    rw [hbacklog]
    change rd.bufferedAmount ≤ (workerHole cfg rd r).backlog.drainedBytes
    rw [hhole]
    exact hdrained
  · rw [heq] at hgated
    rcases sendFragmented_cases cfg rd r₁ frameData isKeyframe presentationTimeUs frameNumber with
      ⟨_, hsend⟩ | ⟨_, hsend⟩ | ⟨_, hsend⟩ | hsend
    · rw [hsend] at hgated
      cases hgated
    · rw [hsend] at hgated
      cases hgated
    · rw [hsend] at hgated
      cases hgated
    · rw [hsend] at hgated
      cases hgated

end

namespace Watched

/-- The throttle is kept, and with the stream intact and nothing asked for since the
keyframe the relay is recovered. -/
structure Kept (w : Watched) : Prop where
  throttled : Throttled w.relay w.clockMs
  recovered : w.intact = true → w.asked = false → Recovered w.relay

/-- What a frame finds: an intact stream is forwarded, and a gated one has asked for
its keyframe. -/
def Answers (cfg : Config) (w : Watched) (e : Event) (w' : Watched) : Prop :=
  match e with
  | .frame rd data isKeyframe frameNumber presentationTimeUs =>
      (w.intact = true ∧ w.asked = false ∧ isKeyframe = false ∧
          rd.workerDroppedDelta = false ∧ rd.channel = .opened ∧ data ≠ [] ∧
          (w.relay.backlog.note rd.bufferedAmount rd.nowMs).2 = false →
        ∃ evicted, (handleVideoFrame cfg rd w.relay data isKeyframe frameNumber
          presentationTimeUs).2 = .sent evicted) ∧
      ((handleVideoFrame cfg rd w.relay data isKeyframe frameNumber
            presentationTimeUs).2 = .gated →
          rd.bufferedAmount ≤ w.relay.backlog.drainedBytes → Asked w'.relay w'.clockMs)
  | _ => True

variable {cfg : Config} {w w' : Watched} {e : Event}

theorem next_cases (hnext : w.next cfg e = some w') :
    ∃ relay verdict, handle cfg w.relay e = some (relay, verdict) ∧
      w.clockMs ≤ e.steadyMs.getD w.clockMs ∧
      w' = ⟨relay, e.steadyMs.getD w.clockMs,
        e.accepts verdict || (w.intact && !e.loses verdict),
        !e.accepts verdict && (w.asked || e.asks cfg w.relay verdict)⟩ := by
  unfold next at hnext
  simp only at hnext
  by_cases hback : e.steadyMs.getD w.clockMs < w.clockMs
  · rw [if_pos hback] at hnext
    cases hnext
  · rw [if_neg hback, Option.map_eq_some_iff] at hnext
    obtain ⟨⟨relay, verdict⟩, hhandle, rfl⟩ := hnext
    exact ⟨relay, verdict, hhandle, not_lt.mp hback, rfl⟩

theorem Kept.start (streamBitrateKbps clockMs : Int) : (start streamBitrateKbps clockMs).Kept where
  throttled := Throttled.prepared streamBitrateKbps clockMs
  recovered h := by cases h

theorem Kept.step (h : w.Kept) (hnext : w.next cfg e = some w') : w'.Kept := by
  obtain ⟨relay, verdict, hhandle, hclock, rfl⟩ := next_cases hnext
  constructor
  · exact h.throttled.handle hclock hhandle
  · intro hintact hasked
    simp only [Bool.or_eq_true, Bool.and_eq_true, Bool.not_eq_true'] at hintact
    simp only [Bool.and_eq_false_iff, Bool.not_eq_false', Bool.or_eq_false_iff] at hasked
    refine recovered_handle hhandle ?_
    by_cases haccepts : e.accepts verdict = true
    · exact Or.inl haccepts
    · right
      obtain ⟨hbefore, hloses⟩ := hintact.resolve_left haccepts
      obtain ⟨hquiet, hasks⟩ := hasked.resolve_left haccepts
      exact ⟨h.recovered hbefore hquiet, hloses, hasks⟩

theorem Kept.answers (h : w.Kept) (hnext : w.next cfg e = some w') : Answers cfg w e w' := by
  obtain ⟨relay, verdict, hhandle, hclock, rfl⟩ := next_cases hnext
  cases e with
  | frame rd data isKeyframe frameNumber presentationTimeUs =>
    have hrelay : (handleVideoFrame cfg rd w.relay data isKeyframe frameNumber
        presentationTimeUs).1 = relay := congrArg Prod.fst (Option.some.inj hhandle)
    constructor
    · rintro ⟨hintact, hasked, rfl, hworker, hchannel, hdata, hdrains⟩
      exact (h.recovered hintact hasked).forwards hworker hchannel hdata hdrains
    · intro hgated hdrained
      have hasked := asked_of_gated (h.throttled.later hclock) hgated hdrained
      rw [hrelay] at hasked
      exact hasked
  | sendBufferedKeyframe rd => trivial
  | requestIdr steadyMs => trivial
  | invalidateRef steadyMs msg => trivial
  | senderTurn => trivial

end Watched

/-- The gate along every run: the drain is waited for behind a closed gate only, an
intact stream goes on, and a gated one has its keyframe asked for. -/
theorem gate_recovers_along (cfg : Config) (streamBitrateKbps clockMs : Int) (labels : List Event) :
    AllAlong (moves (next cfg)) Kept (start streamBitrateKbps clockMs)
        labels ∧
      EachStep (moves (next cfg)) (Answers cfg)
        (start streamBitrateKbps clockMs) labels := by
  have hall : ∀ visited w,
      Run (moves (next cfg)) (start streamBitrateKbps clockMs) visited w →
        w.Kept := fun _ _ hrun =>
    hrun.invariant (fun _ _ _ h hnext => h.step hnext)
      (Kept.start streamBitrateKbps clockMs)
  constructor
  · intro visited _ w _ hrun
    exact hall visited w hrun
  · intro visited _ _ w _ _ hrun hnext
    exact (hall visited w hrun).answers hnext

/-- Surroundings at rest, with an open channel. -/
def plainReading : Reading where
  nowMs := 0
  steadyMs := 0
  channel := .opened
  bufferedAmount := 0
  workerDroppedDelta := false
  intraRefreshActive := false
  referenceInvalidation := false
  firstFrameArrivalSteadyMs := 0
  framePresentationTimeUs := 0
  frameSentSink := false

def plainConfig : Config := ⟨false, false, id⟩

theorem request_closes_recovered_gate :
    ¬ ∀ (cfg : Config) (streamBitrateKbps clockMs : Int) (labels : List Event),
      AllAlong (moves (next cfg)) (fun w => w.intact = true → Recovered w.relay)
        (start streamBitrateKbps clockMs) labels := by
  intro hall
  have hrun : Run (moves (next plainConfig)) (start 0 0)
      [.frame plainReading [0] true 1 0, .requestIdr 0] _ := run_of_runMoves _ rfl
  have hopen : true = false := ((hall plainConfig 0 0 _).last hrun rfl).1
  cases hopen

end MoonlightWeb.Streaming.DataChannelRelay
