import MoonlightWeb.Streaming.RecoveryGate

/-! # The chain of references

A delta refers to the frame before it. While a keyframe kept for a closed channel waits to be
sent, a delta on the channel just opened overtakes it; apart from that, what the relay hands to
its sender always ends in a keyframe and every frame of the engine since.
-/

namespace MoonlightWeb.Streaming.DataChannelRelay

open Lib Qt FrameSender List

/-- The relay with the frames of the engine, each a keyframe or not, the numbers of those it
handed over, and the number of the one it keeps. -/
structure Chain where
  relay : Relay
  frames : List Bool
  handed : List Nat
  held : Nat

def hands : Option Verdict → Bool
  | some (.sent _) => true
  | _ => false

namespace Chain

def start (streamBitrateKbps : Int) : Chain := ⟨Relay.prepared streamBitrateKbps, [], [], 0⟩

/-- The frames before one that comes: deltas the worker dropped count as one. -/
def before (c : Chain) (rd : Reading) : List Bool :=
  c.frames ++ if rd.workerDroppedDelta then [false] else []

def next (cfg : Config) (c : Chain) (e : Event) : Option Chain :=
  (handle cfg c.relay e).map fun (relay, verdict) =>
    match e with
    | .frame rd _ isKeyframe _ _ =>
        { relay
          frames := c.before rd ++ [isKeyframe]
          handed := c.handed ++ if hands verdict then [(c.before rd).length] else []
          held := if verdict = some .buffered then (c.before rd).length else c.held }
    | .sendBufferedKeyframe _ =>
        { c with relay, handed := c.handed ++ if hands verdict then [c.held] else [] }
    | _ => { c with relay }

def Waits (r : Relay) : Prop := r.haveBufferedKeyframe = true ∧ r.newKeyframeArrived = false

/-- A frame has data, the first is a keyframe, and no delta comes on an open channel through the
open gate while the kept keyframe waits. -/
def Orderly (cfg : Config) (c : Chain) : Event → Prop
  | .frame rd data isKeyframe _ _ =>
      data ≠ [] ∧ cfg.patchHevcKeyframe data ≠ [] ∧
        (isKeyframe = false → c.frames ≠ [] ∧
          ¬(rd.channel = .opened ∧ c.relay.awaitingIdr = false ∧ Waits c.relay))
  | _ => True

instance (r : Relay) : Decidable (Waits r) := inferInstanceAs (Decidable (_ ∧ _))

instance (cfg : Config) (c : Chain) : (e : Event) → Decidable (c.Orderly cfg e)
  | .frame .. => inferInstanceAs (Decidable (_ ∧ _ ∧ (_ → _)))
  | .sendBufferedKeyframe _ | .requestIdr _ | .invalidateRef _ _ | .senderTurn => .isTrue trivial

/-- What was handed over ends in a keyframe and every frame from it up to the number `m`. -/
def EndsAt (c : Chain) (m : Nat) : Prop :=
  ∃ k < m, c.frames[k]? = some true ∧ range' k (m - k) <:+ c.handed

def Linked (c : Chain) : Prop := c.handed = [] ∨ ∃ m, c.EndsAt m

end Chain

section

variable {cfg : Config} {rd : Reading} {r r' : Relay} {data : QByteArray} {isKeyframe : Bool}
  {frameNumber presentationTimeUs : Int} {verdict : Verdict}

def Relay.kept (r : Relay) : Bool × Bool × QByteArray :=
  (r.haveBufferedKeyframe, r.newKeyframeArrived, r.bufferedKeyframe)

theorem throttled_kept (r : Relay) (steadyMs : Int) :
    (sendIdrRequestThrottled r steadyMs).kept = r.kept ∧
      (sendIdrRequestThrottled r steadyMs).awaitingIdr = r.awaitingIdr := by
  rcases throttled_cases r steadyMs with ⟨heq, _⟩ | ⟨_, heq⟩ <;> rw [heq] <;> exact ⟨rfl, rfl⟩

theorem requestIdrFrame_kept (r : Relay) (steadyMs : Int) :
    (requestIdrFrame r steadyMs).kept = r.kept :=
  (throttled_kept _ _).1

theorem gateDelta_kept (rd : Reading) (r : Relay) :
    (gateDelta rd r).kept = r.kept ∧ (gateDelta rd r).awaitingIdr = r.awaitingIdr := by
  unfold gateDelta
  dsimp only
  split_ifs
  · exact throttled_kept _ _
  · exact ⟨rfl, rfl⟩
  · exact ⟨rfl, rfl⟩
  · exact throttled_kept _ _

theorem handOver_kept :
    (handOver cfg rd r data isKeyframe presentationTimeUs frameNumber).1.kept = r.kept := by
  unfold handOver answerEvictions
  dsimp only
  split_ifs <;> first | rfl | exact requestIdrFrame_kept _ _

/-- A frame on the open channel is shed, and the gate closes, or it is handed over. -/
theorem sendFragmented_hands (hride : cfg.rideOutLoss = false) (hopened : rd.channel = .opened)
    (hdata : data ≠ [])
    (h : sendFragmented cfg rd r data isKeyframe presentationTimeUs frameNumber = (r', verdict)) :
    r'.kept = r.kept ∧ verdict ≠ .buffered ∧
      (hands (some verdict) = false → r'.awaitingIdr = true) := by
  have hriding : ridingOutLoss cfg rd = false := by rw [ridingOutLoss, hride, Bool.false_and]
  have hwait : ∀ (r : Relay) (nowMs : Int), (waitForDrain r nowMs).kept = r.kept ∧
      (waitForDrain r nowMs).awaitingIdr = r.awaitingIdr := by
    intro r nowMs
    unfold waitForDrain
    split_ifs <;> exact ⟨rfl, rfl⟩
  unfold sendFragmented at h
  rw [if_neg (not_not.mpr hopened), if_neg hdata, hriding] at h
  simp only [Bool.false_eq_true, if_false] at h
  split_ifs at h <;> obtain ⟨rfl, rfl⟩ := Prod.mk.inj h
  · exact ⟨(hwait _ _).1, by decide, fun _ => (hwait _ _).2⟩
  · exact ⟨handOver_kept, (by cases ·), (by cases ·)⟩
  · exact ⟨(hwait _ _).1, by decide, fun _ => (hwait _ _).2⟩
  · exact ⟨handOver_kept, (by cases ·), (by cases ·)⟩

/-- A frame is kept, dropped behind a gate that is closed then, or handed over; a delta is
handed over through an open gate and without a hole before it. -/
theorem frame_hands (hride : cfg.rideOutLoss = false) (hdata : data ≠ [])
    (hpatched : cfg.patchHevcKeyframe data ≠ [])
    (h : handleVideoFrame cfg rd r data isKeyframe frameNumber presentationTimeUs = (r', verdict)) :
    (isKeyframe = true ∧ verdict = .buffered ∧ Chain.Waits r' ∧ r'.bufferedKeyframe ≠ []) ∨
      (verdict ≠ .buffered ∧ r'.haveBufferedKeyframe = r.haveBufferedKeyframe ∧
        r'.bufferedKeyframe = r.bufferedKeyframe ∧
        ((hands (some verdict) = false ∧ r'.awaitingIdr = true) ∨
          (rd.channel = .opened ∧ hands (some verdict) = true ∧
            (isKeyframe = true → ¬Chain.Waits r') ∧
            (isKeyframe = false → r.awaitingIdr = false ∧ rd.workerDroppedDelta = false ∧
              r'.newKeyframeArrived = r.newKeyframeArrived)))) := by
  have hhole : (workerHole cfg rd r).kept = r.kept ∧ ((workerHole cfg rd r).awaitingIdr = false →
      r.awaitingIdr = false ∧ rd.workerDroppedDelta = false) := by
    unfold workerHole ridingOutLoss
    rw [hride, Bool.false_and, Bool.not_false, Bool.and_true]
    split_ifs with hdropped
    · refine ⟨requestIdrFrame_kept _ _, fun hopen => ?_⟩
      rw [requestIdrFrame_awaiting] at hopen
      cases hopen
    · exact ⟨rfl, fun hopen => ⟨hopen, by simpa using hdropped⟩⟩
  unfold handleVideoFrame at h
  generalize workerHole cfg rd r = hole at hhole h
  obtain ⟨hkept, hhole⟩ := hhole
  simp only [Relay.kept, Prod.mk.injEq] at hkept
  obtain ⟨hhave, hnew, hbuffered⟩ := hkept
  cases isKeyframe with
  | true =>
    have hframe : (if true && !hole.hevcPatched then cfg.patchHevcKeyframe data else data) ≠ [] := by
      split_ifs
      · exact hpatched
      · exact hdata
    by_cases hopened : rd.channel = .opened
    · simp only [hopened, ne_eq, not_true_eq_false, decide_false, Bool.and_false,
        Bool.false_eq_true, if_false, Bool.not_true] at h
      obtain ⟨hkept, hverdict, hshed⟩ := sendFragmented_hands hride hopened hframe h
      simp only [Relay.kept, Prod.mk.injEq] at hkept
      refine .inr ⟨hverdict, ?_, ?_, ?_⟩
      · rw [hkept.1, ← hhave]
        split_ifs <;> rfl
      · rw [hkept.2.2, ← hbuffered]
        split_ifs <;> rfl
      · cases hhands : hands (some verdict) with
        | false => exact .inl ⟨rfl, hshed hhands⟩
        | true =>
          refine .inr ⟨hopened, rfl, fun _ hwaits => ?_, fun hdelta => by cases hdelta⟩
          obtain ⟨hyes, hno⟩ := hwaits
          rw [hkept.1] at hyes
          rw [hkept.2.1] at hno
          by_cases hheld : hole.haveBufferedKeyframe = true
          · simp [hheld] at hno
          · simp [hheld] at hyes
    · simp only [hopened, ne_eq, not_false_eq_true, decide_true, Bool.and_true, if_true] at h
      obtain ⟨rfl, rfl⟩ := Prod.mk.inj h
      exact .inl ⟨rfl, rfl, ⟨rfl, rfl⟩, hframe⟩
  | false =>
    simp only [Bool.false_and, Bool.false_eq_true, if_false, Bool.or_false, Bool.not_false,
      Bool.and_true] at h
    right
    split_ifs at h with hclosed hgate
    · obtain ⟨rfl, rfl⟩ := Prod.mk.inj h
      have hkept := requestIdrFrame_kept hole rd.steadyMs
      simp only [Relay.kept, Prod.mk.injEq] at hkept
      exact ⟨by decide, hkept.1.trans hhave, hkept.2.2.trans hbuffered,
        .inl ⟨rfl, requestIdrFrame_awaiting _ _⟩⟩
    · obtain ⟨rfl, rfl⟩ := Prod.mk.inj h
      obtain ⟨hkept, hawaiting⟩ := gateDelta_kept rd hole
      simp only [Relay.kept, Prod.mk.injEq] at hkept
      exact ⟨by decide, hkept.1.trans hhave, hkept.2.2.trans hbuffered,
        .inl ⟨rfl, hawaiting.trans hgate⟩⟩
    · rw [not_not] at hclosed
      obtain ⟨hkept, hverdict, hshed⟩ := sendFragmented_hands hride hclosed hdata h
      simp only [Relay.kept, Prod.mk.injEq] at hkept
      refine ⟨hverdict, hkept.1.trans hhave, hkept.2.2.trans hbuffered, ?_⟩
      cases hhands : hands (some verdict) with
      | false => exact .inl ⟨rfl, hshed hhands⟩
      | true =>
        obtain ⟨hopen, hdropped⟩ := hhole (by simpa using hgate)
        exact .inr ⟨hclosed, rfl, fun hkey => (by cases hkey), fun _ =>
          ⟨hopen, hdropped, hkept.2.1.trans hnew⟩⟩

/-- The kept keyframe stays, is let go of, or is handed over unless the gate closes. -/
theorem buffered_hands (hride : cfg.rideOutLoss = false)
    (hdata : r.haveBufferedKeyframe = true → r.bufferedKeyframe ≠ []) {verdict : Option Verdict}
    (h : sendBufferedKeyframe cfg rd r = (r', verdict)) :
    (r' = r ∧ hands verdict = false) ∨
      (r'.haveBufferedKeyframe = false ∧ r.haveBufferedKeyframe = true ∧
        ((hands verdict = false ∧ r.newKeyframeArrived = true ∧ r'.awaitingIdr = r.awaitingIdr) ∨
          r.newKeyframeArrived = false ∧ (r'.awaitingIdr = true ∨
            (r.awaitingIdr = false ∧ hands verdict = true)))) := by
  unfold sendBufferedKeyframe at h
  split_ifs at h with hnone hclosed hnewer
  · obtain ⟨rfl, rfl⟩ := Prod.mk.inj h
    exact .inl ⟨rfl, rfl⟩
  · obtain ⟨rfl, rfl⟩ := Prod.mk.inj h
    exact .inl ⟨rfl, rfl⟩
  · obtain ⟨rfl, rfl⟩ := Prod.mk.inj h
    exact .inr ⟨rfl, by simpa using hnone, .inl ⟨rfl, hnewer, rfl⟩⟩
  · rw [not_not] at hclosed
    have hheld : r.haveBufferedKeyframe = true := by simpa using hnone
    rcases hsend : sendFragmented cfg rd r r.bufferedKeyframe true r.bufferedKeyframePresUs (-1)
      with ⟨sent, sentVerdict⟩
    obtain ⟨hkept, -, hshed⟩ := sendFragmented_hands hride hclosed (hdata hheld) hsend
    rw [hsend] at h
    obtain ⟨rfl, rfl⟩ := Prod.mk.inj h
    refine .inr ⟨rfl, hheld, .inr ⟨by simpa using hnewer, ?_⟩⟩
    change (if r.awaitingIdr then requestIdrFrame sent rd.steadyMs else sent).awaitingIdr = true ∨ _
    split_ifs with hstale
    · exact .inl (requestIdrFrame_awaiting _ _)
    · cases hhands : hands (some sentVerdict) with
      | false => exact .inl (hshed hhands)
      | true => exact .inr ⟨by simpa using hstale, rfl⟩

end

namespace Chain

/-- Behind the open gate the chain ends at the last frame, or the kept keyframe is that frame. -/
structure Sound (c : Chain) : Prop where
  linked : c.Linked
  ends : c.relay.awaitingIdr = false → c.frames = [] ∨ c.EndsAt c.frames.length ∨ Waits c.relay
  held : c.relay.haveBufferedKeyframe = true →
    c.frames[c.held]? = some true ∧ c.relay.bufferedKeyframe ≠ []
  newest : Waits c.relay → c.relay.awaitingIdr = false → c.held + 1 = c.frames.length

theorem Sound.start (streamBitrateKbps : Int) : (start streamBitrateKbps).Sound where
  linked := .inl rfl
  ends _ := .inl rfl
  held h := by cases h
  newest h := by cases h.1

variable {cfg : Config} {c c' : Chain} {e : Event} {frames : List Bool} {m : Nat}

theorem same {i : Nat} {more : List Bool} (hframes : more = c.frames ++ frames)
    (hi : c.frames[i]? = some true) : more[i]? = some true := by
  rw [hframes, getElem?_append_left (List.getElem?_eq_some_iff.mp hi).1]
  exact hi

theorem Linked.more (h : c.Linked) (hframes : c'.frames = c.frames ++ frames)
    (hhanded : c'.handed = c.handed) : c'.Linked := by
  rcases h with hnil | ⟨m, k, hk, hkey, hsuffix⟩
  · exact .inl (hhanded.trans hnil)
  · exact .inr ⟨m, k, hk, same hframes hkey, hhanded ▸ hsuffix⟩

/-- A keyframe handed over begins a chain. -/
theorem endsAt_keyframe (hkey : c.frames[m]? = some true) {before : List Nat}
    (hhanded : c.handed = before ++ [m]) : c.EndsAt (m + 1) := by
  refine ⟨m, Nat.lt_succ_self m, hkey, ?_⟩
  rw [hhanded, Nat.add_sub_cancel_left]
  exact suffix_append _ _

/-- The next frame extends the chain. -/
theorem EndsAt.extend (h : c.EndsAt m) (hframes : c'.frames = c.frames ++ frames)
    (hhanded : c'.handed = c.handed ++ [m]) : c'.EndsAt (m + 1) := by
  obtain ⟨k, hk, hkey, before, hsuffix⟩ := h
  refine ⟨k, by omega, same hframes hkey, before, ?_⟩
  rw [hhanded, ← hsuffix, append_assoc, Nat.sub_add_comm hk.le, range'_concat]
  congr 3
  omega

/-- A change of the rest of the relay, or a gate that closes. -/
theorem Sound.relay (h : c.Sound) {r : Relay} (hkept : r.kept = c.relay.kept)
    (hgate : r.awaitingIdr = false → c.relay.awaitingIdr = false) : Sound { c with relay := r } := by
  simp only [Relay.kept, Prod.mk.injEq] at hkept
  obtain ⟨hhave, hnew, hbuffered⟩ := hkept
  have hwaits : Waits r ↔ Waits c.relay := by rw [Waits, Waits, hhave, hnew]
  constructor
  · exact h.linked
  · intro hopen
    rw [hwaits]
    exact h.ends (hgate hopen)
  · intro hheld
    rw [hbuffered]
    exact h.held (hhave ▸ hheld)
  · intro hnewest hopen
    exact h.newest (hwaits.mp hnewest) (hgate hopen)

theorem Sound.frame (hride : cfg.rideOutLoss = false) (h : c.Sound) {rd : Reading}
    {data : QByteArray} {isKeyframe : Bool} {frameNumber presentationTimeUs : Int}
    (horderly : Orderly cfg c (.frame rd data isKeyframe frameNumber presentationTimeUs))
    (hnext : c.next cfg (.frame rd data isKeyframe frameNumber presentationTimeUs) = some c') :
    c'.Sound := by
  obtain ⟨hdata, hpatched, hdelta⟩ := horderly
  rcases hframe : handleVideoFrame cfg rd c.relay data isKeyframe frameNumber presentationTimeUs
    with ⟨r', verdict⟩
  have hcases := frame_hands hride hdata hpatched hframe
  rw [next, handle, hframe] at hnext
  obtain rfl := Option.some.inj hnext
  have hframes : c.before rd ++ [isKeyframe] =
      c.frames ++ ((if rd.workerDroppedDelta then [false] else []) ++ [isKeyframe]) :=
    append_assoc _ _ _
  have hlast : (c.before rd ++ [isKeyframe])[(c.before rd).length]? = some isKeyframe := by simp
  rcases hcases with ⟨rfl, rfl, hwaits, hne⟩ | ⟨hverdict, hhave, hbuffered, hcases⟩
  · refine ⟨h.linked.more hframes (append_nil _), fun _ => .inr (.inr hwaits), fun _ => ⟨hlast, hne⟩,
      fun _ _ => ?_⟩
    change _ = (c.before rd ++ [true]).length
    rw [length_append]
    rfl
  · have hheld : r'.haveBufferedKeyframe = true →
        (c.before rd ++ [isKeyframe])[if some verdict = some .buffered then (c.before rd).length
          else c.held]? = some true ∧ r'.bufferedKeyframe ≠ [] := by
      intro hheld
      obtain ⟨hkey, hne⟩ := h.held (hhave ▸ hheld)
      rw [if_neg fun heq => hverdict (Option.some.inj heq), hbuffered]
      exact ⟨same hframes hkey, hne⟩
    rcases hcases with ⟨hhands, hgate⟩ | ⟨hopened, hhands, hkey, hopen⟩
    · refine ⟨h.linked.more hframes ?_, fun hopen => ?_, hheld, fun _ hopen => ?_⟩
      · dsimp only
        rw [hhands]
        exact append_nil _
      · cases hgate.symm.trans hopen
      · cases hgate.symm.trans hopen
    · have hends : EndsAt
          { relay := r', frames := c.before rd ++ [isKeyframe]
            handed := c.handed ++ if hands (some verdict) then [(c.before rd).length] else []
            held := if some verdict = some .buffered then (c.before rd).length else c.held }
          ((c.before rd).length + 1) := by
        rw [if_pos hhands]
        cases isKeyframe with
        | true => exact endsAt_keyframe hlast rfl
        | false =>
          obtain ⟨hawaiting, hdropped, _⟩ := hopen rfl
          obtain ⟨hsome, hwaits⟩ := hdelta rfl
          have hbefore : c.before rd = c.frames := by simp [before, hdropped]
          rw [hbefore]
          rcases h.ends hawaiting with hnil | hends | hheld
          · exact absurd hnil hsome
          · exact hends.extend rfl rfl
          · exact absurd ⟨hopened, hawaiting, hheld⟩ hwaits
      refine ⟨.inr ⟨_, hends⟩, fun _ => .inr (.inl ?_), hheld, fun hwaits _ => ?_⟩
      · rw [length_append]
        exact hends
      · cases isKeyframe with
        | true => exact absurd hwaits (hkey rfl)
        | false =>
          obtain ⟨hawaiting, _, hnew⟩ := hopen rfl
          exact absurd ⟨hopened, hawaiting, hhave ▸ hwaits.1, hnew ▸ hwaits.2⟩ (hdelta rfl).2

theorem Sound.buffered (hride : cfg.rideOutLoss = false) (h : c.Sound) {rd : Reading}
    (hnext : c.next cfg (.sendBufferedKeyframe rd) = some c') : c'.Sound := by
  rcases hsend : sendBufferedKeyframe cfg rd c.relay with ⟨r', verdict⟩
  have hcases := buffered_hands hride (fun hheld => (h.held hheld).2) hsend
  rw [next, handle, hsend] at hnext
  obtain rfl := Option.some.inj hnext
  change Sound { c with relay := r', handed := c.handed ++ if hands verdict then [c.held] else [] }
  rcases hcases with ⟨rfl, hhands⟩ | ⟨hgone, hheld, hcases⟩
  · rw [hhands, if_neg Bool.false_ne_true, append_nil]
    exact h
  · obtain ⟨hkey, -⟩ := h.held hheld
    refine ⟨?_, fun hopen => ?_, fun hyes => ?_, fun hwaits => ?_⟩
    · cases hands verdict with
      | false => exact h.linked.more (append_nil _).symm (append_nil _)
      | true => exact .inr ⟨_, endsAt_keyframe hkey rfl⟩
    · rcases hcases with ⟨hhands, hnewer, hgate⟩ | ⟨hnew, hgate | ⟨hgate, hhands⟩⟩
      · rw [hhands, if_neg Bool.false_ne_true, append_nil]
        refine (h.ends (hgate ▸ hopen)).imp_right fun hends => .inl (hends.resolve_right ?_)
        intro hwaits
        cases hnewer.symm.trans hwaits.2
      · cases hgate.symm.trans hopen
      · rw [hhands, if_pos rfl, ← h.newest ⟨hheld, hnew⟩ hgate]
        exact .inr (.inl (endsAt_keyframe hkey rfl))
    · cases hgone.symm.trans hyes
    · cases hgone.symm.trans hwaits.1

theorem Sound.step (hride : cfg.rideOutLoss = false) (h : c.Sound) (horderly : Orderly cfg c e)
    (hnext : c.next cfg e = some c') : c'.Sound := by
  cases e with
  | frame rd data isKeyframe frameNumber presentationTimeUs => exact h.frame hride horderly hnext
  | sendBufferedKeyframe rd => exact h.buffered hride hnext
  | requestIdr steadyMs =>
    obtain rfl := Option.some.inj hnext
    refine h.relay (requestIdrFrame_kept _ _) fun hopen => ?_
    rw [requestIdrFrame_awaiting] at hopen
    cases hopen
  | invalidateRef steadyMs msg =>
    obtain rfl := Option.some.inj hnext
    change Sound { c with relay := invalidateRef cfg c.relay steadyMs msg }
    unfold invalidateRef
    dsimp only
    split_ifs
    · exact h.relay rfl id
    · refine h.relay (requestIdrFrame_kept _ _) fun hopen => ?_
      rw [requestIdrFrame_awaiting] at hopen
      cases hopen
  | senderTurn =>
    simp only [next, handle, Option.map_map, Option.map_eq_some_iff] at hnext
    obtain ⟨_, _, rfl⟩ := hnext
    exact h.relay rfl id

end Chain

/-- Along every run in which no delta overtakes the kept keyframe, what was handed over always
ends in a keyframe and every frame of the engine since it. -/
theorem deltas_linked_along (cfg : Config) (hride : cfg.rideOutLoss = false)
    (streamBitrateKbps : Int) (labels : List Event)
    (horderly : EachStep (moves (Chain.next cfg)) (fun c e _ => c.Orderly cfg e)
      (Chain.start streamBitrateKbps) labels) :
    AllAlong (moves (Chain.next cfg)) Chain.Linked (Chain.start streamBitrateKbps) labels := by
  intro visited rest c hlabels hrun
  have hsound : c.Sound := EachStep.invariant (fun _ _ _ h hnext horderly =>
    h.step hride horderly hnext) (horderly.take hlabels) (Chain.Sound.start streamBitrateKbps) hrun
  exact hsound.linked

/-- A keyframe kept, sent once the channel is open, and a delta behind it. -/
theorem deltas_linked_along_kept :
    AllAlong (moves (Chain.next plainConfig)) Chain.Linked (Chain.start 0)
      [.frame { plainReading with channel := .closed } [0] true 1 0,
        .sendBufferedKeyframe plainReading, .frame plainReading [1] false 2 0] :=
  deltas_linked_along plainConfig rfl 0 _ (eachStep_of_checkMoves (by decide))

end MoonlightWeb.Streaming.DataChannelRelay
