import MoonlightWeb.Frontend.VideoDecodeWorker

/-! # The order a decoder is fed in

A delta is fed while the flag says its reference was; the frames that are held follow one
another. Both are kept by the steps that lose nothing in silence, so every decoder gets
its chunks from a keyframe on, without a gap.
-/

namespace MoonlightWeb.Frontend.VideoDecodeWorker

open Lib Worker List

structure Chained (arrived : List Arrival) (fed : List Nat) : Prop where
  first : ∀ place, fed.head? = some place → arrived[place]? = some .key
  inOrder : fed.Pairwise (· < ·)
  linked : ∀ place ∈ fed, arrived[place]? = some .key ∨
    (arrived[place]? = some .delta ∧ ∃ earlier, place = earlier + 1 ∧ earlier ∈ fed)

namespace Chained

variable {arrived : List Arrival} {fed : List Nat}

theorem nil (arrived : List Arrival) : Chained arrived [] where
  first := fun place h => by cases h
  inOrder := List.Pairwise.nil
  linked := fun place h => absurd h not_mem_nil

variable (h : Chained arrived fed)

include h

/-- Going back from a delta, the places before it were fed until a keyframe comes. -/
theorem reference {place : Nat} (hplace : place ∈ fed)
    (hdelta : arrived[place]? = some .delta) :
    ∃ key ∈ fed, key < place ∧ arrived[key]? = some .key ∧
      ∀ between, key < between → between < place →
        arrived[between]? = some .delta ∧ between ∈ fed := by
  induction place with
  | zero =>
    rcases h.linked 0 hplace with hkey | ⟨_, earlier, hearlier, _⟩
    · rw [hdelta] at hkey
      cases hkey
    · omega
  | succ place ih =>
    rcases h.linked _ hplace with hkey | ⟨_, earlier, hearlier, hfed⟩
    · rw [hdelta] at hkey
      cases hkey
    obtain rfl : earlier = place := by omega
    rcases h.linked _ hfed with hkey | ⟨hdelta', _⟩
    · exact ⟨earlier, hfed, by omega, hkey, fun between hlt hgt => by omega⟩
    · obtain ⟨key, hkeyFed, hlt, hkey, hbetween⟩ := ih hfed hdelta'
      refine ⟨key, hkeyFed, by omega, hkey, fun between hafter hbefore => ?_⟩
      by_cases hlast : between = earlier
      · rw [hlast]
        exact ⟨hdelta', hfed⟩
      · exact hbetween between hafter (by omega)

theorem ordered : Ordered arrived fed where
  first := h.first
  inOrder := h.inOrder
  reference := fun _ hplace hdelta => h.reference hplace hdelta

/-- A chunk that is a keyframe, or comes right behind one that was fed, is fed. -/
theorem snoc {place : Nat} (hbefore : ∀ earlier ∈ fed, earlier < place)
    (hnext : arrived[place]? = some .key ∨
      (arrived[place]? = some .delta ∧ ∃ earlier, place = earlier + 1 ∧ earlier ∈ fed)) :
    Chained arrived (fed ++ [place]) where
  first := by
    intro first hfirst
    cases fed with
    | nil =>
      obtain rfl : place = first := by simpa using hfirst
      rcases hnext with hkey | ⟨_, earlier, _, hnone⟩
      · exact hkey
      · exact absurd hnone not_mem_nil
    | cons head rest => exact h.first first (by simpa using hfirst)
  inOrder := by
    rw [pairwise_append]
    refine ⟨h.inOrder, pairwise_singleton _ _, fun earlier hearlier last hlast => ?_⟩
    rw [mem_singleton.mp hlast]
    exact hbefore earlier hearlier
  linked := by
    have hstays : ∀ earlier, earlier ∈ fed → earlier ∈ fed ++ [place] :=
      fun earlier hearlier => mem_append_left _ hearlier
    intro chunk hchunk
    rcases mem_append.mp hchunk with hfed | hlast
    · rcases h.linked chunk hfed with hkey | ⟨hdelta, earlier, heq, hearlier⟩
      · exact Or.inl hkey
      · exact Or.inr ⟨hdelta, earlier, heq, hstays earlier hearlier⟩
    · rw [mem_singleton.mp hlast]
      rcases hnext with hkey | ⟨hdelta, earlier, heq, hearlier⟩
      · exact Or.inl hkey
      · exact Or.inr ⟨hdelta, earlier, heq, hstays earlier hearlier⟩

theorem arrive (arrival : Arrival) :
    Chained (arrived ++ [arrival]) fed := by
  have hstays : ∀ {place : Nat} {kind : Arrival}, arrived[place]? = some kind →
      (arrived ++ [arrival])[place]? = some kind := by
    intro place kind hplace
    have hlt : place < arrived.length := (List.getElem?_eq_some_iff.mp hplace).1
    rw [List.getElem?_append_left hlt, hplace]
  refine ⟨fun place hplace => hstays (h.first place hplace), h.inOrder, fun place hplace => ?_⟩
  rcases h.linked place hplace with hkey | ⟨hdelta, hearlier⟩
  · exact Or.inl (hstays hkey)
  · exact Or.inr ⟨hstays hdelta, hearlier⟩

omit h

end Chained

section

variable {δ : Type} {P : NalParser δ}

namespace Worker

structure Feeding (w : Worker P) (place : Nat) : Prop where
  chained : Chained w.arrived w.fed
  past : ∀ fed ∈ w.past, Chained w.arrived fed
  before : ∀ earlier ∈ w.fed, earlier < place

/-- While the flag is up, a decoder that takes chunks took the one before the place. -/
def Linked (w : Worker P) (place : Nat) : Prop :=
  w.referenceValid = true → w.decoder = some .configured →
    ∃ earlier, place = earlier + 1 ∧ earlier ∈ w.fed

structure Recovered (w : Worker P) : Prop where
  configured : w.decoderConfigured = false
  referenceValid : w.referenceValid = false
  pendingFrames : w.pendingFrames = []
  nalParser : w.nalParser = P.reset

def CanRecover (w : Worker P) : Prop :=
  w.stopped = false ∧ w.recoveryAttempts < MAX_RECOVERY_ATTEMPTS

variable {w : Worker P} {place : Nat}

theorem Linked.of_invalid (h : w.referenceValid = false) : w.Linked place := by
  intro hvalid
  rw [h] at hvalid
  cases hvalid

theorem Linked.of_idle (h : w.decoder ≠ some .configured) : w.Linked place :=
  fun _ hdecoder => absurd hdecoder h

theorem Recovered.linked (h : w.Recovered) : w.Linked place := Linked.of_invalid h.referenceValid

namespace Feeding

theorem mono (h : w.Feeding place) {later : Nat} (hle : place ≤ later) : w.Feeding later where
  chained := h.chained
  past := h.past
  before := fun earlier hfed => Nat.lt_of_lt_of_le (h.before earlier hfed) hle

theorem renew (h : w.Feeding place) (state : DecoderState) : (w.renew state).Feeding place where
  chained := Chained.nil _
  past := by
    intro fed hfed
    rcases mem_append.mp hfed with hpast | hlast
    · exact h.past fed hpast
    · rw [mem_singleton.mp hlast]
      exact h.chained
  before := fun _ hfed => absurd hfed not_mem_nil

end Feeding

theorem handleDecoderError_recovers (h : w.CanRecover) : w.handleDecoderError =
    { w.setupDecoder with
      recoveryAttempts := w.recoveryAttempts + 1
      referenceValid := false
      pendingFrames := []
      nalParser := P.reset
      idrRequested := true } := by
  have hleft : ¬ w.recoveryAttempts + 1 > MAX_RECOVERY_ATTEMPTS := by
    have := h.2
    omega
  unfold handleDecoderError
  rw [if_neg (by simp [h.1]), if_neg hleft]

theorem recovered_of_canRecover (h : w.CanRecover) : w.handleDecoderError.Recovered := by
  rw [handleDecoderError_recovers h]
  exact ⟨rfl, rfl, rfl, rfl⟩

/-- An error recovers, or only counts. -/
theorem handleDecoderError_cases (w : Worker P) :
    w.CanRecover ∨ (¬ w.CanRecover ∧ ∃ attempts,
      w.handleDecoderError = { w with recoveryAttempts := attempts }) := by
  by_cases h : w.CanRecover
  · exact Or.inl h
  · right
    refine ⟨h, ?_⟩
    unfold handleDecoderError
    by_cases hstopped : w.stopped = true
    · rw [if_pos hstopped]
      exact ⟨w.recoveryAttempts, rfl⟩
    · rw [if_neg hstopped, if_pos]
      · exact ⟨w.recoveryAttempts + 1, rfl⟩
      · by_contra hleft
        exact h ⟨by simpa using hstopped, by omega⟩

theorem Feeding.handleDecoderError (h : w.Feeding place) : w.handleDecoderError.Feeding place := by
  rcases handleDecoderError_cases w with hrecovers | ⟨_, attempts, heq⟩
  · rw [handleDecoderError_recovers hrecovers]
    exact ⟨(h.renew .unconfigured).chained, (h.renew .unconfigured).past,
      (h.renew .unconfigured).before⟩
  · rw [heq]
    exact ⟨h.chained, h.past, h.before⟩

/-- An error leaves no link behind, if it recovers or finds a decoder that takes nothing. -/
theorem linked_handleDecoderError (h : w.decoder = some .configured → w.CanRecover) :
    w.handleDecoderError.Linked place := by
  rcases handleDecoderError_cases w with hrecovers | ⟨hno, attempts, heq⟩
  · exact (recovered_of_canRecover hrecovers).linked
  · rw [heq]
    exact Linked.of_idle fun hdecoder => hno (h hdecoder)

variable {frame : Frame δ}

theorem submit_feeds {seen : Seen} (h : w.Feeding frame.position)
    (harrived : w.arrived[frame.position]? = some frame.arrival)
    (hlink : frame.isKeyframe = false → w.decoder = some .configured →
      ∃ earlier, frame.position = earlier + 1 ∧ earlier ∈ w.fed)
    (hrecovers : w.decoder = some .configured → w.CanRecover ∨ seen.accepts = true) :
    (w.submit frame seen).Feeding (frame.position + 1) ∧
      (w.submit frame seen).Linked (frame.position + 1) := by
  unfold submit
  by_cases htaken : w.decoder = some .configured ∧ seen.accepts = true
  · have hnext : w.arrived[frame.position]? = some .key ∨
        (w.arrived[frame.position]? = some .delta ∧
          ∃ earlier, frame.position = earlier + 1 ∧ earlier ∈ w.fed) := by
      cases hkey : frame.isKeyframe with
      | true => exact Or.inl (by simpa [Frame.arrival, hkey] using harrived)
      | false =>
        exact Or.inr ⟨by simpa [Frame.arrival, hkey] using harrived, hlink hkey htaken.1⟩
    have hchained := h.chained.snoc h.before hnext
    have hbefore : ∀ earlier ∈ w.fed ++ [frame.position], earlier < frame.position + 1 := by
      intro earlier hfed
      rcases mem_append.mp hfed with hold | hlast
      · have := h.before earlier hold
        omega
      · have := mem_singleton.mp hlast
        omega
    have hlast : ∃ earlier, frame.position + 1 = earlier + 1 ∧
        earlier ∈ w.fed ++ [frame.position] :=
      ⟨frame.position, rfl, mem_append_right _ (mem_singleton.mpr rfl)⟩
    rw [if_pos htaken]
    cases frame.isKeyframe with
    | true => exact ⟨⟨hchained, h.past, hbefore⟩, fun _ _ => hlast⟩
    | false => exact ⟨⟨hchained, h.past, hbefore⟩, fun _ _ => hlast⟩
  · rw [if_neg htaken]
    refine ⟨h.handleDecoderError.mono (by omega), linked_handleDecoderError fun hdecoder => ?_⟩
    exact (hrecovers hdecoder).resolve_right fun haccepts => htaken ⟨hdecoder, haccepts⟩

theorem Feeding.flushDecodeQueue (h : w.Feeding place) (seen : Seen) :
    (w.flushDecodeQueue seen).Feeding place := by
  unfold Worker.flushDecodeQueue
  split
  · exact h
  · split
    · exact ⟨(h.renew .configured).chained, (h.renew .configured).past,
        (h.renew .configured).before⟩
    · exact h.renew .unconfigured

theorem flushDecodeQueue_frame (w : Worker P) (seen : Seen) :
    (w.flushDecodeQueue seen).arrived = w.arrived ∧
      (w.flushDecodeQueue seen).stopped = w.stopped ∧
      (w.flushDecodeQueue seen).recoveryAttempts = w.recoveryAttempts := by
  unfold flushDecodeQueue
  split
  · exact ⟨rfl, rfl, rfl⟩
  · split <;> exact ⟨rfl, rfl, rfl⟩

/-- The decoder is there and not closed. -/
def Open (w : Worker P) : Prop :=
  w.decoder = some .configured ∨ w.decoder = some .unconfigured

/-- Where a frame is offered to the decoder, an error recovers, or there is none. -/
def Steady (w : Worker P) (isKeyframe : Bool) (seen : Seen) : Prop :=
  w.Offers isKeyframe → w.CanRecover ∨
    (seen.accepts = true ∧ (isKeyframe = true ∨ seen.decodeQueueSize < DECODE_QUEUE_MAX ∨
      seen.now - w.stallStart seen ≤ QUEUE_RESET_MS))

theorem feedKeyframe_feeds {seen : Seen} (h : w.Feeding frame.position)
    (harrived : w.arrived[frame.position]? = some frame.arrival) (hkey : frame.isKeyframe = true)
    (hrecovers : w.CanRecover ∨ seen.accepts = true) :
    (w.feedKeyframe frame seen).Feeding (frame.position + 1) ∧
      (w.feedKeyframe frame seen).Linked (frame.position + 1) := by
  have hnoLink : ∀ {Q : Prop}, frame.isKeyframe = false → Q := by
    intro Q hno
    rw [hkey] at hno
    cases hno
  have hzero : ({ w with queueStallStart := 0 } : Worker P).Feeding frame.position :=
    ⟨h.chained, h.past, h.before⟩
  unfold feedKeyframe
  split
  · obtain ⟨hsame, hstopped, hattempts⟩ := flushDecodeQueue_frame { w with queueStallStart := 0 } seen
    refine submit_feeds (hzero.flushDecodeQueue seen) ?_ (fun hno => hnoLink hno) fun _ => ?_
    · rw [hsame]
      exact harrived
    · unfold CanRecover
      rw [hstopped, hattempts]
      exact hrecovers
  · exact submit_feeds hzero harrived (fun hno => hnoLink hno) fun _ => hrecovers

theorem saturated_feeds {seen : Seen} (h : w.Feeding frame.position)
    (harrived : w.arrived[frame.position]? = some frame.arrival)
    (hlink : w.decoder = some .configured →
      ∃ earlier, frame.position = earlier + 1 ∧ earlier ∈ w.fed)
    (hrecovers : w.decoder = some .configured → w.CanRecover ∨
      (seen.accepts = true ∧ seen.now - w.stallStart seen ≤ QUEUE_RESET_MS)) :
    (w.saturated frame seen).Feeding (frame.position + 1) ∧
      (w.saturated frame seen).Linked (frame.position + 1) := by
  have hstall : ∀ start, ({ w with queueStallStart := start } : Worker P).Feeding frame.position :=
    fun _ => ⟨h.chained, h.past, h.before⟩
  unfold saturated
  by_cases hreset : seen.now - w.stallStart seen > QUEUE_RESET_MS
  · rw [if_pos hreset]
    refine ⟨(hstall 0).handleDecoderError.mono (by omega), linked_handleDecoderError fun hdec => ?_⟩
    exact (hrecovers hdec).resolve_right fun hno => absurd hreset (not_lt.mpr hno.2)
  · rw [if_neg hreset]
    split
    · exact ⟨⟨h.chained, h.past, (h.mono (Nat.le_succ _)).before⟩, Linked.of_invalid rfl⟩
    · exact submit_feeds (hstall _) harrived (fun _ => hlink)
        fun hdec => (hrecovers hdec).imp_right And.left

theorem offer_feeds {seen : Seen} (hopen : w.Open) (h : w.Feeding frame.position)
    (harrived : w.arrived[frame.position]? = some frame.arrival)
    (hlink : frame.isKeyframe = false → w.Linked frame.position)
    (hsteady : w.Steady frame.isKeyframe seen) :
    (w.offer frame seen).Feeding (frame.position + 1) ∧
      (w.offer frame seen).Linked (frame.position + 1) := by
  have hlater := h.mono (Nat.le_succ _)
  unfold offer
  by_cases hkey : frame.isKeyframe = true
  · rw [if_pos hkey]
    refine feedKeyframe_feeds h harrived hkey ?_
    rw [hkey] at hsteady
    refine (hsteady ?_).imp_right And.left
    exact hopen.imp (fun hdec => ⟨hdec, Or.inl rfl⟩) fun hdec => ⟨hdec, rfl⟩
  · rw [if_neg hkey]
    have hkey := Bool.eq_false_of_not_eq_true hkey
    rw [hkey] at hsteady
    by_cases hvalid : w.referenceValid = true
    · rw [if_neg (by simp [hvalid])]
      have hearlier := hlink hkey hvalid
      have hoffers : w.decoder = some .configured → w.Offers false :=
        fun hdec => Or.inl ⟨hdec, Or.inr hvalid⟩
      split
      · refine saturated_feeds h harrived hearlier fun hdec => ?_
        refine (hsteady (hoffers hdec)).imp_right fun hfine => ⟨hfine.1, ?_⟩
        rcases hfine.2 with hno | hfew | hsoon
        · cases hno
        · omega
        · exact hsoon
      · refine submit_feeds ⟨h.chained, h.past, h.before⟩ harrived (fun _ => hearlier) ?_
        exact fun hdec => (hsteady (hoffers hdec)).imp_right And.left
    · rw [if_pos (by simp [hvalid])]
      exact ⟨⟨h.chained, h.past, hlater.before⟩,
        Linked.of_invalid (Bool.eq_false_of_not_eq_true hvalid)⟩

theorem decodeFrame_eq_offer (hconfigured : w.decoderConfigured = true) (hopen : w.Open)
    (frame : Frame δ) (seen : Seen) : w.decodeFrame frame seen = w.offer frame seen := by
  unfold decodeFrame
  rw [if_neg (by simp [hconfigured])]
  rcases hopen with hdec | hdec <;> rw [hdec]

/-- A frame that is decoded at once leaves no gap. -/
theorem decode_feeds (frame : Frame δ) {seen : Seen} (hconfigured : w.decoderConfigured = true)
    (h : w.Feeding frame.position) (harrived : w.arrived[frame.position]? = some frame.arrival)
    (hlink : frame.isKeyframe = false → w.Linked frame.position)
    (hsteady : w.Steady frame.isKeyframe seen) :
    (w.decodeFrame frame seen).Feeding (frame.position + 1) ∧
      (w.decodeFrame frame seen).Linked (frame.position + 1) := by
  have hlater := h.mono (Nat.le_succ _)
  by_cases hopen : w.Open
  · rw [decodeFrame_eq_offer hconfigured hopen]
    exact offer_feeds hopen h harrived hlink hsteady
  · unfold decodeFrame
    rw [if_neg (by simp [hconfigured])]
    have hidle : w.decoder ≠ some .configured := fun hdec => hopen (Or.inl hdec)
    cases hdec : w.decoder with
    | none => exact ⟨hlater, Linked.of_idle hidle⟩
    | some state =>
      cases state with
      | closed =>
        exact ⟨hlater.handleDecoderError,
          linked_handleDecoderError fun hno => absurd hno hidle⟩
      | configured => exact absurd (Or.inl hdec) hopen
      | unconfigured => exact absurd (Or.inr hdec) hopen

structure Kept (w w' : Worker P) : Prop where
  arrived : w'.arrived = w.arrived
  stopped : w'.stopped = w.stopped
  isOpen : w.Open → w'.Open
  goes : w'.Recovered ∨ (w'.decoderConfigured = w.decoderConfigured ∧
    w'.pendingFrames = w.pendingFrames ∧ w'.nalParser = w.nalParser ∧
    (w.CanRecover → w'.CanRecover))

namespace Kept

variable {w w' w'' : Worker P}

theorem refl (w : Worker P) : Kept w w := ⟨rfl, rfl, id, Or.inr ⟨rfl, rfl, rfl, id⟩⟩

theorem of_stall (w : Worker P) (start : ℚ) (h : Kept { w with queueStallStart := start } w') :
    Kept w w' := ⟨h.arrived, h.stopped, h.isOpen, h.goes⟩

end Kept

theorem kept_handleDecoderError (w : Worker P) : Kept w w.handleDecoderError := by
  rcases handleDecoderError_cases w with hrecovers | ⟨hno, attempts, heq⟩
  · have hrecovered := recovered_of_canRecover hrecovers
    rw [handleDecoderError_recovers hrecovers] at hrecovered ⊢
    exact ⟨rfl, rfl, fun _ => Or.inr rfl, Or.inl hrecovered⟩
  · rw [heq]
    exact ⟨rfl, rfl, id, Or.inr ⟨rfl, rfl, rfl, fun h => absurd h hno⟩⟩

theorem kept_submit (w : Worker P) (frame : Frame δ) (seen : Seen) :
    Kept w (w.submit frame seen) := by
  unfold submit
  split
  · split <;> exact ⟨rfl, rfl, id, Or.inr ⟨rfl, rfl, rfl, id⟩⟩
  · exact kept_handleDecoderError w

theorem kept_flush_submit (w : Worker P) (frame : Frame δ) (seen : Seen) :
    Kept w ((w.flushDecodeQueue seen).submit frame seen) := by
  have hflushed : Kept w (w.flushDecodeQueue seen) ∧
      (w.flushDecodeQueue seen).decoderConfigured = w.decoderConfigured ∧
      (w.flushDecodeQueue seen).pendingFrames = w.pendingFrames ∧
      (w.flushDecodeQueue seen).nalParser = w.nalParser ∧
      (w.CanRecover → (w.flushDecodeQueue seen).CanRecover) := by
    unfold flushDecodeQueue
    split
    · exact ⟨Kept.refl w, rfl, rfl, rfl, id⟩
    · split
      · exact ⟨⟨rfl, rfl, fun _ => Or.inl rfl, Or.inr ⟨rfl, rfl, rfl, id⟩⟩, rfl, rfl, rfl, id⟩
      · exact ⟨⟨rfl, rfl, fun _ => Or.inr rfl, Or.inr ⟨rfl, rfl, rfl, id⟩⟩, rfl, rfl, rfl, id⟩
  obtain ⟨hkept, hconfigured, hpending, hparser, hcan⟩ := hflushed
  have hsubmitted := kept_submit (w.flushDecodeQueue seen) frame seen
  refine ⟨hsubmitted.arrived.trans hkept.arrived, hsubmitted.stopped.trans hkept.stopped,
    fun hopen => hsubmitted.isOpen (hkept.isOpen hopen), hsubmitted.goes.imp_right fun h => ?_⟩
  exact ⟨h.1.trans hconfigured, h.2.1.trans hpending, h.2.2.1.trans hparser,
    fun hw => h.2.2.2 (hcan hw)⟩

theorem kept_offer (w : Worker P) (frame : Frame δ) (seen : Seen) :
    Kept w (w.offer frame seen) := by
  unfold offer
  split
  · unfold feedKeyframe
    split
    · exact Kept.of_stall w 0 (kept_flush_submit _ frame seen)
    · exact Kept.of_stall w 0 (kept_submit _ frame seen)
  split
  · exact ⟨rfl, rfl, id, Or.inr ⟨rfl, rfl, rfl, id⟩⟩
  split
  · unfold saturated
    split
    · exact Kept.of_stall w 0 (kept_handleDecoderError _)
    split
    · exact ⟨rfl, rfl, id, Or.inr ⟨rfl, rfl, rfl, id⟩⟩
    · exact Kept.of_stall w _ (kept_submit _ frame seen)
  · exact Kept.of_stall w 0 (kept_submit _ frame seen)

theorem kept_decodeFrame (hconfigured : w.decoderConfigured = true) (frame : Frame δ)
    (seen : Seen) : Kept w (w.decodeFrame frame seen) := by
  unfold decodeFrame
  rw [if_neg (by simp [hconfigured])]
  split
  · exact Kept.refl w
  · exact kept_handleDecoderError w
  · exact kept_offer w frame seen

theorem stall_handleDecoderError (w : Worker P) :
    w.handleDecoderError.queueStallStart = w.queueStallStart := by
  unfold handleDecoderError
  split
  · rfl
  · split <;> rfl

theorem stall_submit (w : Worker P) (frame : Frame δ) (seen : Seen) :
    (w.submit frame seen).queueStallStart = 0 ∨
      (w.submit frame seen).queueStallStart = w.queueStallStart := by
  unfold submit
  split
  · split
    · exact Or.inl rfl
    · exact Or.inr rfl
  · exact Or.inr (stall_handleDecoderError w)

theorem stall_feedKeyframe (w : Worker P) (frame : Frame δ) (seen : Seen) :
    (w.feedKeyframe frame seen).queueStallStart = 0 := by
  unfold feedKeyframe
  split
  · rcases stall_submit (({ w with queueStallStart := 0 } : Worker P).flushDecodeQueue seen) frame
      seen with hzero | hsame
    · exact hzero
    · rw [hsame]
      unfold flushDecodeQueue
      split
      · rfl
      · split <;> rfl
  · rcases stall_submit ({ w with queueStallStart := 0 } : Worker P) frame seen with hzero | hsame
    · exact hzero
    · exact hsame

/-- A saturated queue is timed from when it was first found so. -/
theorem stall_offer (w : Worker P) (frame : Frame δ) (seen : Seen) :
    (w.offer frame seen).queueStallStart = 0 ∨
      (frame.isKeyframe = false ∧
        (w.offer frame seen).queueStallStart = w.stallStart seen) := by
  have hstart : w.queueStallStart = 0 ∨ w.queueStallStart = w.stallStart seen := by
    unfold stallStart
    by_cases hzero : w.queueStallStart = 0
    · exact Or.inl hzero
    · rw [if_neg hzero]
      exact Or.inr rfl
  unfold offer
  by_cases hkey : frame.isKeyframe = true
  · rw [if_pos hkey]
    exact Or.inl (stall_feedKeyframe w frame seen)
  rw [if_neg hkey]
  have hdelta := Bool.eq_false_of_not_eq_true hkey
  split
  · exact hstart.imp_right fun hsame => ⟨hdelta, hsame⟩
  split
  · unfold saturated
    split
    · exact Or.inl (stall_handleDecoderError _)
    split
    · exact Or.inr ⟨hdelta, rfl⟩
    · exact (stall_submit _ frame seen).imp_right fun hsame => ⟨hdelta, hsame⟩
  · left
    rcases stall_submit ({ w with queueStallStart := 0 } : Worker P) frame seen with hzero | hsame
    · exact hzero
    · exact hsame

def Follows (before after : Frame δ) : Prop :=
  before.position < after.position ∧
    (after.isKeyframe = false → after.position = before.position + 1)

/-- Through a flush an error recovers, or there is none. -/
def Sound (w : Worker P) (seen : Nat → Seen) : Prop :=
  w.CanRecover ∨
    ((∀ i, (seen i).accepts = true ∧ ∀ j, (seen j).now - (seen i).now ≤ QUEUE_RESET_MS) ∧
      ((∀ frame, w.pendingFrames.head? = some frame → frame.isKeyframe = true) ∨
        w.queueStallStart = 0 ∨ ∀ i, (seen i).now - w.queueStallStart ≤ QUEUE_RESET_MS))

structure Drained (w w' : Worker P) (place : Nat) : Prop where
  feeding : w'.Feeding place
  linked : w'.Linked place
  arrived : w'.arrived = w.arrived
  stopped : w'.stopped = w.stopped
  pendingFrames : w'.pendingFrames = []
  goes : w'.Recovered ∨ w'.decoderConfigured = true

def withRest (w : Worker P) (rest : List (Frame δ)) : Worker P := { w with pendingFrames := rest }

theorem drain_nil (turns : Nat) (seen : Nat → Seen) (h : w.pendingFrames = []) :
    drain turns w seen = w := by
  cases turns with
  | zero => rfl
  | succ turns => simp only [drain, h]

variable {seen : Nat → Seen}

theorem Sound.steady {rest : List (Frame δ)}
    (h : w.Sound seen) (hpending : w.pendingFrames = frame :: rest) :
    (w.withRest rest).Steady frame.isKeyframe (seen 0) := by
  intro _
  refine h.imp id fun hfine => ⟨(hfine.1 0).1, ?_⟩
  rcases hfine.2 with hkey | hzero | hsoon
  · exact Or.inl (hkey frame (by rw [hpending]; rfl))
  · right
    right
    change (seen 0).now - (if w.queueStallStart = 0 then (seen 0).now else _) ≤ _
    rw [if_pos hzero]
    exact (hfine.1 0).2 0
  · right
    right
    change (seen 0).now - (if w.queueStallStart = 0 then (seen 0).now else _) ≤ _
    split
    · exact (hfine.1 0).2 0
    · exact hsoon 0

theorem Sound.next {rest : List (Frame δ)}
    (h : w.Sound seen) (hpending : w.pendingFrames = frame :: rest) (hcan : w.CanRecover →
      ((w.withRest rest).offer frame (seen 0)).CanRecover) :
    ((w.withRest rest).offer frame (seen 0)).Sound
      fun i => seen (i + 1) := by
  refine h.imp hcan fun hfine => ⟨fun i => ⟨(hfine.1 (i + 1)).1, fun j => (hfine.1 _).2 _⟩, ?_⟩
  right
  rcases stall_offer (w.withRest rest) frame (seen 0) with
    hzero | ⟨hdelta, hsame⟩
  · exact Or.inl hzero
  · right
    intro i
    rw [hsame]
    change _ - (if w.queueStallStart = 0 then (seen 0).now else w.queueStallStart) ≤ _
    split
    · exact (hfine.1 0).2 _
    · next hne =>
        rcases hfine.2 with hkey | hzero | hsoon
        · have hno := hkey frame (by rw [hpending]; rfl)
          rw [hdelta] at hno
          cases hno
        · exact absurd hzero hne
        · exact hsoon (i + 1)

theorem drain_feeds (turns : Nat) {place : Nat}
    (hturns : w.pendingFrames.length ≤ turns) (hconfigured : w.decoderConfigured = true)
    (hopen : w.Open) (hsound : w.Sound seen)
    (harrived : ∀ frame ∈ w.pendingFrames, w.arrived[frame.position]? = some frame.arrival)
    (hfollows : w.pendingFrames.IsChain Follows)
    (hbefore : ∀ frame ∈ w.pendingFrames, frame.position < place)
    (hlast : ∀ frame, w.pendingFrames.getLast? = some frame → frame.position + 1 = place)
    (hfirst : ∀ frame, w.pendingFrames.head? = some frame →
      w.Feeding frame.position ∧ (frame.isKeyframe = false → w.Linked frame.position))
    (hnone : w.pendingFrames = [] → w.Feeding place ∧ w.Linked place) :
    Drained w (drain turns w seen) place := by
  induction turns generalizing w seen with
  | zero =>
    have hnil : w.pendingFrames = [] := length_eq_zero_iff.mp (by omega)
    obtain ⟨hfeeding, hlinked⟩ := hnone hnil
    exact ⟨hfeeding, hlinked, rfl, rfl, hnil, Or.inr hconfigured⟩
  | succ turns ih =>
    cases hpending : w.pendingFrames with
    | nil =>
      obtain ⟨hfeeding, hlinked⟩ := hnone hpending
      rw [drain_nil _ _ hpending]
      exact ⟨hfeeding, hlinked, rfl, rfl, hpending, Or.inr hconfigured⟩
    | cons frame rest =>
      rw [hpending] at hturns harrived hfollows hbefore hlast hfirst
      obtain ⟨hfeeding, hlink⟩ := hfirst frame rfl
      have hwhere := hbefore frame mem_cons_self
      have hstep := offer_feeds (w := w.withRest rest) hopen
        ⟨hfeeding.chained, hfeeding.past, hfeeding.before⟩
        (harrived frame mem_cons_self) hlink (hsound.steady hpending)
      have hkept := kept_offer (w.withRest rest) frame (seen 0)
      have hdrain : drain (turns + 1) w seen =
          drain turns ((w.withRest rest).offer frame (seen 0))
            fun i => seen (i + 1) := by
        simp only [drain, hpending]
        exact congrArg (fun next => drain turns next fun i => seen (i + 1))
          (decodeFrame_eq_offer (w := w.withRest rest) hconfigured hopen frame (seen 0))
      rw [hdrain]
      rcases hkept.goes with hrecovered | ⟨hconfigured', hpending', _, hcan⟩
      · rw [drain_nil _ _ hrecovered.pendingFrames]
        exact ⟨hstep.1.mono hwhere, hrecovered.linked, hkept.arrived, hkept.stopped,
          hrecovered.pendingFrames, Or.inl hrecovered⟩
      · have hrest : ((w.withRest rest).offer frame (seen 0)).pendingFrames = rest := hpending'
        suffices hdrained : Drained ((w.withRest rest).offer frame (seen 0))
            (drain turns ((w.withRest rest).offer frame (seen 0)) fun i => seen (i + 1)) place
          from ⟨hdrained.feeding, hdrained.linked, hdrained.arrived.trans hkept.arrived,
            hdrained.stopped.trans hkept.stopped, hdrained.pendingFrames, hdrained.goes⟩
        refine ih ?_ (hconfigured'.trans hconfigured) (hkept.isOpen hopen)
          (hsound.next hpending hcan) ?_ ?_ ?_ ?_ ?_ ?_
        · rw [hrest]
          simpa using hturns
        · rw [hrest, hkept.arrived]
          exact fun other hother => harrived other (mem_cons_of_mem _ hother)
        · rw [hrest]
          exact hfollows.tail
        · rw [hrest]
          exact fun other hother => hbefore other (mem_cons_of_mem _ hother)
        · rw [hrest]
          intro other hother
          refine hlast other ?_
          rw [List.getLast?_cons, hother]
          rfl
        · rw [hrest]
          intro other hother
          obtain ⟨tail, rfl⟩ : ∃ tail, rest = other :: tail := by
            cases rest with
            | nil => cases hother
            | cons head tail =>
              obtain rfl : head = other := by simpa using hother
              exact ⟨tail, rfl⟩
          obtain ⟨hlater, hnext⟩ := (isChain_cons_cons.mp hfollows).1
          refine ⟨hstep.1.mono hlater, fun hdelta => ?_⟩
          rw [hnext hdelta]
          exact hstep.2
        · rw [hrest]
          rintro rfl
          have hend := hlast frame rfl
          rw [← hend]
          exact hstep

/-- Without its reference no delta that is held is fed. -/
theorem drain_invalid (turns : Nat) (hturns : w.pendingFrames.length ≤ turns)
    (hconfigured : w.decoderConfigured = true) (hopen : w.Open)
    (hinvalid : w.referenceValid = false)
    (hdeltas : ∀ frame ∈ w.pendingFrames, frame.isKeyframe = false) :
    ∃ idr, drain turns w seen = { w with pendingFrames := [], idrRequested := idr } := by
  induction turns generalizing w seen with
  | zero =>
    have hnil : w.pendingFrames = [] := length_eq_zero_iff.mp (by omega)
    refine ⟨w.idrRequested, ?_⟩
    rw [← hnil]
    rfl
  | succ turns ih =>
    cases hpending : w.pendingFrames with
    | nil =>
      refine ⟨w.idrRequested, ?_⟩
      rw [drain_nil _ _ hpending, ← hpending]
    | cons frame rest =>
      rw [hpending] at hturns hdeltas
      have hoffer : (w.withRest rest).decodeFrame frame (seen 0) =
          (w.withRest rest).requestIdr := by
        rw [decodeFrame_eq_offer (w := w.withRest rest) hconfigured hopen]
        unfold offer
        rw [if_neg (by simp [hdeltas frame mem_cons_self]), if_pos]
        change (!w.referenceValid) = true
        rw [hinvalid]
        rfl
      obtain ⟨idr, heq⟩ : ∃ idr, drain turns (w.withRest rest).requestIdr
          (fun i => seen (i + 1)) =
            { (w.withRest rest).requestIdr with pendingFrames := [], idrRequested := idr } :=
        ih (by simpa [requestIdr, withRest] using hturns) hconfigured hopen hinvalid
          fun other hother => hdeltas other (mem_cons_of_mem _ hother)
      refine ⟨idr, ?_⟩
      simp only [drain, hpending]
      exact (congrArg (fun next => drain turns next fun i => seen (i + 1)) hoffer).trans heq

theorem keyFirst_of_head {frames : List (Frame δ)}
    (h : ∀ frame, frames.head? = some frame → frame.isKeyframe = true) :
    keyFirst frames = frames := by
  unfold keyFirst
  split
  · next first second rest => rw [if_pos (h first rfl)]
  · rfl

theorem keyFirst_of_deltas {frames : List (Frame δ)}
    (h : ∀ frame ∈ frames, frame.isKeyframe = false) : keyFirst frames = frames := by
  have hfind : frames.find? Frame.isKeyframe = none := by
    rw [List.find?_eq_none]
    intro frame hframe
    rw [h frame hframe]
    exact Bool.false_ne_true
  unfold keyFirst
  split
  · rw [hfind]
    split <;> rfl
  · rfl

def planned (w : Worker P) (frames : List (Frame δ)) (idr configured configuring : Bool)
    (parser : P.State) (chains : Nat) : Worker P :=
  { w with
    pendingFrames := frames
    idrRequested := idr
    decoderConfigured := configured
    decoderConfiguring := configuring
    nalParser := parser
    chains := chains }

theorem configureDecoder_planned (w : Worker P) : ∃ configuring chains,
    w.configureDecoder = w.planned w.pendingFrames w.idrRequested w.decoderConfigured
        configuring w.nalParser chains ∧
      (chains ≠ 0 → w.chains ≠ 0 ∨ P.isReady w.nalParser = true) := by
  have hsame : ∃ configuring chains,
      w = w.planned w.pendingFrames w.idrRequested w.decoderConfigured
          configuring w.nalParser chains ∧
        (chains ≠ 0 → w.chains ≠ 0 ∨ P.isReady w.nalParser = true) :=
    ⟨w.decoderConfiguring, w.chains, rfl, Or.inl⟩
  unfold configureDecoder
  split
  · exact hsame
  · by_cases hready : P.isReady w.nalParser = true
    · split
      · exact hsame
      · split
        · exact ⟨true, w.chains + 1, rfl, fun _ => Or.inr hready⟩
        · exact hsame
    · rw [if_pos (by simp [hready])]
      exact hsame

/-- Before a delta nothing but a configuration or a request begins. -/
theorem prepare_delta (w : Worker P) (data : δ) : ∃ idr configuring chains,
    w.prepare data false = w.planned w.pendingFrames idr w.decoderConfigured
        configuring w.nalParser chains ∧
      (chains ≠ 0 → w.chains ≠ 0 ∨ P.isReady w.nalParser = true) := by
  obtain ⟨idr, hparse⟩ : ∃ idr, (w.reconfigure data false).parse data false =
      w.planned w.pendingFrames idr w.decoderConfigured w.decoderConfiguring w.nalParser
        w.chains := by
    have hreconfigure : w.reconfigure data false = w := rfl
    rw [hreconfigure]
    unfold parse
    split
    · exact ⟨w.idrRequested, rfl⟩
    · rw [if_neg Bool.false_ne_true]
      split
      · exact ⟨true, rfl⟩
      · exact ⟨w.idrRequested, rfl⟩
  unfold prepare
  rw [hparse]
  simp only
  split
  · obtain ⟨configuring, chains, heq, hchains⟩ := configureDecoder_planned
      (w.planned w.pendingFrames idr w.decoderConfigured w.decoderConfiguring w.nalParser w.chains)
    exact ⟨idr, configuring, chains, heq, hchains⟩
  · exact ⟨idr, w.decoderConfiguring, w.chains, rfl, Or.inl⟩

theorem parse_key (w : Worker P) (data : δ) : ∃ idr configuring parser chains,
    w.parse data true = w.planned w.keptFor idr w.decoderConfigured configuring parser chains := by
  unfold parse keptFor
  split
  · exact ⟨w.idrRequested, w.decoderConfiguring, w.nalParser, w.chains, rfl⟩
  · obtain ⟨idr, hforget⟩ : ∃ idr, w.forget = w.planned w.forget.pendingFrames idr
        w.decoderConfigured w.decoderConfiguring w.nalParser w.chains := by
      unfold forget
      split
      · exact ⟨false, rfl⟩
      · exact ⟨w.idrRequested, rfl⟩
    rw [if_pos rfl]
    generalize w.forget.pendingFrames = frames at hforget
    rw [hforget]
    split
    · obtain ⟨configuring, chains, heq, _⟩ := configureDecoder_planned
        (w.planned frames idr w.decoderConfigured w.decoderConfiguring
          (P.feed w.nalParser data) w.chains)
      exact ⟨idr, configuring, _, chains, heq⟩
    · exact ⟨idr, w.decoderConfiguring, P.feed w.nalParser data, w.chains, rfl⟩

/-- A keyframe leaves the decoder configured, unless it brings other parameter sets. -/
theorem prepare_key (w : Worker P) (data : δ)
    (hfree : w.decoderConfigured = true → w.pendingFrames = []) :
    ∃ idr configured configuring parser chains,
      w.prepare data true = w.planned w.keptFor idr configured configuring parser chains ∧
        (configured = true ↔ ¬ w.Holds data true) := by
  obtain ⟨configured, configuring, parser, chains, hreconfigure, hconfigured, hkept⟩ :
      ∃ configured configuring parser chains,
        w.reconfigure data true = w.planned w.pendingFrames w.idrRequested configured
          configuring parser chains ∧ (configured = true ↔ ¬ w.Holds data true) ∧
        (w.planned w.pendingFrames w.idrRequested configured configuring parser chains).keptFor =
          w.keptFor := by
    unfold reconfigure
    by_cases hagain : w.decoderConfigured = true ∧ P.changedBy w.nalParser data = true
    · rw [if_pos (by simp [hagain])]
      obtain ⟨configuring, chains, heq, _⟩ := configureDecoder_planned
        (w.planned w.pendingFrames w.idrRequested false false (P.feed P.reset data) w.chains)
      refine ⟨false, configuring, _, chains, heq, ?_, ?_⟩
      · exact ⟨(fun hno => nomatch hno), fun hno => absurd (Or.inr ⟨rfl, hagain.2⟩) hno⟩
      · have hnil := hfree hagain.1
        simp [keptFor, forget, planned, hnil]
    · rw [if_neg (by simpa using hagain)]
      refine ⟨w.decoderConfigured, w.decoderConfiguring, w.nalParser, w.chains, rfl, ?_, rfl⟩
      unfold Holds
      cases hconf : w.decoderConfigured with
      | false => simp
      | true =>
        rw [hconf] at hagain
        simpa using hagain
  obtain ⟨idr, configuring', parser', chains', hparse⟩ := parse_key
    (w.planned w.pendingFrames w.idrRequested configured configuring parser chains) data
  rw [hkept] at hparse
  unfold prepare
  rw [hreconfigure, hparse]
  simp only
  split
  · obtain ⟨configuring'', chains'', heq, _⟩ := configureDecoder_planned
      (w.planned w.keptFor idr configured configuring' parser' chains')
    exact ⟨idr, configured, configuring'', parser', chains'', heq, hconfigured⟩
  · exact ⟨idr, configured, configuring', parser', chains', rfl, hconfigured⟩

theorem decodeFrame_held (hconfigured : w.decoderConfigured = false) (frame : Frame δ)
    (seen : Seen) : w.decodeFrame frame seen =
      if w.pendingFrames.length < pendingMax then w.withRest (w.pendingFrames ++ [frame])
      else w := by
  unfold decodeFrame
  rw [if_pos (by simp [hconfigured])]
  rfl

def came (w : Worker P) (isKeyframe : Bool) : Worker P :=
  { w with arrived := w.arrived ++ [if isKeyframe then Arrival.key else .delta] }

theorem came_last (w : Worker P) (data : δ) (isKeyframe : Bool) :
    (w.came isKeyframe).arrived[w.arrived.length]? =
      some (Frame.mk data isKeyframe w.arrived.length).arrival := by
  simp [came, Frame.arrival]

theorem came_earlier (h : w.arrived[frame.position]? = some frame.arrival)
    (isKeyframe : Bool) : (w.came isKeyframe).arrived[frame.position]? = some frame.arrival := by
  have hlt : frame.position < w.arrived.length := (List.getElem?_eq_some_iff.mp h).1
  change (w.arrived ++ _)[frame.position]? = _
  rw [List.getElem?_append_left hlt, h]

theorem came_feeding (h : w.Feeding w.arrived.length) (isKeyframe : Bool) :
    (w.came isKeyframe).Feeding w.arrived.length where
  chained := h.chained.arrive _
  past := fun fed hfed => (h.past fed hfed).arrive _
  before := h.before

theorem came_length (w : Worker P) (isKeyframe : Bool) :
    (w.came isKeyframe).arrived.length = w.arrived.length + 1 := by
  simp [came]

theorem keptFor_eq (w : Worker P) : w.keptFor =
    if P.isReady w.nalParser = false ∧ w.idrRequested = true then [] else w.pendingFrames := by
  unfold keptFor forget
  by_cases hready : P.isReady w.nalParser = true
  · simp [hready]
  · by_cases hidr : w.idrRequested = true
    · cases hpending : w.pendingFrames with
      | nil => simp [hready, hidr, hpending]
      | cons frame rest => simp [hready, hidr]
    · simp [hready, hidr]

theorem keptFor_came (w : Worker P) (isKeyframe : Bool) :
    (w.came isKeyframe).keptFor = w.keptFor := by
  rw [keptFor_eq, keptFor_eq]
  rfl

structure Inv (w : Worker P) : Prop where
  feeding : w.Feeding w.arrived.length
  /-- A configured worker holds nothing, and its flag is true to what it fed. -/
  free : w.decoderConfigured = true → w.pendingFrames = [] ∧ w.Linked w.arrived.length
  matched : ∀ frame ∈ w.pendingFrames, w.arrived[frame.position]? = some frame.arrival
  held : w.HoldsKey → (∀ frame, w.pendingFrames.head? = some frame → frame.isKeyframe = true) ∧
    w.pendingFrames.IsChain Follows ∧
    ∀ frame, w.pendingFrames.getLast? = some frame → frame.position + 1 = w.arrived.length
  /-- A configuration under way finds a keyframe, or the flag down. -/
  waits : w.decoderConfigured = false → (w.chains ≠ 0 ∨ P.isReady w.nalParser = true) → w.Open →
    w.HoldsKey ∨ w.referenceValid = false

theorem not_holdsKey_of_nil (h : w.pendingFrames = []) : ¬ w.HoldsKey := by
  rintro ⟨frame, hframe, _⟩
  rw [h] at hframe
  exact absurd hframe not_mem_nil

namespace Inv

theorem initial (P : NalParser δ) : Inv (initial P) where
  feeding := ⟨Chained.nil _, fun _ h => absurd h not_mem_nil,
    fun _ h => absurd h not_mem_nil⟩
  free := fun h => by cases h
  matched := fun _ h => absurd h not_mem_nil
  held := fun h => absurd h (not_holdsKey_of_nil rfl)
  waits := by
    rintro _ (hchains | hready) _
    · exact absurd rfl hchains
    · change P.isReady P.reset = true at hready
      rw [P.reset_not_ready] at hready
      cases hready

/-- A worker that fed what it had, or recovers, is at rest. -/
theorem settled {w' : Worker P} (hfeeding : w'.Feeding w'.arrived.length)
    (hlinked : w'.Linked w'.arrived.length) (hpending : w'.pendingFrames = [])
    (hgoes : w'.Recovered ∨ w'.decoderConfigured = true) : Inv w' where
  feeding := hfeeding
  free := fun _ => ⟨hpending, hlinked⟩
  matched := by
    rw [hpending]
    exact fun _ h => absurd h not_mem_nil
  held := fun h => absurd h (not_holdsKey_of_nil hpending)
  waits := by
    intro hconfigured _ _
    rcases hgoes with hrecovered | hno
    · exact Or.inr hrecovered.referenceValid
    · rw [hconfigured] at hno
      cases hno

theorem before (h : Inv w) : ∀ frame ∈ w.pendingFrames, frame.position < w.arrived.length :=
  fun frame hframe => (List.getElem?_eq_some_iff.mp (h.matched frame hframe)).1

/-- A configuration that completes feeds what is held. -/
theorem configure (h : Inv w) (kept : Bool) {seen : Nat → Seen} (hchains : w.chains ≠ 0)
    (hopen : w.Open) (hcompleted : w.Completed seen) :
    Inv ((w.configure kept).flushPendingFrames seen) := by
  have hrenewed : (w.configure kept).Feeding w.arrived.length :=
    ⟨Chained.nil _, (h.feeding.renew .configured).past, fun _ hno => absurd hno not_mem_nil⟩
  by_cases hkey : w.HoldsKey
  · obtain ⟨hhead, hfollows, hlast⟩ := h.held hkey
    have hflush : (w.configure kept).flushPendingFrames seen =
        drain w.pendingFrames.length (w.configure kept) seen := by
      change drain w.pendingFrames.length
        ((w.configure kept).withRest (keyFirst w.pendingFrames)) seen = _
      rw [keyFirst_of_head hhead]
      rfl
    have hdrained : Drained (w.configure kept) ((w.configure kept).flushPendingFrames seen)
        w.arrived.length := by
      rw [hflush]
      refine drain_feeds _ (le_refl _) rfl (Or.inl rfl) ?_ h.matched hfollows h.before hlast ?_ ?_
      · exact (hcompleted.recovers hkey).imp id fun hfine => ⟨hfine, Or.inl hhead⟩
      · intro frame hframe
        refine ⟨⟨hrenewed.chained, hrenewed.past, fun _ hno => absurd hno not_mem_nil⟩, ?_⟩
        intro hdelta
        rw [hhead frame hframe] at hdelta
        cases hdelta
      · exact fun hnil => absurd hkey (not_holdsKey_of_nil hnil)
    have harrived : ((w.configure kept).flushPendingFrames seen).arrived = w.arrived :=
      hdrained.arrived
    refine settled ?_ ?_ hdrained.pendingFrames hdrained.goes
    · rw [harrived]
      exact hdrained.feeding
    · rw [harrived]
      exact hdrained.linked
  · have hinvalid := (h.waits hcompleted.waited (Or.inl hchains) hopen).resolve_left hkey
    have hdeltas : ∀ frame ∈ w.pendingFrames, frame.isKeyframe = false :=
      fun frame hframe => Bool.eq_false_of_not_eq_true fun hno => hkey ⟨frame, hframe, hno⟩
    have hflush : (w.configure kept).flushPendingFrames seen =
        drain w.pendingFrames.length (w.configure kept) seen := by
      change drain w.pendingFrames.length
        ((w.configure kept).withRest (keyFirst w.pendingFrames)) seen = _
      rw [keyFirst_of_deltas hdeltas]
      rfl
    obtain ⟨idr, heq⟩ : ∃ idr, drain w.pendingFrames.length (w.configure kept) seen =
        { w.configure kept with pendingFrames := [], idrRequested := idr } :=
      drain_invalid _ (le_refl _) rfl (Or.inl rfl) hinvalid hdeltas
    rw [hflush, heq]
    exact settled ⟨hrenewed.chained, hrenewed.past, hrenewed.before⟩ (Linked.of_invalid hinvalid)
      rfl (Or.inr rfl)

variable {seen : Seen} {data : δ}

variable (h : Inv w)

include h

/-- A frame that is decoded at once. -/
theorem live {isKeyframe : Bool}
    (hconfigured : w.decoderConfigured = true) (hlive : ¬ w.Holds data isKeyframe)
    (hstopped : w.stopped = false) (htaken : w.Taken data isKeyframe seen)
    (idr configuring : Bool) (parser : P.State) (chains : Nat) :
    Inv (((w.came isKeyframe).planned [] idr true configuring parser chains).decodeFrame
      ⟨data, isKeyframe, w.arrived.length⟩ seen) := by
  have hcame := came_feeding h.feeding isKeyframe
  have hsteady : ((w.came isKeyframe).planned [] idr true configuring parser chains).Steady
      isKeyframe seen := fun hoffers =>
    (htaken.recovers hlive hoffers).imp_left fun hattempts => ⟨hstopped, hattempts⟩
  have hlinked := (h.free hconfigured).2
  obtain ⟨hfeeding, hnext⟩ := decode_feeds ⟨data, isKeyframe, w.arrived.length⟩
    (w := (w.came isKeyframe).planned [] idr true configuring parser chains) rfl
    ⟨hcame.chained, hcame.past, hcame.before⟩ (came_last w data isKeyframe) (fun _ => hlinked)
    hsteady
  have hkept := kept_decodeFrame
    (w := (w.came isKeyframe).planned [] idr true configuring parser chains) rfl
    ⟨data, isKeyframe, w.arrived.length⟩ seen
  have hlength := congrArg List.length hkept.arrived
  rw [show ((w.came isKeyframe).planned [] idr true configuring parser chains).arrived.length =
    w.arrived.length + 1 from came_length w isKeyframe] at hlength
  refine settled ?_ ?_ ?_ (hkept.goes.imp_right And.left)
  · rw [hlength]
    exact hfeeding
  · rw [hlength]
    exact hnext
  · rcases hkept.goes with hrecovered | ⟨_, hpending, _⟩
    · exact hrecovered.pendingFrames
    · exact hpending

/-- A keyframe that is held, behind another one or first. -/
theorem held_key (htaken : w.Taken data true seen)
    (hholds : w.Holds data true) (idr configuring : Bool) (parser : P.State) (chains : Nat) :
    Inv (((w.came true).planned w.keptFor idr false configuring parser chains).decodeFrame
      ⟨data, true, w.arrived.length⟩ seen) := by
  obtain ⟨hroom, hhead⟩ := htaken.leads hholds rfl
  have hcame := came_feeding h.feeding true
  have hsub : w.keptFor = w.pendingFrames ∨ w.keptFor = [] := by
    rw [keptFor_eq]
    split
    · exact Or.inr rfl
    · exact Or.inl rfl
  have hdecode : ((w.came true).planned w.keptFor idr false configuring parser chains).decodeFrame
      ⟨data, true, w.arrived.length⟩ seen =
      (w.came true).planned (w.keptFor ++ [⟨data, true, w.arrived.length⟩]) idr false
        configuring parser chains := by
    rw [decodeFrame_held rfl]
    exact if_pos hroom
  rw [hdecode]
  refine ⟨?_, (fun hno => nomatch hno), ?_, fun _ => ⟨?_, ?_, ?_⟩, fun _ _ _ => Or.inl ?_⟩
  · have hlater : ((w.came true).planned (w.keptFor ++ [⟨data, true, w.arrived.length⟩]) idr false
        configuring parser chains).Feeding w.arrived.length :=
      ⟨hcame.chained, hcame.past, hcame.before⟩
    exact hlater.mono (by simp [planned, came])
  · intro frame hframe
    rcases mem_append.mp hframe with hold | hlast
    · refine came_earlier (h.matched frame ?_) true
      rcases hsub with hsame | hnil
      · rw [← hsame]
        exact hold
      · rw [hnil] at hold
        exact absurd hold not_mem_nil
    · rw [mem_singleton.mp hlast]
      exact came_last w data true
  · intro frame hframe
    change (w.keptFor ++ [_]).head? = _ at hframe
    cases hkept : w.keptFor with
    | nil =>
      rw [hkept] at hframe
      obtain rfl : _ = frame := by simpa using hframe
      rfl
    | cons first rest =>
      rw [hkept] at hframe
      exact hhead frame (by rw [hkept]; simpa using hframe)
  · change (w.keptFor ++ [_]).IsChain Follows
    rcases hsub with hsame | hnil
    · rw [hsame] at hhead ⊢
      cases hpending : w.pendingFrames with
      | nil => exact isChain_singleton _
      | cons first rest =>
        have hkey : w.HoldsKey := by
          refine ⟨first, ?_, hhead first (by rw [hpending]; rfl)⟩
          rw [hpending]
          exact mem_cons_self
        have hbefore := h.before
        rw [← hpending]
        refine List.IsChain.append (h.held hkey).2.1 (isChain_singleton _) ?_
        intro earlier hearlier later hlater
        obtain rfl : _ = later := by simpa using hlater
        exact ⟨hbefore earlier (mem_of_getLast? hearlier), (fun hno => nomatch hno)⟩
    · rw [hnil]
      exact isChain_singleton _
  · intro frame hframe
    change (w.keptFor ++ [_]).getLast? = _ at hframe
    obtain rfl : _ = frame := by simpa using hframe
    exact (came_length w true).symm
  · exact ⟨_, mem_append_right _ (mem_singleton.mpr rfl), rfl⟩

theorem held_delta (htaken : w.Taken data false seen)
    (hholds : w.decoderConfigured = false) (idr configuring : Bool) {chains : Nat}
    (hchains : chains ≠ 0 → w.chains ≠ 0 ∨ P.isReady w.nalParser = true) :
    Inv (((w.came false).planned w.pendingFrames idr false configuring w.nalParser
      chains).decodeFrame ⟨data, false, w.arrived.length⟩ seen) := by
  have hcame := came_feeding h.feeding false
  obtain ⟨frames, hframes, hdecode⟩ : ∃ frames, (frames = w.pendingFrames ++
      [⟨data, false, w.arrived.length⟩] ∨ (frames = w.pendingFrames ∧ ¬ w.HoldsKey)) ∧
      ((w.came false).planned w.pendingFrames idr false configuring w.nalParser
        chains).decodeFrame ⟨data, false, w.arrived.length⟩ seen =
      (w.came false).planned frames idr false configuring w.nalParser chains := by
    by_cases hroom : w.pendingFrames.length < pendingMax
    · refine ⟨_, Or.inl rfl, ?_⟩
      rw [decodeFrame_held rfl]
      exact if_pos hroom
    · refine ⟨_, Or.inr ⟨rfl, fun hkey => hroom (htaken.room (Or.inl hholds) rfl hkey)⟩, ?_⟩
      rw [decodeFrame_held rfl]
      exact if_neg hroom
  rw [hdecode]
  have hkeys : ∀ frame ∈ frames, frame.isKeyframe = true → frame ∈ w.pendingFrames := by
    intro frame hframe hkey
    rcases hframes with rfl | ⟨rfl, _⟩
    · rcases mem_append.mp hframe with hold | hlast
      · exact hold
      · rw [mem_singleton.mp hlast] at hkey
        cases hkey
    · exact hframe
  have hheld : ((w.came false).planned frames idr false configuring w.nalParser chains).HoldsKey →
      w.HoldsKey := fun ⟨frame, hframe, hkey⟩ => ⟨frame, hkeys frame hframe hkey, hkey⟩
  have hpushed : ((w.came false).planned frames idr false configuring w.nalParser
      chains).HoldsKey → frames = w.pendingFrames ++ [⟨data, false, w.arrived.length⟩] :=
    fun hkey => hframes.resolve_right fun hno => hno.2 (hheld hkey)
  refine ⟨?_, (fun hno => nomatch hno), ?_, fun hkey => ?_, fun _ hgoes hopen => ?_⟩
  · have hlater : ((w.came false).planned frames idr false configuring w.nalParser
        chains).Feeding w.arrived.length :=
      ⟨hcame.chained, hcame.past, hcame.before⟩
    exact hlater.mono (by simp [planned, came])
  · intro frame hframe
    have hmem : frame ∈ w.pendingFrames ++ [⟨data, false, w.arrived.length⟩] := by
      rcases hframes with rfl | ⟨rfl, _⟩
      · exact hframe
      · exact mem_append_left _ hframe
    rcases mem_append.mp hmem with hold | hlast
    · exact came_earlier (h.matched frame hold) false
    · rw [mem_singleton.mp hlast]
      exact came_last w data false
  · obtain ⟨hhead, hfollows, hlast⟩ := h.held (hheld hkey)
    obtain ⟨key, hkeyHeld, _⟩ := hheld hkey
    rw [hpushed hkey]
    refine ⟨?_, ?_, ?_⟩
    · intro frame hframe
      change (w.pendingFrames ++ [_]).head? = _ at hframe
      cases hpending : w.pendingFrames with
      | nil =>
        rw [hpending] at hkeyHeld
        exact absurd hkeyHeld not_mem_nil
      | cons first rest =>
        rw [hpending] at hframe
        exact hhead frame (by rw [hpending]; simpa using hframe)
    · refine List.IsChain.append hfollows (isChain_singleton _) ?_
      intro earlier hearlier later hlater
      obtain rfl : _ = later := by simpa using hlater
      have hnext := hlast earlier hearlier
      exact ⟨by change _ < w.arrived.length; omega, fun _ => hnext.symm⟩
    · intro frame hframe
      change (w.pendingFrames ++ [_]).getLast? = _ at hframe
      obtain rfl : _ = frame := by simpa using hframe
      exact (came_length w false).symm
  · have hbefore : w.chains ≠ 0 ∨ P.isReady w.nalParser = true :=
      hgoes.elim (fun hunder => hchains hunder) Or.inr
    refine (h.waits hholds hbefore hopen).imp_left fun ⟨frame, hframe, hkey⟩ => ?_
    refine ⟨frame, ?_, hkey⟩
    rcases hframes with rfl | ⟨rfl, _⟩
    · exact mem_append_left _ hframe
    · exact hframe

theorem processFrame {isKeyframe : Bool}
    (htaken : w.stopped = false → w.Taken data isKeyframe seen) :
    Inv (w.processFrame data isKeyframe seen) := by
  by_cases hstopped : w.stopped = true
  · unfold Worker.processFrame
    rw [if_pos hstopped]
    exact h
  have hruns := Bool.eq_false_of_not_eq_true hstopped
  have hprocess : w.processFrame data isKeyframe seen =
      ((w.came isKeyframe).prepare data isKeyframe).decodeFrame
        ⟨data, isKeyframe, w.arrived.length⟩ seen := by
    unfold Worker.processFrame
    rw [if_neg hstopped]
    rfl
  rw [hprocess]
  cases isKeyframe with
  | true =>
    obtain ⟨idr, configured, configuring, parser, chains, hprepare, hconfigured⟩ :=
      prepare_key (w.came true) data fun hconf => (h.free hconf).1
    rw [hprepare, keptFor_came]
    by_cases hholds : w.Holds data true
    · obtain rfl : configured = false :=
        Bool.eq_false_of_not_eq_true fun hno => hconfigured.mp hno hholds
      exact h.held_key (htaken hruns) hholds idr configuring parser chains
    · obtain rfl : configured = true := hconfigured.mpr hholds
      have hconf : w.decoderConfigured = true := by
        by_contra hno
        exact hholds (Or.inl (Bool.eq_false_of_not_eq_true hno))
      have hkept : w.keptFor = [] := by
        rw [keptFor_eq, (h.free hconf).1, ite_self]
      rw [hkept]
      exact h.live hconf hholds hruns (htaken hruns) idr configuring parser chains
  | false =>
    obtain ⟨idr, configuring, chains, hprepare, hchains⟩ := prepare_delta (w.came false) data
    rw [hprepare]
    by_cases hconf : w.decoderConfigured = true
    · have hlive : ¬ w.Holds data false := by
        rintro (hno | ⟨hno, _⟩)
        · rw [hconf] at hno
          cases hno
        · cases hno
      have heq : (w.came false).planned (w.came false).pendingFrames idr
          (w.came false).decoderConfigured configuring (w.came false).nalParser chains =
          (w.came false).planned [] idr true configuring w.nalParser chains := by
        change (w.came false).planned w.pendingFrames idr w.decoderConfigured configuring
          w.nalParser chains = _
        rw [hconf, (h.free hconf).1]
      rw [heq]
      exact h.live hconf hlive hruns (htaken hruns) idr configuring w.nalParser chains
    · have hwaits := Bool.eq_false_of_not_eq_true hconf
      have heq : (w.came false).planned (w.came false).pendingFrames idr
          (w.came false).decoderConfigured configuring (w.came false).nalParser chains =
          (w.came false).planned w.pendingFrames idr false configuring w.nalParser chains := by
        change (w.came false).planned w.pendingFrames idr w.decoderConfigured configuring
          w.nalParser chains = _
        rw [hwaits]
      rw [heq]
      exact h.held_delta (htaken hruns) hwaits idr configuring hchains

theorem frameloss (hclean : w.stopped = false → ¬ w.HoldsKey) : Inv w.frameloss := by
  by_cases hstopped : w.stopped = true
  · have heq : w.frameloss = { w with referenceValid := false } := by
      unfold Worker.frameloss
      rw [if_pos hstopped]
    rw [heq]
    exact ⟨⟨h.feeding.chained, h.feeding.past, h.feeding.before⟩,
      fun hconf => ⟨(h.free hconf).1, Linked.of_invalid rfl⟩, h.matched, h.held,
      fun _ _ _ => Or.inr rfl⟩
  · have hno := hclean (Bool.eq_false_of_not_eq_true hstopped)
    have heq : w.frameloss =
        { w with referenceValid := false, arrived := w.arrived ++ [.loss] } := by
      unfold Worker.frameloss
      rw [if_neg hstopped]
    rw [heq]
    refine ⟨⟨h.feeding.chained.arrive _, fun fed hfed => (h.feeding.past fed hfed).arrive _, ?_⟩,
      fun hconf => ⟨(h.free hconf).1, Linked.of_invalid rfl⟩, ?_, fun hkey => absurd hkey hno,
      fun _ _ _ => Or.inr rfl⟩
    · intro earlier hfed
      have := h.feeding.before earlier hfed
      simp
      omega
    · intro frame hframe
      have hlt := h.before frame hframe
      change (w.arrived ++ _)[frame.position]? = _
      rw [List.getElem?_append_left hlt]
      exact h.matched frame hframe

/-- Other flags and counts, with no configuration more under way. -/
theorem of_chains (configuring stopped : Bool) (attempts : Nat) {chains : Nat}
    (hchains : chains ≠ 0 → w.chains ≠ 0) :
    Inv { w with
      decoderConfiguring := configuring
      stopped := stopped
      recoveryAttempts := attempts
      chains := chains } where
  feeding := ⟨h.feeding.chained, h.feeding.past, h.feeding.before⟩
  free := h.free
  matched := h.matched
  held := h.held
  waits := fun hconf hgoes hopen => h.waits hconf (hgoes.imp_left hchains) hopen

theorem settle {outcome : Outcome} {seen : Nat → Seen}
    (hclean : ∀ kept, outcome = .applied kept → w.chains ≠ 0 → w.decoder ≠ none →
      w.decoder ≠ some .closed → w.Completed seen) : Inv (w.settle outcome seen) := by
  unfold Worker.settle
  by_cases hchains : w.chains = 0
  · rw [if_pos hchains]
    exact h
  rw [if_neg hchains]
  cases outcome with
  | applied kept =>
    have hcompleted := hclean kept rfl hchains
    have hidle := h.of_chains false w.stopped w.recoveryAttempts (id : w.chains ≠ 0 → _)
    dsimp only
    split
    · exact hidle
    · exact hidle
    · next state hopen hdec =>
        have hcompletes := hcompleted (by rw [hdec]; exact fun hno => nomatch hno)
          (by rw [hdec]; exact fun hno => hopen (Option.some.inj hno))
        refine h.configure kept hchains ?_ hcompletes
        cases state with
        | unconfigured => exact Or.inr hdec
        | configured => exact Or.inl hdec
        | closed => exact absurd rfl hopen
  | refused => exact h.of_chains false w.stopped w.recoveryAttempts id
  | exhausted => exact h.of_chains false w.stopped w.recoveryAttempts fun _ => hchains
  | fallback => exact h.of_chains false true w.recoveryAttempts fun _ => hchains

theorem fail : Inv w.fail := by
  have hclosed : Inv ({ w with decoder := some .closed } : Worker P).handleDecoderError := by
    have hfeeding : ({ w with decoder := some .closed } : Worker P).Feeding w.arrived.length :=
      ⟨h.feeding.chained, h.feeding.past, h.feeding.before⟩
    have hkept := kept_handleDecoderError ({ w with decoder := some .closed } : Worker P)
    rcases handleDecoderError_cases ({ w with decoder := some .closed } : Worker P) with
      hrecovers | ⟨_, attempts, heq⟩
    · have hrecovered := recovered_of_canRecover hrecovers
      refine settled ?_ hrecovered.linked hrecovered.pendingFrames (Or.inl hrecovered)
      rw [hkept.arrived]
      exact hfeeding.handleDecoderError
    · rw [heq]
      refine ⟨⟨h.feeding.chained, h.feeding.past, h.feeding.before⟩,
        fun hconf => ⟨(h.free hconf).1, Linked.of_idle fun hno => nomatch hno⟩, h.matched, h.held,
        fun _ _ hopen => ?_⟩
      rcases hopen with hno | hno
      · cases hno
      · cases hno
  unfold Worker.fail
  split
  · exact h
  · exact h
  · exact hclosed

theorem stop : Inv w.stop where
  feeding := ⟨h.feeding.chained, h.feeding.past, h.feeding.before⟩
  free := fun _ => ⟨rfl, Linked.of_idle fun hno => nomatch hno⟩
  matched := fun _ hno => absurd hno not_mem_nil
  held := fun hkey => absurd hkey (not_holdsKey_of_nil rfl)
  waits := by
    rintro _ _ (hno | hno)
    · cases hno
    · cases hno

theorem next (e : Event δ) (hclean : w.Clean e (w.next e)) : Inv (w.next e) := by
  cases e with
  | frame data isKeyframe seen => exact h.processFrame hclean
  | frameloss => exact h.frameloss hclean
  | configuration outcome seen =>
    refine h.settle fun kept heq => ?_
    rw [heq] at hclean
    exact hclean
  | error => exact h.fail
  | output => exact h.of_chains w.decoderConfiguring w.stopped 0 id
  | stop => exact h.stop

theorem fedInOrder : w.FedInOrder := by
  intro fed hfed
  rcases mem_cons.mp hfed with rfl | hpast
  · exact h.feeding.chained.ordered
  · exact (h.feeding.past fed hpast).ordered

omit h

end Inv

end Worker

/-- Along every run whose steps are clean, each decoder is fed from a keyframe on, in order
and with the reference of every delta. -/
theorem feed_ordered_along (P : NalParser δ) (labels : List (Event δ))
    (hclean : EachStep (handles next) Clean (initial P) labels) :
    AllAlong (handles next) FedInOrder (initial P) labels := by
  intro visited rest w hlabels hrun
  have hinv : w.Inv := by
    refine (hclean.take hlabels).invariant ?_ (Inv.initial P) hrun
    rintro w e _ h rfl hstep
    exact h.next e hstep
  exact hinv.fedInOrder

end

/-- A parser that finds the parameter sets where the data says so. -/
def marks : NalParser Bool where
  State := Bool
  reset := false
  feed := fun ready data => ready || data
  isReady := id
  changedBy := fun _ _ => false
  describes := fun _ => true
  reset_not_ready := rfl

def calm : Seen := ⟨0, 16, 0, true, true⟩

/-- A keyframe and a delta wait for the configuration, and another delta comes after it. -/
def waited : List (Event Bool) :=
  [.frame true true calm, .frame false false calm,
    .configuration (.applied true) fun _ => calm, .frame false false calm]

theorem feed_ordered_along_waited :
    AllAlong (handles next) FedInOrder (initial marks) waited := by
  refine feed_ordered_along marks waited ?_
  refine EachStep.cons fun w hw => ⟨fun _ => ⟨fun _ _ => ?_, (fun _ hno => nomatch hno), ?_⟩, ?_⟩
  · exact ⟨by decide, (fun frame hno => nomatch hno)⟩
  · exact fun hlive => absurd (Or.inl rfl) hlive
  obtain rfl := hw
  refine EachStep.cons fun w hw => ⟨fun _ => ⟨(fun _ hno => nomatch hno), ?_, ?_⟩, ?_⟩
  · exact fun _ _ _ => by decide +kernel
  · exact fun hlive => absurd (Or.inl rfl) hlive
  obtain rfl := hw
  refine EachStep.cons fun w hw => ⟨fun _ _ _ => ⟨rfl, fun _ => Or.inl ⟨rfl, ?_⟩⟩, ?_⟩
  · decide +kernel
  obtain rfl := hw
  refine EachStep.cons fun w hw => ⟨fun _ => ⟨(fun _ hno => nomatch hno), ?_, ?_⟩, EachStep.nil⟩
  · rintro (hno | ⟨hno, _⟩) _ _
    · revert hno
      decide +kernel
    · cases hno
  · intro _ _
    left
    decide +kernel

/-- A loss while the configuration is under way. -/
def lost : List (Event Bool) :=
  [.frame true true calm, .frameloss, .frame false false calm,
    .configuration (.applied true) fun _ => calm]

/-- The delta after the loss is fed as if its reference were there. -/
theorem loss_forgotten_at_flush :
    ¬ ∀ (δ : Type) (P : NalParser δ) (labels : List (Event δ)),
      AllAlong (handles next) FedInOrder (initial P) labels := by
  intro hall
  have hordered := hall Bool marks lost lost [] _ rfl ((run_handles_iff _ _ _ _).mpr rfl) [0, 2]
    (by decide +kernel)
  have harrived : (lost.foldl next (initial marks)).arrived =
      [.key, .loss, .delta] := by decide +kernel
  rw [harrived] at hordered
  obtain ⟨key, hfed, hlt, hkey, hbetween⟩ := hordered.reference 2 (by decide) rfl
  obtain rfl : key = 0 := by
    simp at hfed
    omega
  have hloss := (hbetween 1 (by omega) (by omega)).1
  cases hloss

end MoonlightWeb.Frontend.VideoDecodeWorker
