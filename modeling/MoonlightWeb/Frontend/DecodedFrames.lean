import Mathlib
import MoonlightWeb.Lib.Run

/-! # The frames of the decode worker

`VideoDecodeWorker` keeps decoded frames in a queue, hands the head to the renderer once it is
due, and is woken by a decoded frame, by the end of a draw or by a timer. The deadlines are the
pacer's, any numbers here, and a frame is known by its place among those decoded.
-/

namespace MoonlightWeb.Frontend.DecodedFrames

open Lib

structure Frame where
  id : Nat
  presentAt : ℚ
deriving DecidableEq

/-- `renderer` is known by whether it draws serially, and `decoded` counts the frames so far.
`handed` and `closed` follow where the frames went. -/
structure Worker where
  pacer : Bool
  av1 : Bool
  renderer : Option Bool := none
  stopped : Bool := false
  frameQueue : List Frame := []
  drawsInFlight : Nat := 0
  pacingTimer : Option ℚ := none
  now : ℚ := 0
  recoveryAttempts : Nat := 0
  decoded : Nat := 0
  handed : List Nat := []
  closed : List Nat := []
deriving DecidableEq

def MAX_DRAWS_IN_FLIGHT : Nat := 2

def MAX_RECOVERY_ATTEMPTS : Nat := 10

def drawCapFor : Option Bool → Nat
  | some false => max 1 MAX_DRAWS_IN_FLIGHT
  | _ => 1

namespace Worker

variable (w : Worker)

def armPacingTimer (delay : ℚ) : Worker :=
  match w.pacingTimer with
  | some due =>
      if due ≤ w.now + delay then w else { w with pacingTimer := some (w.now + delay) }
  | none => { w with pacingTimer := some (w.now + delay) }

/-- The oldest frames are closed until `bound` remain. -/
def trim (bound : Nat) (closed : List Nat) : List Frame → List Nat × List Frame
  | [] => (closed, [])
  | frame :: rest =>
      if bound < (frame :: rest).length then trim bound (closed ++ [frame.id]) rest
      else (closed, frame :: rest)

def trimmed (bound : Nat) : Worker :=
  { w with
    closed := (trim bound w.closed w.frameQueue).1
    frameQueue := (trim bound w.closed w.frameQueue).2 }

/-- The frame goes to the renderer, and is closed where there is none yet. -/
def drawFrame (frame : Frame) : Worker :=
  match w.renderer with
  | none => { w with closed := w.closed ++ [frame.id] }
  | some _ => { w with handed := w.handed ++ [frame.id] }

def drawHead : Worker :=
  match w.frameQueue with
  | [] => w
  | frame :: rest =>
      if drawCapFor w.renderer ≤ w.drawsInFlight then w
      else { w with frameQueue := rest, drawsInFlight := w.drawsInFlight + 1 }.drawFrame frame

def pump : Worker :=
  if w.stopped ∨ w.frameQueue = [] then w
  else if w.pacer then
    match (w.trimmed 6).frameQueue with
    | [] => w.trimmed 6
    | frame :: _ =>
        if 0 < frame.presentAt - w.now then
          (w.trimmed 6).armPacingTimer (frame.presentAt - w.now)
        else (w.trimmed 6).drawHead
  else (w.trimmed 1).drawHead

def queueCap : Nat := if w.pacer then 6 else 3

/-- `deadline` is what the pacer schedules. -/
def onDecodedFrame (deadline : ℚ) : Worker :=
  let frame : Frame := ⟨w.decoded, if w.pacer then deadline else w.now⟩
  let w := { w with decoded := w.decoded + 1, recoveryAttempts := 0 }
  if w.queueCap ≤ w.frameQueue.length then
    { w with closed := w.closed ++ [frame.id] }
  else { w with frameQueue := w.frameQueue ++ [frame] }.pump

def closeQueue : Worker :=
  { w with
    closed := w.closed ++ w.frameQueue.map Frame.id
    frameQueue := []
    pacingTimer := none }

def handleDecoderError : Worker :=
  if w.stopped then w
  else
    let w := { w with recoveryAttempts := w.recoveryAttempts + 1 }
    if w.av1 ∧ w.decoded = 0 ∧ 3 ≤ w.recoveryAttempts then w
    else if MAX_RECOVERY_ATTEMPTS < w.recoveryAttempts then w
    else w.closeQueue

end Worker

inductive Event
  | renderer (serialDrawsOnly : Bool)
  | frame (deadline : ℚ)
  | drawn
  | timer
  | resync
  | decoderError
  | advance (elapsed : ℚ)
  | stop

/-- What an event makes of the worker. The decoder is closed by a stop, and puts out nothing
after it. -/
def step (w : Worker) : Event → Option Worker
  | .renderer serial => some { w with renderer := some serial }
  | .frame deadline => if w.stopped then none else some (w.onDecodedFrame deadline)
  | .drawn =>
      if w.drawsInFlight = 0 then none
      else some { w with drawsInFlight := w.drawsInFlight - 1 }.pump
  | .timer => if w.pacingTimer = none then none else some { w with pacingTimer := none }.pump
  | .resync => some { w with pacingTimer := none }
  | .decoderError => some w.handleDecoderError
  | .advance elapsed => if elapsed < 0 then none else some { w with now := w.now + elapsed }
  | .stop => some { w.closeQueue with stopped := true }

/-- Something will look at the queue again, by the time its head is due. -/
def Awake (w : Worker) : Prop :=
  w.stopped = false → ∀ frame ∈ w.frameQueue.head?,
    0 < w.drawsInFlight ∨ ∃ due, w.pacingTimer = some due ∧ due ≤ frame.presentAt

/-- Each frame is in the queue, handed on or closed, once; they are handed on in order, and a
worker that is stopped holds none. -/
structure Accounted (w : Worker) : Prop where
  once : (w.handed ++ w.closed ++ w.frameQueue.map Frame.id).Perm (List.range w.decoded)
  ordered : (w.handed ++ w.frameQueue.map Frame.id).Pairwise (· < ·)
  bounded : w.frameQueue.length ≤ w.queueCap
  stopped : w.stopped → w.frameQueue = []

/-- The timer is not taken away from a frame that waits for it. -/
def KeepsTimer (w : Worker) (e : Event) : Prop :=
  e = .resync → w.frameQueue = [] ∨ 0 < w.drawsInFlight

variable {w : Worker}

theorem one_le_drawCapFor (renderer : Option Bool) : 1 ≤ drawCapFor renderer := by
  rcases renderer with _ | _ | _ <;> decide

theorem drawFrame_drawsInFlight (frame : Frame) :
    (w.drawFrame frame).drawsInFlight = w.drawsInFlight := by
  unfold Worker.drawFrame
  split <;> rfl

theorem awake_drawHead : Awake w.drawHead := by
  intro _ frame hframe
  unfold Worker.drawHead at hframe ⊢
  split at hframe
  · next hempty =>
      rw [hempty] at hframe
      cases hframe
  · have hcap := one_le_drawCapFor w.renderer
    split_ifs with hfull
    · exact Or.inl (hcap.trans hfull)
    · rw [drawFrame_drawsInFlight]
      exact Or.inl (Nat.succ_pos _)

theorem armPacingTimer_spec (delay : ℚ) : ∃ due,
    w.armPacingTimer delay = { w with pacingTimer := some due } ∧ due ≤ w.now + delay := by
  unfold Worker.armPacingTimer
  split
  · next due hdue =>
      split_ifs with hle
      · exact ⟨due, by rw [← hdue], hle⟩
      · exact ⟨_, rfl, le_rfl⟩
  · exact ⟨_, rfl, le_rfl⟩

/-- However it is woken, the worker is awake once it has looked. -/
theorem awake_pump : Awake w.pump := by
  unfold Worker.pump
  split_ifs with hidle hpacer
  · intro hgoing frame hframe
    rcases hidle with hstopped | hempty
    · exact absurd (hgoing.symm.trans hstopped) (by decide)
    · rw [hempty] at hframe
      cases hframe
  · split
    · next hempty =>
        intro _ frame hframe
        rw [hempty] at hframe
        cases hframe
    · next head rest hqueue =>
        split_ifs with hearly
        · obtain ⟨due, heq, hdue⟩ :=
            @armPacingTimer_spec (w.trimmed 6) (head.presentAt - w.now)
          have hdue : due ≤ w.now + (head.presentAt - w.now) := hdue
          rw [heq]
          intro _ frame hframe
          have hframe : frame ∈ (w.trimmed 6).frameQueue.head? := hframe
          rw [hqueue] at hframe
          cases hframe
          exact Or.inr ⟨due, rfl, by linarith⟩
        · exact awake_drawHead
  · exact awake_drawHead

/-- Frames move between the queue and the two ways out. -/
structure Moved (w w' : Worker) : Prop where
  decoded : w'.decoded = w.decoded
  pacer : w'.pacer = w.pacer
  stopped : w'.stopped = w.stopped
  once : (w'.handed ++ w'.closed ++ w'.frameQueue.map Frame.id).Perm
    (w.handed ++ w.closed ++ w.frameQueue.map Frame.id)
  ordered : (w'.handed ++ w'.frameQueue.map Frame.id).Sublist
    (w.handed ++ w.frameQueue.map Frame.id)
  shorter : w'.frameQueue.length ≤ w.frameQueue.length

theorem Moved.refl (w : Worker) : Moved w w := ⟨rfl, rfl, rfl, .refl _, .refl _, le_rfl⟩

theorem Moved.trans {a b c : Worker} (h : Moved a b) (h' : Moved b c) : Moved a c :=
  ⟨h'.decoded.trans h.decoded, h'.pacer.trans h.pacer, h'.stopped.trans h.stopped,
    h'.once.trans h.once, h'.ordered.trans h.ordered, h'.shorter.trans h.shorter⟩

theorem Accounted.moved {w' : Worker} (h : Accounted w) (hmoved : Moved w w') : Accounted w' where
  once := by
    rw [hmoved.decoded]
    exact hmoved.once.trans h.once
  ordered := h.ordered.sublist hmoved.ordered
  bounded := by
    rw [Worker.queueCap, hmoved.pacer]
    exact hmoved.shorter.trans h.bounded
  stopped hstopped := by
    rw [hmoved.stopped] at hstopped
    have hshorter := hmoved.shorter
    rw [h.stopped hstopped] at hshorter
    exact List.length_eq_zero_iff.mp (Nat.le_zero.mp hshorter)

theorem trim_spec (bound : Nat) (closed : List Nat) (queue : List Frame) :
    ∃ gone, queue = gone ++ (Worker.trim bound closed queue).2 ∧
      (Worker.trim bound closed queue).1 = closed ++ gone.map Frame.id := by
  induction queue generalizing closed with
  | nil => exact ⟨[], rfl, by simp [Worker.trim]⟩
  | cons frame rest ih =>
    unfold Worker.trim
    split_ifs with hlong
    · obtain ⟨gone, hqueue, hclosed⟩ := ih (closed ++ [frame.id])
      refine ⟨frame :: gone, ?_, ?_⟩
      · rw [List.cons_append, ← hqueue]
      · rw [hclosed, List.append_assoc, List.singleton_append, List.map_cons]
    · exact ⟨[], rfl, by simp⟩

theorem moved_trimmed (bound : Nat) : Moved w (w.trimmed bound) := by
  obtain ⟨gone, hqueue, hclosed⟩ := trim_spec bound w.closed w.frameQueue
  unfold Worker.trimmed
  generalize Worker.trim bound w.closed w.frameQueue = trimmed at hqueue hclosed
  refine ⟨rfl, rfl, rfl, ?_, ?_, ?_⟩
  · dsimp only
    rw [hclosed, hqueue, List.map_append, List.append_assoc, List.append_assoc, List.append_assoc]
  · dsimp only
    rw [hqueue, List.map_append]
    exact (List.sublist_append_right _ _).append_left _
  · dsimp only
    rw [hqueue, List.length_append]
    exact Nat.le_add_left _ _

theorem moved_drawHead : Moved w w.drawHead := by
  unfold Worker.drawHead
  split
  · exact .refl w
  · next frame rest hqueue =>
      split_ifs with hfull
      · exact .refl w
      · have hshorter : rest.length ≤ w.frameQueue.length := by
          rw [hqueue]
          exact Nat.le_succ _
        unfold Worker.drawFrame
        split
        · refine ⟨rfl, rfl, rfl, ?_, ?_, hshorter⟩
          · simp [hqueue]
          · rw [hqueue]
            exact (List.sublist_cons_self _ _).append_left _
        · refine ⟨rfl, rfl, rfl, ?_, ?_, hshorter⟩
          · refine List.perm_iff_count.mpr fun id => ?_
            simp only [hqueue, List.count_append, List.map_cons, List.count_cons, List.count_nil]
            omega
          · simp [hqueue]

theorem moved_pump : Moved w w.pump := by
  unfold Worker.pump
  split_ifs with hidle hpacer
  · exact .refl w
  · split
    · exact moved_trimmed 6
    · split_ifs
      · obtain ⟨due, heq, -⟩ := armPacingTimer_spec _
        rw [heq]
        have hmoved := @moved_trimmed w 6
        exact ⟨hmoved.1, hmoved.2, hmoved.3, hmoved.4, hmoved.5, hmoved.6⟩
      · exact (moved_trimmed 6).trans moved_drawHead
  · exact (moved_trimmed 1).trans moved_drawHead

theorem moved_closeQueue : Moved w w.closeQueue := by
  refine ⟨rfl, rfl, rfl, ?_, ?_, Nat.zero_le _⟩
  · simp [Worker.closeQueue]
  · exact (List.nil_sublist _).append_left _

theorem accounted_onDecodedFrame (h : Accounted w) (hgoing : w.stopped = false) (deadline : ℚ) :
    Accounted (w.onDecodedFrame deadline) := by
  obtain ⟨honce, hordered, hbounded, -⟩ := h
  have hbelow : ∀ id ∈ w.handed ++ w.frameQueue.map Frame.id, id < w.decoded := by
    intro id hid
    refine List.mem_range.mp (honce.subset ?_)
    rcases List.mem_append.mp hid with hhanded | hqueued
    · exact List.mem_append_left _ (List.mem_append_left _ hhanded)
    · exact List.mem_append_right _ hqueued
  have hstops : w.stopped = true → ∀ {P : Prop}, P := by
    intro hstopped
    rw [hgoing] at hstopped
    cases hstopped
  unfold Worker.onDecodedFrame
  dsimp only
  generalize (if w.pacer then deadline else w.now) = presentAt
  split
  · refine ⟨?_, hordered, hbounded, fun hstopped => hstops hstopped⟩
    rw [List.range_succ]
    refine List.Perm.trans ?_ (honce.append_right [w.decoded])
    refine List.perm_iff_count.mpr fun id => ?_
    simp only [List.count_append]
    omega
  · next hroom =>
    have hpushed : Accounted { w with
        frameQueue := w.frameQueue ++ [⟨w.decoded, presentAt⟩]
        decoded := w.decoded + 1
        recoveryAttempts := 0 } := by
      refine ⟨?_, ?_, ?_, fun hstopped => hstops hstopped⟩
      · rw [List.range_succ, List.map_append, ← List.append_assoc]
        exact honce.append_right _
      · rw [List.map_append, ← List.append_assoc, List.pairwise_append]
        refine ⟨hordered, List.pairwise_singleton _ _, fun id hid last hlast => ?_⟩
        rw [List.mem_singleton.mp hlast]
        exact hbelow id hid
      · rw [List.length_append]
        exact Nat.lt_of_not_le hroom
    exact hpushed.moved moved_pump

theorem accounted_step {w' : Worker} {e : Event} (h : Accounted w) (hstep : moves step w e w') :
    Accounted w' := by
  cases e with
  | renderer serial =>
    cases hstep
    exact ⟨h.once, h.ordered, h.bounded, h.stopped⟩
  | frame deadline =>
    simp only [moves, step] at hstep
    split_ifs at hstep with hstopped
    cases hstep
    exact accounted_onDecodedFrame h (by simpa using hstopped) deadline
  | drawn =>
    simp only [moves, step] at hstep
    split_ifs at hstep
    cases hstep
    have hdrawn : Accounted { w with drawsInFlight := w.drawsInFlight - 1 } :=
      ⟨h.once, h.ordered, h.bounded, h.stopped⟩
    exact hdrawn.moved moved_pump
  | timer =>
    simp only [moves, step] at hstep
    split_ifs at hstep
    cases hstep
    have hfired : Accounted { w with pacingTimer := none } :=
      ⟨h.once, h.ordered, h.bounded, h.stopped⟩
    exact hfired.moved moved_pump
  | resync =>
    cases hstep
    exact ⟨h.once, h.ordered, h.bounded, h.stopped⟩
  | decoderError =>
    cases hstep
    have hcounted : Accounted { w with recoveryAttempts := w.recoveryAttempts + 1 } :=
      ⟨h.once, h.ordered, h.bounded, h.stopped⟩
    unfold Worker.handleDecoderError
    dsimp only
    split_ifs
    · exact h
    · exact hcounted
    · exact hcounted
    · exact hcounted.moved moved_closeQueue
  | advance elapsed =>
    simp only [moves, step] at hstep
    split_ifs at hstep
    cases hstep
    exact ⟨h.once, h.ordered, h.bounded, h.stopped⟩
  | stop =>
    cases hstep
    have hclosed := h.moved moved_closeQueue
    exact ⟨hclosed.once, hclosed.ordered, hclosed.bounded, fun _ => rfl⟩

theorem awake_step_iff {w' : Worker} {e : Event} (h : Accounted w) (hawake : Awake w)
    (hstep : moves step w e w') : Awake w' ↔ KeepsTimer w e := by
  cases e with
  | resync =>
    cases hstep
    constructor
    · intro hnext _
      cases hqueue : w.frameQueue with
      | nil => exact Or.inl rfl
      | cons frame rest =>
        have hgoing : w.stopped = false := by
          by_contra hstopped
          rw [h.stopped (by simpa using hstopped)] at hqueue
          cases hqueue
        have hhead : frame ∈ w.frameQueue.head? := by rw [hqueue]; rfl
        rcases hnext hgoing frame hhead with hdraws | ⟨due, hdue, -⟩
        · exact Or.inr hdraws
        · cases hdue
    · intro hkeeps hgoing frame hframe
      rcases hkeeps rfl with hempty | hdraws
      · rw [hempty] at hframe
        cases hframe
      · exact Or.inl hdraws
  | renderer serial =>
    cases hstep
    exact iff_of_true hawake fun heq => by cases heq
  | frame deadline =>
    simp only [moves, step] at hstep
    split_ifs at hstep
    cases hstep
    refine iff_of_true ?_ fun heq => by cases heq
    unfold Worker.onDecodedFrame
    dsimp only
    split
    · exact hawake
    · exact awake_pump
  | drawn =>
    simp only [moves, step] at hstep
    split_ifs at hstep
    cases hstep
    exact iff_of_true awake_pump fun heq => by cases heq
  | timer =>
    simp only [moves, step] at hstep
    split_ifs at hstep
    cases hstep
    exact iff_of_true awake_pump fun heq => by cases heq
  | decoderError =>
    cases hstep
    refine iff_of_true ?_ fun heq => by cases heq
    unfold Worker.handleDecoderError
    dsimp only
    split_ifs
    · exact hawake
    · exact hawake
    · exact hawake
    · exact fun _ frame hframe => by cases hframe
  | advance elapsed =>
    simp only [moves, step] at hstep
    split_ifs at hstep
    cases hstep
    exact iff_of_true hawake fun heq => by cases heq
  | stop =>
    cases hstep
    exact iff_of_true (fun _ frame hframe => by cases hframe) fun heq => by cases heq

/-- In every run the queue is bounded and each frame goes one way out, in order; and no frame is
stranded along it exactly as long as no resync comes while a frame waits for the timer. -/
theorem awake_iff_keepsTimer (pacing av1 : Bool) (events : List Event) :
    AllAlong (moves step) Accounted { pacer := pacing, av1 := av1 } events ∧
      (EachStep (moves step) (fun _ _ w => Awake w) { pacer := pacing, av1 := av1 } events ↔
        EachStep (moves step) (fun w e _ => KeepsTimer w e) { pacer := pacing, av1 := av1 }
          events) := by
  have hstart : Accounted { pacer := pacing, av1 := av1 } :=
    ⟨.refl _, List.Pairwise.nil, Nat.zero_le _, fun _ => rfl⟩
  have hawake : Awake { pacer := pacing, av1 := av1 } := fun _ frame hframe => by cases hframe
  constructor
  · intro visited rest w _ hrun
    exact hrun.invariant (fun _ _ _ h hstep => accounted_step h hstep) hstart
  · exact eachStep_iff (S := Accounted) (I := Awake) (fun _ _ _ h hstep => accounted_step h hstep)
      (fun _ _ _ _ h => h) (fun _ _ _ h hawake hstep => awake_step_iff h hawake hstep) hstart
      hawake events

/-- A frame waits for its deadline, and a resync takes away the timer that would wake the worker
then. -/
theorem resync_strands :
    ∃ w, Run (moves step) { pacer := true, av1 := false } [.renderer false, .frame 5, .resync] w ∧
      w.frameQueue = [⟨0, 5⟩] ∧ w.drawsInFlight = 0 ∧ w.pacingTimer = none ∧
      ¬ EachStep (moves step) (fun _ _ w => Awake w) { pacer := true, av1 := false }
        [.renderer false, .frame 5, .resync] := by
  have hrun : Run (moves step) { pacer := true, av1 := false } [.renderer false, .frame 5]
      { pacer := true, av1 := false, renderer := some false, frameQueue := [⟨0, 5⟩],
        pacingTimer := some 5, decoded := 1 } :=
    run_of_runMoves step (by decide +kernel)
  refine ⟨_, Run.snoc hrun rfl, rfl, rfl, rfl, fun hall => ?_⟩
  have hawake := hall [.renderer false, .frame 5] _ [] _ _ rfl hrun rfl
  rcases hawake rfl ⟨0, 5⟩ rfl with hdraws | ⟨due, hdue, -⟩
  · exact absurd hdraws (by decide)
  · cases hdue

end MoonlightWeb.Frontend.DecodedFrames
