import Mathlib.Data.List.Induction
import Mathlib.Data.Int.Basic
import Mathlib.Tactic.Ring
import Mathlib.Tactic.Common

/-! # The audio pacer

A queue of captured samples behind a clock that owes one frame every 5 ms. What leaves
the queue is written down as it leaves, with the time each frame sent was due, and the
laws say what the log of any run holds: the samples pushed, in order, and a grid of due
times broken by the anchors alone.
-/

namespace MoonlightWeb.NativeHost.AudioPacer

open List

def kChannels : Nat := 2
def kFrameSamples : Nat := 240
def kFramePeriodUs : Int := 5000
def kFrameFloats : Nat := kFrameSamples * kChannels
def kUnderrunGraceUs : Int := 2 * kFramePeriodUs

variable {α : Type}

/-- `depth` is the queue's cap in frames, at least one. -/
structure Pacer (α : Type) where
  depth : Nat
  depth_pos : 0 < depth
  queue : List α := []
  started : Bool := false
  nextDueUs : Int := 0
  dropped : Nat := 0
  underruns : Nat := 0
  reanchors : Nat := 0
  deferrals : Nat := 0

variable (maxQueuedFrames : Int)

/-- A pacer as constructed: `std::max(1, maxQueuedFrames)` frames at most. -/
def create : Pacer α where
  depth := (max 1 maxQueuedFrames).toNat
  depth_pos := by omega

variable (p : Pacer α)

def maxQueuedFloats : Nat :=
  p.depth * kFrameFloats

def start (nowUs : Int) : Pacer α :=
  { p with nextDueUs := nowUs + kFramePeriodUs, started := true }

/-- The floats `trim` erases from the front of a queue that is too long. -/
def overflow : Nat :=
  if p.queue.length ≤ maxQueuedFloats p then
    0
  else
    let excess := p.queue.length - maxQueuedFloats p
    let dropFloats := (excess + kFrameFloats - 1) / kFrameFloats * kFrameFloats
    min dropFloats p.queue.length

def trim : Pacer α :=
  { p with
    queue := p.queue.drop (overflow p)
    dropped := p.dropped + overflow p / kFrameFloats }

/-- The samples `trim` erases. -/
def erased : List α :=
  p.queue.take (overflow p)

/-- `m_Queue.insert` at the end. -/
def load (samples : List α) : Pacer α :=
  { p with queue := p.queue ++ samples }

def interleave (samples : List (α × α)) : List α :=
  samples.flatMap fun s => [s.1, s.2]

/-- `none` is a null pointer. -/
def push : Option (List (α × α)) → Pacer α
  | none => p
  | some samples =>
      if samples = [] then p else trim (load p (interleave samples))

def takeFrame : Option (List α × Pacer α) :=
  if p.queue.length < kFrameFloats then
    none
  else
    some (p.queue.take kFrameFloats, { p with queue := p.queue.drop kFrameFloats })

def dueFrames (nowUs : Int) : Pacer α × Nat :=
  if !p.started || decide (nowUs < p.nextDueUs) then
    (p, 0)
  else
    let owed := (nowUs - p.nextDueUs) / kFramePeriodUs + 1
    let maxBurst := maxQueuedFloats p / kFrameFloats
    if owed > maxBurst then
      ({ p with
          reanchors := p.reanchors + 1
          nextDueUs := nowUs - ((maxBurst : Int) - 1) * kFramePeriodUs }, maxBurst)
    else
      (p, owed.toNat)

section Silence

variable [Zero α]

variable (p : Pacer α)

def pushSilence (frames : Nat) : Pacer α :=
  if frames = 0 then p else trim (load p (List.replicate (frames * kChannels) 0))

def silence : List α :=
  List.replicate kFrameFloats 0

/-- The frame that goes out, and whether it was captured. -/
def pop : Pacer α × List α × Bool :=
  let p := { p with nextDueUs := p.nextDueUs + kFramePeriodUs }
  match takeFrame p with
  | some (frame, p) => (p, frame, true)
  | none => ({ p with underruns := p.underruns + 1 }, silence, false)

inductive Take
  | frame
  | silence
  | deferred
deriving DecidableEq, Repr

def take (nowUs : Int) : Pacer α × List α × Take :=
  match takeFrame p with
  | some (frame, p) => ({ p with nextDueUs := p.nextDueUs + kFramePeriodUs }, frame, .frame)
  | none =>
      if nowUs - p.nextDueUs < kUnderrunGraceUs then
        ({ p with deferrals := p.deferrals + 1 }, [], .deferred)
      else
        ({ p with nextDueUs := p.nextDueUs + kFramePeriodUs, underruns := p.underruns + 1 },
          silence, .silence)

inductive Call (α : Type)
  | start (nowUs : Int)
  | push (samples : Option (List (α × α)))
  | pushSilence (frames : Nat)
  | dueFrames (nowUs : Int)
  | pop
  | take (nowUs : Int)

/-- What a call anchored, erased or sent; a frame sent is logged with the time it was due. -/
inductive Entry (α : Type)
  | anchored (dueUs : Int)
  | dropped (samples : List α)
  | sent (dueUs : Int) (captured : Bool) (frame : List α)

def Call.samples : Call α → List α
  | .push samples => interleave (samples.getD [])
  | .pushSilence frames => List.replicate (frames * kChannels) 0
  | _ => []

def perform : Call α → Pacer α × List (Entry α)
  | .start nowUs => (start p nowUs, [.anchored (start p nowUs).nextDueUs])
  | .push samples => (push p samples, [.dropped (erased (load p (Call.push samples).samples))])
  | .pushSilence frames =>
      (pushSilence p frames, [.dropped (erased (load p (Call.pushSilence frames).samples))])
  | .dueFrames nowUs =>
      let due := (dueFrames p nowUs).1
      (due, if due.reanchors = p.reanchors then [] else [.anchored due.nextDueUs])
  | .pop => ((pop p).1, [.sent p.nextDueUs (pop p).2.2 (pop p).2.1])
  | .take nowUs =>
      let taken := take p nowUs
      (taken.1, match taken.2.2 with
        | .frame => [.sent p.nextDueUs true taken.2.1]
        | .silence => [.sent p.nextDueUs false taken.2.1]
        | .deferred => [])

def advance (s : Pacer α × List (Entry α)) (c : Call α) : Pacer α × List (Entry α) :=
  ((perform s.1 c).1, s.2 ++ (perform s.1 c).2)

def run (maxQueuedFrames : Int) (calls : List (Call α)) : Pacer α × List (Entry α) :=
  calls.foldl advance (create maxQueuedFrames, [])

/-- The captured samples an entry took out of the queue. -/
def Entry.departed : Entry α → List α
  | .anchored _ => []
  | .dropped samples => samples
  | .sent _ captured frame => if captured then frame else []

def departed (log : List (Entry α)) : List α :=
  log.flatMap Entry.departed

def frames (log : List (Entry α)) : List (List α) :=
  log.filterMap fun
    | .sent _ true frame => some frame
    | _ => none

/-- The samples pushed, oldest first. -/
def pushed (calls : List (Call α)) : List α :=
  calls.flatMap Call.samples

/-- The time the next frame is due when every frame of the log went out at its own: a
period after the one before it, or at the anchor. `none` when one did not. -/
def follow (dueUs : Int) : List (Entry α) → Option Int
  | [] => some dueUs
  | .anchored at' :: rest => follow at' rest
  | .dropped _ :: rest => follow dueUs rest
  | .sent at' _ _ :: rest =>
      if at' = dueUs then follow (dueUs + kFramePeriodUs) rest else none

/-- Frames popped one after another. -/
def popMany (p : Pacer α) : Nat → Pacer α
  | 0 => p
  | n + 1 => popMany (pop p).1 n

end Silence

theorem follow_append (dueUs : Int) (log more : List (Entry α)) :
    follow dueUs (log ++ more) = (follow dueUs log).bind fun next => follow next more := by
  induction log generalizing dueUs with
  | nil => rfl
  | cons entry log ih =>
    cases entry with
    | anchored at' => exact ih at'
    | dropped samples => exact ih dueUs
    | sent at' captured frame =>
      simp only [cons_append, follow]
      split
      · exact ih _
      · rfl

@[simp] theorem departed_append (log more : List (Entry α)) :
    departed (log ++ more) = departed log ++ departed more :=
  flatMap_append

@[simp] theorem frames_append (log more : List (Entry α)) :
    frames (log ++ more) = frames log ++ frames more :=
  filterMap_append

theorem erased_append_trim : erased p ++ (trim p).queue = p.queue :=
  take_append_drop ..

/-- What is erased is whole frames, and leaves no more than the cap. -/
theorem overflow_spec :
    kFrameFloats * (overflow p / kFrameFloats) = overflow p ∧ overflow p ≤ p.queue.length ∧
      p.queue.length - overflow p ≤ maxQueuedFloats p := by
  have hdepth : kFrameFloats ≤ maxQueuedFloats p :=
    Nat.le_mul_of_pos_left _ p.depth_pos
  unfold overflow
  split
  case isTrue hfits => simpa using hfits
  case isFalse hlong =>
      dsimp only
      generalize hn : p.queue.length = n at *
      generalize hm : maxQueuedFloats p = m at *
      have hframe : kFrameFloats = 480 := rfl
      rw [hframe] at hdepth ⊢
      have hmin : min ((n - m + 480 - 1) / 480 * 480) n = (n - m + 480 - 1) / 480 * 480 := by
        omega
      rw [hmin]
      omega

theorem trim_capped : (trim p).queue.length ≤ maxQueuedFloats (trim p) := by
  have hspec := overflow_spec p
  simpa [trim, maxQueuedFloats] using hspec.2.2

variable {p : Pacer α}

theorem trim_of_capped (h : p.queue.length ≤ maxQueuedFloats p) :
    trim p = p := by
  have hnone : overflow p = 0 := if_pos h
  simp [trim, hnone]

theorem load_nil (p : Pacer α) : load p [] = p := by
  simp [load]

theorem takeFrame_some {p p' : Pacer α} {frame : List α} (h : takeFrame p = some (frame, p')) :
    frame.length = kFrameFloats ∧ frame ++ p'.queue = p.queue ∧
      p' = { p with queue := p'.queue } := by
  unfold takeFrame at h
  split at h
  case isTrue => cases h
  case isFalse hlong =>
      cases h
      refine ⟨?_, take_append_drop .., rfl⟩
      simp
      omega

/-- The laws of a pacer and its log, for the samples pushed so far. -/
structure Kept (depth : Nat) (samples : List α) (s : Pacer α × List (Entry α)) : Prop where
  conserved : departed s.2 ++ s.1.queue = samples
  whole : ∀ frame ∈ frames s.2, frame.length = kFrameFloats
  counted : samples.length =
    kFrameFloats * (frames s.2).length + kFrameFloats * s.1.dropped + s.1.queue.length
  built : s.1.depth = depth
  capped : s.1.queue.length ≤ maxQueuedFloats s.1
  grid : follow 0 s.2 = some s.1.nextDueUs

variable {samples : List α} {log : List (Entry α)} {depth : Nat}

/-- Appending samples and trimming what is too much. -/
theorem Kept.load (h : Kept depth samples (p, log)) (more : List α) :
    Kept depth (samples ++ more)
      (trim (load p more), log ++ [.dropped (erased (AudioPacer.load p more))]) := by
  have hsplit := erased_append_trim (AudioPacer.load p more)
  obtain ⟨hwhole, hle, -⟩ := overflow_spec (AudioPacer.load p more)
  have hlength : (erased (AudioPacer.load p more)).length = overflow (AudioPacer.load p more) := by
    simp [erased, hle]
  have hqueue : (AudioPacer.load p more).queue = p.queue ++ more := rfl
  constructor
  case conserved =>
      have hdeparted : departed log ++ p.queue = samples := h.conserved
      simp only [departed_append]
      simp only [departed, flatMap_cons, flatMap_nil, Entry.departed, append_nil]
      rw [append_assoc, hsplit, hqueue, ← append_assoc]
      exact congrArg (· ++ more) hdeparted
  case whole =>
      intro frame hframe
      refine h.whole frame ?_
      simpa [frames] using hframe
  case counted =>
      have hcount := h.counted
      have htotal := congrArg List.length hsplit
      rw [hqueue, length_append, length_append, hlength] at htotal
      have hdropped : (trim (AudioPacer.load p more)).dropped =
          p.dropped + overflow (AudioPacer.load p more) / kFrameFloats := rfl
      have hframes : frames (log ++ [.dropped (erased (AudioPacer.load p more))]) = frames log := by
        simp [frames]
      rw [length_append]
      simp only [hframes, hdropped] at hcount ⊢
      rw [Nat.mul_add, hwhole]
      omega
  case built => exact h.built
  case capped => exact trim_capped _
  case grid =>
      have hgrid : follow 0 log = some p.nextDueUs := h.grid
      rw [follow_append, hgrid]
      rfl

theorem Kept.sendFrame {p p' : Pacer α}
    {frame : List α} (h : Kept depth samples (p, log)) (hlen : frame.length = kFrameFloats)
    (hqueue : frame ++ p'.queue = p.queue) (hdropped : p'.dropped = p.dropped)
    (hdepth : p'.depth = p.depth) (hdue : p'.nextDueUs = p.nextDueUs + kFramePeriodUs) :
    Kept depth samples (p', log ++ [.sent p.nextDueUs true frame]) := by
  constructor
  case conserved =>
      have hdeparted : departed log ++ p.queue = samples := h.conserved
      simp only [departed_append]
      simp only [departed, flatMap_cons, flatMap_nil, Entry.departed, if_true,
        append_nil]
      rw [append_assoc, hqueue]
      exact hdeparted
  case whole =>
      intro sent hsent
      rw [frames_append] at hsent
      rcases mem_append.mp hsent with hold | hnew
      · exact h.whole sent hold
      · obtain rfl : sent = frame := by simpa [frames] using hnew
        exact hlen
  case counted =>
      have hcount := h.counted
      have htotal := congrArg List.length hqueue
      rw [length_append] at htotal
      have hframes : (frames (log ++ [.sent p.nextDueUs true frame])).length =
          (frames log).length + 1 := by
        simp [frames]
      simp only [hframes, hdropped] at hcount ⊢
      rw [Nat.mul_add]
      omega
  case built => exact hdepth.trans h.built
  case capped =>
      have hcap := h.capped
      have htotal := congrArg List.length hqueue
      rw [length_append] at htotal
      simp only [maxQueuedFloats, hdepth] at hcap ⊢
      omega
  case grid =>
      have hgrid : follow 0 log = some p.nextDueUs := h.grid
      rw [follow_append, hgrid]
      simp [follow, hdue]

/-- A call that leaves the queue alone. -/
theorem Kept.idle {p p' : Pacer α} {log more : List (Entry α)}
    (h : Kept depth samples (p, log)) (hqueue : p'.queue = p.queue)
    (hdropped : p'.dropped = p.dropped) (hdepth : p'.depth = p.depth)
    (hnone : departed more = []) (hframes : frames more = [])
    (hgrid : follow p.nextDueUs more = some p'.nextDueUs) :
    Kept depth samples (p', log ++ more) := by
  constructor
  case conserved =>
      simp only [departed_append, hnone, hqueue, append_nil]
      exact h.conserved
  case whole =>
      intro sent hsent
      refine h.whole sent ?_
      simpa [hframes] using hsent
  case counted =>
      simp only [frames_append, hframes, hdropped, hqueue, append_nil]
      exact h.counted
  case built => exact hdepth.trans h.built
  case capped =>
      have hcap := h.capped
      simp only [maxQueuedFloats, hdepth, hqueue] at hcap ⊢
      exact hcap
  case grid =>
      have hsofar : follow 0 log = some p.nextDueUs := h.grid
      rw [follow_append, hsofar]
      exact hgrid

variable [Zero α]

theorem push_eq (h : p.queue.length ≤ maxQueuedFloats p) (samples : Option (List (α × α))) :
    push p samples = trim (load p (Call.push samples).samples) := by
  unfold push
  have hnone : p = trim (load p []) := (load_nil p).symm ▸ (trim_of_capped h).symm
  cases samples with
  | none => exact hnone
  | some samples =>
    by_cases hnil : samples = []
    · subst hnil
      exact hnone
    · exact if_neg hnil

theorem pushSilence_eq (h : p.queue.length ≤ maxQueuedFloats p) (frames : Nat) :
    pushSilence p frames = trim (load p (Call.pushSilence frames).samples) := by
  unfold pushSilence
  by_cases hzero : frames = 0
  · subst hzero
    simp [Call.samples, load_nil, trim_of_capped h]
  · rw [if_neg hzero]
    rfl

variable (h : Kept depth samples (p, log))

include h

theorem Kept.pop :
    Kept depth samples ((pop p).1, log ++ [.sent p.nextDueUs (pop p).2.2 (pop p).2.1]) := by
  unfold AudioPacer.pop
  dsimp only
  cases htake : takeFrame { p with nextDueUs := p.nextDueUs + kFramePeriodUs } with
  | none =>
    refine h.idle rfl rfl rfl rfl rfl ?_
    simp [follow]
  | some taken =>
    obtain ⟨frame, p'⟩ := taken
    obtain ⟨hlen, hqueue, hrest⟩ := takeFrame_some htake
    refine h.sendFrame hlen hqueue ?_ ?_ ?_
    all_goals rw [hrest]

theorem Kept.take (nowUs : Int) :
    Kept depth samples (advance (p, log) (.take nowUs)) := by
  unfold advance perform AudioPacer.take
  dsimp only
  cases htake : takeFrame p with
  | none =>
    dsimp only
    split
    case isTrue =>
        refine h.idle rfl rfl rfl rfl rfl ?_
        simp [follow]
    case isFalse =>
        refine h.idle rfl rfl rfl rfl rfl ?_
        simp [follow]
  | some taken =>
    obtain ⟨frame, p'⟩ := taken
    obtain ⟨hlen, hqueue, hrest⟩ := takeFrame_some htake
    refine h.sendFrame hlen hqueue ?_ ?_ ?_
    all_goals rw [hrest]

theorem Kept.dueFrames (nowUs : Int) :
    Kept depth samples (advance (p, log) (.dueFrames nowUs)) := by
  unfold advance perform AudioPacer.dueFrames
  dsimp only
  by_cases hnone : (!p.started || decide (nowUs < p.nextDueUs)) = true
  · simp only [if_pos hnone, if_true, append_nil]
    exact h
  · simp only [if_neg hnone]
    by_cases hlate : (nowUs - p.nextDueUs) / kFramePeriodUs + 1 >
        ((maxQueuedFloats p / kFrameFloats : Nat) : Int)
    · simp only [if_pos hlate]
      rw [if_neg (by omega)]
      exact h.idle rfl rfl rfl rfl rfl rfl
    · simp only [if_neg hlate, if_true, append_nil]
      exact h

omit h

theorem kept_advance {s : Pacer α × List (Entry α)}
    (h : Kept depth samples s) (c : Call α) : Kept depth (samples ++ c.samples) (advance s c) := by
  obtain ⟨p, log⟩ := s
  cases c with
  | start nowUs =>
    rw [show samples ++ (Call.start nowUs : Call α).samples = samples from append_nil _]
    exact h.idle rfl rfl rfl rfl rfl rfl
  | push more =>
    have hpush := push_eq h.capped more
    unfold advance perform
    dsimp only at hpush ⊢
    rw [hpush]
    exact h.load _
  | pushSilence count =>
    have hpush := pushSilence_eq h.capped count
    unfold advance perform
    dsimp only at hpush ⊢
    rw [hpush]
    exact h.load _
  | dueFrames nowUs =>
    rw [show samples ++ (Call.dueFrames nowUs : Call α).samples = samples from append_nil _]
    exact h.dueFrames nowUs
  | pop =>
    rw [show samples ++ (Call.pop : Call α).samples = samples from append_nil _]
    exact h.pop
  | take nowUs =>
    rw [show samples ++ (Call.take nowUs : Call α).samples = samples from append_nil _]
    exact h.take nowUs

theorem kept_run (calls : List (Call α)) :
    Kept (max 1 maxQueuedFrames).toNat (pushed calls) (run maxQueuedFrames calls) := by
  induction calls using List.reverseRecOn with
  | nil => exact ⟨rfl, by simp [run, frames], rfl, rfl, Nat.zero_le _, rfl⟩
  | append_singleton calls c ih =>
    have hnext := kept_advance ih c
    simpa [pushed, run] using hnext

theorem pop_clock (p : Pacer α) : (pop p).1.nextDueUs = p.nextDueUs + kFramePeriodUs := by
  unfold pop
  dsimp only
  cases htake : takeFrame { p with nextDueUs := p.nextDueUs + kFramePeriodUs } with
  | none => rfl
  | some taken =>
    obtain ⟨frame, p'⟩ := taken
    obtain ⟨-, -, hrest⟩ := takeFrame_some htake
    dsimp only
    rw [hrest]

theorem popMany_clock (p : Pacer α) (n : Nat) :
    (popMany p n).nextDueUs = p.nextDueUs + n * kFramePeriodUs := by
  induction n generalizing p with
  | zero => simp [popMany]
  | succ n ih =>
    rw [popMany, ih, pop_clock]
    push_cast
    ring

/-- Once the frames due are popped the clock is ahead, by a period at most when some were. -/
theorem dueFrames_clock (hstarted : p.started = true) (nowUs : Int) :
    nowUs < (popMany (dueFrames p nowUs).1 (dueFrames p nowUs).2).nextDueUs ∧
      (0 < (dueFrames p nowUs).2 →
        (popMany (dueFrames p nowUs).1 (dueFrames p nowUs).2).nextDueUs ≤
          nowUs + kFramePeriodUs) := by
  have hperiod : kFramePeriodUs = 5000 := rfl
  rw [popMany_clock]
  unfold dueFrames
  by_cases hearly : nowUs < p.nextDueUs
  · simp only [hstarted, hearly, decide_true, Bool.or_true, if_true]
    omega
  · have hdue : (!p.started || decide (nowUs < p.nextDueUs)) = false := by
      simp [hstarted, hearly]
    simp only [hdue, Bool.false_eq_true, if_false, hperiod]
    split
    case isTrue hlate =>
        dsimp only
        omega
    case isFalse =>
        dsimp only
        omega

omit [Zero α] in
theorem push_started (p : Pacer α) (samples : Option (List (α × α))) :
    (push p samples).started = p.started := by
  unfold push
  cases samples with
  | none => rfl
  | some samples =>
    dsimp only
    split <;> rfl

theorem perform_started (h : p.started = true) (c : Call α) :
    (perform p c).1.started = true := by
  cases c with
  | start nowUs => rfl
  | push samples => exact (push_started p samples).trans h
  | pushSilence count =>
    unfold perform pushSilence
    dsimp only
    split
    · exact h
    · exact h
  | dueFrames nowUs =>
    unfold perform dueFrames
    dsimp only
    split
    · exact h
    · split <;> exact h
  | pop =>
    unfold perform pop
    dsimp only
    cases htake : takeFrame { p with nextDueUs := p.nextDueUs + kFramePeriodUs } with
    | none => exact h
    | some taken =>
      obtain ⟨-, -, hrest⟩ := takeFrame_some htake
      dsimp only
      rw [hrest]
      exact h
  | take nowUs =>
    unfold perform take
    dsimp only
    cases htake : takeFrame p with
    | none =>
      dsimp only
      split <;> exact h
    | some taken =>
      obtain ⟨-, -, hrest⟩ := takeFrame_some htake
      dsimp only
      rw [hrest]
      exact h

theorem run_started {calls : List (Call α)} {nowUs : Int}
    (h : .start nowUs ∈ calls) : (run maxQueuedFrames calls).1.started = true := by
  induction calls using List.reverseRecOn with
  | nil => cases h
  | append_singleton calls c ih =>
    have hlast : (run maxQueuedFrames (calls ++ [c])).1 =
        (perform (run maxQueuedFrames calls).1 c).1 := by
      simp [run, advance]
    rw [hlast]
    rcases mem_append.mp h with hold | hnew
    · exact perform_started (ih hold) c
    · obtain rfl : Call.start nowUs = c := by simpa using hnew
      rfl

/-- After the due frames a started pacer reports at any time are popped, the next one is
due later than that time. -/
def CaughtUp (p : Pacer α) : Prop :=
  ∀ nowUs, nowUs < (popMany (dueFrames p nowUs).1 (dueFrames p nowUs).2).nextDueUs ∧
    (0 < (dueFrames p nowUs).2 →
      (popMany (dueFrames p nowUs).1 (dueFrames p nowUs).2).nextDueUs ≤ nowUs + kFramePeriodUs)

/-- The pacer conserves samples and keeps its grid over every run, and its clock is caught
up with in every run that started it. -/
theorem pacer_lawful (maxQueuedFrames : Int) (calls : List (Call α)) :
    Kept (max 1 maxQueuedFrames).toNat (pushed calls) (run maxQueuedFrames calls) ∧
      ((∃ nowUs, .start nowUs ∈ calls) → CaughtUp (run maxQueuedFrames calls).1) := by
  refine ⟨kept_run maxQueuedFrames calls, ?_⟩
  rintro ⟨anchor, hstart⟩ nowUs
  exact dueFrames_clock (run_started maxQueuedFrames hstart) nowUs

end MoonlightWeb.NativeHost.AudioPacer
