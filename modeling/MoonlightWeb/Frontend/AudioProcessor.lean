import MoonlightWeb.Lib.Passage
import MoonlightWeb.Lib.Fuel
import MoonlightWeb.Lib.BinaryRounding

/-! # The audio worklet's queue

Interleaved stereo samples are queued in chunks of any length, drained by quanta of any
size, and shortened or lengthened at the front by one pitch period. The number of frames
queued is kept beside the chunks, and the loops end because it agrees with them.
-/

namespace MoonlightWeb.Frontend.AudioProcessor

open Lib.BinaryRounding (toDouble)
open Lib.Passage
open Lib.Turns (Returns)
open Ledger List

universe u

/-- `Math.round` of a number that is not negative. -/
def round (x : ℚ) : Nat :=
  ⌊x + 1 / 2⌋.toNat

/-- The constants that depend on the sample rate, in frames. -/
structure Constants where
  baseTarget : Nat
  maxTarget : Nat
  growFrames : Nat
  maxBufferFrames : Nat
  decayInterval : Nat
  decayFrames : Nat
  tsPmin : Nat
  tsPmax : Nat
  tsDeadband : Nat
  tsMinSpacing : Nat

def constants (sampleRate : ℚ) : Constants where
  baseTarget := round (toDouble (sampleRate * toDouble (6 / 100)))
  maxTarget := round (toDouble (sampleRate * toDouble (16 / 100)))
  growFrames := round (toDouble (sampleRate * toDouble (2 / 100)))
  maxBufferFrames := round (toDouble (sampleRate * toDouble (4 / 10)))
  decayInterval := round (toDouble (sampleRate * 8))
  decayFrames := round (toDouble (sampleRate * toDouble (1 / 100)))
  tsPmin := round (toDouble (sampleRate / 400))
  tsPmax := round (toDouble (sampleRate / 100))
  tsDeadband := round (toDouble (sampleRate * toDouble (2 / 100)))
  tsMinSpacing := round (toDouble (sampleRate * toDouble (3 / 100)))

def fadeSamples : Nat := 64

/-- What is computed on samples: the fades, the crossfade and the correlation. -/
structure Samples (α : Type u) (S : Type u) where
  zero : α
  /-- `x * (1 - remaining / FADE_SAMPLES)` -/
  fadeIn : Nat → α → α
  /-- `x * (1 - i / fade)` -/
  fadeOut : Nat → Nat → α → α
  /-- `a * (1 - w) + b * w` with `w = i / P` -/
  mix : Nat → Nat → α → α → α
  /-- The normalised correlation of the first period with the second. -/
  score : List α → Nat → S
  lowest : S
  above : S → S → Bool
  /-- Less than `TS_MIN_CORR`. -/
  weak : S → Bool

structure Queue (α : Type u) where
  queue : List (List α) := []
  readOffset : Nat := 0
  queuedFrames : Int := 0
deriving DecidableEq, Repr

variable {α : Type u} {S : Type u}

/-- The overrun loop: the oldest chunks go until the rest is under the cap. -/
def dropOldest (maxBufferFrames : Nat) : List (List α) → Nat → Int → Queue α
  | dropped :: next :: rest, readOffset, queuedFrames =>
      if queuedFrames > maxBufferFrames then
        dropOldest maxBufferFrames (next :: rest) 0
          (queuedFrames - ((dropped.length - readOffset) / 2 : Nat))
      else
        ⟨dropped :: next :: rest, readOffset, queuedFrames⟩
  | queue, readOffset, queuedFrames => ⟨queue, readOffset, queuedFrames⟩

variable (maxBufferFrames : Nat)

def enqueue (q : Queue α) (chunk : List α) : Queue α :=
  if chunk.length = 0 then
    q
  else
    dropOldest maxBufferFrames (q.queue ++ [chunk]) q.readOffset
      (q.queuedFrames + (chunk.length / 2 : Nat))

variable (q : Queue α)

/-- Both loops move past `take` frames of the first chunk so. -/
def advance (chunk : List α) (rest : List (List α)) (take : Nat) : Queue α :=
  let readOffset := q.readOffset + 2 * take
  let queuedFrames := q.queuedFrames - take
  if readOffset ≥ chunk.length then
    ⟨rest, 0, queuedFrames⟩
  else
    ⟨chunk :: rest, readOffset, queuedFrames⟩

/-- The loop of `_popFrames`, of at most that many turns. -/
def popLoop (frames : Nat) : Nat → Queue α → Nat → List α → Option (Queue α × List α)
  | 0, _, _, _ => none
  | turns + 1, q, got, out =>
      if got < frames then
        match q.queue with
        | [] => some (q, out)
        | chunk :: rest =>
            let avail := (chunk.length - q.readOffset) / 2
            let take := min avail (frames - got)
            popLoop frames turns (advance q chunk rest take) (got + take)
              (out ++ (chunk.drop q.readOffset).take (2 * take))
      else
        some (q, out)

variable (m : Samples α S)

/-- The popped samples, in a buffer that starts out zero. -/
def popFrames (turns : Nat) (q : Queue α) (frames : Nat) :
    Option (Queue α × List α) :=
  (popLoop frames turns q 0 []).map fun popped =>
    (popped.1, popped.2 ++ List.replicate (2 * frames - popped.2.length) m.zero)

def normalizeHead : Queue α :=
  match q.queue with
  | [] => q
  | chunk :: rest =>
      if q.readOffset > 0 then { q with queue := chunk.drop q.readOffset :: rest, readOffset := 0 }
      else q

def unshiftFrames (buf : List α) : Queue α :=
  let q := normalizeHead q
  { q with queue := buf :: q.queue, queuedFrames := q.queuedFrames + (buf.length / 2 : Nat) }

/-- The loop over the periods from `P` on. -/
def periodLoop (m : Samples α S) (seg : List α) : Nat → Nat → Nat × S → Nat × S
  | 0, _, best => best
  | turns + 1, P, best =>
      let score := m.score seg P
      periodLoop m seg turns (P + 1) (if m.above score best.2 then (P, score) else best)

def findPeriod (c : Constants) (seg : List α) (frames : Nat) : Nat × S :=
  let maxP := min c.tsPmax (frames / 2)
  periodLoop m seg (maxP + 1 - c.tsPmin) c.tsPmin (c.tsPmin, m.lowest)

/-- The `P` frames from frame `a` on, faded into the `P` frames from frame `b` on. -/
def crossfade (seg : List α) (P a b : Nat) : List α :=
  (List.range P).flatMap fun i =>
    [m.mix i P (seg.getD (2 * (a + i)) m.zero) (seg.getD (2 * (b + i)) m.zero),
      m.mix i P (seg.getD (2 * (a + i) + 1) m.zero) (seg.getD (2 * (b + i) + 1) m.zero)]

structure Correction (α : Type u) (S : Type u) where
  queue : Queue α
  score : S
  applied : Bool

def accelerate (c : Constants) (turns : Nat) (q : Queue α) :
    Option (Correction α S) :=
  let need := 2 * c.tsPmax
  (popFrames m turns q need).map fun popped =>
    let q := popped.1
    let seg := popped.2
    let best := findPeriod m c seg need
    let P := best.1
    if m.weak best.2 then
      ⟨unshiftFrames q seg, best.2, false⟩
    else
      ⟨unshiftFrames q (crossfade m seg P 0 P ++ seg.drop (4 * P)), best.2, true⟩

def expand (c : Constants) (turns : Nat) (q : Queue α) :
    Option (Correction α S) :=
  let need := 2 * c.tsPmax
  (popFrames m turns q need).map fun popped =>
    let q := popped.1
    let seg := popped.2
    let best := findPeriod m c seg need
    let P := best.1
    if m.weak best.2 then
      ⟨unshiftFrames q seg, best.2, false⟩
    else
      ⟨unshiftFrames q (seg.take (2 * P) ++ crossfade m seg P P 0 ++ seg.drop (2 * P)), best.2,
        true⟩

structure Processor (α : Type u) (S : Type u) extends Queue α where
  consumedFrames : Nat := 0
  underrunFrames : Nat := 0
  underrunEvents : Nat := 0
  playing : Bool := false
  baseTarget : Int
  target : Int
  underrunRecovery : Bool := false
  fadeInRemaining : Nat := 0
  lastL : α
  lastR : α
  framesSinceUnderrun : Nat := 0
  timeStretch : Bool := false
  tsSinceCorrection : Nat
  tsLastScore : S

def initial (c : Constants) (score : S) : Processor α S where
  baseTarget := c.baseTarget
  target := c.baseTarget
  lastL := m.zero
  lastR := m.zero
  tsSinceCorrection := c.tsMinSpacing
  tsLastScore := score

def maintainTimeStretch (c : Constants) (turns : Nat) (s : Processor α S)
    (numFrames : Nat) : Option (Processor α S) :=
  let s := { s with tsSinceCorrection := s.tsSinceCorrection + numFrames }
  if s.tsSinceCorrection < c.tsMinSpacing ∨ s.queuedFrames < 2 * (c.tsPmax : Int) then
    some s
  else
    let err := s.queuedFrames - s.target
    if err > c.tsDeadband then
      (accelerate m c turns s.toQueue).map fun done =>
        { s with
          toQueue := done.queue
          tsLastScore := done.score
          tsSinceCorrection := if done.applied then 0 else s.tsSinceCorrection }
    else if err < -c.tsDeadband then
      (expand m c turns s.toQueue).map fun done =>
        { s with
          toQueue := done.queue
          tsLastScore := done.score
          tsSinceCorrection := if done.applied then 0 else s.tsSinceCorrection }
    else
      some s

def frames : List α → List (α × α)
  | l :: r :: rest => (l, r) :: frames rest
  | _ => []

/-- The fade-in gain on the first frames after a start. -/
def fadeFrames (m : Samples α S) : Nat → List (α × α) → List (α × α)
  | _, [] => []
  | remaining, (l, r) :: rest =>
      (if remaining > 0 then (m.fadeIn remaining l, m.fadeIn remaining r) else (l, r)) ::
        fadeFrames m (remaining - 1) rest

/-- The draining loop's variables: the frames copied, and what was written of them. -/
structure Drain (α : Type u) where
  queue : Queue α
  fadeInRemaining : Nat
  outIdx : Nat := 0
  played : List (α × α) := []
  written : List (α × α) := []

def drainLoop (m : Samples α S) (numFrames : Nat) : Nat → Drain α → Option (Drain α)
  | 0, _ => none
  | turns + 1, d =>
      if d.outIdx < numFrames then
        match d.queue.queue with
        | [] => some d
        | chunk :: rest =>
            let availablePairs := (chunk.length - d.queue.readOffset) / 2
            let needed := numFrames - d.outIdx
            let toCopy := min availablePairs needed
            let copied := frames ((chunk.drop d.queue.readOffset).take (2 * toCopy))
            drainLoop m numFrames turns
              { queue := advance d.queue chunk rest toCopy
                fadeInRemaining := d.fadeInRemaining - toCopy
                outIdx := d.outIdx + toCopy
                played := d.played ++ copied
                written := d.written ++ fadeFrames m d.fadeInRemaining copied }
      else
        some d

structure Quantum (α : Type u) where
  played : List (α × α)
  left : List α
  right : List α

/-- The end of a quantum that ran dry. -/
def underrun (c : Constants) (s : Processor α S) (gap : Nat) (zero : α) : Processor α S :=
  { s with
    underrunFrames := s.underrunFrames + gap
    underrunEvents := s.underrunEvents + 1
    target := min c.maxTarget (s.target + c.growFrames)
    playing := false
    underrunRecovery := true
    lastL := zero
    lastR := zero
    framesSinceUnderrun := 0 }

/-- The end of a quantum that was filled. -/
def stable (c : Constants) (s : Processor α S) (numFrames : Nat) : Processor α S :=
  let s := { s with framesSinceUnderrun := s.framesSinceUnderrun + numFrames }
  let lowWatermark : Int := max (numFrames * 2) (s.target / 4)
  if s.queuedFrames < lowWatermark ∧ s.target < (c.maxTarget : Int) then
    { s with target := min c.maxTarget (s.target + c.growFrames), framesSinceUnderrun := 0 }
  else if s.framesSinceUnderrun > c.decayInterval ∧ s.target > s.baseTarget then
    { s with target := max s.baseTarget (s.target - c.decayFrames), framesSinceUnderrun := 0 }
  else
    s

variable (s : Processor α S)

/-- The counters start again with a report. -/
def diag (numFrames : Nat) : Processor α S :=
  if s.consumedFrames % 48000 < numFrames then { s with underrunFrames := 0, underrunEvents := 0 }
  else s

def gate : Int :=
  if s.underrunRecovery then max 1 ((s.target + 1) / 2) else s.target

def silence (numFrames : Nat) : Quantum α :=
  ⟨[], List.replicate numFrames m.zero, List.replicate numFrames m.zero⟩

/-- The gap of a quantum: the last sample down to zero, then zero. -/
def ramp (gap : Nat) (last : α) : List α :=
  let fade := min fadeSamples gap
  (List.range gap).map fun i => if i < fade then m.fadeOut i fade last else m.zero

/-- The end of `process`, the queue drained. -/
def finish (c : Constants) (s : Processor α S) (numFrames : Nat) (d : Drain α) :
    Processor α S × Quantum α :=
  let last := d.written.getLast?.getD (s.lastL, s.lastR)
  let s :=
    { s with
      toQueue := d.queue
      consumedFrames := s.consumedFrames + d.outIdx
      fadeInRemaining := d.fadeInRemaining
      lastL := last.1
      lastR := last.2 }
  let gap := numFrames - d.outIdx
  let ended := if d.outIdx < numFrames then underrun c s gap m.zero else stable c s numFrames
  (diag ended numFrames,
    { played := d.played
      left := d.written.map Prod.fst ++ ramp m gap s.lastL
      right := d.written.map Prod.snd ++ ramp m gap s.lastR })

/-- The part of `process` after the gate. -/
def playOn (c : Constants) (turns : Nat) (s : Processor α S) (numFrames : Nat) :
    Option (Processor α S × Quantum α) :=
  (if s.timeStretch then maintainTimeStretch m c turns s numFrames else some s).bind fun s =>
    (drainLoop m numFrames turns
      { queue := s.toQueue, fadeInRemaining := s.fadeInRemaining }).map (finish m c s numFrames)

def process (c : Constants) (turns : Nat) (s : Processor α S)
    (channels numFrames : Nat) : Option (Processor α S × Quantum α) :=
  if channels < 2 then
    some (s, ⟨[], [], []⟩)
  else if s.playing then
    playOn m c turns s numFrames
  else if s.queuedFrames ≥ gate s then
    playOn m c turns
      { s with playing := true, underrunRecovery := false, fadeInRemaining := fadeSamples }
      numFrames
  else
    some (s, silence m numFrames)

def config (baseTarget : Option Int) (timeStretch : Option Bool) :
    Processor α S :=
  { s with
    baseTarget := baseTarget.getD s.baseTarget
    target := match baseTarget with
      | some base => max s.target base
      | none => s.target
    timeStretch := timeStretch.getD s.timeStretch }

structure Pcm (α : Type u) where
  samples : List α
  whole : samples.length % 2 = 0

inductive Call (α : Type u)
  | enqueue (pcm : Pcm α)
  | config (baseTarget : Option Int) (timeStretch : Option Bool)
  | process (channels numFrames : Nat)

def call (c : Constants) (turns : Nat) (s : Processor α S) :
    Call α → Option (Processor α S × List (Quantum α))
  | .enqueue pcm =>
      some ({ s with toQueue := enqueue c.maxBufferFrames s.toQueue pcm.samples }, [])
  | .config baseTarget timeStretch => some (config s baseTarget timeStretch, [])
  | .process channels numFrames =>
      (process m c turns s channels numFrames).map fun done => (done.1, [done.2])

/-- The calls one after another, and the quanta written so far. -/
def run (m : Samples α S) (c : Constants) (turns : Nat) :
    List (Call α) → Processor α S × List (Quantum α) → Option (Processor α S × List (Quantum α))
  | [], sofar => some sofar
  | next :: calls, sofar =>
      (call m c turns sofar.1 next).bind fun done =>
        run m c turns calls (done.1, sofar.2 ++ done.2)

variable (xs : List α)

theorem length_frames : (frames xs).length = xs.length / 2 := by
  fun_induction frames xs with
  | case1 l r rest ih =>
    simp only [length_cons, ih]
    omega
  | case2 xs hshort =>
    match xs, hshort with
    | [], _ => simp
    | [x], _ => simp
    | l :: r :: rest, hshort => exact absurd rfl (hshort l r rest)

theorem frames_append {xs : List α} (h : xs.length % 2 = 0) (ys : List α) :
    frames (xs ++ ys) = frames xs ++ frames ys := by
  fun_induction frames xs with
  | case1 l r rest ih =>
    have hrest : rest.length % 2 = 0 := by
      simp only [length_cons] at h
      omega
    simp only [cons_append, frames, ih hrest]
  | case2 xs hshort =>
    match xs, hshort, h with
    | [], _, _ => rfl
    | l :: r :: rest, hshort, _ => exact absurd rfl (hshort l r rest)

theorem frames_take (n : Nat) :
    frames (xs.take (2 * n)) = (frames xs).take n := by
  induction n generalizing xs with
  | zero => simp [frames]
  | succ n ih =>
    match xs with
    | [] => simp [frames]
    | [x] => simp [frames, Nat.mul_succ]
    | l :: r :: rest => simp [frames, Nat.mul_succ, ih]

theorem frames_drop (n : Nat) :
    frames (xs.drop (2 * n)) = (frames xs).drop n := by
  induction n generalizing xs with
  | zero => simp
  | succ n ih =>
    match xs with
    | [] => simp [frames]
    | [x] => simp [frames, Nat.mul_succ]
    | l :: r :: rest => simp [frames, Nat.mul_succ, ih]

theorem frames_getD (h : xs.length % 2 = 0) (n : Nat) (zero : α) :
    (frames xs).getD n (zero, zero) = (xs.getD (2 * n) zero, xs.getD (2 * n + 1) zero) := by
  induction n generalizing xs with
  | zero =>
    match xs, h with
    | [], _ => rfl
    | l :: r :: rest, _ => rfl
  | succ n ih =>
    match xs, h with
    | [], _ => rfl
    | l :: r :: rest, h =>
      have hrest : rest.length % 2 = 0 := by
        simp only [length_cons] at h
        omega
      simpa [frames, Nat.mul_succ] using ih rest hrest

def samples : List α :=
  q.queue.flatten.drop q.readOffset

/-- Whole frames in every chunk, the offset inside the first, and the count of what is left. -/
structure Sound (q : Queue α) : Prop where
  whole : ∀ chunk ∈ q.queue, chunk.length % 2 = 0
  offset : q.readOffset % 2 = 0
  within : q.readOffset ≤ (q.queue.headD []).length
  counted : 2 * q.queuedFrames = ((samples q).length : Int)

variable {chunks : List (List α)}

theorem whole_flatten (h : ∀ chunk ∈ chunks, chunk.length % 2 = 0) :
    chunks.flatten.length % 2 = 0 := by
  induction chunks with
  | nil => rfl
  | cons chunk rest ih =>
    have hfirst := h chunk (mem_cons_self ..)
    have hrest := ih fun c hc => h c (mem_cons_of_mem _ hc)
    rw [flatten_cons, length_append]
    omega

variable {q : Queue α}

theorem Sound.whole_samples (h : Sound q) : (samples q).length % 2 = 0 := by
  have hall := whole_flatten h.whole
  have hoffset := h.offset
  unfold samples
  rw [length_drop]
  omega

theorem Sound.queuedFrames_eq (h : Sound q) :
    q.queuedFrames = ((frames (samples q)).length : Int) := by
  have hcounted := h.counted
  have hwhole := h.whole_samples
  rw [length_frames]
  omega

/-- The samples left begin with those left of the first chunk. -/
theorem samples_cons (h : Sound q) {chunk : List α} {rest : List (List α)}
    (hq : q.queue = chunk :: rest) :
    samples q = chunk.drop q.readOffset ++ rest.flatten := by
  have hwithin := h.within
  rw [hq] at hwithin
  simp only [headD_cons] at hwithin
  unfold samples
  rw [hq, flatten_cons, drop_append_of_le_length hwithin]

theorem sound_of_counted (offset : Nat) (n : Int)
    (hwhole : ∀ chunk ∈ chunks, chunk.length % 2 = 0) (heven : offset % 2 = 0)
    (hwithin : offset ≤ (chunks.headD []).length)
    (hcounted : 2 * n = ((chunks.flatten.drop offset).length : Int)) :
    Sound (⟨chunks, offset, n⟩ : Queue α) :=
  ⟨hwhole, heven, hwithin, hcounted⟩

/-- Moving past some frames of the first chunk. -/
theorem advance_spec (h : Sound q) {chunk : List α} {rest : List (List α)}
    (hq : q.queue = chunk :: rest) {n : Nat} (hn : n ≤ (chunk.length - q.readOffset) / 2) :
    Sound (advance q chunk rest n) ∧
      samples q = (chunk.drop q.readOffset).take (2 * n) ++ samples (advance q chunk rest n) ∧
      ((chunk.drop q.readOffset).take (2 * n)).length = 2 * n ∧
      (n = (chunk.length - q.readOffset) / 2 → (advance q chunk rest n).queue = rest) := by
  have hwithin := h.within
  have hoffset := h.offset
  have hcounted := h.counted
  have hchunk := h.whole chunk (by rw [hq]; exact mem_cons_self ..)
  have hrest : ∀ c ∈ rest, c.length % 2 = 0 :=
    fun c hc => h.whole c (by rw [hq]; exact mem_cons_of_mem _ hc)
  have hsamples := samples_cons h hq
  rw [hq] at hwithin
  simp only [headD_cons] at hwithin
  have htaken : ((chunk.drop q.readOffset).take (2 * n)).length = 2 * n := by
    rw [length_take, length_drop]
    omega
  rw [hsamples, length_append, length_drop] at hcounted
  unfold advance
  dsimp only
  by_cases hdone : q.readOffset + 2 * n ≥ chunk.length
  · rw [if_pos hdone]
    have hall : (chunk.drop q.readOffset).take (2 * n) = chunk.drop q.readOffset := by
      rw [take_of_length_le]
      rw [length_drop]
      omega
    refine ⟨sound_of_counted 0 _ hrest rfl (Nat.zero_le _) ?_, ?_, htaken, fun _ => rfl⟩
    · rw [drop_zero]
      omega
    · rw [hsamples, hall]
      rfl
  · rw [if_neg hdone]
    have hsplit : chunk.drop q.readOffset =
        (chunk.drop q.readOffset).take (2 * n) ++ chunk.drop (q.readOffset + 2 * n) := by
      rw [← drop_drop, take_append_drop]
    have hleft : (chunk :: rest).flatten.drop (q.readOffset + 2 * n) =
        chunk.drop (q.readOffset + 2 * n) ++ rest.flatten := by
      rw [flatten_cons, drop_append_of_le_length (by omega)]
    refine ⟨sound_of_counted _ _ (by rw [← hq]; exact h.whole) (by omega) ?_ ?_, ?_, htaken, ?_⟩
    · simp only [headD_cons]
      omega
    · rw [hleft, length_append, length_drop]
      omega
    · rw [hsamples]
      unfold samples
      rw [hleft, ← append_assoc, ← hsplit]
    · intro hn'
      omega

theorem dropOldest_spec {offset : Nat} {n : Int}
    (h : Sound (⟨chunks, offset, n⟩ : Queue α)) :
    Sound (dropOldest maxBufferFrames chunks offset n) ∧
      ∃ k, frames (samples (dropOldest maxBufferFrames chunks offset n)) =
          (frames (samples ⟨chunks, offset, n⟩)).drop k ∧
        (0 < k → n > maxBufferFrames) := by
  fun_induction dropOldest maxBufferFrames chunks offset n with
  | case1 dropped next rest offset n hover ih =>
    have hmoved := advance_spec h rfl (Nat.le_refl _)
    have hdone : offset + 2 * ((dropped.length - offset) / 2) ≥ dropped.length := by
      have hwithin := h.within
      have heven := h.offset
      have hwhole := h.whole dropped (mem_cons_self ..)
      simp only [headD_cons] at hwithin
      dsimp only at heven
      omega
    have hadvance : advance ⟨dropped :: next :: rest, offset, n⟩ dropped (next :: rest)
        ((dropped.length - offset) / 2) =
        ⟨next :: rest, 0, n - ((dropped.length - offset) / 2 : Nat)⟩ := by
      unfold advance
      dsimp only
      rw [if_pos hdone]
    rw [hadvance] at hmoved
    obtain ⟨hsound, hsamples, hlength, -⟩ := hmoved
    obtain ⟨hend, k, hframes, -⟩ := ih hsound
    refine ⟨hend, (dropped.length - offset) / 2 + k, ?_, fun _ => hover⟩
    have hnext : (frames (samples ⟨dropped :: next :: rest, offset, n⟩)).drop
        ((dropped.length - offset) / 2) =
        frames (samples ⟨next :: rest, 0, n - ((dropped.length - offset) / 2 : Nat)⟩) := by
      rw [hsamples, ← frames_drop, drop_left' hlength]
    rw [hframes, ← drop_drop, hnext]
  | case2 dropped next rest offset n hunder => exact ⟨h, 0, rfl, fun h => absurd h (by omega)⟩
  | case3 chunks offset n hshort => exact ⟨h, 0, rfl, fun h => absurd h (by omega)⟩

theorem enqueue_spec (h : Sound q) (pcm : Pcm α) :
    Sound (enqueue maxBufferFrames q pcm.samples) ∧
      ∃ k, frames (samples (enqueue maxBufferFrames q pcm.samples)) =
          (frames (samples q) ++ frames pcm.samples).drop k ∧
        (0 < k → maxBufferFrames < (frames (samples q)).length + (frames pcm.samples).length) := by
  have hcounted := h.counted
  have hwhole := h.whole_samples
  have hpcm := pcm.whole
  unfold enqueue
  by_cases hnone : pcm.samples.length = 0
  · rw [if_pos hnone, length_eq_zero_iff.mp hnone]
    exact ⟨h, 0, by simp [frames], fun h => absurd h (by omega)⟩
  · rw [if_neg hnone]
    have hqueue : q.readOffset ≤ q.queue.flatten.length := by
      have hwithin := h.within
      cases hq : q.queue with
      | nil => simpa [hq] using hwithin
      | cons chunk rest =>
        rw [hq] at hwithin
        simp only [headD_cons] at hwithin
        rw [flatten_cons, length_append]
        omega
    have hpushed : samples ⟨q.queue ++ [pcm.samples], q.readOffset,
        q.queuedFrames + (pcm.samples.length / 2 : Nat)⟩ = samples q ++ pcm.samples := by
      unfold samples
      simp only [flatten_append, flatten_singleton]
      rw [drop_append_of_le_length hqueue]
    have hsound : Sound (⟨q.queue ++ [pcm.samples], q.readOffset,
        q.queuedFrames + (pcm.samples.length / 2 : Nat)⟩ : Queue α) := by
      refine ⟨?_, h.offset, ?_, ?_⟩
      · intro chunk hchunk
        rcases mem_append.mp hchunk with hold | hnew
        · exact h.whole chunk hold
        · rw [mem_singleton.mp hnew]
          exact hpcm
      · have hwithin := h.within
        cases hq : q.queue with
        | nil =>
          rw [hq] at hwithin
          simp only [headD_nil, length_nil] at hwithin
          dsimp only
          omega
        | cons chunk rest => simpa [hq] using hwithin
      · rw [hpushed, length_append]
        dsimp only
        omega
    obtain ⟨hend, k, hframes, hover⟩ := dropOldest_spec maxBufferFrames hsound
    refine ⟨hend, k, ?_, ?_⟩
    · rw [hframes, hpushed, frames_append hwhole]
    · intro hk
      have := hover hk
      rw [length_frames, length_frames]
      omega

theorem samples_of_nil (h : q.queue = []) : samples q = [] := by
  unfold samples
  rw [h]
  exact drop_nil

/-- The popping loop takes the frames asked for, or all there are. -/
theorem popLoop_spec (n : Nat) (chunks : List (List α)) (hs : Sound q)
    (hq : q.queue = chunks) {got : Nat} (hgot : got ≤ n) (out : List α) :
    ∃ q' taken, Returns (fun turns => popLoop n turns q got out) (q', out ++ taken) ∧ Sound q' ∧
      taken ++ samples q' = samples q ∧ taken.length = 2 * min (n - got) (frames (samples q)).length := by
  induction chunks generalizing q got out with
  | nil =>
    refine ⟨q, [], Returns.of_last fun turns => ?_, hs, rfl, ?_⟩
    · rw [popLoop, hq, append_nil]
      split <;> rfl
    · rw [samples_of_nil hq]
      simp [frames]
  | cons chunk rest ih =>
    by_cases hmore : got < n
    · obtain ⟨hsound, hsamples, htaken, hshift⟩ :=
        advance_spec hs hq (Nat.min_le_left ((chunk.length - q.readOffset) / 2) (n - got))
      generalize hm : min ((chunk.length - q.readOffset) / 2) (n - got) = m at *
      generalize hpart : (chunk.drop q.readOffset).take (2 * m) = part at *
      have hstep : ∀ turns, popLoop n (turns + 1) q got out =
          popLoop n turns (advance q chunk rest m) (got + m) (out ++ part) := by
        intro turns
        conv_lhs => unfold popLoop
        rw [if_pos hmore, hq]
        dsimp only
        rw [hm, hpart]
      have hlength : (frames (samples q)).length =
          m + (frames (samples (advance q chunk rest m))).length := by
        rw [hsamples, length_frames, length_frames, length_append, htaken]
        omega
      by_cases hall : m = (chunk.length - q.readOffset) / 2
      · obtain ⟨q', taken, hret, hs', hsplit, hlen⟩ :=
          ih hsound (hshift hall) (show got + m ≤ n by omega) (out ++ part)
        rw [append_assoc] at hret
        refine ⟨q', part ++ taken, Returns.of_step hstep hret, hs', ?_, ?_⟩
        · rw [append_assoc, hsplit, ← hsamples]
        · rw [length_append, hlen, htaken, hlength]
          omega
      · have hdone : got + m = n := by omega
        have hlast : ∀ turns, popLoop n (turns + 1) (advance q chunk rest m) (got + m)
            (out ++ part) = some (advance q chunk rest m, out ++ part) := by
          intro turns
          rw [popLoop, if_neg (by omega)]
        refine ⟨_, part, Returns.of_step hstep (Returns.of_last hlast), hsound, hsamples.symm, ?_⟩
        · rw [htaken, hlength]
          omega
    · refine ⟨q, [], Returns.of_last fun turns => ?_, hs, rfl, ?_⟩
      · rw [popLoop, if_neg hmore, append_nil]
      · rw [length_nil]
        omega

theorem popFrames_spec (hs : Sound q) {n : Nat}
    (hn : n ≤ (frames (samples q)).length) :
    ∃ q' taken, Returns (fun turns => popFrames m turns q n) (q', taken) ∧ Sound q' ∧
      taken ++ samples q' = samples q ∧ taken.length = 2 * n := by
  obtain ⟨q', taken, hret, hs', hsplit, hlen⟩ := popLoop_spec n q.queue hs rfl (Nat.zero_le n) []
  have htaken : taken.length = 2 * n := by
    rw [hlen]
    omega
  refine ⟨q', taken, ?_, hs', hsplit, htaken⟩
  have hfull := hret.map fun popped : Queue α × List α =>
    (popped.1, popped.2 ++ List.replicate (2 * n - popped.2.length) m.zero)
  unfold popFrames
  simpa [htaken] using hfull

/-- The popping loop ends whatever is asked for. -/
theorem popFrames_returns (hs : Sound q) (n : Nat) :
    ∃ popped, Returns (fun turns => popFrames m turns q n) popped := by
  obtain ⟨q', taken, hret, -⟩ := popLoop_spec n q.queue hs rfl (Nat.zero_le n) []
  exact ⟨_, hret.map _⟩

theorem normalizeHead_spec (hs : Sound q) :
    (normalizeHead q).readOffset = 0 ∧ (normalizeHead q).queuedFrames = q.queuedFrames ∧
      (∀ chunk ∈ (normalizeHead q).queue, chunk.length % 2 = 0) ∧
      (normalizeHead q).queue.flatten = samples q := by
  have hwithin := hs.within
  have hoffset := hs.offset
  have hwhole := hs.whole
  unfold normalizeHead
  cases hq : q.queue with
  | nil =>
    rw [hq] at hwithin
    have hzero : q.readOffset = 0 := by simpa using hwithin
    exact ⟨hzero, rfl, hwhole, by rw [hq, samples_of_nil hq]; rfl⟩
  | cons chunk rest =>
    have hsamples := samples_cons hs hq
    rw [hq] at hwhole
    dsimp only
    by_cases hread : q.readOffset > 0
    · rw [if_pos hread]
      refine ⟨rfl, rfl, ?_, by rw [hsamples]; rfl⟩
      intro c hc
      rcases mem_cons.mp hc with rfl | hrest
      · have := hwhole chunk (mem_cons_self ..)
        rw [length_drop]
        omega
      · exact hwhole c (mem_cons_of_mem _ hrest)
    · have hzero : q.readOffset = 0 := by omega
      rw [if_neg hread]
      refine ⟨hzero, rfl, by rw [hq]; exact hwhole, ?_⟩
      rw [hsamples, hzero, drop_zero, hq, flatten_cons]

theorem unshiftFrames_spec (hs : Sound q) {buf : List α} (hbuf : buf.length % 2 = 0) :
    Sound (unshiftFrames q buf) ∧ samples (unshiftFrames q buf) = buf ++ samples q := by
  obtain ⟨hoffset, hqueued, hwhole, hflatten⟩ := normalizeHead_spec hs
  have hcounted := hs.counted
  have hsamples : samples (unshiftFrames q buf) = buf ++ samples q := by
    unfold samples unshiftFrames
    dsimp only
    rw [hoffset, drop_zero, flatten_cons, hflatten]
    rfl
  refine ⟨⟨?_, ?_, ?_, ?_⟩, hsamples⟩
  · intro chunk hchunk
    rcases mem_cons.mp hchunk with rfl | hold
    · exact hbuf
    · exact hwhole chunk hold
  · show (normalizeHead q).readOffset % 2 = 0
    rw [hoffset]
  · show (normalizeHead q).readOffset ≤ _
    omega
  · rw [hsamples, length_append]
    show 2 * ((normalizeHead q).queuedFrames + (buf.length / 2 : Nat)) = _
    omega

theorem periodLoop_bound (seg : List α) (turns P : Nat) (best : Nat × S) :
    (periodLoop m seg turns P best).1 ≤ max best.1 (P + turns - 1) := by
  induction turns generalizing P best with
  | zero => exact le_max_left ..
  | succ turns ih =>
    unfold periodLoop
    dsimp only
    split
    · have hrest := ih (P + 1) (P, m.score seg P)
      dsimp only at hrest
      omega
    · have hrest := ih (P + 1) best
      omega

variable {c : Constants}

theorem findPeriod_le (hc : c.tsPmin ≤ c.tsPmax)
    (seg : List α) (n : Nat) : (findPeriod m c seg n).1 ≤ c.tsPmax := by
  have hbound := periodLoop_bound m seg (min c.tsPmax (n / 2) + 1 - c.tsPmin) c.tsPmin
    (c.tsPmin, m.lowest)
  unfold findPeriod
  dsimp only at hbound ⊢
  omega

/-- The frames of one list faded into those of another. -/
def blend (P : Nat) (xs ys : List (α × α)) : List (α × α) :=
  (List.range P).map fun i =>
    (m.mix i P (xs.getD i (m.zero, m.zero)).1 (ys.getD i (m.zero, m.zero)).1,
      m.mix i P (xs.getD i (m.zero, m.zero)).2 (ys.getD i (m.zero, m.zero)).2)

@[simp] theorem length_blend (P : Nat) (xs ys : List (α × α)) :
    (blend m P xs ys).length = P := by
  simp [blend]

theorem getD_drop {β : Type u} (xs : List β) (a i : Nat) (d : β) :
    (xs.drop a).getD i d = xs.getD (a + i) d := by
  simp [getD_eq_getElem?_getD]

theorem frames_flatMap {ι : Type} (l : List ι) (f g : ι → α) :
    frames (l.flatMap fun i => [f i, g i]) = l.map fun i => (f i, g i) := by
  induction l with
  | nil => rfl
  | cons i l ih => simpa [frames] using ih

theorem length_crossfade (seg : List α) (P a b : Nat) :
    (crossfade m seg P a b).length = 2 * P := by
  simp [crossfade, length_flatMap, Nat.mul_comm]

theorem frames_crossfade {seg : List α} (h : seg.length % 2 = 0) (P a b : Nat) :
    frames (crossfade m seg P a b) = blend m P ((frames seg).drop a) ((frames seg).drop b) := by
  unfold crossfade blend
  rw [frames_flatMap]
  refine map_congr_left fun i _ => ?_
  rw [getD_drop, getD_drop, frames_getD seg h, frames_getD seg h]

/-- Only the first `P` frames are blended. -/
theorem blend_append {P : Nat} {xs ys : List (α × α)} (hx : P ≤ xs.length)
    (hy : P ≤ ys.length) (xs' ys' : List (α × α)) :
    blend m P (xs ++ xs') (ys ++ ys') = blend m P xs ys := by
  unfold blend
  refine map_congr_left fun i hi => ?_
  have hi' := mem_range.mp hi
  rw [getD_append _ _ _ _ (by omega), getD_append _ _ _ _ (by omega)]

/-- A period merged into the one before it, or one put in between two: what becomes of the
frames queued. -/
def Accelerated (P : Nat) (before after : List (α × α)) : Prop :=
  after = blend m P before (before.drop P) ++ before.drop (2 * P)

def Expanded (P : Nat) (before after : List (α × α)) : Prop :=
  after = before.take P ++ blend m P (before.drop P) before ++ before.drop P

/-- A correction that returns, and applies one period of change or leaves the frames. -/
structure Corrects (c : Constants) (before : Queue α) (done : Correction α S)
    (changed : Nat → List (α × α) → List (α × α) → Prop) : Prop where
  sound : Sound done.queue
  refused : done.applied = false → samples done.queue = samples before
  applied : done.applied = true → ∃ P ≤ c.tsPmax,
    changed P (frames (samples before)) (frames (samples done.queue))

theorem putBack_spec {q q' : Queue α} {seg : List α} (hs' : Sound q')
    (hsplit : seg ++ samples q' = samples q) (heven : seg.length % 2 = 0) :
    Sound (unshiftFrames q' seg) ∧ samples (unshiftFrames q' seg) = samples q := by
  obtain ⟨hsound, hsamples⟩ := unshiftFrames_spec hs' heven
  exact ⟨hsound, hsamples.trans hsplit⟩

theorem accelerate_spec (hc : c.tsPmin ≤ c.tsPmax)
    (hs : Sound q) (henough : 2 * c.tsPmax ≤ (frames (samples q)).length) :
    ∃ done, Returns (fun turns => accelerate m c turns q) done ∧
      Corrects c q done (Accelerated m) := by
  obtain ⟨q', seg, hpopped, hs', hsplit, hlength⟩ := popFrames_spec m hs henough
  have heven : seg.length % 2 = 0 := by omega
  have hP := findPeriod_le m hc seg (2 * c.tsPmax)
  obtain ⟨hback, hsame⟩ := putBack_spec hs' hsplit heven
  refine ⟨_, hpopped.map _, ?_⟩
  have hwhole : samples q = seg ++ samples q' := hsplit.symm
  have hframes : frames (samples q) = frames seg ++ frames (samples q') := by
    rw [hwhole, frames_append heven]
  have hseg : (frames seg).length = 2 * c.tsPmax := by
    rw [length_frames, hlength]
    omega
  dsimp only
  generalize (findPeriod m c seg (2 * c.tsPmax)).1 = P at hP ⊢
  split
  case isTrue => exact ⟨hback, fun _ => hsame, fun h => by cases h⟩
  case isFalse =>
      have hbuf : (crossfade m seg P 0 P ++ seg.drop (4 * P)).length % 2 = 0 := by
        rw [length_append, length_crossfade, length_drop]
        omega
      obtain ⟨hsound, hsamples⟩ := unshiftFrames_spec hs' hbuf
      refine ⟨hsound, fun h => (by cases h), fun _ => ⟨P, hP, ?_⟩⟩
      have hcross : (crossfade m seg P 0 P).length % 2 = 0 := by
        rw [length_crossfade]
        omega
      have hdrop : seg.drop (4 * P) = seg.drop (2 * (2 * P)) := by
        rw [← Nat.mul_assoc]
      unfold Accelerated
      rw [hsamples, frames_append hbuf, frames_append hcross, frames_crossfade m heven, hdrop,
        frames_drop, hframes, drop_append_of_le_length (by omega),
        drop_append_of_le_length (by omega), blend_append m (by omega)
          (by rw [length_drop]; omega), drop_zero, append_assoc]

theorem expand_spec (hc : c.tsPmin ≤ c.tsPmax)
    (hs : Sound q) (henough : 2 * c.tsPmax ≤ (frames (samples q)).length) :
    ∃ done, Returns (fun turns => expand m c turns q) done ∧ Corrects c q done (Expanded m) := by
  obtain ⟨q', seg, hpopped, hs', hsplit, hlength⟩ := popFrames_spec m hs henough
  have heven : seg.length % 2 = 0 := by omega
  have hP := findPeriod_le m hc seg (2 * c.tsPmax)
  obtain ⟨hback, hsame⟩ := putBack_spec hs' hsplit heven
  refine ⟨_, hpopped.map _, ?_⟩
  have hwhole : samples q = seg ++ samples q' := hsplit.symm
  have hframes : frames (samples q) = frames seg ++ frames (samples q') := by
    rw [hwhole, frames_append heven]
  have hseg : (frames seg).length = 2 * c.tsPmax := by
    rw [length_frames, hlength]
    omega
  dsimp only
  generalize (findPeriod m c seg (2 * c.tsPmax)).1 = P at hP ⊢
  split
  case isTrue => exact ⟨hback, fun _ => hsame, fun h => by cases h⟩
  case isFalse =>
      have hfirst : (seg.take (2 * P)).length % 2 = 0 := by
        rw [length_take]
        omega
      have htwo : (seg.take (2 * P) ++ crossfade m seg P P 0).length % 2 = 0 := by
        rw [length_append, length_crossfade]
        omega
      have hbuf : (seg.take (2 * P) ++ crossfade m seg P P 0 ++ seg.drop (2 * P)).length % 2 =
          0 := by
        rw [length_append, length_drop]
        omega
      obtain ⟨hsound, hsamples⟩ := unshiftFrames_spec hs' hbuf
      refine ⟨hsound, fun h => (by cases h), fun _ => ⟨P, hP, ?_⟩⟩
      unfold Expanded
      rw [hsamples, frames_append hbuf, frames_append htwo, frames_append hfirst,
        frames_crossfade m heven, frames_take, frames_drop, hframes,
        take_append_of_le_length (by omega), drop_append_of_le_length (by omega),
        blend_append m (by rw [length_drop]; omega) (by omega), drop_zero,
        append_assoc]

theorem fadeFrames_append (remaining : Nat) (xs ys : List (α × α)) :
    fadeFrames m remaining (xs ++ ys) =
      fadeFrames m remaining xs ++ fadeFrames m (remaining - xs.length) ys := by
  induction xs generalizing remaining with
  | nil => rfl
  | cons x xs ih =>
    have hsub : remaining - (xs.length + 1) = remaining - 1 - xs.length := by omega
    simp only [cons_append, fadeFrames, ih, length_cons, hsub]

variable {d : Drain α}

theorem drainLoop_spec (n : Nat) (chunks : List (List α))
    (hs : Sound d.queue) (hq : d.queue.queue = chunks) (hidx : d.outIdx ≤ n) :
    ∃ d' taken, Returns (fun turns => drainLoop m n turns d) d' ∧ Sound d'.queue ∧
      taken ++ frames (samples d'.queue) = frames (samples d.queue) ∧
      taken.length = min (n - d.outIdx) (frames (samples d.queue)).length ∧
      d'.outIdx = d.outIdx + taken.length ∧ d'.played = d.played ++ taken ∧
      d'.written = d.written ++ fadeFrames m d.fadeInRemaining taken := by
  induction chunks generalizing d with
  | nil =>
    refine ⟨d, [], Returns.of_last fun turns => ?_, hs, rfl, ?_, rfl, ?_, ?_⟩
    · rw [drainLoop, hq]
      split <;> rfl
    · rw [samples_of_nil hq]
      simp [frames]
    · rw [append_nil]
    · rw [fadeFrames, append_nil]
  | cons chunk rest ih =>
    by_cases hmore : d.outIdx < n
    · obtain ⟨hsound, hsamples, htaken, hshift⟩ :=
        advance_spec hs hq
          (Nat.min_le_left ((chunk.length - d.queue.readOffset) / 2) (n - d.outIdx))
      generalize hk : min ((chunk.length - d.queue.readOffset) / 2) (n - d.outIdx) = k at *
      generalize hpart : (chunk.drop d.queue.readOffset).take (2 * k) = part at *
      have hparts : (frames part).length = k := by
        rw [length_frames, htaken]
        omega
      generalize hnext : ({ queue := advance d.queue chunk rest k
                            fadeInRemaining := d.fadeInRemaining - k
                            outIdx := d.outIdx + k
                            played := d.played ++ frames part
                            written := d.written ++
                              fadeFrames m d.fadeInRemaining (frames part) } : Drain α) = next
      have hstep : ∀ turns, drainLoop m n (turns + 1) d = drainLoop m n turns next := by
        intro turns
        rw [drainLoop, if_pos hmore, hq]
        dsimp only
        rw [hk, hpart, hnext]
      have hqueue : next.queue = advance d.queue chunk rest k := by rw [← hnext]
      have hnextIdx : next.outIdx = d.outIdx + k := by rw [← hnext]
      have hfade : next.fadeInRemaining = d.fadeInRemaining - k := by rw [← hnext]
      have hplayed : next.played = d.played ++ frames part := by rw [← hnext]
      have hwritten : next.written =
          d.written ++ fadeFrames m d.fadeInRemaining (frames part) := by rw [← hnext]
      have hsplit : frames (samples d.queue) =
          frames part ++ frames (samples next.queue) := by
        rw [hsamples, frames_append (by omega), hqueue]
      have hlength : (frames (samples d.queue)).length =
          k + (frames (samples next.queue)).length := by
        rw [hsplit, length_append, hparts]
      by_cases hall : k = (chunk.length - d.queue.readOffset) / 2
      · obtain ⟨d', taken, hret, hs', hrest, hlen, hidx', hplayed', hwritten'⟩ :=
          ih (hqueue ▸ hsound) (hqueue ▸ hshift hall) (by omega : next.outIdx ≤ n)
        refine ⟨d', frames part ++ taken, Returns.of_step hstep hret, hs', ?_, ?_, ?_, ?_, ?_⟩
        · rw [append_assoc, hrest, ← hsplit]
        · rw [length_append, hparts, hlen, hlength]
          omega
        · rw [length_append, hparts, hidx', hnextIdx]
          omega
        · rw [hplayed', hplayed, append_assoc]
        · rw [hwritten', hwritten, fadeFrames_append, hparts, hfade, append_assoc]
      · have hlast : ∀ turns, drainLoop m n (turns + 1) next = some next := by
          intro turns
          rw [drainLoop, if_neg (by omega)]
        refine ⟨next, frames part, Returns.of_step hstep (Returns.of_last hlast),
          hqueue ▸ hsound, hsplit.symm, ?_, ?_, hplayed, hwritten⟩
        · rw [hparts, hlength]
          omega
        · rw [hparts, hnextIdx]
    · refine ⟨d, [], Returns.of_last fun turns => ?_, hs, rfl, ?_, rfl, ?_, ?_⟩
      · rw [drainLoop, if_neg hmore]
      · rw [length_nil]
        omega
      · rw [append_nil]
      · rw [fadeFrames, append_nil]

/-- A correction: none, or one that merges the second of two periods into the first, or puts
a period made of the two in between them. -/
inductive Corrected (m : Samples α S) (c : Constants) (L : Ledger (α × α)) :
    Ledger (α × α) → Prop
  | unchanged : Corrected m c L L
  | accelerated (P : Nat) (period : P ≤ c.tsPmax) (enough : 2 * c.tsPmax ≤ L.held.length) :
      Corrected m c L
        ((L.leave .merged (2 * P)).put 0 (blend m P (values L.held) ((values L.held).drop P)))
  | expanded (P : Nat) (period : P ≤ c.tsPmax) (enough : 2 * c.tsPmax ≤ L.held.length) :
      Corrected m c L (L.put P (blend m P ((values L.held).drop P) (values L.held)))

inductive Moves (m : Samples α S) (c : Constants) :
    Call α → Ledger (α × α) → Ledger (α × α) → Prop
  | enqueue (pcm : Pcm α) (L : Ledger (α × α)) (n : Nat)
      (overrun : 0 < n → c.maxBufferFrames < L.held.length + (frames pcm.samples).length) :
      Moves m c (.enqueue pcm) L ((L.enter (frames pcm.samples)).leave .dropped n)
  | config (baseTarget : Option Int) (timeStretch : Option Bool) (L : Ledger (α × α)) :
      Moves m c (.config baseTarget timeStretch) L L
  | silent (channels n : Nat) (L : Ledger (α × α)) : Moves m c (.process channels n) L L
  | drained (channels n : Nat) {L L' : Ledger (α × α)} (corrected : Corrected m c L L') :
      Moves m c (.process channels n) L (L'.leave .served (min n L'.held.length))

inductive Accounts (m : Samples α S) (c : Constants) :
    List (Call α) → Ledger (α × α) → Ledger (α × α) → Prop
  | nil (L : Ledger (α × α)) : Accounts m c [] L L
  | cons {next : Call α} {calls : List (Call α)} {L L' L'' : Ledger (α × α)}
      (first : Moves m c next L L') (rest : Accounts m c calls L' L'') :
      Accounts m c (next :: calls) L L''

/-- The frames enqueued. -/
def entered : List (Call α) → List (α × α)
  | [] => []
  | .enqueue pcm :: calls => frames pcm.samples ++ entered calls
  | _ :: calls => entered calls

/-- The samples written are the frames played, faded in, and a gap faded out, or silence. -/
def Written (o : Quantum α) : Prop :=
  (∃ n, o = silence m n) ∨ ∃ remaining gap l r,
    o.left = (fadeFrames m remaining o.played).map Prod.fst ++ ramp m gap l ∧
      o.right = (fadeFrames m remaining o.played).map Prod.snd ++ ramp m gap r

theorem Corrected.originals_eq {m : Samples α S} {L L' : Ledger (α × α)} (h : Corrected m c L L') :
    originals L'.pieces = originals L.pieces ∧ L'.left .served = L.left .served := by
  cases h with
  | unchanged => exact ⟨rfl, rfl⟩
  | accelerated P =>
    rw [originals_put, pieces_leave, left_put,
      left_leave_of_ne _ (by decide)]
    exact ⟨rfl, rfl⟩
  | expanded P => exact ⟨originals_put .., rfl⟩

/-- Over any calls, what entered is what left and what is held, in order. -/
theorem Accounts.originals_eq {m : Samples α S} {calls : List (Call α)}
    {L L' : Ledger (α × α)} (h : Accounts m c calls L L') :
    originals L'.pieces = originals L.pieces ++ entered calls := by
  induction h with
  | nil L => simp [entered]
  | cons first rest ih =>
    cases first with
    | enqueue pcm L n =>
      rw [ih, pieces_leave, originals_enter, entered, append_assoc]
    | config => exact ih
    | silent => exact ih
    | drained channels n hcorrected =>
      rw [ih, pieces_leave, hcorrected.originals_eq.1]
      rfl

/-- The account shows the frames of the queue as those held. -/
def Shows (L : Ledger (α × α)) (q : Queue α) : Prop :=
  values L.held = frames (samples q)

theorem Shows.length {L : Ledger (α × α)} (h : Shows L q) :
    L.held.length = (frames (samples q)).length := by
  rw [← h, length_values]

variable {s : Processor α S}

theorem maintainTimeStretch_spec (hc : c.tsPmin ≤ c.tsPmax)
    (hs : Sound s.toQueue) (n : Nat) :
    ∃ s', Returns (fun turns => maintainTimeStretch m c turns s n) s' ∧ Sound s'.toQueue ∧
      ∀ L, Shows L s.toQueue → ∃ L', Corrected m c L L' ∧ Shows L' s'.toQueue := by
  unfold maintainTimeStretch
  dsimp only
  split
  case isTrue => exact ⟨_, Returns.of_eq fun _ => rfl, hs, fun L hL => ⟨L, .unchanged, hL⟩⟩
  case isFalse hnow =>
      have henough : 2 * c.tsPmax ≤ (frames (samples s.toQueue)).length := by
        have hcount := hs.queuedFrames_eq
        omega
      split
      case isTrue =>
          obtain ⟨done, hret, hdone⟩ := accelerate_spec m hc hs henough
          refine ⟨_, hret.map _, hdone.sound, fun L hL => ?_⟩
          cases happlied : done.applied with
          | false =>
            refine ⟨L, .unchanged, ?_⟩
            show values L.held = frames (samples done.queue)
            rw [hdone.refused happlied, hL]
          | true =>
            obtain ⟨P, hP, hchanged⟩ := hdone.applied happlied
            refine ⟨_, .accelerated P hP (by rw [hL.length]; exact henough), ?_⟩
            show values _ = frames (samples done.queue)
            rw [hchanged, values_held_put, values_held_leave, hL]
            rfl
      case isFalse =>
          split
          case isTrue =>
              obtain ⟨done, hret, hdone⟩ := expand_spec m hc hs henough
              refine ⟨_, hret.map _, hdone.sound, fun L hL => ?_⟩
              cases happlied : done.applied with
              | false =>
                refine ⟨L, .unchanged, ?_⟩
                show values L.held = frames (samples done.queue)
                rw [hdone.refused happlied, hL]
              | true =>
                obtain ⟨P, hP, hchanged⟩ := hdone.applied happlied
                refine ⟨_, .expanded P hP (by rw [hL.length]; exact henough), ?_⟩
                show values _ = frames (samples done.queue)
                rw [hchanged, values_held_put, hL]
          case isFalse =>
              exact ⟨_, Returns.of_eq fun _ => rfl, hs, fun L hL => ⟨L, .unchanged, hL⟩⟩

theorem sound_diag (hs : Sound s.toQueue) (n : Nat) :
    Sound (diag s n).toQueue ∧ samples (diag s n).toQueue = samples s.toQueue := by
  unfold diag
  split
  · exact ⟨hs, rfl⟩
  · exact ⟨hs, rfl⟩

theorem sound_stable (hs : Sound s.toQueue) (n : Nat) :
    Sound (stable c s n).toQueue ∧ samples (stable c s n).toQueue = samples s.toQueue := by
  unfold stable
  dsimp only
  split
  · exact ⟨hs, rfl⟩
  · split
    · exact ⟨hs, rfl⟩
    · exact ⟨hs, rfl⟩

/-- A call that returns, and what it does to the account. -/
structure Lawful (m : Samples α S) (c : Constants) (s : Processor α S) (next : Call α)
    (s' : Processor α S) (outs : List (Quantum α)) : Prop where
  sound : Sound s'.toQueue
  written : ∀ o ∈ outs, Written m o
  accounts : ∀ L, Shows L s.toQueue → ∃ L', Moves m c next L L' ∧ Shows L' s'.toQueue ∧
    values (L'.left .served) = values (L.left .served) ++ outs.flatMap Quantum.played

theorem finish_queue (c : Constants) (s : Processor α S) (n : Nat)
    (hd : Sound d.queue) :
    Sound (finish m c s n d).1.toQueue ∧
      samples (finish m c s n d).1.toQueue = samples d.queue := by
  unfold finish
  dsimp only
  split
  case isTrue => exact sound_diag hd n
  case isFalse =>
      obtain ⟨hsound, hsame⟩ := sound_stable (c := c) (s := { s with
        toQueue := d.queue
        consumedFrames := s.consumedFrames + d.outIdx
        fadeInRemaining := d.fadeInRemaining
        lastL := (d.written.getLast?.getD (s.lastL, s.lastR)).1
        lastR := (d.written.getLast?.getD (s.lastL, s.lastR)).2 }) hd n
      obtain ⟨hsound', hsame'⟩ := sound_diag hsound n
      exact ⟨hsound', hsame'.trans hsame⟩

theorem finish_written (c : Constants) (s : Processor α S) (n : Nat)
    {remaining : Nat} (h : d.written = fadeFrames m remaining d.played) :
    Written m (finish m c s n d).2 := by
  refine Or.inr ⟨remaining, n - d.outIdx, (d.written.getLast?.getD (s.lastL, s.lastR)).1,
    (d.written.getLast?.getD (s.lastL, s.lastR)).2, ?_, ?_⟩
  · show d.written.map Prod.fst ++ _ = (fadeFrames m remaining d.played).map Prod.fst ++ _
    rw [← h]
  · show d.written.map Prod.snd ++ _ = (fadeFrames m remaining d.played).map Prod.snd ++ _
    rw [← h]

theorem playOn_spec (hc : c.tsPmin ≤ c.tsPmax)
    (hs : Sound s.toQueue) (channels n : Nat) :
    ∃ done, Returns (fun turns => playOn m c turns s n) done ∧
      Lawful m c s (.process channels n) done.1 [done.2] := by
  have hstretch : ∃ s', Returns (fun turns => if s.timeStretch then maintainTimeStretch m c turns s n
      else some s) s' ∧ Sound s'.toQueue ∧
      ∀ L, Shows L s.toQueue → ∃ L', Corrected m c L L' ∧ Shows L' s'.toQueue := by
    cases s.timeStretch with
    | true => exact maintainTimeStretch_spec m hc hs n
    | false => exact ⟨s, Returns.of_eq fun _ => rfl, hs, fun L hL => ⟨L, .unchanged, hL⟩⟩
  obtain ⟨s', hmaintained, hs', hcorrected⟩ := hstretch
  generalize hstart : ({ queue := s'.toQueue, fadeInRemaining := s'.fadeInRemaining } :
    Drain α) = start
  have hqueue : start.queue = s'.toQueue := by rw [← hstart]
  have hnone : start.played = [] ∧ start.written = [] ∧ start.outIdx = 0 := by
    rw [← hstart]
    exact ⟨rfl, rfl, rfl⟩
  obtain ⟨d, taken, hdrained, hd, hsplit, hlength, hidx, hplayed, hwritten⟩ :=
    drainLoop_spec m n start.queue.queue (hqueue ▸ hs') rfl (by omega)
  rw [hqueue] at hsplit hlength
  rw [hnone.1, nil_append] at hplayed
  rw [hnone.2.1, nil_append] at hwritten
  rw [← hstart] at hdrained
  refine ⟨_, hmaintained.bind (hdrained.map _), ?_⟩
  have hend := finish_queue m c s' n hd
  refine ⟨hend.1, ?_, ?_⟩
  · intro o ho
    rw [mem_singleton.mp ho]
    exact finish_written m c s' n (hwritten.trans (by rw [hplayed]))
  · intro L hL
    obtain ⟨L', hmoved, hL'⟩ := hcorrected L hL
    have hcount : min n L'.held.length = taken.length := by
      rw [hlength, hL'.length, hnone.2.2]
      omega
    refine ⟨_, .drained channels n hmoved, ?_, ?_⟩
    · show values _ = frames (samples (finish m c s' n d).1.toQueue)
      rw [hend.2, values_held_leave, hL', hcount, ← hsplit, drop_left]
    · have hkept : L'.left .served = L.left .served := hmoved.originals_eq.2
      have hfirst : values (L'.held.take taken.length) = taken := by
        rw [values_take, hL', ← hsplit, take_left]
      rw [left_leave_self, values_append, hkept, hcount, hfirst]
      show _ = _ ++ (d.played ++ [])
      rw [hplayed, append_nil]

theorem process_spec (hc : c.tsPmin ≤ c.tsPmax)
    (hs : Sound s.toQueue) (channels n : Nat) :
    ∃ done, Returns (fun turns => process m c turns s channels n) done ∧
      Lawful m c s (.process channels n) done.1 [done.2] := by
  unfold process
  split
  case isTrue =>
      refine ⟨_, Returns.of_eq fun _ => rfl, hs, ?_, fun L hL => ⟨L, .silent channels n L, hL, ?_⟩⟩
      · intro o ho
        rw [mem_singleton.mp ho]
        exact Or.inl ⟨0, rfl⟩
      · simp
  case isFalse =>
      split
      case isTrue => exact playOn_spec m hc hs channels n
      case isFalse =>
          split
          case isTrue =>
              obtain ⟨done, hret, hlawful⟩ := playOn_spec m hc
                (s := { s with
                  playing := true
                  underrunRecovery := false
                  fadeInRemaining := fadeSamples }) hs channels n
              exact ⟨done, hret, hlawful.sound, hlawful.written, hlawful.accounts⟩
          case isFalse =>
              refine ⟨_, Returns.of_eq fun _ => rfl, hs, ?_,
                fun L hL => ⟨L, .silent channels n L, hL, ?_⟩⟩
              · intro o ho
                rw [mem_singleton.mp ho]
                exact Or.inl ⟨n, rfl⟩
              · simp [silence]

theorem call_spec (hc : c.tsPmin ≤ c.tsPmax)
    (hs : Sound s.toQueue) (next : Call α) :
    ∃ done, Returns (fun turns => call m c turns s next) done ∧
      Lawful m c s next done.1 done.2 := by
  cases next with
  | enqueue pcm =>
    obtain ⟨hsound, k, hframes, hover⟩ := enqueue_spec c.maxBufferFrames hs pcm
    refine ⟨_, Returns.of_eq fun _ => rfl, hsound, by simp, fun L hL => ?_⟩
    refine ⟨_, .enqueue pcm L k (by rw [hL.length]; exact hover), ?_, ?_⟩
    · show values _ = frames (samples (enqueue c.maxBufferFrames s.toQueue pcm.samples))
      rw [hframes, values_held_leave, ← hL]
      simp [enter]
    · rw [left_leave_of_ne _ (by decide)]
      simp
  | config baseTarget timeStretch =>
    refine ⟨_, Returns.of_eq fun _ => rfl, hs, by simp, fun L hL => ?_⟩
    exact ⟨L, .config baseTarget timeStretch L, hL, by simp⟩
  | process channels n =>
    obtain ⟨done, hret, hlawful⟩ := process_spec m hc hs channels n
    exact ⟨_, hret.map _, hlawful⟩

theorem run_spec (hc : c.tsPmin ≤ c.tsPmax)
    (calls : List (Call α)) (hs : Sound s.toQueue) (outs : List (Quantum α)) :
    ∃ s' more, Returns (fun turns => run m c turns calls (s, outs)) (s', outs ++ more) ∧
      Sound s'.toQueue ∧ (∀ o ∈ more, Written m o) ∧
      ∀ L, Shows L s.toQueue → ∃ L', Accounts m c calls L L' ∧ Shows L' s'.toQueue ∧
        values (L'.left .served) = values (L.left .served) ++ more.flatMap Quantum.played := by
  induction calls generalizing s outs with
  | nil =>
    refine ⟨s, [], Returns.of_eq fun _ => ?_, hs, by simp, fun L hL => ⟨L, .nil L, hL, by simp⟩⟩
    rw [run, append_nil]
  | cons next calls ih =>
    obtain ⟨done, hcalled, hlawful⟩ := call_spec m hc hs next
    obtain ⟨s', more, hrun, hs', hwritten, haccounts⟩ := ih hlawful.sound (outs ++ done.2)
    rw [append_assoc] at hrun
    refine ⟨s', done.2 ++ more, hcalled.bind hrun, hs', ?_, fun L hL => ?_⟩
    · intro o ho
      rcases mem_append.mp ho with hfirst | hrest
      · exact hlawful.written o hfirst
      · exact hwritten o hrest
    · obtain ⟨L', hmoves, hL', hserved⟩ := hlawful.accounts L hL
      obtain ⟨L'', hrest, hL'', hserved'⟩ := haccounts L' hL'
      refine ⟨L'', .cons hmoves hrest, hL'', ?_⟩
      rw [hserved', hserved, flatMap_append, append_assoc]

theorem round_mono {x y : ℚ} (h : x ≤ y) : round x ≤ round y := by
  unfold round
  exact Int.toNat_le_toNat (Int.floor_le_floor (by linarith))

structure SampleRate where
  hz : ℚ
  pos : 0 < hz

theorem tsPmin_le (rate : SampleRate) :
    (constants rate.hz).tsPmin ≤ (constants rate.hz).tsPmax := by
  have hpos := rate.pos
  have hmin := Lib.BinaryRounding.abs_toDouble_sub_le_mul (by positivity : 0 < rate.hz / 400)
  have hmax := Lib.BinaryRounding.abs_toDouble_sub_le_mul (by positivity : 0 < rate.hz / 100)
  norm_num at hmin hmax
  rw [abs_le] at hmin hmax
  exact round_mono (by linarith)

/-- Any calls on a processor whose correlations, crossfades and fades are arbitrary. Every call
returns; the count is that of the frames queued; what was enqueued is, in order and each frame
once, what left and what is queued, where frames left by being played, by an overrun or by
being merged into the period made of them; and what was played is what was written. -/
theorem worklet_lawful (m : Samples α S) (rate : SampleRate) (score : S) (calls : List (Call α)) :
    ∃ s outs,
      Returns (fun turns => run m (constants rate.hz) turns calls
        (initial m (constants rate.hz) score, [])) (s, outs) ∧
      s.queuedFrames = ((frames (samples s.toQueue)).length : Int) ∧
      (∃ L, Accounts m (constants rate.hz) calls {} L ∧
        originals L.pieces = entered calls ∧
        values L.held = frames (samples s.toQueue) ∧
        values (L.left .served) = outs.flatMap Quantum.played) ∧
      (∀ o ∈ outs, Written m o) ∧
      (∀ n, ∃ popped, Returns (fun turns => popFrames m turns s.toQueue n) popped) ∧
      (2 * ((constants rate.hz).tsPmax : Int) ≤ s.queuedFrames →
        ∃ fast slow, Returns (fun turns => accelerate m (constants rate.hz) turns s.toQueue) fast ∧
          Returns (fun turns => expand m (constants rate.hz) turns s.toQueue) slow ∧
          (fast.applied = false → samples fast.queue = samples s.toQueue ∧
            fast.queue.queuedFrames = s.queuedFrames) ∧
          (slow.applied = false → samples slow.queue = samples s.toQueue ∧
            slow.queue.queuedFrames = s.queuedFrames)) := by
  have hc := tsPmin_le rate
  have hinitial : Sound (initial m (constants rate.hz) score).toQueue :=
    ⟨by simp [initial], rfl, Nat.zero_le _, rfl⟩
  obtain ⟨s, outs, hrun, hs, hwritten, haccounts⟩ := run_spec m hc calls hinitial []
  obtain ⟨L, haccount, hL, hserved⟩ := haccounts {} rfl
  refine ⟨s, outs, hrun, hs.queuedFrames_eq, ⟨L, haccount, ?_, hL, hserved⟩, hwritten,
    popFrames_returns m hs, fun hmany => ?_⟩
  · rw [haccount.originals_eq]
    rfl
  · have henough : 2 * (constants rate.hz).tsPmax ≤ (frames (samples s.toQueue)).length := by
      have hcount := hs.queuedFrames_eq
      omega
    obtain ⟨fast, hfast, hfast'⟩ := accelerate_spec m hc hs henough
    obtain ⟨slow, hslow, hslow'⟩ := expand_spec m hc hs henough
    refine ⟨fast, slow, hfast, hslow, fun hrefused => ?_, fun hrefused => ?_⟩
    · have hsame := hfast'.refused hrefused
      exact ⟨hsame, by rw [hfast'.sound.queuedFrames_eq, hs.queuedFrames_eq, hsame]⟩
    · have hsame := hslow'.refused hrefused
      exact ⟨hsame, by rw [hslow'.sound.queuedFrames_eq, hs.queuedFrames_eq, hsame]⟩

end MoonlightWeb.Frontend.AudioProcessor
