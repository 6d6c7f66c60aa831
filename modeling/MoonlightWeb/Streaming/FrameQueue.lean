import MoonlightWeb.Lib.Eviction
import MoonlightWeb.Lib.Run

/-! # The queue in front of the sender thread

`FrameSender::push` queues a job for the worker and makes room for it by throwing
out deltas, oldest first: under the overall cap, and under the sender's own limit
on waiting deltas. The worker takes jobs from the front.
-/

namespace MoonlightWeb.Streaming.FrameSender

open Lib FrameSender List

/-- `kMaxQueued`, and the default of `Options::maxQueuedDeltas`. -/
def maxQueued : Nat := 8

/-- A job. The body is what the queue only carries: the channel, the frame or its
chunks, the wire id, the timestamp and the sink. -/
structure Job (β : Type) where
  isKeyframe : Bool
  frameNumber : UInt32
  body : β
deriving DecidableEq, Repr

open Job

structure Sender (β : Type) where
  queue : List (Job β)
  queueDrops : Nat
deriving Repr

variable {β : Type}

namespace Job

def isDelta (job : Job β) : Bool := !job.isKeyframe

end Job

def deltas (queue : List (Job β)) : Nat := (queue.filter isDelta).length

/-- The loop under the overall cap: the queue it leaves and the numbers it evicts.
Each turn takes a job out, so the length of the queue bounds the turns. -/
def evictOverCap : Nat → List (Job β) → List (Job β) × List UInt32
  | 0, queue => (queue, [])
  | turns + 1, queue =>
      if maxQueued ≤ queue.length then
        match queue.find? isDelta with
        | none => (queue, [])
        | some delta =>
            let (left, evicted) := evictOverCap turns (queue.eraseP isDelta)
            (left, delta.frameNumber :: evicted)
      else (queue, [])

/-- The loop under the delta limit, `deltas` of them still queued. -/
def evictOverLimit (keep : Nat) : Nat → List (Job β) → List (Job β) × List UInt32
  | _, [] => ([], [])
  | deltas, job :: rest =>
      if keep < deltas then
        if job.isKeyframe then
          let (left, evicted) := evictOverLimit keep deltas rest
          (job :: left, evicted)
        else
          let (left, evicted) := evictOverLimit keep (deltas - 1) rest
          (left, job.frameNumber :: evicted)
      else (job :: rest, [])

variable (maxQueuedDeltas : Nat)

def keptDeltas (job : Job β) : Nat :=
  if job.isKeyframe || maxQueuedDeltas == 0 then 0 else maxQueuedDeltas - 1

def makeRoom (job : Job β) (queue : List (Job β)) :
    List (Job β) × List UInt32 :=
  let (capped, overCap) := evictOverCap queue.length queue
  if maxQueuedDeltas < maxQueued then
    let (left, overLimit) :=
      evictOverLimit (keptDeltas maxQueuedDeltas job) (deltas capped) capped
    (left, overCap ++ overLimit)
  else (capped, overCap)

/-- `push`: the sender afterwards and the numbers of the deltas evicted. The code
also returns whether there was any. -/
def push (s : Sender β) (job : Job β) : Sender β × List UInt32 :=
  let (left, evicted) := makeRoom maxQueuedDeltas job s.queue
  (⟨left ++ [job], s.queueDrops + evicted.length⟩, evicted)

/-- The worker's turn. It waits while the queue is empty. -/
def pop (s : Sender β) : Option (Job β × Sender β) :=
  match s.queue with
  | [] => none
  | job :: rest => some (job, { s with queue := rest })

/-- The numbers of the jobs an eviction of `n` deltas throws out. -/
def evictedNumbers (n : Nat) (queue : List (Job β)) : List UInt32 :=
  (oldest isDelta n queue).map frameNumber

theorem evictedNumbers_succ {queue : List (Job β)} {delta : Job β} (n : Nat)
    (h : queue.find? isDelta = some delta) :
    evictedNumbers (n + 1) queue =
        delta.frameNumber :: evictedNumbers n (queue.eraseP isDelta) ∧
      spared isDelta (n + 1) queue = spared isDelta n (queue.eraseP isDelta) ∧
      queue.length = (queue.eraseP isDelta).length + 1 ∧
      deltas queue = deltas (queue.eraseP isDelta) + 1 := by
  induction queue with
  | nil => simp at h
  | cons job rest ih =>
    by_cases hdelta : job.isDelta = true
    · rw [List.find?_cons_of_pos hdelta] at h
      obtain rfl : job = delta := by simpa using h
      rw [eraseP_cons_of_pos hdelta]
      refine ⟨?_, spared_cons_of_pos n rest hdelta, rfl, ?_⟩
      · rw [evictedNumbers, oldest_cons_of_pos n rest hdelta]
        rfl
      · rw [deltas, filter_cons_of_pos hdelta]
        rfl
    · rw [List.find?_cons_of_neg hdelta] at h
      obtain ⟨hnumbers, hspared, hlength, hdeltas⟩ := ih h
      rw [eraseP_cons_of_neg hdelta]
      refine ⟨?_, ?_, ?_, ?_⟩
      · rw [evictedNumbers, oldest_cons_of_neg (n + 1) rest hdelta, evictedNumbers,
          oldest_cons_of_neg n _ hdelta]
        exact hnumbers
      · rw [spared_cons_of_neg (n + 1) rest hdelta, spared_cons_of_neg n _ hdelta, hspared]
      · simp only [length_cons]
        omega
      · rw [deltas, deltas, filter_cons_of_neg hdelta, filter_cons_of_neg hdelta]
        exact hdeltas

theorem deltas_spared (n : Nat) (queue : List (Job β)) :
    deltas (spared isDelta n queue) = deltas queue - n := by
  rw [deltas, filter_spared, length_drop]
  rfl

theorem evictOverCap_eq {turns : Nat} {queue : List (Job β)} (h : queue.length ≤ turns) :
    ∃ n, evictOverCap turns queue = (spared isDelta n queue, evictedNumbers n queue) ∧
      (n ≤ deltas queue) ∧
      ((spared isDelta n queue).length < maxQueued ∨
        deltas (spared isDelta n queue) = 0) := by
  induction turns generalizing queue with
  | zero =>
    obtain rfl : queue = [] := length_eq_zero_iff.mp (Nat.le_zero.mp h)
    exact ⟨0, rfl, Nat.zero_le _, Or.inr rfl⟩
  | succ turns ih =>
    unfold evictOverCap
    by_cases hfull : maxQueued ≤ queue.length
    · rw [if_pos hfull]
      cases hfind : queue.find? isDelta with
      | none =>
        refine ⟨0, ?_, Nat.zero_le _, Or.inr ?_⟩
        · rw [spared_zero]
          rfl
        · rw [spared_zero, deltas, length_eq_zero_iff, filter_eq_nil_iff]
          exact List.find?_eq_none.mp hfind
      | some delta =>
        obtain ⟨_, _, hlength, hdeltas⟩ := evictedNumbers_succ 0 hfind
        obtain ⟨n, heq, hn, hroom⟩ :=
          ih (show (queue.eraseP isDelta).length ≤ turns by omega)
        obtain ⟨hnumbers, hspared, _, _⟩ := evictedNumbers_succ n hfind
        refine ⟨n + 1, ?_, by omega, ?_⟩
        · simp only [heq, hnumbers, hspared]
        · rw [hspared]
          exact hroom
    · rw [if_neg hfull]
      refine ⟨0, ?_, Nat.zero_le _, Or.inl ?_⟩
      · rw [spared_zero]
        rfl
      · rw [spared_zero]
        omega

theorem evictOverLimit_eq (keep : Nat) (queue : List (Job β)) :
    evictOverLimit keep (deltas queue) queue = (spared isDelta (deltas queue - keep) queue,
        evictedNumbers (deltas queue - keep) queue) := by
  induction queue with
  | nil => simp [evictOverLimit, evictedNumbers, oldest]
  | cons job rest ih =>
    unfold evictOverLimit
    by_cases hover : keep < deltas (job :: rest)
    · rw [if_pos hover]
      by_cases hdelta : job.isDelta = true
      · have hkey : ¬ job.isKeyframe = true := by simpa [isDelta] using hdelta
        have hcount : deltas (job :: rest) = deltas rest + 1 := by
          rw [deltas, filter_cons_of_pos hdelta]
          rfl
        have hleft : deltas rest + 1 - keep = (deltas rest - keep) + 1 := by omega
        rw [if_neg hkey, hcount, Nat.add_sub_cancel, ih, hleft,
          spared_cons_of_pos _ rest hdelta, evictedNumbers, evictedNumbers,
          oldest_cons_of_pos _ rest hdelta]
        rfl
      · have hkey : job.isKeyframe = true := by simpa [isDelta] using hdelta
        have hcount : deltas (job :: rest) = deltas rest := by
          rw [deltas, filter_cons_of_neg hdelta]
          rfl
        rw [if_pos hkey, hcount, ih, spared_cons_of_neg _ rest hdelta, evictedNumbers,
          evictedNumbers, oldest_cons_of_neg _ rest hdelta]
    · have hnone : deltas (job :: rest) - keep = 0 := by omega
      rw [if_neg hover, hnone, spared_zero]
      rfl

/-- A push throws out a number of deltas, oldest first, and reports just these. -/
theorem makeRoom_eq (job : Job β) (queue : List (Job β)) :
    ∃ n, makeRoom maxQueuedDeltas job queue = (spared isDelta n queue, evictedNumbers n queue) ∧
      n ≤ deltas queue ∧
      ((spared isDelta n queue).length < maxQueued ∨
        deltas (spared isDelta n queue) = 0) ∧
      (maxQueuedDeltas < maxQueued →
        deltas (spared isDelta n queue) ≤ keptDeltas maxQueuedDeltas job) := by
  obtain ⟨n, heq, hn, hroom⟩ := evictOverCap_eq (Nat.le_refl queue.length)
  unfold makeRoom
  simp only [heq]
  by_cases hlimit : maxQueuedDeltas < maxQueued
  · let keep := keptDeltas maxQueuedDeltas job
    let m := deltas (spared isDelta n queue) - keep
    have hm : deltas (spared isDelta n queue) = deltas queue - n := deltas_spared n queue
    have hleft : deltas (spared isDelta (n + m) queue) = deltas queue - (n + m) :=
      deltas_spared (n + m) queue
    refine ⟨n + m, ?_, by omega, ?_, fun _ => ?_⟩
    · rw [if_pos hlimit, evictOverLimit_eq, spared_spared]
      simp only [evictedNumbers, ← map_append]
      rw [oldest_append_oldest]
    · rcases hroom with hshort | hempty
      · left
        rw [← spared_spared]
        exact Nat.lt_of_le_of_lt (spared_sublist m _).length_le hshort
      · right
        omega
    · rw [hleft]
      change deltas queue - (n + m) ≤ keep
      omega
  · refine ⟨n, ?_, hn, hroom, fun h => absurd h hlimit⟩
    rw [if_neg hlimit]

theorem push_eq (s : Sender β) (job : Job β) :
    ∃ n, push maxQueuedDeltas s job =
        (⟨spared isDelta n s.queue ++ [job], s.queueDrops + n⟩, evictedNumbers n s.queue) ∧
      n ≤ deltas s.queue ∧
      ((spared isDelta n s.queue).length < maxQueued ∨
        deltas (spared isDelta n s.queue) = 0) ∧
      (maxQueuedDeltas < maxQueued →
        deltas (spared isDelta n s.queue) ≤ keptDeltas maxQueuedDeltas job) := by
  obtain ⟨n, heq, hn, hroom, hlimit⟩ := makeRoom_eq maxQueuedDeltas job s.queue
  have hcount : (evictedNumbers n s.queue).length = n := by
    rw [evictedNumbers, length_map, oldest, length_take]
    exact Nat.min_eq_left hn
  refine ⟨n, ?_, hn, hroom, hlimit⟩
  simp only [push, heq, hcount]

def Job.ticket (job : Job (Nat × β)) : Nat := job.body.1

structure Ledger (β : Type) where
  sender : Sender (Nat × β)
  pushed : List (Job (Nat × β))
  popped : List (Job (Nat × β))
  evicted : List (Job (Nat × β))
  reported : List UInt32

inductive Event (β : Type)
  | push (isKeyframe : Bool) (frameNumber : UInt32) (body : β)
  | pop

def removed (before after : Sender (Nat × β)) : List (Job (Nat × β)) :=
  before.queue.filter fun job => job.ticket ∉ after.queue.map ticket

namespace Ledger

def start : Ledger β := ⟨⟨[], 0⟩, [], [], [], []⟩

/-- The job of the next push. -/
def ticketed (l : Ledger β) (isKeyframe : Bool) (frameNumber : UInt32) (body : β) :
    Job (Nat × β) :=
  ⟨isKeyframe, frameNumber, l.pushed.length, body⟩

def next (maxQueuedDeltas : Nat) (l : Ledger β) : Event β → Option (Ledger β)
  | .push isKeyframe frameNumber body =>
      let job := l.ticketed isKeyframe frameNumber body
      let (sender, evicted) := push maxQueuedDeltas l.sender job
      some
        { l with
          sender
          pushed := l.pushed ++ [job]
          evicted := l.evicted ++ removed l.sender sender
          reported := l.reported ++ evicted }
  | .pop => (pop l.sender).map fun (job, sender) =>
      { l with sender, popped := l.popped ++ [job] }

/-- Every job pushed is popped, queued or evicted, once, and in order. -/
structure Accounted (l : Ledger β) : Prop where
  tickets : l.pushed.map ticket = List.range l.pushed.length
  order : (l.popped ++ l.sender.queue).Sublist l.pushed
  total : (l.popped ++ l.sender.queue ++ l.evicted).Perm l.pushed
  deltas : ∀ job ∈ l.evicted, job.isDelta = true
  reported : l.reported = l.evicted.map frameNumber
  drops : l.sender.queueDrops = l.evicted.length

/-- What a push promises its caller. -/
structure Promised (maxQueuedDeltas : Nat) (isKeyframe : Bool) (l m : Ledger β) : Prop where
  evicted : m.evicted = l.evicted ++ removed l.sender m.sender
  reported : m.reported = l.reported ++ (removed l.sender m.sender).map frameNumber
  limit : maxQueuedDeltas < maxQueued →
    deltas m.sender.queue ≤ max 1 maxQueuedDeltas
  behindKeyframe : maxQueuedDeltas < maxQueued → isKeyframe = true →
    deltas m.sender.queue = 0
  cap : m.sender.queue.length ≤ maxQueued ∨
    ∀ job ∈ m.sender.queue.dropLast, job.isKeyframe = true

/-- Each push keeps its promise. -/
def Keeps (maxQueuedDeltas : Nat) (l : Ledger β) (e : Event β) (m : Ledger β) : Prop :=
  match e with
  | .push isKeyframe _ _ => Promised maxQueuedDeltas isKeyframe l m
  | .pop => True

section

variable {maxQueuedDeltas : Nat} {l m : Ledger β}

theorem Accounted.start : Accounted (Ledger.start : Ledger β) where
  tickets := rfl
  order := List.Sublist.refl _
  total := List.Perm.refl _
  deltas := forall_mem_nil _
  reported := rfl
  drops := rfl

theorem Accounted.queue_tickets (h : l.Accounted) :
    (l.sender.queue.map ticket).Nodup ∧
      ∀ job ∈ l.sender.queue, job.ticket < l.pushed.length := by
  have hsub : (l.sender.queue.map ticket).Sublist (l.pushed.map ticket) :=
    ((sublist_append_right _ _).trans h.order).map ticket
  rw [h.tickets] at hsub
  constructor
  · exact hsub.nodup nodup_range
  · intro job hjob
    exact mem_range.mp (hsub.subset (mem_map_of_mem hjob))

/-- The jobs a push removes are its oldest deltas, and it reports their numbers. -/
theorem Accounted.push_cases (h : l.Accounted) {isKeyframe : Bool} {frameNumber : UInt32}
    {body : β} (hnext : l.next maxQueuedDeltas (.push isKeyframe frameNumber body) = some m) :
    ∃ n, removed l.sender m.sender = oldest isDelta n l.sender.queue ∧
      n ≤ FrameSender.deltas l.sender.queue ∧
      m = ⟨⟨spared isDelta n l.sender.queue ++ [l.ticketed isKeyframe frameNumber body],
          l.sender.queueDrops + n⟩,
        l.pushed ++ [l.ticketed isKeyframe frameNumber body], l.popped,
        l.evicted ++ oldest isDelta n l.sender.queue,
        l.reported ++ evictedNumbers n l.sender.queue⟩ ∧
      ((spared isDelta n l.sender.queue).length < maxQueued ∨
        FrameSender.deltas (spared isDelta n l.sender.queue) = 0) ∧
      (maxQueuedDeltas < maxQueued →
        FrameSender.deltas (spared isDelta n l.sender.queue) ≤
          keptDeltas maxQueuedDeltas (l.ticketed isKeyframe frameNumber body)) := by
  obtain ⟨hnodup, hbelow⟩ := h.queue_tickets
  obtain ⟨n, hpush, hn, hroom, hlimit⟩ := push_eq maxQueuedDeltas l.sender
    (l.ticketed isKeyframe frameNumber body)
  have hremoved : ∀ drops, removed l.sender
      ⟨spared isDelta n l.sender.queue ++ [l.ticketed isKeyframe frameNumber body], drops⟩ =
        oldest isDelta n l.sender.queue := by
    intro drops
    rw [← filter_not_mem_spared ticket n hnodup, removed]
    refine filter_congr fun job hjob => ?_
    have hne : job.ticket ≠ (l.ticketed isKeyframe frameNumber body).ticket :=
      Nat.ne_of_lt (hbelow job hjob)
    simp only [map_append, map_cons, map_nil, mem_append, mem_singleton,
      hne, or_false]
  simp only [next, hpush, hremoved] at hnext
  obtain rfl := Option.some.inj hnext
  exact ⟨n, hremoved _, hn, rfl, hroom, hlimit⟩

theorem pop_cases (hnext : l.next maxQueuedDeltas .pop = some m) :
    ∃ job rest, l.sender.queue = job :: rest ∧
      m = { l with sender := { l.sender with queue := rest }, popped := l.popped ++ [job] } := by
  unfold next pop at hnext
  cases hqueue : l.sender.queue with
  | nil => simp [hqueue] at hnext
  | cons job rest =>
    simp only [hqueue, Option.map_some, Option.some.injEq] at hnext
    exact ⟨job, rest, rfl, hnext.symm⟩

theorem Accounted.step (h : l.Accounted) {e : Event β}
    (hnext : l.next maxQueuedDeltas e = some m) : m.Accounted := by
  cases e with
  | push isKeyframe frameNumber body =>
    obtain ⟨n, _, hn, rfl, _, _⟩ := h.push_cases hnext
    have hsub : (spared isDelta n l.sender.queue).Sublist l.sender.queue :=
      spared_sublist n _
    constructor
    · simp only [map_append, map_cons, map_nil, length_append,
        length_cons, length_nil, h.tickets, range_succ]
      rfl
    · simp only
      rw [← append_assoc]
      exact ((hsub.append_left _).trans h.order).append (List.Sublist.refl _)
    · simp only
      have hsplit : (spared isDelta n l.sender.queue ++
          oldest isDelta n l.sender.queue).Perm l.sender.queue :=
        perm_append_comm.trans (oldest_append_spared n l.sender.queue)
      have hall := ((hsplit.append_left l.popped).append_right l.evicted).trans h.total
      refine List.Perm.trans ?_ (hall.append_right [l.ticketed isKeyframe frameNumber body])
      classical
      rw [perm_iff_count]
      intro job
      simp only [count_append]
      omega
    · intro old hold
      rcases mem_append.mp hold with hbefore | hnow
      · exact h.deltas old hbefore
      · exact oldest_victim hnow
    · simp only [map_append, h.reported, evictedNumbers]
    · simp only [length_append, h.drops, oldest, length_take]
      have hle : n ≤ (l.sender.queue.filter isDelta).length := hn
      omega
  | pop =>
    obtain ⟨job, rest, hqueue, rfl⟩ := pop_cases hnext
    have horder := h.order
    have htotal := h.total
    rw [hqueue] at horder htotal
    constructor
    · exact h.tickets
    · simpa [append_assoc] using horder
    · simpa [append_assoc] using htotal
    · exact h.deltas
    · exact h.reported
    · exact h.drops

theorem Accounted.keeps (h : l.Accounted) {e : Event β}
    (hnext : l.next maxQueuedDeltas e = some m) : Keeps maxQueuedDeltas l e m := by
  cases e with
  | push isKeyframe frameNumber body =>
    obtain ⟨n, hremoved, _, rfl, hroom, hlimit⟩ := h.push_cases hnext
    have hlast : ∀ queue : List (Job (Nat × β)),
        FrameSender.deltas (queue ++ [l.ticketed isKeyframe frameNumber body]) =
          FrameSender.deltas queue + if isKeyframe then 0 else 1 := by
      intro queue
      rw [FrameSender.deltas, filter_append, length_append]
      cases isKeyframe <;> rfl
    have hkept : keptDeltas maxQueuedDeltas (l.ticketed isKeyframe frameNumber body) =
        if isKeyframe || maxQueuedDeltas == 0 then 0 else maxQueuedDeltas - 1 := rfl
    constructor
    · rw [hremoved]
    · rw [hremoved]
      rfl
    · intro hbelow
      have hle := hlimit hbelow
      simp only [hlast]
      rw [hkept] at hle
      cases isKeyframe with
      | true =>
        simp only [Bool.true_or, if_true] at hle ⊢
        omega
      | false =>
        simp only [Bool.false_or, beq_iff_eq] at hle
        simp only [Bool.false_eq_true, if_false]
        by_cases hzero : maxQueuedDeltas = 0
        · rw [if_pos hzero] at hle
          omega
        · rw [if_neg hzero] at hle
          omega
    · intro hbelow hkey
      have hle := hlimit hbelow
      simp only [hlast]
      rw [hkept, hkey] at hle
      simp only [Bool.true_or, if_true] at hle
      rw [hkey]
      simp only [if_true]
      omega
    · simp only
      rcases hroom with hshort | hempty
      · left
        simp only [length_append, length_cons, length_nil]
        omega
      · right
        intro old hold
        rw [dropLast_concat] at hold
        have hnone := filter_eq_nil_iff.mp (length_eq_zero_iff.mp hempty) old hold
        simpa [isDelta] using hnone
  | pop => trivial

end

end Ledger

/-- Along every run of pushes and pops each frame is accounted for, and each push
keeps to its limits. -/
theorem queue_kept_along (maxQueuedDeltas : Nat) (labels : List (Event β)) :
    AllAlong (moves (Ledger.next maxQueuedDeltas)) Ledger.Accounted Ledger.start labels ∧
      EachStep (moves (Ledger.next maxQueuedDeltas)) (Ledger.Keeps maxQueuedDeltas)
        Ledger.start labels := by
  have hall : ∀ visited l, Run (moves (Ledger.next maxQueuedDeltas)) Ledger.start visited l →
      (l : Ledger β).Accounted := fun _ _ hrun =>
    hrun.invariant (fun _ _ _ h hnext => h.step hnext) Ledger.Accounted.start
  constructor
  · intro visited _ l _ hrun
    exact hall visited l hrun
  · intro visited _ _ l _ _ hrun hnext
    exact (hall visited l hrun).keeps hnext

end MoonlightWeb.Streaming.FrameSender
