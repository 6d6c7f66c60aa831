import MoonlightWeb.Backend.VirtualDisplayJob

/-! # One operation at a time

The law of the queue is read off its log: operations start one at a time and
in the order asked, a helper's answer is taken by the operation it was started
for, and every callback hears once of an operation of its own mode. The code
keeps it as long as no helper answers for an operation that has ended, and no
callback leaves an operation running with another one queued behind it.
-/

namespace MoonlightWeb.Backend.VirtualDisplayJob

open Lib Entry List

/-- The operation in progress after one more entry; `none` when two would be,
when one ends that is not in progress, or when an answer is taken that another
operation's helper wrote. -/
def serve : Option Nat → Entry → Option (Option Nat)
  | none, .started op => some (some op)
  | some _, .started _ => none
  | some cur, .took op sources =>
      if op = cur ∧ ∀ s ∈ sources, s = cur then some (some cur) else none
  | none, .took _ _ => none
  | some cur, .ended op _ _ => if op = cur then some none else none
  | none, .ended _ _ _ => none
  | cur, _ => some cur

variable (log : List Entry)

def inProgress : Option (Option Nat) := log.foldlM serve none

def Entry.startedOp : Entry → Option Nat
  | .started op => some op
  | _ => none

def Entry.requestedOp : Entry → Option Nat
  | .requested op _ => some op
  | _ => none

def Entry.heard : Entry → Option Nat
  | .answered cb _ _ _ _ => some cb
  | .called cb _ _ _ => some cb
  | _ => none

def startedOps : List Nat := log.filterMap startedOp

def requestedOps : List Nat := log.filterMap requestedOp

def calls : List Nat := log.filterMap heard

def Frame.rest : Frame → List Nat
  | .answering => []
  | .settling rest _ _ _ => rest

/-- The probe says that nothing has to be done, or that nothing can be. -/
def NothingToDo (p : Platform) (mode : Mode) (st : Status) (ok : Bool) : Prop :=
  if ok then
    p.livesInStream = true ∨ (mode.action = .activate ∧ st.active = true) ∨
      (mode.action = .deactivate ∧ (!st.supported || !st.installed || !st.enabled) = true)
  else st.supported = false ∨ st.installed = false

/-- The law of the queue. -/
structure Orderly (p : Platform) (w : World) : Prop where
  serial : (inProgress w.log).isSome = true
  inOrder : startedOps w.log <+: requestedOps w.log
  once : (calls w.log).Nodup
  attributed : ∀ cb op ok error, .called cb op ok error ∈ w.log →
    .ended op ok error ∈ w.log ∧ ∃ mode, .requested op mode ∈ w.log ∧ .gave cb mode ∈ w.log
  atOnce : ∀ cb mode st ok error, .answered cb mode st ok error ∈ w.log →
    NothingToDo p mode st ok ∧
      ∃ before after, w.log = before ++ .gave cb mode :: .answered cb mode st ok error :: after
  noneLeft : w.running = false → w.queue = [] → ∀ cb mode, .gave cb mode ∈ w.log →
    cb ∈ calls w.log ∨ ∃ f ∈ w.stack, cb ∈ f.rest

variable (w : World)

/-- The loop of `settle` has run its last callback. -/
def World.finishing : Bool :=
  match w.stack with
  | .settling [] _ _ _ :: _ => true
  | _ => false

def World.expects (pid : Nat) : Bool :=
  w.running && (w.proc? pid).all fun proc => proc.owner == w.current

/-- No helper answers for an operation that has ended, or writes while the next
one is in progress, and the callbacks of an operation leave none running with
another one queued. -/
def Proper : Event → Bool
  | .output pid _ => !w.running || w.expects pid
  | .finished pid _ _ _ _ => w.expects pid
  | .failedToStart pid _ => w.expects pid
  | .written op _ => !w.running || op == w.current
  | .returns _ => !w.finishing || !w.running || w.queue.isEmpty
  | _ => true

theorem inProgress_append (e : Entry) :
    inProgress (log ++ [e]) = (inProgress log).bind fun cur => serve cur e := by
  simp [inProgress, foldlM_append]

variable {log : List Entry}

theorem inProgress_started (op : Nat) (h : inProgress log = some none) :
    inProgress (log ++ [.started op]) = some (some op) := by
  rw [inProgress_append, h]
  rfl

variable {op : Nat}

theorem inProgress_took {sources : List Nat}
    (h : inProgress log = some (some op)) (hs : ∀ s ∈ sources, s = op) :
    inProgress (log ++ [.took op sources]) = some (some op) := by
  rw [inProgress_append, h]
  exact if_pos ⟨rfl, hs⟩

theorem inProgress_ended (ok : Bool) (error : String) (h : inProgress log = some (some op)) :
    inProgress (log ++ [.ended op ok error]) = some none := by
  rw [inProgress_append, h]
  exact if_pos rfl

def Entry.passive : Entry → Bool
  | .started _ | .took _ _ | .ended _ _ _ => false
  | _ => true

theorem inProgress_passive {e : Entry} (h : e.passive = true) :
    inProgress (log ++ [e]) = inProgress log := by
  rw [inProgress_append]
  cases hcur : inProgress log with
  | none => rfl
  | some cur => cases e <;> first | contradiction | (cases cur <;> rfl)

theorem startedOps_append (log : List Entry) (e : Entry) :
    startedOps (log ++ [e]) = startedOps log ++ e.startedOp.toList := by
  cases h : e.startedOp <;> simp [startedOps, h]

theorem requestedOps_append (log : List Entry) (e : Entry) :
    requestedOps (log ++ [e]) = requestedOps log ++ e.requestedOp.toList := by
  cases h : e.requestedOp <;> simp [requestedOps, h]

theorem calls_append (log : List Entry) (e : Entry) :
    calls (log ++ [e]) = calls log ++ e.heard.toList := by
  cases h : e.heard <;> simp [calls, h]

/-- What the law is about: the requests, the callbacks and the log, without the
timers, the helpers and the files. -/
structure Ledger where
  queue : List Pending
  callbacks : List Nat
  mode : Mode
  stack : List Frame
  current : Nat
  next : Nat
  given : Nat
  owners : List Nat
  log : List Entry

open Ledger

def World.ledger : Ledger :=
  ⟨w.queue, w.callbacks, w.request.mode, w.stack, w.current, w.next, w.given,
    w.procs.map Proc.owner, w.log⟩

def Ledger.note (l : Ledger) (e : Entry) : Ledger := { l with log := l.log ++ [e] }

/-- Where a callback is: called, waiting in a running loop, waiting for the
operation in progress, or waiting in the queue. -/
def Ledger.placed (l : Ledger) : List Nat :=
  calls l.log ++ l.stack.flatMap Frame.rest ++ l.callbacks ++ l.queue.flatMap Pending.cb

theorem mem_log_of_ne {e x : Entry} (hx : x ∈ log ++ [e]) (hne : x ≠ e) :
    x ∈ log := by
  rcases mem_append.mp hx with hx | hx
  · exact hx
  · exact absurd (mem_singleton.mp hx) hne

/-- The facts of a callback that is called, or about to be. -/
def Vouched (log : List Entry) (cbs : List Nat) (op : Nat) (ok : Bool) (error : String) : Prop :=
  .ended op ok error ∈ log ∧ ∃ mode, .requested op mode ∈ log ∧ ∀ cb ∈ cbs, .gave cb mode ∈ log

variable {cbs : List Nat} {error : String} {ok : Bool}

theorem Vouched.note
    (h : Vouched log cbs op ok error) (e : Entry) : Vouched (log ++ [e]) cbs op ok error := by
  obtain ⟨hended, mode, hreq, hgave⟩ := h
  exact ⟨mem_append_left _ hended, mode, mem_append_left _ hreq,
    fun cb hcb => mem_append_left _ (hgave cb hcb)⟩

theorem Vouched.mono {cbs cbs' : List Nat}
    (h : Vouched log cbs op ok error) (hsub : ∀ cb ∈ cbs', cb ∈ cbs) :
    Vouched log cbs' op ok error := by
  obtain ⟨hended, mode, hreq, hgave⟩ := h
  exact ⟨hended, mode, hreq, fun cb hcb => hgave cb (hsub cb hcb)⟩

/-- The books balance; `loose` are the callbacks of the call being made. -/
structure Sound (p : Platform) (loose : List Nat) (l : Ledger) : Prop where
  order : startedOps l.log ++ l.queue.map Pending.ticket = requestedOps l.log
  numbered : requestedOps l.log = List.range' 1 (l.next - 1)
  fresh : 1 ≤ l.next
  owners : ∀ op ∈ l.owners, op ∈ startedOps l.log
  account : (l.placed ++ loose).Perm (List.range l.given)
  gave : ∀ cb mode, .gave cb mode ∈ l.log → cb < l.given
  queued : ∀ q ∈ l.queue, .requested q.ticket q.mode ∈ l.log ∧ ∀ cb ∈ q.cb, .gave cb q.mode ∈ l.log
  waiting : ∀ cb ∈ l.callbacks, .gave cb l.mode ∈ l.log
  frames : ∀ rest op ok error, .settling rest op ok error ∈ l.stack → Vouched l.log rest op ok error
  attributed : ∀ cb op ok error, .called cb op ok error ∈ l.log → Vouched l.log [cb] op ok error
  atOnce : ∀ cb mode st ok error, .answered cb mode st ok error ∈ l.log →
    NothingToDo p mode st ok ∧
      ∃ before after, l.log = before ++ .gave cb mode :: .answered cb mode st ok error :: after

variable {p : Platform} {loose : List Nat} {l : Ledger}

variable {mode : Mode} {st : Status}

theorem answered_mono (e : Entry) {cb : Nat}
    (h : ∃ before after, log = before ++ .gave cb mode :: .answered cb mode st ok error :: after) :
    ∃ before after,
      log ++ [e] = before ++ .gave cb mode :: .answered cb mode st ok error :: after := by
  obtain ⟨before, after, hlog⟩ := h
  exact ⟨before, after ++ [e], by simp [hlog]⟩

/-! ### What another entry leaves -/

variable {e : Entry} (h : Sound p loose l)

include h

theorem Sound.queued_note : ∀ q ∈ l.queue, .requested q.ticket q.mode ∈ (l.note e).log ∧
    ∀ cb ∈ q.cb, .gave cb q.mode ∈ (l.note e).log :=
  fun q hq => ⟨mem_append_left _ (h.queued q hq).1,
    fun cb hcb => mem_append_left _ ((h.queued q hq).2 cb hcb)⟩

theorem Sound.waiting_note : ∀ cb ∈ l.callbacks, .gave cb l.mode ∈ (l.note e).log :=
  fun cb hcb => mem_append_left _ (h.waiting cb hcb)

theorem Sound.frames_note : ∀ rest op ok error, .settling rest op ok error ∈ l.stack →
    Vouched (l.note e).log rest op ok error :=
  fun rest op ok error hf => (h.frames rest op ok error hf).note _

theorem Sound.attributed_note (hne : ∀ {cb op ok error}, .called cb op ok error ≠ e) :
    ∀ cb op ok error, .called cb op ok error ∈ (l.note e).log →
      Vouched (l.note e).log [cb] op ok error :=
  fun cb op ok error hc => (h.attributed cb op ok error (mem_log_of_ne hc hne)).note _

theorem Sound.atOnce_note (hne : ∀ {cb mode st ok error}, .answered cb mode st ok error ≠ e) :
    ∀ cb mode st ok error, .answered cb mode st ok error ∈ (l.note e).log →
      NothingToDo p mode st ok ∧ ∃ before after,
        (l.note e).log = before ++ .gave cb mode :: .answered cb mode st ok error :: after := by
  intro cb mode st ok error ha
  obtain ⟨hnothing, hlog⟩ := h.atOnce cb mode st ok error (mem_log_of_ne ha hne)
  exact ⟨hnothing, answered_mono _ hlog⟩

theorem Sound.gave_note (hne : ∀ {cb mode}, .gave cb mode ≠ e) :
    ∀ cb mode, .gave cb mode ∈ (l.note e).log → cb < l.given :=
  fun cb mode hm => h.gave cb mode (mem_log_of_ne hm hne)

omit h

def Entry.reports : Entry → Bool
  | .took _ _ | .ended _ _ _ => true
  | _ => false

theorem Sound.report (h : Sound p loose l) {e : Entry} (he : e.reports = true) :
    Sound p loose (l.note e) := by
  have hstarted : startedOps (l.log ++ [e]) = startedOps l.log := by
    cases e <;> first | contradiction | simp [startedOps_append, startedOp]
  have hrequested : requestedOps (l.log ++ [e]) = requestedOps l.log := by
    cases e <;> first | contradiction | simp [requestedOps_append, requestedOp]
  have hcalls : calls (l.log ++ [e]) = calls l.log := by
    cases e <;> first | contradiction | simp [calls_append, heard]
  have hne : ∀ {x : Entry}, x.reports = false → x ≠ e := by
    intro x hx hxe
    rw [hxe, he] at hx
    cases hx
  constructor
  · simpa only [note, hstarted, hrequested] using h.order
  · simpa only [note, hrequested] using h.numbered
  · exact h.fresh
  · simpa only [note, hstarted] using h.owners
  · simpa only [note, placed, hcalls] using h.account
  · exact h.gave_note (hne rfl)
  · exact h.queued_note
  · exact h.waiting_note
  · exact h.frames_note
  · exact h.attributed_note (hne rfl)
  · exact h.atOnce_note (hne rfl)

theorem Sound.give (h : Sound p [] l) (mode : Mode) :
    Sound p [l.given] { l.note (.gave l.given mode) with given := l.given + 1 } := by
  constructor
  · simpa [note, startedOps_append, requestedOps_append, startedOp,
      requestedOp] using h.order
  · simpa [note, requestedOps_append, requestedOp] using h.numbered
  · exact h.fresh
  · simpa [note, startedOps_append, startedOp] using h.owners
  · have haccount : l.placed.Perm (List.range l.given) := by simpa using h.account
    have hplaced : ({ l.note (.gave l.given mode) with given := l.given + 1 } : Ledger).placed =
        l.placed := by
      simp [placed, note, calls_append, heard]
    rw [hplaced]
    show List.Perm _ (List.range (l.given + 1))
    rw [range_succ]
    exact haccount.append_right _
  · intro cb mode' hm
    rcases mem_append.mp hm with hm | hm
    · exact Nat.lt_succ_of_lt (h.gave cb mode' hm)
    · cases mem_singleton.mp hm
      exact Nat.lt_succ_self _
  · exact h.queued_note
  · exact h.waiting_note
  · exact h.frames_note
  · exact h.attributed_note (by simp)
  · exact h.atOnce_note (by simp)

variable {v : Verdict}

theorem Sound.answer {cb : Nat} (h : Sound p [cb] l)
    {before : List Entry} (hlast : l.log = before ++ [.gave cb mode])
    (hnothing : NothingToDo p mode st v.1) :
    Sound p [] { l.note (.answered cb mode st v.1 v.2) with stack := .answering :: l.stack } := by
  constructor
  · simpa [note, startedOps_append, requestedOps_append, startedOp,
      requestedOp] using h.order
  · simpa [note, requestedOps_append, requestedOp] using h.numbered
  · exact h.fresh
  · simpa [note, startedOps_append, startedOp] using h.owners
  · refine List.Perm.trans ?_ h.account
    refine perm_iff_count.mpr fun a => ?_
    simp only [placed, note, calls_append, heard, Option.toList,
      flatMap_cons, Frame.rest, count_append, count_nil]
    omega
  · exact h.gave_note (by simp)
  · exact h.queued_note
  · exact h.waiting_note
  · intro rest op ok error hf
    have hf : Frame.settling rest op ok error ∈ l.stack := by simpa using hf
    exact (h.frames rest op ok error hf).note _
  · exact h.attributed_note (by simp)
  · intro cb' mode' st' ok error ha
    rcases mem_append.mp ha with ha | ha
    · obtain ⟨hn, hlog⟩ := h.atOnce cb' mode' st' ok error ha
      exact ⟨hn, answered_mono _ hlog⟩
    · cases mem_singleton.mp ha
      exact ⟨hnothing, before, [], by simp [note, hlast]⟩

/-- A new operation at the end of the queue. -/
theorem Sound.request (h : Sound p loose l) (hgave : ∀ cb ∈ loose, .gave cb mode ∈ l.log) :
    Sound p [] { l.note (.requested l.next mode) with
      queue := l.queue ++ [⟨l.next, mode, loose⟩], next := l.next + 1 } := by
  have hnext := h.fresh
  constructor
  · have horder := h.order
    simp only [note, startedOps_append, requestedOps_append, startedOp,
      requestedOp, Option.toList, map_append, append_nil, map_cons,
      map_nil]
    rw [← horder, append_assoc]
  · simp only [note, requestedOps_append, requestedOp, Option.toList, h.numbered]
    have hsucc : l.next + 1 - 1 = (l.next - 1) + 1 := by omega
    have hlast : 1 + 1 * (l.next - 1) = l.next := by omega
    rw [hsucc, List.range'_concat, hlast]
  · exact Nat.le_succ_of_le hnext
  · simpa [note, startedOps_append, startedOp] using h.owners
  · refine List.Perm.trans ?_ h.account
    refine perm_iff_count.mpr fun a => ?_
    simp only [placed, note, calls_append, heard, Option.toList,
      flatMap_append, flatMap_cons, flatMap_nil, count_append, count_nil]
    omega
  · exact h.gave_note (by simp)
  · intro q hq
    rcases mem_append.mp hq with hq | hq
    · exact ⟨mem_append_left _ (h.queued q hq).1,
        fun cb hcb => mem_append_left _ ((h.queued q hq).2 cb hcb)⟩
    · cases mem_singleton.mp hq
      exact ⟨mem_append_right _ (mem_singleton.mpr rfl),
        fun cb hcb => mem_append_left _ (hgave cb hcb)⟩
  · exact h.waiting_note
  · exact h.frames_note
  · exact h.attributed_note (by simp)
  · exact h.atOnce_note (by simp)

theorem Sound.join (h : Sound p loose l) (hgave : ∀ cb ∈ loose, .gave cb l.mode ∈ l.log) :
    Sound p [] { l with callbacks := l.callbacks ++ loose } := by
  refine ⟨h.order, h.numbered, h.fresh, h.owners, ?_, h.gave, h.queued, ?_, h.frames,
    h.attributed, h.atOnce⟩
  · refine List.Perm.trans ?_ h.account
    refine perm_iff_count.mpr fun a => ?_
    simp only [placed, count_append, count_nil]
    omega
  · intro cb hcb
    rcases mem_append.mp hcb with hcb | hcb
    · exact h.waiting cb hcb
    · exact hgave cb hcb

/-- A call joined to the last operation of the queue. -/
theorem Sound.joinLast (h : Sound p loose l) {front : List Pending} {last : Pending}
    (hqueue : l.queue = front ++ [last]) (hgave : ∀ cb ∈ loose, .gave cb last.mode ∈ l.log) :
    Sound p [] { l with queue := front ++ [{ last with cb := last.cb ++ loose }] } := by
  have hlast := h.queued last (by simp [hqueue])
  refine ⟨?_, h.numbered, h.fresh, h.owners, ?_, h.gave, ?_, h.waiting, h.frames, h.attributed,
    h.atOnce⟩
  · simpa [hqueue] using h.order
  · refine List.Perm.trans ?_ h.account
    refine perm_iff_count.mpr fun a => ?_
    simp only [placed, hqueue, flatMap_append, flatMap_cons, flatMap_nil,
      count_append, count_nil]
    omega
  · intro q hq
    rcases mem_append.mp hq with hq | hq
    · exact h.queued q (by simp [hqueue, hq])
    · cases mem_singleton.mp hq
      refine ⟨hlast.1, fun cb hcb => ?_⟩
      rcases mem_append.mp hcb with hcb | hcb
      · exact hlast.2 cb hcb
      · exact hgave cb hcb

variable {next : Pending}

/-- The next operation is taken off the queue. -/
theorem Sound.take (h : Sound p [] l) {rest : List Pending}
    (hqueue : l.queue = next :: rest) (hidle : l.callbacks = []) :
    Sound p [] { l.note (.started next.ticket) with
      queue := rest, mode := next.mode, callbacks := next.cb, current := next.ticket } := by
  have hnext := h.queued next (by simp [hqueue])
  have horder := h.order
  simp only [hqueue, map_cons] at horder
  constructor
  · simp only [note, startedOps_append, requestedOps_append, startedOp,
      requestedOp, Option.toList, append_nil]
    simpa using horder
  · simpa [note, requestedOps_append, requestedOp] using h.numbered
  · exact h.fresh
  · intro op hop
    simp only [note, startedOps_append]
    exact mem_append_left _ (h.owners op hop)
  · refine List.Perm.trans ?_ h.account
    refine perm_iff_count.mpr fun a => ?_
    simp only [placed, note, calls_append, heard, Option.toList, hqueue, hidle,
      flatMap_cons, count_append, count_nil]
    omega
  · exact h.gave_note (by simp)
  · intro q hq
    have hq := h.queued q (by simp [hqueue, show q ∈ rest from hq])
    exact ⟨mem_append_left _ hq.1, fun cb hcb => mem_append_left _ (hq.2 cb hcb)⟩
  · exact fun cb hcb => mem_append_left _ (hnext.2 cb hcb)
  · exact h.frames_note
  · exact h.attributed_note (by simp)
  · exact h.atOnce_note (by simp)

/-- A callback of an operation that has ended is called: the first of `cb :: rest`,
taken from the operation's own list or from the loop that is running. -/
theorem Sound.call {l' : Ledger} (h : Sound p [] l) {cb op : Nat} {rest : List Nat}
    (frames : List Frame) (hvouched : Vouched l.log (cb :: rest) op ok error)
    (hl' : l' = { l.note (.called cb op ok error) with
      callbacks := l'.callbacks, stack := .settling rest op ok error :: frames })
    (hstack : ∀ f ∈ frames, f ∈ l.stack) (hcallbacks : ∀ c ∈ l'.callbacks, c ∈ l.callbacks)
    (hplaced : ∀ a, (l.stack.flatMap Frame.rest ++ l.callbacks).count a =
      (cb :: rest ++ frames.flatMap Frame.rest ++ l'.callbacks).count a) :
    Sound p [] l' := by
  rw [hl']
  constructor
  · simpa [note, startedOps_append, requestedOps_append, startedOp,
      requestedOp] using h.order
  · simpa [note, requestedOps_append, requestedOp] using h.numbered
  · exact h.fresh
  · simpa [note, startedOps_append, startedOp] using h.owners
  · refine List.Perm.trans ?_ h.account
    refine perm_iff_count.mpr fun a => ?_
    have hcount := hplaced a
    simp only [placed, note, calls_append, heard, Option.toList,
      flatMap_cons, Frame.rest, count_append, count_nil, count_cons]
      at hcount ⊢
    omega
  · exact h.gave_note (by simp)
  · exact h.queued_note
  · exact fun c hc => mem_append_left _ (h.waiting c (hcallbacks c hc))
  · intro rest' op' ok' error' hf
    rcases mem_cons.mp hf with hf | hf
    · obtain ⟨rfl, rfl, rfl, rfl⟩ := Frame.settling.inj hf
      exact (hvouched.mono fun c hc => mem_cons_of_mem _ hc).note _
    · exact (h.frames rest' op' ok' error' (hstack _ hf)).note _
  · intro cb' op' ok' error' hc
    rcases mem_append.mp hc with hc | hc
    · exact (h.attributed cb' op' ok' error' hc).note _
    · obtain ⟨rfl, rfl, rfl, rfl⟩ := called.inj (mem_singleton.mp hc)
      exact (hvouched.mono fun c hc => mem_singleton.mp hc ▸ mem_cons_self).note _
  · exact h.atOnce_note (by simp)

/-- A loop that has run its last callback is left. -/
theorem Sound.pop (h : Sound p loose l) {f : Frame} {frames : List Frame}
    (hstack : l.stack = f :: frames) (hdone : f.rest = []) :
    Sound p loose { l with stack := frames } := by
  refine ⟨h.order, h.numbered, h.fresh, h.owners, ?_, h.gave, h.queued, h.waiting, ?_,
    h.attributed, h.atOnce⟩
  · simpa [placed, hstack, hdone] using h.account
  · exact fun rest op ok error hf => h.frames rest op ok error (by simp [hstack, hf])

theorem Sound.spawn (h : Sound p loose l) (hcurrent : l.current ∈ startedOps l.log) :
    Sound p loose { l with owners := l.owners ++ [l.current] } := by
  refine ⟨h.order, h.numbered, h.fresh, ?_, h.account, h.gave, h.queued, h.waiting, h.frames,
    h.attributed, h.atOnce⟩
  intro op hop
  rcases mem_append.mp hop with hop | hop
  · exact h.owners op hop
  · exact mem_singleton.mp hop ▸ hcurrent

def World.awaited : List Proc :=
  w.procs.filter fun proc => proc.alive && proc.owner == w.current

/-- The job is on an operation: `current` is in progress. -/
structure Held (p : Platform) (loose : List Nat) (w : World) : Prop where
  sound : Sound p loose w.ledger
  serial : inProgress w.log = some (some w.current)
  begun : w.current ∈ startedOps w.log
  asked : .requested w.current w.request.mode ∈ w.log
  writers : ∀ op ∈ w.writers, op = w.current

/-- The operation waits for no helper and no timer. -/
structure Quiet (w : World) : Prop where
  awaited : w.awaited = []
  poll : w.poll = false
  deadline : w.deadline = false

/-- The operation waits for one helper at most, and polls only with none. -/
structure Busy (p : Platform) (loose : List Nat) (w : World) : Prop where
  held : Held p loose w
  running : w.running = true
  one : w.awaited.length ≤ 1
  poll : w.poll = true → w.awaited = []
  file : ∀ op bytes, w.resultFile = some (op, bytes) → op = w.current

/-- No operation is in progress; no callback waits for one. -/
structure Free (p : Platform) (loose : List Nat) (w : World) : Prop where
  sound : Sound p loose w.ledger
  serial : inProgress w.log = some none
  running : w.running = false
  poll : w.poll = false
  deadline : w.deadline = false
  callbacks : w.callbacks = []

/-- The operation has ended with `v`; its callbacks have not been called. -/
structure Over (p : Platform) (w : World) (v : Verdict) : Prop where
  sound : Sound p [] w.ledger
  serial : inProgress w.log = some none
  running : w.running = false
  poll : w.poll = false
  deadline : w.deadline = false
  ended : .ended w.current v.1 v.2 ∈ w.log
  asked : .requested w.current w.request.mode ∈ w.log

def Inv (p : Platform) (loose : List Nat) (w : World) : Prop :=
  Busy p loose w ∨ Free p loose w

/-- What the functions that go on with an operation leave: it is in progress
still, or over. The queue is not theirs. -/
structure Outcome (p : Platform) (queue : List Pending) (r : World × Option Verdict) : Prop where
  queue : r.1.queue = queue
  phase : match r.2 with
    | none => Busy p [] r.1
    | some v => Over p r.1 v

variable {w : World}

theorem Held.fail (h : Held p [] w) (error : String) :
    Outcome p w.queue (w.fail error) := by
  refine ⟨rfl, ?_⟩
  exact {
    sound := h.sound.report (e := .ended w.current false error) rfl
    serial := inProgress_ended _ _ h.serial
    running := rfl
    poll := rfl
    deadline := rfl
    ended := mem_append_right _ (mem_singleton.mpr rfl)
    asked := mem_append_left _ h.asked }

theorem Held.succeed (h : Held p [] w) (hquiet : Quiet w) (res : Result) :
    Outcome p w.queue (w.succeed res) := by
  refine ⟨rfl, ?_⟩
  exact {
    sound := h.sound.report (e := .ended w.current true "") rfl
    serial := inProgress_ended _ _ h.serial
    running := rfl
    poll := hquiet.poll
    deadline := hquiet.deadline
    ended := mem_append_right _ (mem_singleton.mpr rfl)
    asked := mem_append_left _ h.asked }

theorem Held.spawn (h : Held p loose w) (kind : ProcKind) (alive : Bool) :
    Held p loose (w.spawn kind alive) := by
  refine ⟨?_, h.serial, h.begun, h.asked, h.writers⟩
  have hledger : (w.spawn kind alive).ledger =
      { w.ledger with owners := w.ledger.owners ++ [w.ledger.current] } := by
    simp [World.ledger, World.spawn]
  rw [hledger]
  exact h.sound.spawn h.begun

theorem awaited_spawn (w : World) (kind : ProcKind) (alive : Bool) :
    (w.spawn kind alive).awaited = w.awaited ++ if alive then [⟨w.current, kind, alive⟩] else [] := by
  cases alive <;> simp [World.awaited, World.spawn]

/-- A helper started for an operation that waited for nothing. -/
theorem Held.start (h : Held p [] w) (hquiet : w.awaited = []) (hpoll : w.poll = false)
    (hrunning : w.running = true)
    (hfile : ∀ op bytes, w.resultFile = some (op, bytes) → op = w.current) (kind : ProcKind) :
    Busy p [] (w.spawn kind true) where
  held := h.spawn kind true
  running := hrunning
  one := by simp [awaited_spawn, hquiet]
  poll hp := by
    have hp : w.poll = true := hp
    rw [hpoll] at hp
    cases hp
  file := hfile

theorem Held.runTask (h : Held p [] w) (hquiet : Quiet w) (hrunning : w.running = true)
    (hfile : ∀ op bytes, w.resultFile = some (op, bytes) → op = w.current) (l : Launch) :
    Outcome p w.queue (w.runTask l) := by
  unfold World.runTask
  by_cases hstarted : l.started = true
  · rw [if_pos hstarted]
    exact ⟨rfl, h.start hquiet.awaited hquiet.poll hrunning hfile .task⟩
  · rw [if_neg hstarted]
    exact (h.spawn .task false).fail _

theorem Held.runHelper (h : Held p [] w) (hquiet : Quiet w)
    (hfile : ∀ op bytes, w.resultFile = some (op, bytes) → op = w.current) (l : Launch)
    (inConsoleSession : Bool) : Outcome p w.queue (w.runHelper l inConsoleSession) := by
  have hheld : ∀ s d, Held p [] { w with state := s, helperOut := [], deadline := d } :=
    fun s d => ⟨h.sound, h.serial, h.begun, h.asked, by simp [World.writers]⟩
  unfold World.runHelper
  cases inConsoleSession with
  | true =>
    by_cases hstarted : l.started = true
    · simp only [if_true, if_pos hstarted]
      exact ⟨rfl, (hheld .configuring true).start hquiet.awaited hquiet.poll rfl hfile .console⟩
    · simp only [if_true, if_neg hstarted]
      exact ((hheld .configuring w.deadline).spawn .console false).fail _
  | false =>
    by_cases hstarted : l.started = true
    · simp only [Bool.false_eq_true, if_false, if_pos hstarted]
      exact ⟨rfl, (hheld .applying true).start hquiet.awaited hquiet.poll rfl hfile .plain⟩
    · simp only [Bool.false_eq_true, if_false, if_neg hstarted]
      exact ((hheld .applying true).spawn .plain false).fail _

theorem Held.handleResult (h : Held p [] w) (hquiet : Quiet w) (l : Launch)
    (res : Result) : Outcome p w.queue (w.handleResult l res) := by
  have hheld : ∀ s stages, Held p [] { w with resultFile := none, state := s, nextStages := stages } :=
    fun s stages => ⟨h.sound, h.serial, h.begun, h.asked, h.writers⟩
  unfold World.handleResult
  by_cases hok : res.ok = true
  · simp only [hok, Bool.not_true, Bool.false_eq_true, if_false]
    cases hstages : w.nextStages with
    | cons stage stages =>
      refine (hheld w.state stages).runHelper ⟨hquiet.awaited, hquiet.poll, hquiet.deadline⟩ ?_ l _
      intro op bytes hfile
      cases hfile
    | nil =>
      exact (hheld .refreshing []).succeed
        ⟨hquiet.awaited, hquiet.poll, hquiet.deadline⟩ res
  · have hok : res.ok = false := by simpa using hok
    simp only [hok, Bool.not_false, if_true]
    exact (hheld w.state w.nextStages).fail _

theorem Held.applyInProcess (h : Held p [] w) (hquiet : Quiet w)
    (hfile : ∀ op bytes, w.resultFile = some (op, bytes) → op = w.current) (l : Launch) :
    Outcome p w.queue (w.applyInProcess l) := by
  have hheld : Held p [] { w with state := .configuring } :=
    ⟨h.sound, h.serial, h.begun, h.asked, h.writers⟩
  have hquiet' : Quiet { w with state := .configuring } :=
    ⟨hquiet.awaited, hquiet.poll, hquiet.deadline⟩
  unfold World.applyInProcess
  by_cases happlies : (!l.applies) = true
  · rw [if_pos happlies]
    exact hheld.handleResult hquiet' l _
  rw [if_neg happlies]
  by_cases honline : w.request.mode.action ≠ .activate ∨ l.online = true
  · rw [if_pos honline]
    exact hheld.handleResult hquiet' l _
  · rw [if_neg honline]
    refine ⟨rfl, ⟨⟨h.sound, h.serial, h.begun, h.asked, h.writers⟩, rfl, ?_, ?_, hfile⟩⟩
    · show w.awaited.length ≤ 1
      simp [hquiet.awaited]
    · exact fun _ => hquiet.awaited

theorem Held.dispatch (h : Held p [] w) (hquiet : Quiet w)
    (hfile : ∀ op bytes, w.resultFile = some (op, bytes) → op = w.current) (l : Launch) :
    Outcome p w.queue (w.dispatch l) := by
  have hheld : ∀ stages, Held p [] { w with state := .elevating, nextStages := stages } :=
    fun stages => ⟨h.sound, h.serial, h.begun, h.asked, h.writers⟩
  have hquiet' : ∀ stages, Quiet { w with state := .elevating, nextStages := stages } :=
    fun _ => ⟨hquiet.awaited, hquiet.poll, hquiet.deadline⟩
  unfold World.dispatch
  by_cases hwritable : (!l.writable) = true
  · rw [if_pos hwritable]
    exact h.fail _
  rw [if_neg hwritable]
  cases l.method with
  | inprocess => exact h.applyInProcess hquiet hfile l
  | task => exact (hheld w.nextStages).runTask (hquiet' _) rfl hfile l
  | elevated =>
    by_cases hservice : l.service = true
    · simp only [if_pos hservice]
      exact (hheld _).runHelper (hquiet' _) hfile l _
    · simp only [if_neg hservice]
      exact (hheld w.nextStages).runHelper (hquiet' _) hfile l false
  | none => exact (hheld w.nextStages).fail _

theorem Held.launch (h : Held p [] w) (hquiet : Quiet w) (l : Launch) :
    Outcome p w.queue (w.launch l) := by
  unfold World.launch
  by_cases hsupported : (!l.status.supported) = true
  · rw [if_pos hsupported]
    exact h.fail _
  rw [if_neg hsupported]
  by_cases hmanage : (!l.status.canManage) = true
  · rw [if_pos hmanage]
    exact h.fail _
  rw [if_neg hmanage]
  have hheld : ∀ restore, Held p [] { w with request := ⟨w.request.mode, restore⟩ } :=
    fun restore => ⟨h.sound, h.serial, h.begun, h.asked, h.writers⟩
  have hrest : ∀ v : World, Held p [] v → Quiet v → v.queue = w.queue → Outcome p w.queue
      (if (!l.staged) = true then v.fail "Cannot create the staging directory"
        else { v with resultFile := none }.dispatch l) := by
    intro v hv hvquiet hqueue
    rw [← hqueue]
    by_cases hstaged : (!l.staged) = true
    · rw [if_pos hstaged]
      exact hv.fail _
    · rw [if_neg hstaged]
      have hv' : Held p [] { v with resultFile := none } :=
        ⟨hv.sound, hv.serial, hv.begun, hv.asked, hv.writers⟩
      refine hv'.dispatch ⟨hvquiet.awaited, hvquiet.poll, hvquiet.deadline⟩ ?_ l
      intro op bytes hfile
      cases hfile
  by_cases hdeactivate : w.request.mode.action = .deactivate
  · simp only [if_pos hdeactivate]
    exact hrest _ (hheld _) ⟨hquiet.awaited, hquiet.poll, hquiet.deadline⟩ rfl
  · simp only [if_neg hdeactivate]
    exact hrest w h hquiet rfl

theorem Over.callBack (h : Over p w v) {cb : Nat} {more : List Nat}
    (hcallbacks : w.callbacks = cb :: more) : Free p [] (w.callBack cb more v) := by
  refine ⟨?_, ?_, h.running, h.poll, h.deadline, rfl⟩
  · have hvouched : Vouched w.log (cb :: more) w.current v.1 v.2 := by
      refine ⟨h.ended, w.request.mode, h.asked, fun c hc => h.sound.waiting c ?_⟩
      show c ∈ w.callbacks
      rw [hcallbacks]
      exact hc
    refine h.sound.call w.stack hvouched rfl (fun f hf => hf) (fun c hc => ?_) fun a => ?_
    · cases hc
    · simp only [World.ledger, hcallbacks, World.callBack, count_append, count_nil]
      omega
  · show inProgress (w.log ++ [.called cb w.current v.1 v.2]) = some none
    rw [inProgress_passive rfl, h.serial]

/-- With no callback to call, nothing is left of an operation that is over. -/
theorem Over.free (h : Over p w v) (hcallbacks : w.callbacks = []) :
    Free p [] w :=
  ⟨h.sound, h.serial, h.running, h.poll, h.deadline, hcallbacks⟩

/-- An operation in the queue has not been started. -/
theorem Sound.not_started (h : Sound p loose l) (hmem : next ∈ l.queue) :
    next.ticket ∉ startedOps l.log := by
  have hnodup : (startedOps l.log ++ l.queue.map Pending.ticket).Nodup := by
    rw [h.order, h.numbered]
    exact nodup_range'
  intro hstarted
  exact (nodup_append.mp hnodup).2.2 _ hstarted _ (mem_map_of_mem hmem) rfl

theorem Free.take (h : Free p [] w) {rest : List Pending} (hqueue : w.queue = next :: rest) :
    Held p [] (w.take next rest) ∧ Quiet (w.take next rest) := by
  have hnew : next.ticket ∉ startedOps w.log :=
    h.sound.not_started (show next ∈ w.queue by simp [hqueue])
  have hasked := (h.sound.queued next (show next ∈ w.queue by simp [hqueue])).1
  constructor
  · refine ⟨h.sound.take hqueue h.callbacks, inProgress_started _ h.serial, ?_, ?_, ?_⟩
    · show next.ticket ∈ startedOps (w.log ++ [.started next.ticket])
      simp [startedOps_append, startedOp]
    · exact mem_append_left _ hasked
    · simp [World.writers, World.take]
  · refine ⟨?_, h.poll, h.deadline⟩
    refine filter_eq_nil_iff.mpr fun proc hproc => ?_
    have howner := h.sound.owners proc.owner (mem_map_of_mem hproc)
    have hne : proc.owner ≠ next.ticket := by
      intro heq
      exact hnew (heq ▸ howner)
    simp [World.take, hne]

theorem startNext_inv (out : Nat → Launch) (queue : List Pending) (w : World) (h : Free p [] w)
    (hqueue : w.queue = queue) : Inv p [] (w.startNext out queue) := by
  induction queue generalizing w with
  | nil => exact Or.inr h
  | cons next rest ih =>
    obtain ⟨hheld, hquiet⟩ := h.take hqueue
    have hlaunch := hheld.launch hquiet (out next.ticket)
    unfold World.startNext
    cases hr : (w.take next rest).launch (out next.ticket) with
    | mk w' verdict =>
      rw [hr] at hlaunch
      cases verdict with
      | none => exact Or.inl hlaunch.phase
      | some v =>
        have hover : Over p w' v := hlaunch.phase
        cases hcallbacks : w'.callbacks with
        | cons cb more =>
          simp only [hcallbacks]
          exact Or.inr (hover.callBack hcallbacks)
        | nil =>
          simp only [hcallbacks]
          exact ih w' (hover.free hcallbacks) hlaunch.queue

theorem Outcome.settle {queue : List Pending} {r : World × Option Verdict}
    (h : Outcome p queue r) (out : Nat → Launch) : Inv p [] (World.settle out r) := by
  obtain ⟨w, verdict⟩ := r
  cases verdict with
  | none => exact Or.inl h.phase
  | some v =>
    have hover : Over p w v := h.phase
    unfold World.settle
    cases hcallbacks : w.callbacks with
    | cons cb more =>
      simp only [hcallbacks]
      exact Or.inr (hover.callBack hcallbacks)
    | nil =>
      simp only [hcallbacks]
      exact startNext_inv out w.queue w (hover.free hcallbacks) rfl

theorem Inv.sound (h : Inv p loose w) : Sound p loose w.ledger := by
  cases h with
  | inl h => exact h.held.sound
  | inr h => exact h.sound

/-- A change of the books that the timers, the helpers and the files do not see. -/
theorem Inv.change {loose' : List Nat} {w w' : World} (h : Inv p loose w)
    (hsound : Sound p loose' w'.ledger) (hserial : inProgress w'.log = inProgress w.log)
    (hlog : ∀ e ∈ w.log, e ∈ w'.log) (hsame : w' = { w with
      queue := w'.queue, callbacks := w'.callbacks, active := w'.active, release := w'.release,
      settings := w'.settings, stack := w'.stack, next := w'.next, given := w'.given,
      log := w'.log })
    (hidle : w.running = false → w'.callbacks = w.callbacks) : Inv p loose' w' := by
  cases h with
  | inl h =>
    rw [hsame] at hsound ⊢
    refine Or.inl ⟨⟨hsound, hserial.trans h.held.serial, ?_, hlog _ h.held.asked,
      h.held.writers⟩, h.running, h.one, h.poll, h.file⟩
    obtain ⟨e, he, hop⟩ := mem_filterMap.mp h.held.begun
    exact mem_filterMap.mpr ⟨e, hlog e he, hop⟩
  | inr h =>
    have hcallbacks := (hidle h.running).trans h.callbacks
    rw [hsame] at hsound hcallbacks ⊢
    exact Or.inr ⟨hsound, hserial.trans h.serial, h.running, h.poll, h.deadline, hcallbacks⟩

theorem Inv.enqueue (h : Inv p cbs w)
    (hgave : ∀ cb ∈ cbs, .gave cb mode ∈ w.log) (out : Nat → Launch) :
    Inv p [] (w.enqueue out mode cbs) := by
  unfold World.enqueue
  by_cases hjoin : w.running = true ∧ w.request.mode = mode ∧ w.queue = []
  · rw [if_pos hjoin]
    have hsound := h.sound.join (by
      intro cb hcb
      show gave cb w.request.mode ∈ w.log
      rw [hjoin.2.1]
      exact hgave cb hcb)
    refine h.change hsound rfl (fun e he => he) rfl fun hidle => ?_
    rw [hjoin.1] at hidle
    cases hidle
  rw [if_neg hjoin]
  by_cases hlast : w.queue.getLast?.map Pending.mode = some mode
  · rw [if_pos hlast]
    obtain ⟨last, hget, hmode⟩ := Option.map_eq_some_iff.mp hlast
    obtain ⟨front, hqueue⟩ := List.getLast?_eq_some_iff.mp hget
    have hjoined : w.joinLast cbs =
        { w with queue := front ++ [{ last with cb := last.cb ++ cbs }] } := by
      simp only [World.joinLast, hqueue, modifyLast_concat]
    rw [hjoined]
    have hsound := h.sound.joinLast (l := w.ledger) hqueue (by
      intro cb hcb
      rw [hmode]
      exact hgave cb hcb)
    exact h.change hsound rfl (fun e he => he) rfl fun _ => rfl
  rw [if_neg hlast]
  have hinv : Inv p [] (w.pend mode cbs) :=
    h.change (h.sound.request hgave) (inProgress_passive rfl)
      (fun e he => mem_append_left _ he) rfl fun _ => rfl
  by_cases hrunning : w.running = true
  · rw [if_pos hrunning]
    exact hinv
  · rw [if_neg hrunning]
    cases hinv with
    | inl hbusy => exact absurd hbusy.running hrunning
    | inr hfree => exact startNext_inv out _ _ hfree rfl

/-- The callback of a call is the last thing the log knows of. -/
def JustGiven (mode : Mode) (w : World) (cbs : List Nat) : Prop :=
  cbs = [] ∨ ∃ cb before, cbs = [cb] ∧ w.log = before ++ [.gave cb mode]

theorem JustGiven.gave (h : JustGiven mode w cbs) :
    ∀ cb ∈ cbs, .gave cb mode ∈ w.log := by
  intro cb hcb
  rcases h with rfl | ⟨c, before, rfl, hlog⟩
  · cases hcb
  · obtain rfl := mem_singleton.mp hcb
    simp [hlog]

theorem Inv.give (h : Inv p [] w) (hasCb : Bool) (mode : Mode) :
    Inv p (w.give hasCb mode).2 (w.give hasCb mode).1 ∧
      JustGiven mode (w.give hasCb mode).1 (w.give hasCb mode).2 := by
  cases hasCb with
  | false => exact ⟨h, Or.inl rfl⟩
  | true =>
    constructor
    · exact h.change (h.sound.give mode) (inProgress_passive rfl)
        (fun e he => mem_append_left _ he) rfl fun _ => rfl
    · exact Or.inr ⟨w.given, w.log, rfl, rfl⟩

theorem Inv.answer (h : Inv p cbs w) (hgiven : JustGiven mode w cbs)
    (hnothing : NothingToDo p mode st v.1) : Inv p [] (w.answer cbs mode st v) := by
  rcases hgiven with rfl | ⟨cb, before, rfl, hlog⟩
  · exact h
  · exact h.change (h.sound.answer hlog hnothing) (inProgress_passive rfl)
      (fun e he => mem_append_left _ he) rfl fun _ => rfl

/-- The release timer and the settings record are no part of the books. -/
theorem Inv.setRelease (h : Inv p loose w) (release : Bool)
    (settings : Option Record) : Inv p loose { w with release := release, settings := settings } :=
  h.change h.sound rfl (fun _ he => he) rfl fun _ => rfl

theorem activateAtOnce_nothing (hmode : mode.action = .activate)
    (h : w.activateAtOnce p mode st = some v) :
    NothingToDo p mode st v.1 := by
  unfold World.activateAtOnce at h
  by_cases hidle : w.running = false ∧ w.queue = []
  · rw [if_pos hidle] at h
    by_cases hsupported : st.supported = true
    · simp only [hsupported, Bool.not_true, Bool.false_eq_true, if_false] at h
      by_cases hinstalled : st.installed = true
      · simp only [hinstalled, Bool.not_true, Bool.false_eq_true, if_false] at h
        by_cases hactive : st.active = true ∧ (mode.width = 0 ∨
            (mode.width = w.active.width ∧ mode.height = w.active.height)) ∧
            (mode.refresh = 0 ∨ mode.refresh = w.active.refresh) ∧ mode.hdr = w.active.hdr
        · rw [if_pos hactive] at h
          obtain rfl := Option.some.inj h
          exact Or.inr (Or.inl ⟨hmode, hactive.1⟩)
        · rw [if_neg hactive] at h
          cases h
      · have hinstalled : st.installed = false := by simpa using hinstalled
        simp only [hinstalled, Bool.not_false, if_true] at h
        obtain rfl := Option.some.inj h
        exact Or.inr hinstalled
    · have hsupported : st.supported = false := by simpa using hsupported
      simp only [hsupported, Bool.not_false, if_true] at h
      obtain rfl := Option.some.inj h
      exact Or.inl hsupported
  · rw [if_neg hidle] at h
    cases h

theorem Inv.activate (h : Inv p [] w) (hmode : mode.action = .activate)
    (hasCb : Bool) (st : Status) (out : Nat → Launch) :
    Inv p [] (w.activate p mode hasCb st out) := by
  obtain ⟨hinv, hgiven⟩ := (h.setRelease false w.settings).give hasCb mode
  unfold World.activate
  simp only
  by_cases hstream : p.livesInStream = true
  · rw [if_pos hstream]
    exact hinv.answer hgiven (Or.inl hstream)
  rw [if_neg hstream]
  cases hatOnce : World.activateAtOnce _ p mode st with
  | some v => exact hinv.answer hgiven (activateAtOnce_nothing hmode hatOnce)
  | none => exact hinv.enqueue hgiven.gave out

theorem Inv.deactivate (h : Inv p [] w) (hasCb : Bool) (st : Status)
    (out : Nat → Launch) : Inv p [] (w.deactivate hasCb st out) := by
  obtain ⟨hinv, hgiven⟩ := (h.setRelease false w.settings).give hasCb ⟨.deactivate, 0, 0, 0, false⟩
  unfold World.deactivate
  simp only
  split
  · rename_i hnothing
    exact (hinv.setRelease _ none).answer (v := (true, "")) hgiven
      (Or.inr (Or.inr ⟨rfl, hnothing.2.2⟩))
  · exact hinv.enqueue hgiven.gave out

theorem Held.takes (h : Held p [] w) (sources : List Nat)
    (hsources : ∀ op ∈ sources, op = w.current) : Held p [] (w.takes sources) := by
  refine ⟨h.sound.report (e := .took w.current sources) rfl, inProgress_took h.serial hsources,
    ?_, mem_append_left _ h.asked, h.writers⟩
  have hstarted : startedOps (w.takes sources).log = startedOps w.log := by
    simp [World.takes, World.note, startedOps_append, startedOp]
  show w.current ∈ startedOps (w.takes sources).log
  rw [hstarted]
  exact h.begun

/-- A timer is armed only while an operation is in progress. -/
theorem Inv.busy (h : Inv p [] w)
    (harmed : w.running = true ∨ w.poll = true ∨ w.deadline = true) : Busy p [] w := by
  cases h with
  | inl h => exact h
  | inr h => simp [h.running, h.poll, h.deadline] at harmed

theorem Inv.deadlineExpired (h : Inv p [] w) (harmed : w.deadline = true)
    (out : Nat → Launch) : Inv p [] (w.deadlineExpired out) := by
  have hheld := (h.busy (Or.inr (Or.inr harmed))).held
  have hstopped : ∀ res, Held p [] { w with poll := false, deadline := false, inProcessResult := res } :=
    fun _ => ⟨hheld.sound, hheld.serial, hheld.begun, hheld.asked, hheld.writers⟩
  unfold World.deadlineExpired
  cases hres : w.inProcessResult with
  | some res =>
    simp only
    exact ((hstopped none).fail _).settle out
  | none =>
    simp only
    exact ((hstopped none).fail _).settle out

theorem Inv.pollResult (h : Inv p [] w) (harmed : w.poll = true) (online : Bool)
    (out : Nat → Launch) : Inv p [] (w.pollResult p online out) := by
  have hbusy := h.busy (Or.inr (Or.inl harmed))
  have hheld := hbusy.held
  have hquiet := hbusy.poll harmed
  have hstopped : ∀ res, Held p [] { w with poll := false, deadline := false, inProcessResult := res } :=
    fun _ => ⟨hheld.sound, hheld.serial, hheld.begun, hheld.asked, hheld.writers⟩
  unfold World.pollResult
  cases hres : w.inProcessResult with
  | some res =>
    simp only
    cases online with
    | false => exact h
    | true => exact ((hstopped none).handleResult ⟨hquiet, rfl, rfl⟩ _ res).settle out
  | none =>
    simp only
    cases hfile : w.resultFile with
    | none => exact h
    | some file =>
      obtain ⟨owner, bytes⟩ := file
      simp only
      cases p.parseResult bytes with
      | none => exact h
      | some res =>
        have howner : ∀ op ∈ [owner], op = w.current := by
          intro op hop
          rw [mem_singleton.mp hop]
          exact hbusy.file owner bytes hfile
        have htaken := (hstopped w.inProcessResult).takes [owner] howner
        simp only [hres] at htaken
        exact (htaken.handleResult ⟨hquiet, rfl, rfl⟩ _ res).settle out

/-! ### A child process that ends -/

theorem ledger_bury (w : World) (pid : Nat) : (w.bury pid).ledger = w.ledger := by
  have howners : (w.procs.modify pid fun proc => { proc with alive := false }).map Proc.owner =
      w.procs.map Proc.owner := by
    refine ext_getElem? fun i => ?_
    rw [List.getElem?_map, List.getElem?_map, List.getElem?_modify]
    cases w.procs[i]? with
    | none => rfl
    | some proc => by_cases hi : pid = i <;> simp [hi]
  simp only [World.ledger, World.bury, howners]

theorem Held.bury (h : Held p [] w) (pid : Nat) : Held p [] (w.bury pid) :=
  ⟨(ledger_bury w pid).symm ▸ h.sound, h.serial, h.begun, h.asked, h.writers⟩

variable {proc : Proc} {pid : Nat}

/-- A process of the operation in progress that may report, found in the table. -/
theorem proc_split (h : w.proc? pid = some proc) :
    proc.alive = true ∧ ∃ front back, w.procs = front ++ proc :: back ∧
      (w.bury pid).procs = front ++ { proc with alive := false } :: back := by
  unfold World.proc? at h
  cases hget : w.procs[pid]? with
  | none => simp [hget] at h
  | some found =>
    simp only [hget] at h
    by_cases halive : found.alive = true
    · rw [if_pos halive] at h
      obtain rfl := Option.some.inj h
      obtain ⟨hlt, hfound⟩ := List.getElem?_eq_some_iff.mp hget
      refine ⟨halive, w.procs.take pid, w.procs.drop (pid + 1), ?_, ?_⟩
      · rw [← hfound, ← drop_eq_getElem_cons hlt, take_append_drop]
      · show w.procs.modify pid _ = _
        rw [modify_eq_take_cons_drop hlt, hfound]
    · rw [if_neg halive] at h
      cases h

/-- The one helper the operation waited for has ended. -/
theorem Busy.awaited_bury (h : Busy p [] w)
    (hproc : w.proc? pid = some proc) (howner : proc.owner = w.current) :
    (w.bury pid).awaited = [] ∧ w.poll = false := by
  obtain ⟨halive, front, back, hprocs, hburied⟩ := proc_split hproc
  have hone : w.awaited = front.filter (fun x => x.alive && x.owner == w.current) ++
      proc :: back.filter (fun x => x.alive && x.owner == w.current) := by
    simp [World.awaited, hprocs, halive, howner]
  have hlength := h.one
  simp only [hone, length_append, length_cons] at hlength
  constructor
  · have hfront : front.filter (fun x => x.alive && x.owner == w.current) = [] :=
      length_eq_zero_iff.mp (by omega)
    have hback : back.filter (fun x => x.alive && x.owner == w.current) = [] :=
      length_eq_zero_iff.mp (by omega)
    show (w.bury pid).procs.filter (fun x => x.alive && x.owner == w.current) = []
    simp [hburied, hfront, hback]
  · cases hpoll : w.poll with
    | false => rfl
    | true => simp [h.poll hpoll] at hone

theorem Inv.finished (h : Inv p [] w)
    (hproc : w.proc? pid = some proc) (hrunning : w.running = true)
    (howner : proc.owner = w.current) (code : Int) (crashed : Bool) (rest : List UInt8)
    (out : Nat → Launch) : Inv p [] (w.finished p pid proc code crashed rest out) := by
  have hbusy := h.busy (Or.inl hrunning)
  obtain ⟨hawaited, hpoll⟩ := hbusy.awaited_bury hproc howner
  have hheld := hbusy.held.bury pid
  unfold World.finished
  cases hkind : proc.kind with
  | task =>
    simp only
    have htaken := hheld.takes [proc.owner] fun op hop =>
      (mem_singleton.mp hop).trans howner
    by_cases hfailed : crashed = true ∨ code ≠ 0
    · rw [if_pos hfailed]
      exact (htaken.fail _).settle out
    · rw [if_neg hfailed]
      refine Or.inl ⟨⟨htaken.sound, htaken.serial, htaken.begun, htaken.asked, htaken.writers⟩,
        rfl, ?_, fun _ => hawaited, hbusy.file⟩
      show (w.bury pid).awaited.length ≤ 1
      simp [hawaited]
  | console =>
    simp only
    have hstopped : Held p [] { w.bury pid with deadline := false } :=
      ⟨hheld.sound, hheld.serial, hheld.begun, hheld.asked, hheld.writers⟩
    have htaken := hstopped.takes (proc.owner :: w.writers) (by
      intro op hop
      rcases mem_cons.mp hop with rfl | hop
      · exact howner
      · exact hbusy.held.writers op hop)
    have hquiet : Quiet (World.takes { w.bury pid with deadline := false }
        (proc.owner :: w.writers)) := ⟨hawaited, hpoll, rfl⟩
    cases hres : World.verdictLine _ p with
    | none => exact (htaken.fail _).settle out
    | some res =>
      cases crashed with
      | true => exact (htaken.fail _).settle out
      | false => exact (htaken.handleResult hquiet _ res).settle out
  | plain =>
    simp only
    have hstopped : Held p [] { w.bury pid with
        deadline := false, helperOut := w.helperOut ++ [(proc.owner, rest)] } := by
      refine ⟨hheld.sound, hheld.serial, hheld.begun, hheld.asked, ?_⟩
      intro op hop
      simp only [World.writers, map_append, mem_append, map_cons, map_nil,
        mem_singleton] at hop
      rcases hop with hop | rfl
      · exact hbusy.held.writers op hop
      · exact howner
    have htaken := hstopped.takes (proc.owner :: World.writers { w.bury pid with
        deadline := false, helperOut := w.helperOut ++ [(proc.owner, rest)] }) (by
      intro op hop
      rcases mem_cons.mp hop with rfl | hop
      · exact howner
      · exact hstopped.writers op hop)
    have hquiet : Quiet (World.takes { w.bury pid with
        deadline := false, helperOut := w.helperOut ++ [(proc.owner, rest)] } (proc.owner ::
          World.writers { w.bury pid with
            deadline := false, helperOut := w.helperOut ++ [(proc.owner, rest)] })) :=
      ⟨hawaited, hpoll, rfl⟩
    cases hres : World.verdictLine _ p with
    | none => exact (htaken.fail _).settle out
    | some res =>
      cases crashed with
      | true => exact (htaken.fail _).settle out
      | false => exact (htaken.handleResult hquiet _ res).settle out

theorem Inv.failedToStart (h : Inv p [] w) (pid : Nat)
    (hkind : proc.kind ≠ .console) (hrunning : w.running = true)
    (howner : proc.owner = w.current) (out : Nat → Launch) :
    Inv p [] (w.failedToStart pid proc out) := by
  have hbusy := h.busy (Or.inl hrunning)
  have htaken := (hbusy.held.bury pid).takes [proc.owner] fun op hop =>
    (mem_singleton.mp hop).trans howner
  unfold World.failedToStart
  cases hk : proc.kind with
  | task => exact (htaken.fail _).settle out
  | console => exact absurd hk hkind
  | plain => exact (htaken.fail _).settle out

/-- What is written while no operation is in progress is cleared before the
next one is dispatched. -/
theorem Inv.output (h : Inv p [] w)
    (howner : w.running = true → proc.owner = w.current) (bytes : List UInt8) :
    Inv p [] { w with helperOut := w.helperOut ++ [(proc.owner, bytes)] } := by
  cases h with
  | inr h => exact Or.inr ⟨h.sound, h.serial, h.running, h.poll, h.deadline, h.callbacks⟩
  | inl hbusy =>
    have hheld := hbusy.held
    refine Or.inl ⟨⟨hheld.sound, hheld.serial, hheld.begun, hheld.asked, ?_⟩, hbusy.running,
      hbusy.one, hbusy.poll, hbusy.file⟩
    intro op hop
    simp only [World.writers, map_append, mem_append, map_cons, map_nil,
      mem_singleton] at hop
    rcases hop with hop | rfl
    · exact hheld.writers op hop
    · exact howner hbusy.running

theorem Inv.written (h : Inv p [] w)
    (howner : w.running = true → op = w.current) (bytes : List UInt8) :
    Inv p [] { w with resultFile := some (op, bytes) } := by
  cases h with
  | inr h => exact Or.inr ⟨h.sound, h.serial, h.running, h.poll, h.deadline, h.callbacks⟩
  | inl hbusy =>
    have hheld := hbusy.held
    refine Or.inl ⟨⟨hheld.sound, hheld.serial, hheld.begun, hheld.asked, hheld.writers⟩,
      hbusy.running, hbusy.one, hbusy.poll, ?_⟩
    intro op' bytes' hfile
    have hop : op = op' := congrArg Prod.fst (Option.some.inj hfile)
    rw [← hop]
    exact howner hbusy.running

theorem Inv.returns {w w' : World} (h : Inv p [] w) {out : Nat → Launch}
    (hreturns : w.returns out = some w')
    (hleft : w.finishing = false ∨ w.running = false ∨ w.queue = []) : Inv p [] w' := by
  unfold World.returns at hreturns
  cases hstack : w.stack with
  | nil => simp [hstack] at hreturns
  | cons f frames =>
    cases f with
    | answering =>
      simp only [hstack] at hreturns
      obtain rfl := Option.some.inj hreturns
      exact h.change (h.sound.pop hstack rfl) rfl (fun _ he => he) rfl fun _ => rfl
    | settling rest op ok error =>
      cases rest with
      | cons cb rest =>
        simp only [hstack] at hreturns
        obtain rfl := Option.some.inj hreturns
        have hvouched := h.sound.frames (cb :: rest) op ok error
          (show _ ∈ w.stack by simp [hstack])
        have hsound : Sound p [] { w.ledger.note (.called cb op ok error) with
            stack := .settling rest op ok error :: frames } :=
          h.sound.call frames hvouched rfl
            (fun f hf => show f ∈ w.stack by simp [hstack, hf]) (fun c hc => hc) fun a => by
              simp [World.ledger, note, hstack, Frame.rest]
        exact h.change hsound (inProgress_passive rfl)
          (fun e he => mem_append_left _ he) rfl fun _ => rfl
      | nil =>
        simp only [hstack] at hreturns
        obtain rfl := Option.some.inj hreturns
        have hpopped : Inv p [] { w with stack := frames } :=
          h.change (h.sound.pop hstack rfl) rfl (fun _ he => he) rfl fun _ => rfl
        have hfinishing : w.finishing = true := by simp [World.finishing, hstack]
        cases hpopped with
        | inr hfree => exact startNext_inv out _ _ hfree rfl
        | inl hbusy =>
          have hrunning : w.running = true := hbusy.running
          have hqueue : w.queue = [] := by
            simpa [hfinishing, hrunning] using hleft
          simp only [hqueue]
          exact Or.inl hbusy

/-- What the condition says of the process that reports. -/
theorem expects_iff (hproc : w.proc? pid = some proc) :
    w.expects pid = true ↔ w.running = true ∧ proc.owner = w.current := by
  simp [World.expects, hproc]

theorem inv_step {w w' : World} {e : Event} (h : Inv p [] w) (hmove : move p w e = some w')
    (hproper : Proper w e = true) : Inv p [] w' := by
  cases e with
  | activate width height refresh hdr hasCb st out =>
    obtain rfl := Option.some.inj hmove
    exact h.activate rfl hasCb st out
  | deactivate hasCb st out =>
    obtain rfl := Option.some.inj hmove
    exact h.deactivate hasCb st out
  | releaseSoon =>
    obtain rfl := Option.some.inj hmove
    by_cases hstream : p.livesInStream = true
    · rw [if_pos hstream]
      exact h
    · rw [if_neg hstream]
      exact h.setRelease true w.settings
  | released st out =>
    simp only [move] at hmove
    obtain ⟨harmed, hmove⟩ := Option.ite_none_right_eq_some.mp hmove
    obtain rfl := Option.some.inj hmove
    exact (h.setRelease false w.settings).deactivate false st out
  | returns out =>
    refine h.returns hmove ?_
    simpa [Proper, Bool.or_assoc] using hproper
  | deadline out =>
    simp only [move] at hmove
    obtain ⟨harmed, hmove⟩ := Option.ite_none_right_eq_some.mp hmove
    obtain rfl := Option.some.inj hmove
    exact h.deadlineExpired harmed.1 out
  | poll online out =>
    simp only [move] at hmove
    obtain ⟨harmed, hmove⟩ := Option.ite_none_right_eq_some.mp hmove
    obtain rfl := Option.some.inj hmove
    exact h.pollResult harmed.1 online out
  | output pid bytes =>
    simp only [move] at hmove
    cases hproc : w.proc? pid with
    | none => simp [hproc] at hmove
    | some proc =>
      simp only [hproc] at hmove
      obtain ⟨hready, hmove⟩ := Option.ite_none_right_eq_some.mp hmove
      obtain rfl := Option.some.inj hmove
      have hproper : w.running = false ∨ w.expects pid = true := by
        simpa [Proper] using hproper
      refine h.output (fun hrunning => ?_) bytes
      rcases hproper with hidle | hexpects
      · rw [hrunning] at hidle
        cases hidle
      · exact ((expects_iff hproc).mp hexpects).2
  | finished pid code crashed rest out =>
    simp only [move] at hmove
    cases hproc : w.proc? pid with
    | none => simp [hproc] at hmove
    | some proc =>
      simp only [hproc] at hmove
      obtain ⟨hrunning, howner⟩ := (expects_iff hproc).mp hproper
      obtain ⟨hready, hmove⟩ := Option.ite_none_right_eq_some.mp hmove
      obtain rfl := Option.some.inj hmove
      exact h.finished hproc hrunning howner code crashed rest out
  | failedToStart pid out =>
    simp only [move] at hmove
    cases hproc : w.proc? pid with
    | none => simp [hproc] at hmove
    | some proc =>
      simp only [hproc] at hmove
      obtain ⟨hrunning, howner⟩ := (expects_iff hproc).mp hproper
      obtain ⟨hready, hmove⟩ := Option.ite_none_right_eq_some.mp hmove
      obtain rfl := Option.some.inj hmove
      exact h.failedToStart pid hready.1 hrunning howner out
  | written op bytes =>
    simp only [move] at hmove
    obtain ⟨htask, hmove⟩ := Option.ite_none_right_eq_some.mp hmove
    obtain rfl := Option.some.inj hmove
    have hproper : w.running = false ∨ op = w.current := by simpa [Proper] using hproper
    refine h.written (fun hrunning => ?_) bytes
    rcases hproper with hidle | howner
    · rw [hrunning] at hidle
      cases hidle
    · exact howner

theorem inv_start (p : Platform) : Inv p [] start := by
  refine Or.inr ⟨?_, rfl, rfl, rfl, rfl, rfl⟩
  constructor <;> simp [World.ledger, start, startedOps, requestedOps, placed, calls]

theorem Inv.orderly (h : Inv p [] w) : Orderly p w where
  serial := by
    cases h with
    | inl h => simp [h.held.serial]
    | inr h => simp [h.serial]
  inOrder := ⟨_, h.sound.order⟩
  once := by
    have hnodup : w.ledger.placed.Nodup := by
      have hperm := h.sound.account
      rw [append_nil] at hperm
      exact hperm.nodup_iff.mpr nodup_range
    simp only [placed, append_assoc] at hnodup
    exact (nodup_append.mp hnodup).1
  attributed cb op ok error hcalled := by
    obtain ⟨hended, mode, hreq, hgave⟩ := h.sound.attributed cb op ok error hcalled
    exact ⟨hended, mode, hreq, hgave cb (mem_singleton.mpr rfl)⟩
  atOnce := h.sound.atOnce
  noneLeft hidle hqueue cb mode hgave := by
    have hcallbacks : w.callbacks = [] := by
      cases h with
      | inl h => simp [h.running] at hidle
      | inr h => exact h.callbacks
    have hmem : cb ∈ w.ledger.placed ++ [] :=
      h.sound.account.mem_iff.mpr (mem_range.mpr (h.sound.gave cb mode hgave))
    simpa [placed, World.ledger, hcallbacks, hqueue] using hmem

/-- In every run in which no helper answers for an operation that has ended,
and no callback leaves an operation running with another one queued, the queue
is orderly. -/
theorem orderly_of_proper (p : Platform) (events : List Event) (w : World)
    (hrun : Run (moves (move p)) start events w)
    (hproper : EachStep (moves (move p)) (fun w e _ => Proper w e = true) start events) :
    Orderly p w :=
  (hproper.invariant (fun _ _ _ hinv hstep hcond => inv_step hinv hstep hcond) (inv_start p)
    hrun).orderly

/-- A desktop whose helpers report success with any output at all. -/
def desktop : Platform where
  livesInStream := false
  displayName := "MoonlightWeb Virtual Display"
  taskName := "MoonlightWeb Virtual Display"
  parseResult bytes := if bytes = [] then none else some ⟨true, "done", "", false, "", ""⟩

def switchedOff : Status := ⟨true, true, false, false, true, .elevated⟩

/-- An operation there is one helper process. -/
def oneHelper : Nat → Launch := fun _ =>
  ⟨switchedOff, true, true, .elevated, false, true, "", true, ⟨true, "", "", false, "", ""⟩, true⟩

/-- A viewer turns the display on, and the helper answers. -/
def turnedOn : List Event :=
  [.activate 1920 1080 60 false true switchedOff oneHelper, .finished 0 0 false [123] oneHelper,
    .returns oneHelper]

theorem orderly_turnedOn : ∃ w, Run (moves (move desktop)) start turnedOn w ∧
    .called 0 1 true "" ∈ w.log ∧ Orderly desktop w := by
  have hrun : (runMoves (move desktop) start turnedOn).map
      (fun w => decide (.called 0 1 true "" ∈ w.log)) = some true := by
    decide +kernel
  obtain ⟨w, hw, hcalled⟩ := Option.map_eq_some_iff.mp hrun
  have hw := run_of_runMoves _ hw
  exact ⟨w, hw, of_decide_eq_true hcalled,
    orderly_of_proper desktop turnedOn w hw (eachStep_of_checkMoves (by decide +kernel))⟩

/-- The helper of the first operation answers after its deadline, while the
helper of the second is at work. -/
def lateAnswer : List Event :=
  [.activate 1920 1080 60 false true switchedOff oneHelper, .deadline oneHelper,
    .returns oneHelper, .activate 1280 720 60 false true switchedOff oneHelper,
    .finished 0 0 false [123] oneHelper]

theorem late_answer_misattributed : ∃ w, Run (moves (move desktop)) start lateAnswer w ∧
    .took 2 [1, 1] ∈ w.log ∧ .called 1 2 true "" ∈ w.log ∧ ¬Orderly desktop w := by
  have hrun : (runMoves (move desktop) start lateAnswer).map (fun w =>
      decide (.took 2 [1, 1] ∈ w.log ∧ .called 1 2 true "" ∈ w.log ∧ inProgress w.log = none)) =
        some true := by
    decide +kernel
  obtain ⟨w, hw, hlog⟩ := Option.map_eq_some_iff.mp hrun
  obtain ⟨htook, hcalled, hnone⟩ := of_decide_eq_true hlog
  refine ⟨w, run_of_runMoves _ hw, htook, hcalled, fun horderly => ?_⟩
  have hserial := horderly.serial
  rw [hnone] at hserial
  cases hserial

/-- With a second operation queued, the callback of the first asks for a third:
the second and the third are in progress together. -/
def calledBack : List Event :=
  [.activate 1920 1080 60 false true switchedOff oneHelper,
    .activate 1280 720 60 false true switchedOff oneHelper,
    .finished 0 0 false [123] oneHelper,
    .activate 800 600 60 false true switchedOff oneHelper, .returns oneHelper]

example : (runMoves (move desktop) start calledBack).map (fun w => w.log.drop 8) =
    some [.gave 2 ⟨.activate, 800, 600, 60, false⟩, .requested 3 ⟨.activate, 800, 600, 60, false⟩,
      .started 2, .started 3] := by
  decide +kernel

end MoonlightWeb.Backend.VirtualDisplayJob
