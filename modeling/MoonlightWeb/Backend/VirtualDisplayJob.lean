import MoonlightWeb.Lib.Run
import MoonlightWeb.Lib.Trim

/-! # Turning the virtual display on and off

`VirtualDisplayJob`: one operation at a time on the main thread, each answered
by a helper process, by the elevated task's result file, by this process
itself, or by the deadline. A completion callback may call back into the job,
so a call of `settle` is a frame: the callbacks it has still to run after the
one that is running. Operations are numbered in the order they are asked for;
the numbers, and the marks of who wrote a byte, are read by no branch.
-/

namespace MoonlightWeb.Backend.VirtualDisplayJob

open Lib

inductive State
  | idle
  | elevating
  | applying
  | configuring
  | refreshing
  | done
  | failed
deriving DecidableEq, Repr

inductive Action
  | install
  | uninstall
  | activate
  | deactivate
deriving DecidableEq, Repr

def Action.toString : Action → String
  | .install => "install"
  | .uninstall => "uninstall"
  | .activate => "activate"
  | .deactivate => "deactivate"

structure Mode where
  action : Action
  width : Int
  height : Int
  refresh : Int
  hdr : Bool
deriving DecidableEq, Repr

structure Request where
  mode : Mode
  restorePrimary : String
deriving DecidableEq, Repr

structure Result where
  ok : Bool
  stage : String
  error : String
  rebootRequired : Bool
  display : String
  previousPrimary : String
deriving DecidableEq, Repr

/-- `Status::method`. -/
inductive Method
  | task
  | elevated
  | inprocess
  | none
deriving DecidableEq, Repr

structure Status where
  supported : Bool
  installed : Bool
  enabled : Bool
  active : Bool
  canManage : Bool
  method : Method
deriving DecidableEq, Repr

/-- The stages of `--stage=`. -/
inductive Stage
  | snapshot
  | driver
  | mode
  | all
deriving DecidableEq, Repr

/-- What does not change while the process runs. -/
structure Platform where
  livesInStream : Bool
  displayName : String
  taskName : String
  parseResult : List UInt8 → Option Result

/-- `normaliseMode`: pinned into bounds and made even, or 0×0. -/
def normaliseMode (width height : Int) : Int × Int :=
  if width ≤ 0 ∨ height ≤ 0 then (0, 0)
  else
    let pin (v : Int) : Int := min 4096 (max 480 v) / 2 * 2
    (pin width, pin height)

def normaliseRate (hz : Int) : Int :=
  if hz ≤ 0 then 0 else min 240 (max 24 hz)

/-- The white space `QByteArray::trimmed` drops. -/
def isSpace (b : UInt8) : Bool :=
  b = 32 || (9 ≤ b && b ≤ 13)

/-- The helper's verdict is its last stdout line. -/
def lastLine (out : List UInt8) : List UInt8 :=
  match ((trim isSpace out).splitOn 10).getLast? with
  | none => []
  | some line => trim isSpace line

structure Pending where
  ticket : Nat
  mode : Mode
  cb : List Nat
deriving DecidableEq, Repr

/-- `AppSettings().virtualDisplay()`. -/
structure Record where
  previousPrimary : String
  width : Int
  height : Int
  refresh : Int
deriving DecidableEq, Repr

inductive ProcKind
  | task
  | console
  | plain
deriving DecidableEq, Repr

structure Proc where
  owner : Nat
  kind : ProcKind
  alive : Bool
deriving DecidableEq, Repr

/-- A callback is running: the answer given at once by `activate` or
`deactivate`, or the loop of `settle` with the callbacks still to run. -/
inductive Frame
  | answering
  | settling (rest : List Nat) (op : Nat) (ok : Bool) (error : String)
deriving DecidableEq, Repr

/-- What happened, in order. -/
inductive Entry
  | gave (cb : Nat) (mode : Mode)
  | answered (cb : Nat) (mode : Mode) (st : Status) (ok : Bool) (error : String)
  | requested (op : Nat) (mode : Mode)
  | started (op : Nat)
  | took (op : Nat) (sources : List Nat)
  | ended (op : Nat) (ok : Bool) (error : String)
  | called (cb : Nat) (op : Nat) (ok : Bool) (error : String)
deriving DecidableEq, Repr

structure Job where
  state : State
  request : Request
  callbacks : List Nat
  queue : List Pending
  error : String
  display : String
  active : Mode
  poll : Bool
  deadline : Bool
  release : Bool
  helperOut : List (Nat × List UInt8)
  nextStages : List Stage
  inProcessResult : Option Result

/-- The job, the settings and the files it uses, its child processes, the
callbacks that are running, and the log. -/
structure World extends Job where
  settings : Option Record
  resultFile : Option (Nat × List UInt8)
  procs : List Proc
  stack : List Frame
  current : Nat
  next : Nat
  given : Nat
  log : List Entry

/-- The platform's answers while an operation is started or goes on to its
next stage. -/
structure Launch where
  status : Status
  staged : Bool
  writable : Bool
  method : Method
  service : Bool
  started : Bool
  startError : String
  applies : Bool
  applied : Result
  online : Bool

/-- What ends an operation: `ok` and `error` of the callbacks. -/
abbrev Verdict := Bool × String

def State.running : State → Bool
  | .idle | .done | .failed => false
  | _ => true

def World.running (w : World) : Bool := w.state.running

variable (w : World)

def World.note (e : Entry) : World := { w with log := w.log ++ [e] }

/-- `fail`, up to its call of `settle`. -/
def World.fail (error : String) : World × Option Verdict :=
  ({ w with
      error := error, poll := false, deadline := false, state := .failed,
      log := w.log ++ [.ended w.current false error] },
    some (false, error))

/-- `succeed`, up to its call of `settle`. -/
def World.succeed (res : Result) : World × Option Verdict :=
  let mode := w.request.mode
  ({ w with
      display := res.display, state := .done,
      settings :=
        match mode.action with
        | .activate =>
            some ⟨res.previousPrimary, if 0 < mode.width then mode.width else 0,
              if 0 < mode.width then mode.height else 0, if 0 < mode.refresh then mode.refresh else 0⟩
        | .deactivate => none
        | _ => w.settings
      active :=
        match mode.action with
        | .activate => mode
        | .deactivate => ⟨.activate, 0, 0, 0, false⟩
        | _ => w.active
      log := w.log ++ [.ended w.current true ""] },
    some (true, ""))

def World.spawn (kind : ProcKind) (alive : Bool) : World :=
  { w with procs := w.procs ++ [⟨w.current, kind, alive⟩] }

/-- The task is started by name; its result reaches us through the file. -/
def World.runTask (l : Launch) : World × Option Verdict :=
  if l.started then (w.spawn .task true, none)
  else (w.spawn .task false).fail "schtasks.exe could not be started"

def World.runHelper (l : Launch) (inConsoleSession : Bool) : World × Option Verdict :=
  let w := { w with
    state := if inConsoleSession then .configuring else .applying, helperOut := [] }
  if inConsoleSession then
    if l.started then ({ w.spawn .console true with deadline := true }, none)
    else (w.spawn .console false).fail
      ("Could not start the helper in the console session: " ++ l.startError)
  else
    let w := { w with deadline := true }
    if l.started then (w.spawn .plain true, none)
    else (w.spawn .plain false).fail "The helper could not be started"

def World.handleResult (l : Launch) (res : Result) : World × Option Verdict :=
  let w := { w with resultFile := none }
  if !res.ok then
    w.fail (if res.error = "" then "The helper failed at stage " ++ res.stage else res.error)
  else
    match w.nextStages with
    | stage :: stages => { w with nextStages := stages }.runHelper l (stage != Stage.driver)
    | [] => { w with state := .refreshing }.succeed res

def World.applyInProcess (l : Launch) : World × Option Verdict :=
  let w := { w with state := .configuring }
  if !l.applies then w.handleResult l l.applied
  else if w.request.mode.action ≠ .activate ∨ l.online then w.handleResult l l.applied
  else ({ w with inProcessResult := some l.applied, deadline := true, poll := true }, none)

def stagesOf : Action → Stage × List Stage
  | .activate => (.snapshot, [.driver, .mode])
  | .deactivate => (.mode, [.driver])
  | _ => (.driver, [.mode])

def World.dispatch (l : Launch) : World × Option Verdict :=
  if !l.writable then w.fail "Cannot write the request file"
  else
    match l.method with
    | .inprocess => w.applyInProcess l
    | .task => { w with state := .elevating }.runTask l
    | .elevated =>
        let w := { w with state := .elevating }
        if l.service then
          let stages := stagesOf w.request.mode.action
          { w with nextStages := stages.2 }.runHelper l (stages.1 != Stage.driver)
        else w.runHelper l false
    | .none => { w with state := .elevating }.fail "No way to elevate on this install"

/-- `startNext`, where it takes an operation off the queue. -/
def World.take (next : Pending) (rest : List Pending) : World :=
  { w with
    queue := rest, request := ⟨next.mode, ""⟩, callbacks := next.cb, error := "", display := "",
    helperOut := [], nextStages := [], inProcessResult := none, current := next.ticket,
    log := w.log ++ [.started next.ticket] }

/-- `startNext` after that, up to the end of `dispatch`. -/
def World.launch (l : Launch) : World × Option Verdict :=
  if !l.status.supported then w.fail "Virtual displays are not supported on this platform"
  else if !l.status.canManage then
    w.fail "No way to elevate on this install — the installer's task is missing"
  else
    let w :=
      if w.request.mode.action = .deactivate then
        { w with request := ⟨w.request.mode, (w.settings.map Record.previousPrimary).getD ""⟩ }
      else w
    if !l.staged then w.fail "Cannot create the staging directory"
    else { w with resultFile := none }.dispatch l

/-- `settle`, once the first callback is running. -/
def World.callBack (cb : Nat) (rest : List Nat) (v : Verdict) : World :=
  { w with
    callbacks := [], stack := .settling rest w.current v.1 v.2 :: w.stack,
    log := w.log ++ [.called cb w.current v.1 v.2] }

/-- `startNext`, with the queue as its argument: an operation that ends at once
is settled at once, and with no callback to run the next one starts. -/
def World.startNext (out : Nat → Launch) : List Pending → World → World
  | [], w => w
  | next :: rest, w =>
      match (w.take next rest).launch (out next.ticket) with
      | (w', none) => w'
      | (w', some v) =>
          match w'.callbacks with
          | cb :: more => w'.callBack cb more v
          | [] => startNext out rest w'

/-- `settle`, after `fail` or `succeed`; nothing to settle while the operation
goes on. -/
def World.settle (out : Nat → Launch) : World × Option Verdict → World
  | (w, none) => w
  | (w, some v) =>
      match w.callbacks with
      | cb :: more => w.callBack cb more v
      | [] => w.startNext out w.queue

/-- A callback joined to the last pending operation runs after those it has. -/
def World.joinLast (cb : List Nat) : World :=
  { w with queue := w.queue.modifyLast fun last => { last with cb := last.cb ++ cb } }

/-- A new operation at the end of the queue. -/
def World.pend (mode : Mode) (cb : List Nat) : World :=
  { w with
    queue := w.queue ++ [⟨w.next, mode, cb⟩], next := w.next + 1,
    log := w.log ++ [.requested w.next mode] }

def World.enqueue (out : Nat → Launch) (mode : Mode) (cb : List Nat) : World :=
  if w.running ∧ w.request.mode = mode ∧ w.queue = [] then
    { w with callbacks := w.callbacks ++ cb }
  else if w.queue.getLast?.map Pending.mode = some mode then w.joinLast cb
  else if w.running then w.pend mode cb
  else (w.pend mode cb).startNext out (w.pend mode cb).queue

/-- The callback of a call, when it has one: callbacks are numbered as given. -/
def World.give (hasCb : Bool) (mode : Mode) : World × List Nat :=
  if hasCb then
    ({ w with given := w.given + 1, log := w.log ++ [.gave w.given mode] }, [w.given])
  else (w, [])

/-- `if (cb) cb(ok, error); return;` -/
def World.answer (cb : List Nat) (mode : Mode) (st : Status) (v : Verdict) : World :=
  match cb with
  | [] => w
  | cb :: _ =>
      { w with
        stack := .answering :: w.stack, log := w.log ++ [.answered cb mode st v.1 v.2] }

/-- The answer `activate` gives without an operation. -/
def World.activateAtOnce (p : Platform) (mode : Mode) (st : Status) : Option Verdict :=
  if w.running = false ∧ w.queue = [] then
    if !st.supported then some (false, "Virtual displays are not supported on this platform")
    else if !st.installed then
      some (false, "\"" ++ p.displayName ++ "\" is not installed on this machine")
    else if st.active ∧ (mode.width = 0 ∨
        (mode.width = w.active.width ∧ mode.height = w.active.height)) ∧
        (mode.refresh = 0 ∨ mode.refresh = w.active.refresh) ∧ mode.hdr = w.active.hdr then
      some (true, "")
    else none
  else none

/-- The mode `activate` asks for. -/
def activateMode (width height refresh : Int) (hdr : Bool) : Mode :=
  let size := normaliseMode width height
  ⟨.activate, size.1, size.2, normaliseRate refresh, hdr⟩

def World.activate (p : Platform) (mode : Mode) (hasCb : Bool) (st : Status)
    (out : Nat → Launch) : World :=
  let (w, cb) := { w with release := false }.give hasCb mode
  if p.livesInStream then w.answer cb mode st (true, "")
  else
    match w.activateAtOnce p mode st with
    | some v => w.answer cb mode st v
    | none => w.enqueue out mode cb

def World.deactivate (w : World) (hasCb : Bool) (st : Status) (out : Nat → Launch) : World :=
  let mode : Mode := ⟨.deactivate, 0, 0, 0, false⟩
  let (w, cb) := { w with release := false }.give hasCb mode
  if w.running = false ∧ w.queue = [] ∧ (!st.supported || !st.installed || !st.enabled) then
    { w with settings := none }.answer cb mode st (true, "")
  else w.enqueue out mode cb

inductive Event
  | activate (width height refresh : Int) (hdr hasCb : Bool) (st : Status) (out : Nat → Launch)
  | deactivate (hasCb : Bool) (st : Status) (out : Nat → Launch)
  | releaseSoon
  | released (st : Status) (out : Nat → Launch)
  | returns (out : Nat → Launch)
  | deadline (out : Nat → Launch)
  | poll (online : Bool) (out : Nat → Launch)
  | output (pid : Nat) (bytes : List UInt8)
  | finished (pid : Nat) (code : Int) (crashed : Bool) (rest : List UInt8) (out : Nat → Launch)
  | failedToStart (pid : Nat) (out : Nat → Launch)
  | written (op : Nat) (bytes : List UInt8)

/-- `m_Deadline`'s timeout. -/
def World.deadlineExpired (out : Nat → Launch) : World :=
  let w := { w with poll := false, deadline := false }
  match w.inProcessResult with
  | some _ =>
      World.settle out
        ({ w with inProcessResult := none }.fail "The virtual display did not come online")
  | none => World.settle out (w.fail "The elevated helper did not answer in time")

/-- An answer is taken for the operation the job is on; `sources` marks the
operations whose helpers wrote it. -/
def World.takes (sources : List Nat) : World :=
  w.note (.took w.current sources)

def World.pollResult (p : Platform) (w : World) (online : Bool) (out : Nat → Launch) : World :=
  match w.inProcessResult with
  | some res =>
      if !online then w
      else
        let w := { w with poll := false, deadline := false, inProcessResult := none }
        World.settle out (w.handleResult (out w.current) res)
  | none =>
      match w.resultFile with
      | none => w
      | some (owner, bytes) =>
          match p.parseResult bytes with
          | none => w
          | some res =>
              let w := ({ w with poll := false, deadline := false }).takes [owner]
              World.settle out (w.handleResult (out w.current) res)

/-- The marks of the pieces in `m_HelperOut`. -/
def World.writers : List Nat := w.helperOut.map Prod.fst

/-- `lastLine(m_HelperOut)`, parsed. -/
def World.verdictLine (p : Platform) : Option Result :=
  p.parseResult (lastLine (w.helperOut.flatMap Prod.snd))

def World.bury (pid : Nat) : World :=
  { w with procs := w.procs.modify pid fun proc => { proc with alive := false } }

/-- The `finished` signal of a child process. -/
def World.finished (p : Platform) (w : World) (pid : Nat) (proc : Proc) (code : Int)
    (crashed : Bool) (rest : List UInt8) (out : Nat → Launch) : World :=
  let w := w.bury pid
  match proc.kind with
  | .task =>
      let w := w.takes [proc.owner]
      if crashed ∨ code ≠ 0 then
        World.settle out (w.fail ("schtasks could not start \"" ++ p.taskName ++ "\" (exit "
          ++ toString code ++ ")"))
      else { w with state := .applying, deadline := true, poll := true }
  | .console =>
      let w := { w with deadline := false }
      let w := w.takes (proc.owner :: w.writers)
      match w.verdictLine p, crashed with
      | some res, false => World.settle out (w.handleResult (out w.current) res)
      | _, _ =>
          World.settle out (w.fail
            ("The console-session helper ended without a result (exit " ++ toString code ++ ")"))
  | .plain =>
      let w := { w with
        deadline := false, helperOut := w.helperOut ++ [(proc.owner, rest)] }
      let w := w.takes (proc.owner :: w.writers)
      match w.verdictLine p, crashed with
      | some res, false => World.settle out (w.handleResult (out w.current) res)
      | _, _ =>
          World.settle out (w.fail
            ("The elevated helper ended without a result (exit " ++ toString code ++ ")"))

/-- `errorOccurred(FailedToStart)` of a process already under way. -/
def World.failedToStart (pid : Nat) (proc : Proc) (out : Nat → Launch) : World :=
  let w := (w.bury pid).takes [proc.owner]
  match proc.kind with
  | .task => World.settle out (w.fail "schtasks.exe could not be started")
  | .console => w
  | .plain => World.settle out (w.fail "The helper could not be started")

/-- The running callback returns to the loop of `settle`, or to the caller. -/
def World.returns (out : Nat → Launch) : Option World :=
  match w.stack with
  | [] => none
  | .answering :: stack => some { w with stack := stack }
  | .settling (cb :: rest) op ok error :: stack =>
      some { w with
        stack := .settling rest op ok error :: stack,
        log := w.log ++ [.called cb op ok error] }
  | .settling [] _ _ _ :: stack => some ({ w with stack := stack }.startNext out w.queue)

def World.proc? (pid : Nat) : Option Proc :=
  match w.procs[pid]? with
  | some proc => if proc.alive then some proc else none
  | none => none

/-- One event. Callbacks may call in at any time; the event loop delivers
nothing while one is running. -/
def move (p : Platform) (w : World) : Event → Option World
  | .activate width height refresh hdr hasCb st out =>
      some (w.activate p (activateMode width height refresh hdr) hasCb st out)
  | .deactivate hasCb st out => some (w.deactivate hasCb st out)
  | .releaseSoon => some (if p.livesInStream then w else { w with release := true })
  | .released st out =>
      if w.release ∧ w.stack = [] then
        some ({ w with release := false }.deactivate false st out)
      else none
  | .returns out => w.returns out
  | .deadline out =>
      if w.deadline ∧ w.stack = [] then some (w.deadlineExpired out) else none
  | .poll online out =>
      if w.poll ∧ w.stack = [] then some (w.pollResult p online out) else none
  | .output pid bytes =>
      match w.proc? pid with
      | some proc =>
          if proc.kind ≠ .task ∧ w.stack = [] then
            some { w with helperOut := w.helperOut ++ [(proc.owner, bytes)] }
          else none
      | none => none
  | .finished pid code crashed rest out =>
      match w.proc? pid with
      | some proc =>
          if w.stack = [] then some (w.finished p pid proc code crashed rest out) else none
      | none => none
  | .failedToStart pid out =>
      match w.proc? pid with
      | some proc =>
          if proc.kind ≠ .console ∧ w.stack = [] then some (w.failedToStart pid proc out)
          else none
      | none => none
  | .written op bytes =>
      if ∃ proc ∈ w.procs, proc.owner = op ∧ proc.kind = .task then
        some { w with resultFile := some (op, bytes) }
      else none

def start : World where
  state := .idle
  request := ⟨⟨.activate, 0, 0, 0, false⟩, ""⟩
  callbacks := []
  queue := []
  error := ""
  display := ""
  active := ⟨.activate, 0, 0, 0, false⟩
  poll := false
  deadline := false
  release := false
  helperOut := []
  nextStages := []
  inProcessResult := none
  settings := none
  resultFile := none
  procs := []
  stack := []
  current := 0
  next := 1
  given := 0
  log := []

end MoonlightWeb.Backend.VirtualDisplayJob
