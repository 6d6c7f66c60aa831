import Mathlib
import MoonlightWeb.Network.RouterPortCore

/-! # The allocator in front of the policy

`RouterPortAllocator` lives on the main thread and keeps its own list of the holes that its
worker's `RouterPortCore` holds. The two send each other messages, in order each way: the
main thread asks for claims and releases, the worker answers and reports what a renewal
lost. Callbacks and the handlers of `portLost` may call the allocator again, between two
messages or two lost holes.
-/

namespace MoonlightWeb.Network.RouterPortAllocator

open Lib RouterPortCore

/-- The ports the settings remember, `0` for a slot that has none. A negative slot is never
given one. -/
structure AppSettings where
  routerLanIp : String
  tunnelPorts : List UInt16
  mediaPorts : Int → UInt16
  noSlot : ∀ slot < 0, mediaPorts slot = 0

namespace AppSettings

variable (settings : AppSettings)

def rememberedMediaPort (slot : Int) : UInt16 := settings.mediaPorts slot

def rememberTunnelPort (port : UInt16) : AppSettings :=
  if port = 0 ∨ port ∈ settings.tunnelPorts then settings
  else { settings with tunnelPorts := settings.tunnelPorts ++ [port] }

def forgetTunnelPort (port : UInt16) : AppSettings :=
  { settings with tunnelPorts := settings.tunnelPorts.filter fun p => p ≠ port }

def rememberMediaPort (slot : Int) (port : UInt16) : AppSettings :=
  if h : port = 0 ∨ slot < 0 then settings
  else
    { settings with
      mediaPorts := fun other => if other = slot then port else settings.mediaPorts other
      noSlot := by
        intro other hother
        rw [if_neg (by omega)]
        exact settings.noSlot other hother }

def forgetMediaPort (slot : Int) : AppSettings :=
  { settings with
    mediaPorts := fun other => if other = slot then 0 else settings.mediaPorts other
    noSlot := by
      intro other hother
      rw [settings.noSlot other hother, ite_self] }

def setRouterLanIp (ip : String) : AppSettings := { settings with routerLanIp := ip }

end AppSettings

def kTunnelPreferred : List UInt16 := [3478, 3479, 3480, 3481, 5349, 5350, 5351, 5352]

def kTunnelPoolBegin : UInt16 := 46000

def kTunnelPoolEnd : UInt16 := 46031

def kMediaPoolBegin : UInt16 := 46100

def kMediaPoolEnd : UInt16 := 46199

inductive ToWorker
  | start (previousLan : String)
  | claim (token : Nat) (request : Request)
  | release (claim : Claim)

/-- `discovered` has this host's address where a gateway was found. -/
inductive ToMain
  | discovered (lan : Option String)
  | claimed (token : Nat) (result : Result)
  | renewed (lost : List Lost)
  | answer (token : Nat) (claim : Option Claim) (why : String)

inductive GatewayState
  | unknown
  | discovering
  | ready
  | missing
deriving DecidableEq, Repr

/-- What is kept with a callback. -/
structure Pending where
  purpose : Purpose
  slot : Int
deriving DecidableEq, Repr

structure Called where
  token : Nat
  pending : Pending
  claim : Option Claim
  why : String
deriving DecidableEq, Repr

/-- Both threads and the messages between them. `core` is the worker's, once a gateway was
found; `called` and `obtained` list the calls of callbacks and the claims the core gave. -/
structure Allocator where
  settings : AppSettings
  state : GatewayState
  held : List Claim
  pending : Nat → Option Pending
  nextToken : Nat
  core : Option Core
  toWorker : List ToWorker
  toMain : List ToMain
  called : List Called
  obtained : List Claim

namespace Allocator

def initial (settings : AppSettings) : Allocator where
  settings := settings
  state := .unknown
  held := []
  pending := fun _ => none
  nextToken := 1
  core := none
  toWorker := []
  toMain := []
  called := []
  obtained := []

variable (a : Allocator)

/-- A discovery is asked for. -/
def startWorker : Allocator :=
  { a with
    state := .discovering
    toWorker := a.toWorker ++ [.start a.settings.routerLanIp] }

def ensureStarted (enabled : Bool) : Allocator :=
  if a.state ≠ .unknown then a
  else if !enabled then a
  else a.startWorker

def discover (lanOnly : Bool) : Allocator :=
  if lanOnly then a
  else if a.state = .unknown then a.startWorker
  else if a.state ≠ .missing then a
  -- asked again: the worker kept nothing of a miss
  else a.startWorker

def submit (request : Request) : Allocator :=
  { a with
    nextToken := a.nextToken + 1
    pending := Function.update a.pending a.nextToken (some ⟨request.purpose, request.slot⟩)
    toWorker := a.toWorker ++ [.claim a.nextToken request] }

def answerLater (purpose : Purpose) (slot : Int) (claim : Option Claim) (why : String) :
    Allocator :=
  { a with
    nextToken := a.nextToken + 1
    pending := Function.update a.pending a.nextToken (some ⟨purpose, slot⟩)
    toMain := a.toMain ++ [.answer a.nextToken claim why] }

/-- Why no claim can be made right now. -/
def refusal (enabled : Bool) : Option String :=
  if !enabled then some "UPnP is off"
  else if (a.ensureStarted enabled).state = .missing then some "no IGD"
  else none

def tunnelRequest : Request where
  purpose := .tunnel
  slot := -1
  internalPort := 0
  remembered := a.settings.tunnelPorts
  preferred := kTunnelPreferred
  poolBegin := kTunnelPoolBegin
  poolEnd := kTunnelPoolEnd
  description := "MoonlightWeb tunnel"

def claimTunnelPort (enabled : Bool) : Allocator :=
  match a.refusal enabled with
  | some why => (a.ensureStarted enabled).answerLater .tunnel (-1) none why
  | none => (a.ensureStarted enabled).submit a.tunnelRequest

variable (slot : Int)

def heldMediaPort : Option Claim :=
  a.held.find? fun c => c.purpose = .media && c.slot = slot

def mediaRequest (internalPort : UInt16) : Request where
  purpose := .media
  slot := slot
  internalPort := internalPort
  remembered :=
    if a.settings.rememberedMediaPort slot = 0 then [] else [a.settings.rememberedMediaPort slot]
  preferred := [internalPort]
  poolBegin := kMediaPoolBegin
  poolEnd := kMediaPoolEnd
  description := "MoonlightWeb media slot " ++ toString slot

def claimMediaPort (internalPort : UInt16) (enabled : Bool) : Allocator :=
  match a.refusal enabled with
  | some why => (a.ensureStarted enabled).answerLater .media slot none why
  | none =>
      match a.heldMediaPort slot with
      | some claim => (a.ensureStarted enabled).answerLater .media slot (some claim) ""
      | none => (a.ensureStarted enabled).submit (a.mediaRequest slot internalPort)

/-- `m_Held.removeAll(claim)`. -/
def removeAll (held : List Claim) (claim : Claim) : List Claim := held.filter fun c => !c.same claim

def releaseMediaPort : Allocator :=
  match a.heldMediaPort slot with
  | none => a
  | some claim =>
      { a with
        held := removeAll a.held claim
        toWorker := a.toWorker ++ [.release claim] }

def onDiscovered (lan : Option String) : Allocator :=
  match lan with
  | none => { a with state := .missing }
  | some lan => { a with state := .ready, settings := a.settings.setRouterLanIp lan }

variable (token : Nat)

/-- `alive`: a callback was given, and whoever asked is still there. -/
def deliver (claim : Option Claim) (why : String) (alive : Bool) : Allocator :=
  match a.pending token with
  | none => a
  | some pending =>
      { a with
        pending := Function.update a.pending token none
        called := if alive then a.called ++ [⟨token, pending, claim, why⟩] else a.called }

/-- A port that was passed over is forgotten, unless a program of this machine has it. -/
def forgetSkipped (pending : Pending) (settings : AppSettings) (s : Skipped) : AppSettings :=
  if s.reason = .localBusy then settings
  else if pending.purpose = .tunnel then settings.forgetTunnelPort s.port
  else if settings.rememberedMediaPort pending.slot = s.port then
    settings.forgetMediaPort pending.slot
  else settings

def remember (pending : Pending) (settings : AppSettings) (claim : Claim) : AppSettings :=
  if pending.purpose = .tunnel then settings.rememberTunnelPort claim.external
  else settings.rememberMediaPort pending.slot claim.external

/-- Whose claim an answer is for. -/
def whose : Pending := (a.pending token).getD ⟨.tunnel, -1⟩

/-- The settings without the ports an answer passed over. -/
def afterSkips (result : Result) : AppSettings :=
  result.skipped.foldl (forgetSkipped (a.whose token)) a.settings

def onClaimed (result : Result) (alive : Bool) : Allocator :=
  if a.state = .missing then a.deliver token none "no IGD" alive
  else
    match result.claim with
    | none =>
        { a with settings := a.afterSkips token result }.deliver token none "no router port left"
          alive
    | some claim =>
        { a with
          settings := remember (a.whose token) (a.afterSkips token result) claim
          held := a.held ++ [claim] }.deliver token (some claim) "" alive

/-- One turn of the loop of `onRenewed`. -/
def onLost (l : Lost) : Allocator :=
  { a with
    held := removeAll a.held l.claim
    settings :=
      if l.claim.purpose = .tunnel then a.settings.forgetTunnelPort l.claim.external
      else a.settings.forgetMediaPort l.claim.slot }

/-- The main thread handles its next message, of a renewal the next lost hole. -/
def handle (alive : Bool) : Allocator :=
  match a.toMain with
  | [] => a
  | .discovered lan :: rest => { a with toMain := rest }.onDiscovered lan
  | .claimed token result :: rest => { a with toMain := rest }.onClaimed token result alive
  | .answer token claim why :: rest => { a with toMain := rest }.deliver token claim why alive
  | .renewed [] :: rest => { a with toMain := rest }
  | .renewed [l] :: rest => { a with toMain := rest }.onLost l
  | .renewed (l :: l' :: lost) :: rest =>
      { a with toMain := .renewed (l' :: lost) :: rest }.onLost l

/-- The worker handles its next message. `found`: this host's address, if a gateway answers
a discovery; `answers`: what the gateway says to the calls of the core. -/
def work (found : Option String) (answers : Nat → (c : Call) → c.Answer) : Allocator :=
  match a.toWorker with
  | [] => a
  | .start previousLan :: rest =>
      match a.core, found with
      | some _, _ => { a with toWorker := rest }
      | none, none => { a with toWorker := rest, toMain := a.toMain ++ [.discovered none] }
      | none, some lan =>
          { a with
            core := some { previousLan := previousLan }
            toWorker := rest
            toMain := a.toMain ++ [.discovered (some lan)] }
  | .claim token request :: rest =>
      match a.core with
      | none => { a with toWorker := rest, toMain := a.toMain ++ [.claimed token {}] }
      | some core =>
          { a with
            core := some ((core.claim request).replay answers).1
            toWorker := rest
            toMain := a.toMain ++ [.claimed token ((core.claim request).replay answers).2]
            obtained := a.obtained ++ ((core.claim request).replay answers).2.claim.toList }
  | .release claim :: rest =>
      { a with
        core := a.core.map fun core => (core.release claim).replay answers
        toWorker := rest }

/-- The worker's timer. -/
def renew (answers : Nat → (c : Call) → c.Answer) : Allocator :=
  match a.core with
  | none => a
  | some core =>
      { a with
        core := some (core.renew.replay answers).1
        toMain :=
          if (core.renew.replay answers).2 = [] then a.toMain
          else a.toMain ++ [.renewed (core.renew.replay answers).2] }

end Allocator

/-- `enabled` and `lanOnly` are the switches as a call reads them. -/
inductive Event
  | ensureStarted (enabled : Bool)
  | discover (lanOnly : Bool)
  | claimTunnelPort (enabled : Bool)
  | claimMediaPort (slot : Int) (internalPort : UInt16) (enabled : Bool)
  | releaseMediaPort (slot : Int)
  | handle (alive : Bool)
  | work (found : Option String) (answers : Nat → (c : Call) → c.Answer)
  | renew (answers : Nat → (c : Call) → c.Answer)

/-- A call of the main thread, as against the handling of a message. -/
def Event.isCall : Event → Bool
  | .handle _ => false
  | .work _ _ => false
  | .renew _ => false
  | _ => true

namespace Allocator

def next (a : Allocator) : Event → Allocator
  | .ensureStarted enabled => a.ensureStarted enabled
  | .discover lanOnly => a.discover lanOnly
  | .claimTunnelPort enabled => a.claimTunnelPort enabled
  | .claimMediaPort slot internalPort enabled => a.claimMediaPort slot internalPort enabled
  | .releaseMediaPort slot => a.releaseMediaPort slot
  | .handle alive => a.handle alive
  | .work found answers => a.work found answers
  | .renew answers => a.renew answers

def coreHeld (a : Allocator) : List Claim := (a.core.map Core.held).getD []

end Allocator

def ofSlot (slot : Int) (c : Claim) : Bool := c.purpose = .media && c.slot = slot

namespace Allocator

/-- The step brings news of a slot's port: it was passed over for the slot as refused or
foreign, or lost. -/
def News (a : Allocator) (e : Event) (slot : Int) (port : UInt16) : Prop :=
  (∃ alive, e = .handle alive) ∧
    ((∃ token result rest, a.toMain = .claimed token result :: rest ∧
        a.pending token = some ⟨.media, slot⟩ ∧
        ∃ s ∈ result.skipped, s.reason ≠ .localBusy ∧ s.port = port) ∨
      ∃ l lost rest, a.toMain = .renewed (l :: lost) :: rest ∧
        l.claim.purpose = .media ∧ l.claim.slot = slot ∧ l.claim.external = port)

/-- The allocator follows its worker, and its callbacks are called as they should be. -/
structure Follows (a : Allocator) (e : Event) (a' : Allocator) : Prop where
  mirrored : a'.toWorker = [] → a'.toMain = [] → a'.held = a'.coreHeld
  single : ∀ slot, (a'.held.filter (ofSlot slot)).length ≤ 1 ∧
    (a'.coreHeld.filter (ofSlot slot)).length ≤ 1
  forgets : ∀ slot, a.settings.rememberedMediaPort slot ≠ 0 →
    a'.settings.rememberedMediaPort slot = 0 →
    a.News e slot (a.settings.rememberedMediaPort slot)
  once : (a'.called.map Called.token).Nodup
  later : e.isCall = true → a'.called = a.called
  own : ∀ call ∈ a'.called, ∀ c, call.claim = some c →
    c ∈ a'.obtained ∧ c.purpose = call.pending.purpose ∧ c.slot = call.pending.slot

/-- A claim of the slot is on its way to the core, or its answer back. -/
def Unanswered (a : Allocator) (slot : Int) : Prop :=
  (∃ token request, .claim token request ∈ a.toWorker ∧ request.purpose = .media ∧
      request.slot = slot) ∨
    ∃ token result, .claimed token result ∈ a.toMain ∧ a.pending token = some ⟨.media, slot⟩

/-- A slot's port is asked of the router only once at a time. -/
def Clean (a : Allocator) (e : Event) (_ : Allocator) : Prop :=
  match e with
  | .claimMediaPort slot _ enabled => a.refusal enabled = none → a.heldMediaPort slot = none →
      ¬ a.Unanswered slot
  | _ => True

end Allocator

end MoonlightWeb.Network.RouterPortAllocator
