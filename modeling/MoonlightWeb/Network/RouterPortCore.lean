import MoonlightWeb.Lib.Interaction
import MoonlightWeb.Lib.Run

/-! # The port allocation policy

`RouterPortCore` talks to the router through `IUpnpGateway`, one blocking call
at a time, and every other machine of the LAN may change the router's table
between two of its calls. Its functions are therefore interactions: they make
the calls of the source in the source's order and continue with the answers.
The router itself is a map from an external port and a protocol to the address
the entry points at; an accepted add overwrites, an accepted remove erases.
-/

namespace MoonlightWeb.Network.RouterPortCore

open Lib

/-- `kUdp` and `kTcp`. -/
inductive Protocol
  | udp
  | tcp
deriving DecidableEq, Repr

structure Entry where
  external : UInt16
  protocol : Protocol
deriving DecidableEq, Repr

/-- The address each entry points at; `none` where the router has no entry. -/
abbrev Table := Entry → Option String

def Table.set (table : Table) (e : Entry) (owner : Option String) : Table :=
  fun other => if other = e then owner else table other

/-- The calls of `IUpnpGateway`, and the local bind probe. -/
inductive Call
  | lanAddress
  | owner (e : Entry)
  | add (e : Entry) (internal : UInt16) (leaseSec : UInt32) (description : String)
  | remove (e : Entry)
  | bindProbe (port : UInt16)

def Call.Answer : Call → Type
  | .lanAddress => String
  | .owner _ => Option String
  | .add .. => Bool
  | .remove _ => Bool
  | .bindProbe _ => Bool

def Call.target : Call → Option Entry
  | .add e _ _ _ => some e
  | .remove e => some e
  | _ => none

abbrev GatewayM := Interaction Call Call.Answer

namespace Gateway

def lanAddress : GatewayM String := Interaction.call Call.lanAddress

def owner (e : Entry) : GatewayM (Option String) := Interaction.call (Call.owner e)

def add (e : Entry) (internal : UInt16) (leaseSec : UInt32) (description : String) :
    GatewayM Bool :=
  Interaction.call (Call.add e internal leaseSec description)

def remove (e : Entry) : GatewayM Bool := Interaction.call (Call.remove e)

def bindProbe (port : UInt16) : GatewayM Bool := Interaction.call (Call.bindProbe port)

end Gateway

inductive Purpose
  | tunnel
  | media
deriving DecidableEq, Repr

/-- One hole in the router, as this host holds it. -/
structure Claim where
  purpose : Purpose
  slot : Int
  external : UInt16
  internal : UInt16
  tcp : Bool
deriving DecidableEq, Repr

/-- `Claim::operator==`, which leaves the `tcp` mark out. -/
def Claim.same (c o : Claim) : Bool :=
  c.purpose = o.purpose && c.slot = o.slot && c.external = o.external && c.internal = o.internal

inductive SkipReason
  | localBusy
  | foreign
  | refused
  | keptElsewhere
deriving DecidableEq, Repr

structure Skipped where
  port : UInt16
  reason : SkipReason
  owner : String
deriving DecidableEq, Repr

structure Request where
  purpose : Purpose
  slot : Int
  internalPort : UInt16
  remembered : List UInt16
  preferred : List UInt16
  poolBegin : UInt16
  poolEnd : UInt16
  description : String

structure Result where
  claim : Option Claim := none
  skipped : List Skipped := []
  reclaimedFrom : String := ""
deriving DecidableEq, Repr

structure Lost where
  claim : Claim
  owner : String
deriving DecidableEq, Repr

/-- `mw::routerports::kLeaseSec`. -/
def kLeaseSec : UInt32 := 3600

/-- The members of the class. `bindProbe` says whether a probe was given. -/
structure Core where
  bindProbe : Bool := true
  previousLan : String := ""
  held : List Claim := []
  leaseSec : UInt32 := kLeaseSec
  renewFailures : Nat := 0
deriving DecidableEq, Repr

namespace Core

variable (core : Core)

def holds (externalPort : UInt16) : Bool :=
  core.held.any fun c => c.external = externalPort

/-- `m_Held.removeAll(claim)`. -/
def removeAll (claim : Claim) : Core :=
  { core with held := core.held.filter fun c => !c.same claim }

/-- Empty when the router has no entry, or cannot say. -/
def ownerOf (external : UInt16) : GatewayM String := do
  let client ← Gateway.owner ⟨external, .udp⟩
  return client.getD ""

def addWithLatch (external internal : UInt16) (description : String)
    (protocol : Protocol) : GatewayM (Bool × Core) := do
  if core.leaseSec > 0 then
    if ← Gateway.add ⟨external, protocol⟩ internal core.leaseSec description then
      return (true, core)
    if !(← Gateway.add ⟨external, protocol⟩ internal 0 description) then
      return (false, core)
    return (true, { core with leaseSec := 0 })
  else
    let ok ← Gateway.add ⟨external, protocol⟩ internal 0 description
    return (ok, core)

/-- The `consider` lambda of `claim`. -/
def consider (candidates : List UInt16) (port : UInt16) : List UInt16 :=
  if port = 0 ∨ core.holds port ∨ port ∈ candidates then candidates else candidates ++ [port]

/-- The pool of a request, ascending; empty when it begins after its end. -/
def pool (request : Request) : List UInt16 :=
  (List.range' request.poolBegin.toNat
    (request.poolEnd.toNat + 1 - request.poolBegin.toNat)).map UInt16.ofNat

def candidates (request : Request) : List UInt16 :=
  (request.remembered ++ request.preferred ++ pool request).foldl core.consider []

/-- The part of `tryOne` after the ownership check: write, read back, then the
TCP mapping, best effort. -/
def takeEntry (external : UInt16) (request : Request) (lan : String)
    (result : Result) : GatewayM (Core × Result) := do
  let internal := if request.purpose = .tunnel then external else request.internalPort
  let (added, core) ← core.addWithLatch external internal request.description .udp
  if !added then
    return (core, { result with skipped := result.skipped ++ [⟨external, .refused, ""⟩] })
  let after ← ownerOf external
  if after ≠ "" ∧ after ≠ lan then
    return (core, { result with skipped := result.skipped ++ [⟨external, .keptElsewhere, after⟩] })
  let (tcp, core) ← core.addWithLatch external internal request.description .tcp
  let claim : Claim := ⟨request.purpose, request.slot, external, internal, tcp⟩
  return ({ core with held := core.held ++ [claim] }, { result with claim := some claim })

/-- The ownership check of `tryOne` and what follows it. -/
def tryOwned (external : UInt16) (request : Request) (result : Result) :
    GatewayM (Core × Result) := do
  let lan ← Gateway.lanAddress
  let before ← ownerOf external
  if before ≠ "" ∧ before ≠ lan then
    -- An entry of this host's previous address is taken back, not respected.
    if core.previousLan ≠ "" ∧ before = core.previousLan then
      core.takeEntry external request lan { result with reclaimedFrom := before }
    else
      return (core, { result with skipped := result.skipped ++ [⟨external, .foreign, before⟩] })
  else
    core.takeEntry external request lan result

/-- `tryOne`; the claim it made, if any, is in the result. -/
def tryOne (external : UInt16) (request : Request) (result : Result) :
    GatewayM (Core × Result) := do
  if request.purpose = .tunnel ∧ core.bindProbe then
    let free ← Gateway.bindProbe external
    if free then
      core.tryOwned external request result
    else
      return (core, { result with skipped := result.skipped ++ [⟨external, .localBusy, ""⟩] })
  else
    core.tryOwned external request result

/-- The candidate loop of `claim`. -/
def tryAll (core : Core) (request : Request) (result : Result) :
    List UInt16 → GatewayM (Core × Result)
  | [] => return (core, result)
  | external :: rest => do
      let (core, result) ← core.tryOne external request result
      if result.claim.isSome then return (core, result)
      core.tryAll request result rest

def claim (request : Request) : GatewayM (Core × Result) :=
  core.tryAll request {} (core.candidates request)

def renewDescription (c : Claim) : String :=
  if c.purpose = .tunnel then "MoonlightWeb tunnel" else "MoonlightWeb media slot " ++ toString c.slot

/-- One turn of the first loop of `renew`: the claim is written, then read back. -/
def renewOne (lan : String) (ok : Bool) (lost : List Lost) (c : Claim) :
    GatewayM (Core × Bool × List Lost) := do
  let (added, core) ← core.addWithLatch c.external c.internal (renewDescription c) .udp
  let core ←
    if c.tcp then do
      let (_, core) ← core.addWithLatch c.external c.internal (renewDescription c) .tcp
      pure core
    else pure core
  let owner ← ownerOf c.external
  let lost := if owner ≠ "" ∧ owner ≠ lan then lost ++ [⟨c, owner⟩] else lost
  return (core, ok && added, lost)

def renewAll (core : Core) (lan : String) (ok : Bool) (lost : List Lost) :
    List Claim → GatewayM (Core × Bool × List Lost)
  | [] => return (core, ok, lost)
  | c :: rest => do
      let (core, ok, lost) ← core.renewOne lan ok lost c
      core.renewAll lan ok lost rest

/-- The permanent re-adds of `renew` after its second failure in a row. -/
def addPermanent : List Claim → GatewayM Unit
  | [] => return ()
  | c :: rest => do
      let _ ← Gateway.add ⟨c.external, .udp⟩ c.internal 0 (renewDescription c)
      if c.tcp then
        let _ ← Gateway.add ⟨c.external, .tcp⟩ c.internal 0 (renewDescription c)
      addPermanent rest

/-- What `renew` does once every claim was written and read back. -/
def renewSettle (ok : Bool) (lost : List Lost) : GatewayM (Core × List Lost) := do
  let core := lost.foldl (fun core l => core.removeAll l.claim) core
  if ok then
    return ({ core with renewFailures := 0 }, lost)
  let core := { core with renewFailures := core.renewFailures + 1 }
  if core.renewFailures ≥ 2 ∧ core.leaseSec > 0 then
    addPermanent core.held
    return ({ core with leaseSec := 0 }, lost)
  return (core, lost)

def renew : GatewayM (Core × List Lost) := do
  let lan ← Gateway.lanAddress
  let (core, ok, lost) ← core.renewAll lan true [] core.held
  core.renewSettle ok lost

def release (claim : Claim) : GatewayM Core := do
  if !core.held.any (·.same claim) then
    return core
  let _ ← Gateway.remove ⟨claim.external, .udp⟩
  if claim.tcp then
    let _ ← Gateway.remove ⟨claim.external, .tcp⟩
  return core.removeAll claim

def releaseEach (core : Core) : List Claim → GatewayM Core
  | [] => return core
  | c :: rest => do
      let core ← core.release c
      core.releaseEach rest

def releaseAll : GatewayM Core := core.releaseEach core.held

end Core

inductive Operation
  | setPreviousLanAddress (ip : String)
  | claim (request : Request)
  | renew
  | release (claim : Claim)
  | releaseAll

def Operation.isClaim : Operation → Bool
  | .claim _ => true
  | _ => false

def Operation.start (core : Core) : Operation → GatewayM Core
  | .setPreviousLanAddress ip => .done { core with previousLan := ip }
  | .claim request => do return (← core.claim request).1
  | .renew => do return (← core.renew).1
  | .release c => core.release c
  | .releaseAll => core.releaseAll

/-- `core` is the core as the operation in progress found it, `todo` what is
left of that operation (`done core` between two of them), and `asked` the table
as it was when the router last answered who owns an entry. -/
structure System where
  lan : String
  core : Core
  operation : Operation
  todo : GatewayM Core
  table : Table
  asked : Table

variable (s : System)

def System.pending : Option Call :=
  match s.todo with
  | .done _ => none
  | .ask c _ => some c

def System.writes : Option Entry := s.pending.bind Call.target

/-- What the router answers; `accepts` decides an add or a remove, and the probe. -/
def Call.answer (lan : String) (table : Table) (accepts : Bool) : (c : Call) → c.Answer
  | .lanAddress => lan
  | .owner e => table e
  | .add .. => accepts
  | .remove _ => accepts
  | .bindProbe _ => accepts

def Call.effect (lan : String) (table : Table) (accepts : Bool) : Call → Table
  | .add e _ _ _ => if accepts then table.set e (some lan) else table
  | .remove e => if accepts then table.set e none else table
  | _ => table

/-- The table an ownership answer was read from. -/
def Call.asks (table asked : Table) : Call → Table
  | .owner _ => table
  | _ => asked

/-- `others` is any change by another machine, `call` the answer to the next
call, `start` the next operation of the host. -/
inductive Label
  | start (operation : Operation)
  | call (accepts : Bool)
  | others (table : Table)

def System.step : Label → Option System
  | .start operation =>
      match s.todo with
      | .done core =>
          some { s with core := core, operation := operation, todo := operation.start core }
      | .ask .. => none
  | .call accepts =>
      match s.todo with
      | .done _ => none
      | .ask c rest =>
          some { s with todo := rest (c.answer s.lan s.table accepts),
                        table := c.effect s.lan s.table accepts,
                        asked := c.asks s.table s.asked }
  | .others table => some { s with table := table }

def System.Step : System → Label → System → Prop := moves System.step

/-- A host that holds nothing, before its first operation, in front of any router. -/
def System.boot (lan : String) (bindProbe : Bool) (table : Table) : System :=
  let core : Core := { bindProbe := bindProbe }
  { lan := lan, core := core, operation := .releaseAll, todo := .done core,
    table := table, asked := table }

def System.Initial : Prop :=
  ∃ lan bindProbe table, s = System.boot lan bindProbe table

end MoonlightWeb.Network.RouterPortCore
