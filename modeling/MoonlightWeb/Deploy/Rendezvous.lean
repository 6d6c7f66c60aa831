import MoonlightWeb.Lib.Run
import Mathlib.Data.List.AList
import Mathlib.Logic.Function.Basic

/-! # The rendezvous hub

A host holds one line open, browsers are bridged onto it as sessions. Every
handler is a goroutine of its own: one per host line, one per browser, and one
for each displaced line that is hung up. A step here is one section under a
lock, one socket write, or one read; between two steps of a handler every other
handler may move, and every write may fail.
-/

namespace MoonlightWeb.Deploy.Rendezvous

open Lib

def msgOpen : String := "open"
def msgMsg : String := "msg"
def msgClose : String := "close"
def msgReady : String := "ready"
def msgError : String := "error"

def codeOffline : String := "offline"
def codeBusy : String := "busy"
def codeHostGone : String := "host-gone"

/-- `hostFrame`; `d` is the raw payload, empty when the frame carries none. -/
structure HostFrame where
  t : String
  s : String
  d : String := ""
  v : Int := 0
deriving DecidableEq, Repr

structure PeerFrame where
  t : String
  d : String := ""
  code : String := ""
  v : Int := 0
deriving DecidableEq, Repr

/-- Where `handleHost` is, after its line was registered. -/
inductive HostPc
  | reading
  | delivering (s : String) (peer : Nat) (d : String)
  | undelivered (s : String) (peer : Nat)
  | announcing (s : String) (peer : Nat)
  | hangingUp (peer : Nat)
  | dropping (s : String) (peer : Nat)
  | closing (peer : Nat)
  | leaving
  | unregistered
  | telling (peers : List Nat)
  | closingEach (peer : Nat) (rest : List Nat)
  | down
deriving DecidableEq, Repr

/-- Where `hangUpLine` is on a line; `idle` while nothing displaced it. -/
inductive HangUpPc
  | idle
  | pending
  | telling (peers : List Nat)
  | closingEach (peer : Nat) (rest : List Nat)
  | down
deriving DecidableEq, Repr

/-- Where `handlePeer` is, after it found a line. -/
inductive PeerPc
  | adding
  | opening
  | openFailed
  | readying
  | readyFailed
  | readyAnnouncing
  | reading
  | forwarding (d : String)
  | leaving
  | announcing
  | closing
  | refusing (code : String)
  | done
deriving DecidableEq, Repr

/-- `sessions`: session id to the browser it stands for. -/
abbrev Sessions := AList fun _ : String => Nat

/-- A `hostLine` and the handlers that run on it. -/
structure Line where
  id : String
  proto : Int
  dead : Bool := false
  sessions : Sessions := ∅
  gone : Bool := false
  handler : HostPc := .reading
  hangUp : HangUpPc := .idle

/-- A browser that found a line, and its handler; `ready` once its ready frame
was written. -/
structure Peer where
  sid : String
  line : Nat
  proto : Int
  dead : Bool := false
  ready : Bool := false
  pc : PeerPc := .adding
deriving DecidableEq, Repr

/-- Which handler wrote a frame. -/
inductive Writer
  | line (line : Nat)
  | hangUp (line : Nat)
  | peer (peer : Nat)
deriving DecidableEq, Repr

/-- What was read from a socket, and what was written to one. -/
inductive Event
  | fromHost (line : Nat) (f : HostFrame)
  | fromPeer (peer : Nat) (d : String)
  | toHost (line : Nat) (writer : Writer) (f : HostFrame)
  | toPeer (peer : Nat) (writer : Writer) (f : PeerFrame)
deriving DecidableEq, Repr

/-- The hub, every line and every browser so far, and what they exchanged.
Lines and browsers are numbered in the order of their arrival. -/
structure World where
  maxSessions : Nat
  hub : String → Option Nat
  lineCount : Nat
  lines : Nat → Option Line
  peers : Nat → Option Peer
  log : List Event

namespace World

variable (w : World)

def modifyLine (l : Nat) (f : Line → Line) : World :=
  { w with lines := Function.update w.lines l ((w.lines l).map f) }

def modifyPeer (p : Nat) (f : Peer → Peer) : World :=
  { w with peers := Function.update w.peers p ((w.peers p).map f) }

def emit (e : Event) : World := { w with log := w.log ++ [e] }

def setHandler (l : Nat) (pc : HostPc) : World :=
  w.modifyLine l fun line => { line with handler := pc }

def setHangUp (l : Nat) (pc : HangUpPc) : World :=
  w.modifyLine l fun line => { line with hangUp := pc }

def setPc (p : Nat) (pc : PeerPc) : World :=
  w.modifyPeer p fun peer => { peer with pc := pc }

/-- `conn.Close()` on a browser's socket. -/
def closePeer (p : Nat) : World := w.modifyPeer p fun peer => { peer with dead := true }

def closeLine (l : Nat) : World := w.modifyLine l fun line => { line with dead := true }

/-- Whether a socket takes a write; a failed write leaves it dead. -/
def peerTakes (p : Nat) (ok : Bool) : Bool :=
  ok && (w.peers p).any fun peer => !peer.dead

def hostTakes (l : Nat) (ok : Bool) : Bool :=
  ok && (w.lines l).any fun line => !line.dead

/-- `sendPeer`, once it is known whether the socket takes the write. -/
def sendPeer (writer : Writer) (p : Nat) (f : PeerFrame) (taken : Bool) : World :=
  if taken then w.emit (.toPeer p writer f) else w.closePeer p

def sendHost (writer : Writer) (l : Nat) (f : HostFrame) (taken : Bool) : World :=
  if taken then w.emit (.toHost l writer f) else w.closeLine l

/-- The part of `dropSession` after its test. -/
def dropSession (l : Nat) (s : String) : World :=
  w.modifyLine l fun line => { line with sessions := line.sessions.erase s }

/-- `shutdown`: the line is gone and every session is taken off it. -/
def shutdown (l : Nat) : World :=
  w.modifyLine l fun line => { line with gone := true, sessions := ∅ }

def unregister (l : Nat) (line : Line) : World :=
  if w.hub line.id = some l then { w with hub := Function.update w.hub line.id none } else w

end World

def Line.registered (line : Line) : List Nat := line.sessions.entries.map Sigma.snd

/-- `receives` and `readFails` are the outcome of a read, `goes` is any other
step, with what the transport makes of the write in it. -/
inductive HostAct
  | receives (f : HostFrame)
  | readFails
  | goes (ok : Bool)

inductive PeerAct
  | receives (f : PeerFrame)
  | readFails
  | goes (ok : Bool)

variable (w : World)

/-- The switch of `handleHost` on a frame it read. -/
def World.hostReceives (l : Nat) (line : Line) (f : HostFrame) : World :=
  let w := w.emit (.fromHost l f)
  match line.sessions.lookup f.s with
  | none => w
  | some p =>
      if f.t = msgMsg then w.setHandler l (.delivering f.s p f.d)
      else if f.t = msgClose then w.setHandler l (.dropping f.s p)
      else w

/-- The steps of `handleHost` other than reads. -/
def World.hostGoes (l : Nat) (line : Line) (ok : Bool) : Option World :=
  match line.handler with
  | .reading => none
  | .delivering s p d =>
      let taken := w.peerTakes p ok
      some ((w.setHandler l (if taken then .reading else .undelivered s p)).sendPeer
        (.line l) p { t := msgMsg, d := d } taken)
  | .undelivered s p =>
      if s ∈ line.sessions then some ((w.dropSession l s).setHandler l (.announcing s p))
      else some (w.setHandler l (.hangingUp p))
  | .announcing s p =>
      some ((w.setHandler l (.hangingUp p)).sendHost (.line l) l { t := msgClose, s := s }
        (w.hostTakes l ok))
  | .hangingUp p => some ((w.closePeer p).setHandler l .reading)
  | .dropping s p => some ((w.dropSession l s).setHandler l (.closing p))
  | .closing p => some ((w.closePeer p).setHandler l .reading)
  | .leaving => some ((w.unregister l line).setHandler l .unregistered)
  | .unregistered => some ((w.shutdown l).setHandler l (.telling line.registered))
  | .telling [] => some ((w.closeLine l).setHandler l .down)
  | .telling (p :: rest) =>
      some ((w.setHandler l (.closingEach p rest)).sendPeer (.line l) p
        { t := msgError, code := codeHostGone } (w.peerTakes p ok))
  | .closingEach p rest => some ((w.closePeer p).setHandler l (.telling rest))
  | .down => none

def World.hostStep (l : Nat) (line : Line) : HostAct → Option World
  | .receives f => if line.handler = .reading then some (w.hostReceives l line f) else none
  | .readFails => if line.handler = .reading then some (w.setHandler l .leaving) else none
  | .goes ok => w.hostGoes l line ok

/-- `hangUpLine`. -/
def World.hangUpStep (l : Nat) (line : Line) (ok : Bool) : Option World :=
  match line.hangUp with
  | .idle => none
  | .pending => some ((w.shutdown l).setHangUp l (.telling line.registered))
  | .telling [] => some ((w.closeLine l).setHangUp l .down)
  | .telling (p :: rest) =>
      some ((w.setHangUp l (.closingEach p rest)).sendPeer (.hangUp l) p
        { t := msgError, code := codeHostGone } (w.peerTakes p ok))
  | .closingEach p rest => some ((w.closePeer p).setHangUp l (.telling rest))
  | .down => none

/-- `addSession`: the refusal code, or the session registered. -/
def World.addSession (p : Nat) (peer : Peer) (line : Line) : World :=
  if line.gone then w.setPc p (.refusing codeOffline)
  else if line.sessions.entries.length ≥ w.maxSessions then w.setPc p (.refusing codeBusy)
  else
    (w.modifyLine peer.line fun line =>
      { line with sessions := line.sessions.insert peer.sid p }).setPc p .opening

/-- The steps of `handlePeer` other than reads; `line` is the line it found. -/
def World.peerGoes (p : Nat) (peer : Peer) (line : Line) (ok : Bool) : Option World :=
  match peer.pc with
  | .adding => some (w.addSession p peer line)
  | .opening =>
      let taken := w.hostTakes peer.line ok
      some ((w.setPc p (if taken then .readying else .openFailed)).sendHost (.peer p) peer.line
        { t := msgOpen, s := peer.sid, v := peer.proto } taken)
  | .openFailed => some ((w.dropSession peer.line peer.sid).setPc p (.refusing codeOffline))
  | .readying =>
      let taken := w.peerTakes p ok
      some ((w.modifyPeer p fun peer =>
        { peer with pc := if taken then .reading else .readyFailed, ready := taken }).sendPeer
          (.peer p) p { t := msgReady, v := line.proto } taken)
  | .readyFailed => some ((w.dropSession peer.line peer.sid).setPc p .readyAnnouncing)
  | .readyAnnouncing =>
      some ((w.setPc p .closing).sendHost (.peer p) peer.line { t := msgClose, s := peer.sid }
        (w.hostTakes peer.line ok))
  | .reading => none
  | .forwarding d =>
      let taken := w.hostTakes peer.line ok
      some ((w.setPc p (if taken then .reading else .leaving)).sendHost (.peer p) peer.line
        { t := msgMsg, s := peer.sid, d := d } taken)
  | .leaving =>
      if peer.sid ∈ line.sessions then
        some ((w.dropSession peer.line peer.sid).setPc p .announcing)
      else some (w.setPc p .closing)
  | .announcing =>
      some ((w.setPc p .closing).sendHost (.peer p) peer.line { t := msgClose, s := peer.sid }
        (w.hostTakes peer.line ok))
  | .closing => some ((w.closePeer p).setPc p .done)
  | .refusing code =>
      some ((w.setPc p .closing).sendPeer (.peer p) p { t := msgError, code := code }
        (w.peerTakes p ok))
  | .done => none

/-- The loop of `handlePeer` on a frame it read. -/
def World.peerReceives (p : Nat) (f : PeerFrame) : World :=
  if f.t = msgMsg ∧ f.d ≠ "" then (w.emit (.fromPeer p f.d)).setPc p (.forwarding f.d) else w

def World.peerStep (p : Nat) (peer : Peer) (line : Line) : PeerAct → Option World
  | .receives f => if peer.pc = .reading then some (w.peerReceives p f) else none
  | .readFails => if peer.pc = .reading then some (w.setPc p .leaving) else none
  | .goes ok => w.peerGoes p peer line ok

/-- A host whose handshake passed registers its line, displacing an earlier one. -/
def World.hostConnect (id : String) (proto : Int) : World :=
  let l := w.lineCount
  let displaced := w.hub id
  let w := { w with lineCount := l + 1,
                    hub := Function.update w.hub id (some l),
                    lines := Function.update w.lines l (some { id := id, proto := proto }) }
  match displaced with
  | none => w
  | some old => w.setHangUp old .pending

/-- A browser looks the id up and mints a session id no browser had before;
without a line it is refused and nothing changes. -/
def World.peerConnect (p : Nat) (id sid : String) (proto : Int) : World :=
  match w.hub id with
  | none => w
  | some l =>
      { w with peers := Function.update w.peers p (some { sid := sid, line := l, proto := proto }) }

inductive Label
  | hostConnect (id : String) (proto : Int)
  | peerConnect (p : Nat) (id sid : String) (proto : Int)
  | host (l : Nat) (act : HostAct)
  | hangUp (l : Nat) (ok : Bool)
  | peer (p : Nat) (act : PeerAct)
  | lineDies (l : Nat)
  | peerDies (p : Nat)

/-- One step of the server. `lineDies` and `peerDies` are failed pings. The ids
of `crypto/rand` do not repeat. -/
inductive Step : World → Label → World → Prop
  | hostConnect (w : World) (id : String) (proto : Int) :
      Step w (.hostConnect id proto) (w.hostConnect id proto)
  | peerConnect (w : World) (p : Nat) (id sid : String) (proto : Int) (number : w.peers p = none)
      (fresh : ∀ q peer, w.peers q = some peer → peer.sid ≠ sid) :
      Step w (.peerConnect p id sid proto) (w.peerConnect p id sid proto)
  | host {w w' : World} {l : Nat} {line : Line} {act : HostAct} (at_ : w.lines l = some line)
      (goes : w.hostStep l line act = some w') : Step w (.host l act) w'
  | hangUp {w w' : World} {l : Nat} {line : Line} {ok : Bool} (at_ : w.lines l = some line)
      (goes : w.hangUpStep l line ok = some w') : Step w (.hangUp l ok) w'
  | peer {w w' : World} {p : Nat} {peer : Peer} {line : Line} {act : PeerAct}
      (at_ : w.peers p = some peer) (on : w.lines peer.line = some line)
      (goes : w.peerStep p peer line act = some w') : Step w (.peer p act) w'
  | lineDies (w : World) (l : Nat) : Step w (.lineDies l) (w.closeLine l)
  | peerDies (w : World) (p : Nat) : Step w (.peerDies p) (w.closePeer p)

def World.start (maxSessions : Nat) : World :=
  { maxSessions := maxSessions, hub := fun _ => none, lineCount := 0,
    lines := fun _ => none, peers := fun _ => none, log := [] }

end MoonlightWeb.Deploy.Rendezvous
