import MoonlightWeb.Common.PairingCrypto
import MoonlightWeb.Qt.Json
import MoonlightWeb.Streaming.SdpFingerprint
import Mathlib.Logic.Function.Basic

/-! # The control tunnel

One browser from the moment the introduction server announces it to the moment
its line drops: the router hole its connection listens behind, and the
MW-BIND-v1 exchange that binds the channel. Events arrive one at a time on the
main thread, from the relay, from the port allocator and from the connections'
own threads, in any order.
-/

namespace MoonlightWeb.Server.ControlTunnel

open Qt Common.PairingCrypto Streaming

/-- `kTunnelPortCap`. -/
def tunnelPortCap : Nat := 4

/-- What the tunnel reads of the settings, live. -/
structure Settings where
  rendezvousId : QString
  hostSigningKeyPem : QByteArray
  hostSigningPublicKey : QByteArray

/-- MW-BIND-v1, per connection. `offers` is a record of the offers sent, each
with the host nonce that went out in it. -/
structure Binding where
  helloSeen : Bool := false
  answerVerified : Bool := false
  browserSpki : QByteArray := []
  browserKeyId : QString := []
  nonceBrowser : QByteArray := []
  nonceHost : QByteArray := []
  localFingerprint : QString := []
  pendingOffer : QString := []
  offers : List (QString × QByteArray) := []

/-- One browser. `pc` says whether its peer connection is built. -/
structure Peer where
  pc : Bool := false
  port : UInt16 := 0
  awaitingPort : Bool := false
  binding : Binding := {}

/-- What the tunnel asks of the rendezvous line and of its peer connections. -/
inductive Call
  | sendSignal (id : QString) (payload : QJsonObject)
  | closeSession (id : QString)
  | setRemoteDescription (id sdp : QString)
  | addRemoteCandidate (id candidate mid : QString)

/-- The tunnel and the two things it reads of the allocator: the tunnel ports
held, and the claims in flight. `calls` are those of the last event. -/
structure Tunnel where
  settings : Settings
  peers : QString → Option Peer := fun _ => none
  freePorts : List UInt16 := []
  waitingPeers : List QString := []
  held : List UInt16 := []
  inFlight : Nat := 0
  calls : List Call := []

def initial (s : Settings) : Tunnel := { settings := s }

/-- Whether a peer connection of a session can be built on a port. -/
abbrev Binds := QString → UInt16 → Bool

/-- `RouterPortAllocator::GatewayState`. -/
inductive GatewayState
  | unknown | discovering | ready | missing
  deriving DecidableEq

namespace Tunnel

variable (t : Tunnel)

def setPeer (id : QString) (p : Peer) : Tunnel :=
  { t with peers := Function.update t.peers id (some p) }

def call (c : Call) : Tunnel := { t with calls := t.calls ++ [c] }

@[simp] theorem setPeer_self (id : QString) (p : Peer) :
    (t.setPeer id p).peers id = some p := by
  simp [setPeer]

theorem setPeer_ne {id id' : QString} (p : Peer) (h : id' ≠ id) :
    (t.setPeer id p).peers id' = t.peers id' := by
  simp [setPeer, Function.update_of_ne h]

end Tunnel

variable (t : Tunnel)

def takeTunnelPort : UInt16 × Tunnel :=
  match t.freePorts with
  | [] => (0, t)
  | p :: rest => (p, { t with freePorts := rest })

/-- Only a hole this host still holds goes back to the idle ones. -/
def releaseTunnelPort (port : UInt16) : Tunnel :=
  if port = 0 ∨ port ∈ t.freePorts then t
  else if port ∈ t.held then { t with freePorts := t.freePorts ++ [port] }
  else t

/-- Taking a port, or giving one back, leaves the peers and the queue alone. -/
theorem takeTunnelPort_frame :
    (takeTunnelPort t).2.peers = t.peers ∧ (takeTunnelPort t).2.waitingPeers = t.waitingPeers ∧
      (takeTunnelPort t).2.calls = t.calls := by
  unfold takeTunnelPort
  split <;> exact ⟨rfl, rfl, rfl⟩

theorem releaseTunnelPort_frame (q : UInt16) :
    (releaseTunnelPort t q).peers = t.peers ∧
      (releaseTunnelPort t q).waitingPeers = t.waitingPeers ∧
      (releaseTunnelPort t q).calls = t.calls := by
  unfold releaseTunnelPort
  split
  · exact ⟨rfl, rfl, rfl⟩
  · split <;> exact ⟨rfl, rfl, rfl⟩

def dropPeer (id : QString) : Tunnel :=
  match t.peers id with
  | none => t
  | some p =>
      releaseTunnelPort
        { t with
          peers := Function.update t.peers id none
          waitingPeers := t.waitingPeers.filter (· ≠ id) }
        p.port

/-- `closeSession` and `dropPeer`: how `abort` refuses a session, how a
connection that cannot be built does, and what follows when one ends. -/
def endSession (id : QString) : Tunnel := dropPeer (t.call (.closeSession id)) id

def abort (id : QString) : Tunnel := endSession t id

variable (binds : Binds)

/-- `createPeerConnection` for a peer on no port: when that fails too, this one
session is refused. -/
def createEphemeral (t : Tunnel) (id : QString) (p : Peer) : Tunnel :=
  if binds id 0 then t.setPeer id { p with pc := true }
  else endSession (t.setPeer id { p with pc := false }) id

/-- A port that will not bind is given back and the browser gets an ephemeral one. -/
def createPeerConnection (t : Tunnel) (id : QString) (p : Peer) : Tunnel :=
  if p.port = 0 then createEphemeral binds t id p
  else if binds id p.port then t.setPeer id { p with pc := true }
  else createEphemeral binds (releaseTunnelPort t p.port) id { p with port := 0 }

def startPeer (t : Tunnel) (id : QString) (p : Peer) : Tunnel :=
  let p := { p with awaitingPort := false }
  let t := { t.setPeer id p with waitingPeers := t.waitingPeers.filter (· ≠ id) }
  if p.port = 0 then
    createPeerConnection binds (takeTunnelPort t).2 id { p with port := (takeTunnelPort t).1 }
  else createPeerConnection binds t id p

/-- The lookup every caller of `startPeer` makes first. -/
def startWaiting (t : Tunnel) (id : QString) : Tunnel :=
  match t.peers id with
  | none => t
  | some p => if p.awaitingPort then startPeer binds t id p else t

/-- The loop of `serveWaitingPeers`, bounded by `fuel` turns. -/
def serveWaitingPeersFor (binds : Binds) : Nat → Tunnel → Tunnel
  | 0, t => t
  | fuel + 1, t =>
      match t.waitingPeers, t.freePorts with
      | id :: rest, _ :: _ =>
          serveWaitingPeersFor binds fuel (startWaiting binds { t with waitingPeers := rest } id)
      | _, _ => t

def serveWaitingPeers (t : Tunnel) : Tunnel :=
  serveWaitingPeersFor binds t.waitingPeers.length t

def giveUpWaiting (t : Tunnel) : Tunnel :=
  t.waitingPeers.foldl (startWaiting binds) { t with waitingPeers := [] }

def requestTunnelPort : Tunnel :=
  if t.inFlight > 0 then t
  else if t.held.length ≥ tunnelPortCap then t
  else { t with inFlight := t.inFlight + 1 }

/-- The callback of a claim that was granted. The allocator has booked the port
and closed the claim before it calls. -/
def claimGranted (t : Tunnel) (port : UInt16) : Tunnel :=
  let t := { t with held := t.held ++ [port], inFlight := t.inFlight - 1 }
  let t := { t with freePorts := t.freePorts ++ [port] }
  let t := serveWaitingPeers binds t
  if t.waitingPeers = [] then t
  else
    let t := requestTunnelPort t
    if t.inFlight = 0 then giveUpWaiting binds t else t

def claimRefused (t : Tunnel) : Tunnel :=
  giveUpWaiting binds { t with inFlight := t.inFlight - 1 }

def onGatewayReady : Tunnel :=
  if t.held = [] ∧ t.inFlight = 0 then requestTunnelPort t else t

/-- The allocator has dropped the port before it says so. -/
def onPortLost (port : UInt16) : Tunnel :=
  let t :=
    { t with
      held := t.held.filter (· ≠ port)
      freePorts := t.freePorts.filter (· ≠ port) }
  if t.freePorts = [] then requestTunnelPort t else t

def onSessionOpened (enabled : Bool) (gateway : GatewayState) (t : Tunnel)
    (id : QString) : Tunnel :=
  match t.peers id with
  | some _ => t
  | none =>
      let port := (takeTunnelPort t).1
      let t := (takeTunnelPort t).2
      if port ≠ 0 ∨ enabled = false then createPeerConnection binds t id { port := port }
      else
        let gatewayMayAnswer := gateway = .ready ∨ gateway = .discovering
        let oneIsComing := t.inFlight > 0
        let roomForOne := t.held.length < tunnelPortCap
        if ¬gatewayMayAnswer ∨ (¬oneIsComing ∧ ¬roomForOne) then
          createPeerConnection binds t id { port := port }
        else
          requestTunnelPort
            { t.setPeer id { port := port, awaitingPort := true } with
              waitingPeers := t.waitingPeers ++ [id] }

def offerPayload (s : Settings) (offer : QString) (nonce sig : QByteArray) : QJsonObject :=
  [(qs "type", .string (qs "sdp")),
    (qs "sdp", .string offer),
    (qs "protocol", .string (qs protocol)),
    (qs "host_id", .string s.rendezvousId),
    (qs "host_key", .string s.hostSigningPublicKey.toBase64.toQString),
    (qs "nonce", .string nonce.toBase64.toQString),
    (qs "sig", .string sig.toBase64.toQString)]

section

variable (C : Crypto)

variable (t : Tunnel)

/-- `nonce` is what `generateNonce` yields, empty when it fails. -/
def sendSignedOffer (id : QString) (p : Peer) (nonce : QByteArray) : Tunnel :=
  let b := p.binding
  if b.pendingOffer = [] ∨ b.helloSeen = false then t.setPeer id p
  else if nonce = [] then abort t id
  else
    let toSign :=
      hostDigestInput t.settings.rendezvousId b.browserKeyId b.nonceBrowser b.localFingerprint
    let sig := C.sign t.settings.hostSigningKeyPem toSign
    if sig = [] then abort t id
    else
      (t.call (.sendSignal id (offerPayload t.settings b.pendingOffer nonce sig))).setPeer id
        { p with
          binding :=
            { b with
              nonceHost := nonce
              pendingOffer := []
              offers := b.offers ++ [(b.pendingOffer, nonce)] } }

/-- The local description, once it reached the main thread. -/
def onLocalDescription (id text : QString) (nonce : QByteArray) : Tunnel :=
  match t.peers id with
  | none => t
  | some p =>
      let fingerprint := SdpFingerprint.extract text
      if fingerprint = [] then abort t id
      else
        sendSignedOffer C t id
          { p with
            binding := { p.binding with pendingOffer := text, localFingerprint := fingerprint } }
          nonce

def handleHello (id : QString) (p : Peer) (msg : QJsonObject) (nonce : QByteArray) :
    Tunnel :=
  if p.binding.helloSeen then abort t id
  else
    let browserSpki := QByteArray.fromBase64 (msg.value "public_key").toString.toUtf8
    if C.isValidP256Spki browserSpki = false then abort t id
    else
      let browserKeyId := C.keyId browserSpki
      if (msg.value "key_id").toString ≠ browserKeyId then abort t id
      else
        let nonceBrowser := QByteArray.fromBase64 (msg.value "nonce").toString.toUtf8
        if nonceBrowser.length < minNonceBytes then abort t id
        else
          sendSignedOffer C t id
            { p with
              binding :=
                { p.binding with
                  helloSeen := true
                  browserSpki := browserSpki
                  browserKeyId := browserKeyId
                  nonceBrowser := nonceBrowser } }
            nonce

def answerSdp (msg : QJsonObject) : QString := (msg.value "sdp").toString

def answerSig (msg : QJsonObject) : QByteArray :=
  QByteArray.fromBase64 (msg.value "sig").toString.toUtf8

/-- The bytes the host has the answer's signature verified over. -/
def signedBytes (s : Settings) (b : Binding) (msg : QJsonObject) : QByteArray :=
  browserDigestInput s.rendezvousId b.nonceHost b.localFingerprint
    (SdpFingerprint.extract (answerSdp msg))

/-- `usable` says whether the connection takes the description. -/
def handleAnswer (id : QString) (p : Peer) (msg : QJsonObject) (usable : Bool) :
    Tunnel :=
  if p.binding.answerVerified then t
  else if p.binding.helloSeen = false then abort t id
  else if SdpFingerprint.extract (answerSdp msg) = [] then abort t id
  else if answerSig msg = [] then abort t id
  else if C.verify p.binding.browserSpki (signedBytes t.settings p.binding msg)
      (answerSig msg) = false then abort t id
  else if p.pc = false then abort t id
  else
    let t := t.setPeer id { p with binding := { p.binding with answerVerified := true } }
    let t := t.call (.setRemoteDescription id (answerSdp msg))
    if usable then t else abort t id

def handleIce (id : QString) (p : Peer) (msg : QJsonObject) : Tunnel :=
  if p.binding.answerVerified = false then t
  else
    t.call (.addRemoteCandidate id (msg.value "candidate").toString (msg.value "mid").toString)

def onSignal (id : QString) (payload : QJsonObject) (nonce : QByteArray)
    (usable : Bool) : Tunnel :=
  match t.peers id with
  | none => t
  | some p =>
      let type := (payload.value "type").toString
      if type = qs "hello" then handleHello C t id p payload nonce
      else if type = qs "sdp" then handleAnswer C t id p payload usable
      else if type = qs "ice" then handleIce t id p payload
      else t

/-- What reaches the main thread. An event carries what the environment answers
while it is handled. -/
inductive Event
  | settingsChanged (s : Settings)
  | gatewayReady
  | gatewayMissing (binds : Binds)
  | claimGranted (port : UInt16) (binds : Binds)
  | claimRefused (binds : Binds)
  | portLost (port : UInt16)
  | sessionOpened (id : QString) (enabled : Bool) (gateway : GatewayState) (binds : Binds)
  | claimWaitOver (id : QString) (binds : Binds)
  | sessionClosed (id : QString)
  | connectionEnded (id : QString)
  | localDescription (id text : QString) (nonce : QByteArray)
  | signal (id : QString) (payload : QJsonObject) (nonce : QByteArray) (usable : Bool)

/-- A claim is answered while one is in flight, the port granted is a real one,
and a port is lost while it is held. -/
def handle (event : Event) : Option Tunnel :=
  let t := { t with calls := [] }
  match event with
  | .settingsChanged s => some { t with settings := s }
  | .gatewayReady => some (onGatewayReady t)
  | .gatewayMissing binds => some (giveUpWaiting binds t)
  | .claimGranted port binds =>
      if t.inFlight > 0 ∧ port ≠ 0 then some (claimGranted binds t port) else none
  | .claimRefused binds => if t.inFlight > 0 then some (claimRefused binds t) else none
  | .portLost port => if port ∈ t.held then some (onPortLost t port) else none
  | .sessionOpened id enabled gateway binds =>
      some (onSessionOpened binds enabled gateway t id)
  | .claimWaitOver id binds => some (startWaiting binds t id)
  | .sessionClosed id => some (dropPeer t id)
  | .connectionEnded id => some (endSession t id)
  | .localDescription id text nonce => some (onLocalDescription C t id text nonce)
  | .signal id payload nonce usable => some (onSignal C t id payload nonce usable)

end

end MoonlightWeb.Server.ControlTunnel
