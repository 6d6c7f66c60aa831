import MoonlightWeb.Qt.Json
import MoonlightWeb.Common.PairingCrypto
import MoonlightWeb.Streaming.SdpFingerprint
import MoonlightWeb.Lib.Run
import MoonlightWeb.Lib.Delivery

/-! # The signaling of a stream

`SignalingServer` exchanges the session descriptions of a stream over one
WebSocket. With a paired browser key the offer waits for the browser's hello, the
local candidates wait behind the offer, and the answer's signature is verified
before the relay sees it. The text of a message is parsed outside; what is left
out is the media that the fallback sends over the same socket.
-/

namespace MoonlightWeb.Streaming

open Qt Lib
open Common.PairingCrypto

/-- What is fixed for the session: `setPairingIdentity` and the transport it may use. -/
structure SignalingSession where
  crypto : Crypto
  hostId : QString
  hostKeyPem : QByteArray
  browserSpki : QByteArray
  allowWsFallback : Bool
  hasShim : Bool

structure IceCandidate where
  candidate : QString
  mid : QString
deriving DecidableEq

/-- The members that sign an offer. The nonce and the signature go out in base64. -/
structure OfferSignature where
  hostId : QString
  nonce : QByteArray
  sig : QByteArray
deriving DecidableEq

structure Offer where
  sdp : QString
  signature : Option OfferSignature
deriving DecidableEq

/-- What the browser's "sdp" message carries. -/
structure Answer where
  sdp : QString
  sig : QByteArray
deriving DecidableEq

def Answer.ofMessage (msg : QJsonObject) : Answer where
  sdp := (msg.value "sdp").toString
  sig := QByteArray.fromBase64 (msg.value "sig").toString.toUtf8

inductive MessageType
  | hello
  | sdp
  | ice
  | fallbackWsRequest
  | unknown
deriving DecidableEq

def MessageType.ofString (type : QString) : MessageType :=
  if type = qs "hello" then .hello
  else if type = qs "sdp" then .sdp
  else if type = qs "ice" then .ice
  else if type = qs "fallback-ws-request" then .fallbackWsRequest
  else .unknown

def messageType (msg : QJsonObject) : MessageType :=
  MessageType.ofString (msg.value "type").toString

/-- What the server draws, sends, asks of the relay and signals. -/
inductive Effect
  | nonceDrawn (nonce : QByteArray)
  | offer (o : Offer)
  | ice (c : IceCandidate)
  | fallbackNotice
  | setRemoteDescription (a : Answer)
  | addRemoteCandidate (c : IceCandidate)
  | relayStopped
  | sessionEnded
  | clientDisconnected
deriving DecidableEq

/-- `wsOpen` says that there is a client and its socket is valid; `helloTimers`
counts the single shots not fired yet. -/
structure SignalingServer where
  wsOpen : Bool
  helloReceived : Bool
  nonceBrowser : QByteArray
  nonceHost : QByteArray
  localFingerprint : QString
  pendingOffer : QString
  pendingCandidates : List IceCandidate
  helloTimers : Nat
  wsFallbackActive : Bool
  signalingComplete : Bool
  dataChannelsOpen : Bool

namespace SignalingServer

variable (s : SignalingServer)

/-- The reset of `onNewWsConnection`, when there is no client yet. -/
def onNewWsConnection : SignalingServer :=
  { s with
    wsOpen := true
    helloReceived := false
    nonceBrowser := []
    nonceHost := []
    localFingerprint := []
    pendingOffer := []
    pendingCandidates := [] }

/-- A socket that is still valid is closed, and nothing more comes over it. -/
def abortSignaling : SignalingServer × List Effect :=
  ({ s with wsOpen := false }, [.sessionEnded])

def sendIceCandidate (c : IceCandidate) : List Effect :=
  if s.wsOpen then [.ice c] else []

/-- The end of `sendSignedOffer`: the offer, then what was gathered behind it. -/
def forwardOffer (signature : Option OfferSignature) :
    SignalingServer × List Effect :=
  ({ s with pendingOffer := [], pendingCandidates := [] },
    .offer ⟨s.pendingOffer, signature⟩ :: s.pendingCandidates.flatMap s.sendIceCandidate)

variable (d : SignalingSession)

/-- `draw` is what `generateNonce` returns, empty when there is no secure random. -/
def sendSignedOffer (s : SignalingServer) (draw : QByteArray) :
    SignalingServer × List Effect :=
  if s.pendingOffer = [] then (s, [])
  else if !s.wsOpen then (s, [])
  else if d.browserSpki = [] then s.forwardOffer none
  else
    let s := { s with nonceHost := draw }
    if draw = [] then s.abortSignaling
    else
      let toSign := hostDigestInput d.hostId (d.crypto.keyId d.browserSpki) s.nonceBrowser
        s.localFingerprint
      let sig := d.crypto.sign d.hostKeyPem toSign
      if sig = [] then s.abortSignaling
      else
        let (s, effects) := s.forwardOffer (some ⟨d.hostId, draw, sig⟩)
        (s, .nonceDrawn draw :: effects)

def onLocalSdp (s : SignalingServer) (sdp : QString) (draw : QByteArray) :
    SignalingServer × List Effect :=
  let s := { s with pendingOffer := sdp, localFingerprint := SdpFingerprint.extract sdp }
  if d.browserSpki ≠ [] ∧ s.localFingerprint = [] then s.abortSignaling
  else if d.browserSpki ≠ [] ∧ s.helloReceived = false then
    ({ s with helloTimers := s.helloTimers + 1 }, [])
  else s.sendSignedOffer d draw

def onLocalIceCandidate (c : IceCandidate) :
    SignalingServer × List Effect :=
  if !s.wsOpen then (s, [])
  else if s.pendingOffer ≠ [] then
    ({ s with pendingCandidates := s.pendingCandidates ++ [c] }, [])
  else (s, s.sendIceCandidate c)

/-- The single shot armed by `onLocalSdp`. -/
def onHelloTimeout : SignalingServer × List Effect :=
  let s := { s with helloTimers := s.helloTimers - 1 }
  if s.helloReceived ∨ s.pendingOffer = [] then (s, [])
  else if !s.wsOpen then (s, [])
  else s.abortSignaling

def onHello (s : SignalingServer) (msg : QJsonObject) (draw : QByteArray) :
    SignalingServer × List Effect :=
  if s.helloReceived then s.abortSignaling
  else if d.browserSpki ≠ [] ∧ (msg.value "key_id").toString ≠ d.crypto.keyId d.browserSpki then
    s.abortSignaling
  else
    let s := { s with nonceBrowser := QByteArray.fromBase64 (msg.value "nonce").toString.toUtf8 }
    if d.browserSpki ≠ [] ∧ s.nonceBrowser.length < minNonceBytes then s.abortSignaling
    else ({ s with helloReceived := true }).sendSignedOffer d draw

/-- `accepted` is what the relay's `setRemoteDescription` returns. -/
def setRemoteDescription (s : SignalingServer) (a : Answer) (accepted : Bool) :
    SignalingServer × List Effect :=
  ({ s with signalingComplete := s.signalingComplete || accepted }, [.setRemoteDescription a])

def onAnswer (s : SignalingServer) (a : Answer) (accepted : Bool) :
    SignalingServer × List Effect :=
  if d.browserSpki ≠ [] then
    let remoteFingerprint := SdpFingerprint.extract a.sdp
    if remoteFingerprint = [] then s.abortSignaling
    else if a.sig = [] then s.abortSignaling
    else
      let signed := browserDigestInput d.hostId s.nonceHost s.localFingerprint remoteFingerprint
      if !d.crypto.verify d.browserSpki signed a.sig then s.abortSignaling
      else s.setRemoteDescription a accepted
  else s.setRemoteDescription a accepted

def startWsFallback (s : SignalingServer) :
    SignalingServer × List Effect :=
  if !s.wsOpen || !d.hasShim then (s, [.sessionEnded])
  else
    ({ s with wsFallbackActive := true, dataChannelsOpen := true },
      [.relayStopped, .fallbackNotice])

/-- A text that is no JSON object is `none`. In the fallback the messages are input, which
goes to the engine. -/
def onWsTextMessage (s : SignalingServer) (message : Option QJsonObject)
    (draw : QByteArray) (accepted : Bool) : SignalingServer × List Effect :=
  match message with
  | none => (s, [])
  | some msg =>
      if s.wsFallbackActive then (s, [])
      else
        match messageType msg with
        | .hello => s.onHello d msg draw
        | .sdp => s.onAnswer d (Answer.ofMessage msg) accepted
        | .ice =>
            (s, [.addRemoteCandidate
              ⟨(msg.value "candidate").toString, (msg.value "mid").toString⟩])
        | .fallbackWsRequest =>
            if s.wsFallbackActive then (s, [])
            else if !d.allowWsFallback then (s, [])
            else s.startWsFallback d
        | .unknown => (s, [])

def onWsDisconnected : SignalingServer × List Effect :=
  ({ s with wsOpen := false, signalingComplete := false },
    .clientDisconnected ::
      if s.signalingComplete || s.dataChannelsOpen then [] else [.sessionEnded])

def onRelayIceTimedOut (s : SignalingServer) :
    SignalingServer × List Effect :=
  if s.wsFallbackActive then (s, [])
  else if !d.allowWsFallback then (s, [.sessionEnded])
  else s.startWsFallback d

def onDataChannelsOpen : SignalingServer × List Effect :=
  ({ s with dataChannelsOpen := true }, [])

end SignalingServer

/-- What the relay, the browser and the timer do, with the nonce drawn meanwhile. -/
inductive SignalingEvent
  | localSdp (sdp : QString) (draw : QByteArray)
  | localIceCandidate (c : IceCandidate)
  | textMessage (message : Option QJsonObject) (draw : QByteArray) (accepted : Bool)
  | helloTimeout
  | wsDisconnected
  | relayIceTimedOut
  | dataChannelsOpen

namespace SignalingEvent

def description : SignalingEvent → List QString
  | .localSdp sdp _ => [sdp]
  | _ => []

def candidate : SignalingEvent → List IceCandidate
  | .localIceCandidate c => [c]
  | _ => []

/-- A message comes over an open socket only, and a single shot fires once. -/
def handle (d : SignalingSession) (s : SignalingServer) :
    SignalingEvent → Option (SignalingServer × List Effect)
  | .localSdp sdp draw => some (s.onLocalSdp d sdp draw)
  | .localIceCandidate c => some (s.onLocalIceCandidate c)
  | .textMessage message draw accepted =>
      if s.wsOpen then some (s.onWsTextMessage d message draw accepted) else none
  | .helloTimeout => if 0 < s.helloTimers then some s.onHelloTimeout else none
  | .wsDisconnected => some s.onWsDisconnected
  | .relayIceTimedOut => some (s.onRelayIceTimedOut d)
  | .dataChannelsOpen => some s.onDataChannelsOpen

end SignalingEvent

/-- The server with the history of the connection: the local descriptions, the local
candidates and the effects, the last two with the number of descriptions by then. -/
structure SignalingConnection where
  server : SignalingServer
  descriptions : List QString
  candidates : List (Nat × IceCandidate)
  log : List (Nat × Effect)

namespace SignalingConnection

def start (s : SignalingServer) : SignalingConnection where
  server := s.onNewWsConnection
  descriptions := []
  candidates := []
  log := []

def record (c : SignalingConnection) (event : SignalingEvent) (server : SignalingServer)
    (effects : List Effect) : SignalingConnection :=
  let descriptions := c.descriptions ++ event.description
  { server := server
    descriptions := descriptions
    candidates := c.candidates ++ event.candidate.map (Prod.mk descriptions.length)
    log := c.log ++ effects.map (Prod.mk descriptions.length) }

def move (d : SignalingSession) (c : SignalingConnection) (event : SignalingEvent) :
    Option SignalingConnection :=
  match event.handle d c.server with
  | none => none
  | some (server, effects) => some (c.record event server effects)

end SignalingConnection

end MoonlightWeb.Streaming
