import MoonlightWeb.Lib.Run
import MoonlightWeb.Qt.QString

/-! # The GameStream pairing handshake

`NvPairingManager` as `PairingChain::run` drives it: stage 1 fetches the
server's certificate, `completePairing` runs stages 2 to 5. Each stage sends
one request and leaves a continuation for its answer; what a continuation does
is a list of effects, and an exception keeps the effects made before it. The
hash, the cipher, the signatures and the XML reader are parameters. A read
past a buffer's end finds what the memory holds there.
-/

namespace MoonlightWeb.Backend.NvPairingManager

open Lib Qt

structure Platform where
  sha256 : QByteArray → QByteArray
  sha1 : QByteArray → QByteArray
  encrypt : QByteArray → QByteArray → QByteArray
  decrypt : QByteArray → QByteArray → QByteArray
  verifySignature : QByteArray → QByteArray → QByteArray → Bool
  signatureFromPemCert : QByteArray → QByteArray
  signMessage : QByteArray → QByteArray
  /-- `getSignatureFromCert(m_Cert)`. -/
  ownSignature : QByteArray
  certPem : QByteArray
  serverMajorVersion : Int
  root : QString → Option (Int × QString)
  /-- The start elements, in order, with their texts. -/
  elements : QString → List (QString × QString)

variable (p : Platform)

variable (data : QByteArray)

def Platform.hash : QByteArray :=
  if p.serverMajorVersion ≥ 7 then p.sha256 data else p.sha1 data

def Platform.hashLength : Nat := if p.serverMajorVersion ≥ 7 then 32 else 20

/-- The 16 bytes of the key that `completePairing` derives. -/
def Platform.aesKey (salt : QByteArray) (pin : QString) : QByteArray :=
  (p.hash (salt ++ QString.toUtf8 pin)).take 16

/-- `NvHTTP::verifyResponseStatus`: the exception it throws, if any. -/
def Platform.verifyResponseStatus (xml : QString) : Option QString :=
  match p.root xml with
  | none => none
  | some (status, message) =>
      if status = 200 then none
      else
        let status := if message = qs "Invalid" ∧ status = -1 then 418 else status
        some (qs ("HTTP " ++ toString status ++ ": ") ++ message)

/-- `NvHTTP::getXmlString`. -/
def Platform.xmlString (xml tagName : QString) : QString :=
  match (p.elements xml).find? fun element => element.1 = tagName with
  | none => []
  | some element => element.2

def hexDigit (b : UInt8) : Option UInt8 :=
  if 48 ≤ b ∧ b ≤ 57 then some (b - 48)
  else if 65 ≤ b ∧ b ≤ 70 then some (b - 55)
  else if 97 ≤ b ∧ b ≤ 102 then some (b - 87)
  else none

/-- Digits from the last to the first, two a byte. -/
def hexBytes : List UInt8 → QByteArray
  | [] => []
  | [low] => [low]
  | low :: high :: rest => (high * 16 + low) :: hexBytes rest

/-- `QByteArray::fromHex`, which skips what is no digit. -/
def fromHex (text : QByteArray) : QByteArray := (hexBytes (text.reverse.filterMap hexDigit)).reverse

def Platform.xmlStringFromHex (xml tagName : QString) : QByteArray :=
  fromHex (QString.toUtf8 (p.xmlString xml tagName))

/-- `count` bytes from `first` on, at a buffer's address: past its end, memory. -/
def read (memory : Nat → UInt8) (first count : Nat) : QByteArray :=
  (List.range' first count).map fun i => data.getD i (memory i)

/-- `QByteArray::resize(32)`; what it adds is not initialised. -/
def resize32 (memory : Nat → UInt8) : QByteArray := read data memory 0 32

inductive PairState
  | paired
  | pinWrong
  | failed
  | alreadyInProgress
deriving DecidableEq, Repr

inductive InitResult
  | ok
  | failed
  | alreadyInProgress
deriving DecidableEq, Repr

inductive Request
  | getServerCert (salt clientCert : QByteArray)
  | clientChallenge (encryptedChallenge : QByteArray)
  | serverChallengeResp (encryptedHash : QByteArray)
  | clientPairingSecret (clientPairingSecret : QByteArray)
  | pairChallenge
  | unpair
deriving DecidableEq, Repr

/-- The continuations of `completePairing`, stages 2 to 5, with what they captured. -/
inductive Stage
  | challenge (aesKey randomChallenge : QByteArray)
  | response (randomChallenge clientSecretData serverResponse : QByteArray)
  | secret
  | pairChallenge
deriving DecidableEq, Repr

/-- A request in flight: stage 1, with the PIN of its chain, or a later stage. -/
inductive Waiting
  | certificate (pin : QString)
  | stage (s : Stage)
deriving DecidableEq, Repr

/-- What `openConnection` hands to the continuation, and the memory beyond the
buffers made of it. -/
structure Answer where
  body : QString
  error : QString
  memory : Nat → UInt8

inductive Effect
  | unpair
  | report (state : PairState) (serverCertPem : QByteArray)
  | request (r : Request) (next : Stage)
  | reads (size upTo : Nat)

/-- What a `try` block did, and the exception that ended it, if any. -/
abbrev Body := List Effect × Option QString

/-- `try { body } catch (const std::exception& e) { onError(e.what()) }` -/
def attempt (body : Body) (onError : QString → List Effect) : List Effect :=
  match body with
  | (effects, none) => effects
  | (effects, some why) => effects ++ onError why

/-- The rest of a `try` block that begins with `verifyResponseStatus`. -/
def Platform.verified (xml : QString) (rest : Body) : Body :=
  match p.verifyResponseStatus xml with
  | some why => ([], some why)
  | none => rest

variable (serverCertPem : QByteArray)

/-- The `assumePaired` lambda; its argument is only logged. -/
def assumePaired (_ : QString) : List Effect :=
  [.report .paired serverCertPem]

def Platform.paired (xml : QString) : Bool := p.xmlString xml (qs "paired") = qs "1"

/-- The continuation of stage 2. -/
def Platform.stage2 (serverCertPem aesKey randomChallenge clientSecretData : QByteArray)
    (a : Answer) : List Effect :=
  if a.error ≠ [] then assumePaired serverCertPem a.error
  else
    attempt
      (p.verified a.body
        (if !p.paired a.body then ([.report .pinWrong []], none)
        else
          let data := p.decrypt (p.xmlStringFromHex a.body (qs "challengeresponse")) aesKey
          let serverResponse := read data a.memory 0 p.hashLength
          let challengeResponse :=
            read data a.memory p.hashLength 16 ++ p.ownSignature ++ clientSecretData
          let paddedHash := resize32 (p.hash challengeResponse) a.memory
          ([.reads data.length (p.hashLength + 16),
            .request (.serverChallengeResp (p.encrypt paddedHash aesKey))
              (.response randomChallenge clientSecretData serverResponse)], none)))
      (assumePaired serverCertPem)

/-- The continuation of stage 3. -/
def Platform.stage3 (serverCertPem randomChallenge clientSecretData serverResponse : QByteArray)
    (a : Answer) : List Effect :=
  if a.error ≠ [] then assumePaired serverCertPem a.error
  else
    attempt
      (p.verified a.body
        (if !p.paired a.body then ([.report .pinWrong []], none)
        else
          let pairingSecret := p.xmlStringFromHex a.body (qs "pairingsecret")
          let serverSecret := pairingSecret.take 16
          let serverSignature := pairingSecret.drop 16
          if !p.verifySignature serverSecret serverSignature serverCertPem then
            ([.unpair, .report .failed []], none)
          else if p.hash (randomChallenge ++ p.signatureFromPemCert serverCertPem ++ serverSecret) ≠
              serverResponse then
            ([.unpair, .report .pinWrong []], none)
          else
            ([.request (.clientPairingSecret (clientSecretData ++ p.signMessage clientSecretData))
              .secret], none)))
      (assumePaired serverCertPem)

/-- The continuation of stage 4. -/
def Platform.stage4 (a : Answer) : List Effect :=
  if a.error ≠ [] then assumePaired serverCertPem a.error
  else
    attempt
      (p.verified a.body
        (if !p.paired a.body then ([.unpair, .report .failed []], none)
        else ([.request .pairChallenge .pairChallenge], none)))
      (assumePaired serverCertPem)

/-- The continuation of stage 5: a host that said nothing stands by its pairing,
one that refuses does not. -/
def Platform.stage5 (a : Answer) : List Effect :=
  if a.error ≠ [] then [.report .paired serverCertPem]
  else
    let refusal :=
      match p.verifyResponseStatus a.body with
      | some why => why
      | none => if !p.paired a.body then qs "paired != 1" else []
    if refusal ≠ [] then [.report .failed []] else [.report .paired serverCertPem]

def Platform.proceed (serverCertPem random : QByteArray) (a : Answer) : Stage → List Effect
  | .challenge aesKey randomChallenge => p.stage2 serverCertPem aesKey randomChallenge random a
  | .response randomChallenge clientSecretData serverResponse =>
      p.stage3 serverCertPem randomChallenge clientSecretData serverResponse a
  | .secret => p.stage4 serverCertPem a
  | .pairChallenge => p.stage5 serverCertPem a

/-- One call of `completePairing`: what it was given and what it was answered. -/
structure Attempt where
  number : Nat
  pin : QString
  salt : QByteArray
  challenge : QByteArray
  answers : List Answer

inductive Entry
  | initiated (result : InitResult)
  | sent (r : Request)
  | reads (size upTo : Nat)
  | reported (state : PairState) (serverCertPem : QByteArray) (attempt : Attempt)

structure Manager where
  salt : QByteArray
  serverCertPem : QByteArray
  stage1Done : Bool

/-- The manager, its requests in flight, and the log; `current` is the latest
call of `completePairing`, `calls` their number. -/
structure World extends Manager where
  waiting : List Waiting
  current : Attempt
  calls : Nat
  log : List Entry

def World.perform (w : World) : Effect → World
  | .unpair => { w with log := w.log ++ [.sent .unpair] }
  | .report state cert => { w with log := w.log ++ [.reported state cert w.current] }
  | .request r next =>
      { w with waiting := w.waiting ++ [.stage next], log := w.log ++ [.sent r] }
  | .reads size upTo => { w with log := w.log ++ [.reads size upTo] }

def World.performAll (w : World) (effects : List Effect) : World := effects.foldl World.perform w

def World.completePairing (p : Platform) (w : World) (pin : QString) (randomChallenge : QByteArray) :
    World :=
  let aesKey := p.aesKey w.salt pin
  { w with
    current := ⟨w.calls, pin, w.salt, randomChallenge, []⟩, calls := w.calls + 1,
    waiting := w.waiting ++ [.stage (.challenge aesKey randomChallenge)],
    log := w.log ++ [.sent (.clientChallenge (p.encrypt randomChallenge aesKey))] }

/-- The callback `PairingChain::run` gives to `initiatePairing`. -/
def World.initiated (p : Platform) (w : World) (pin : QString) (random : QByteArray)
    (result : InitResult) : World :=
  let w := { w with log := w.log ++ [.initiated result] }
  match result with
  | .ok => w.completePairing p pin random
  | _ => w

/-- `initiatePairing`, as `PairingChain::run` calls it; `random` are the bytes
generated next. -/
def World.run (p : Platform) (w : World) (pin : QString) (random : QByteArray) : World :=
  if w.stage1Done then w.initiated p pin random .ok
  else
    { w with
      salt := random, waiting := w.waiting ++ [.certificate pin],
      log := w.log ++ [.sent (.getServerCert random p.certPem)] }

/-- The continuation of stage 1. -/
def World.stage1 (p : Platform) (w : World) (pin : QString) (a : Answer) (random : QByteArray) :
    World :=
  if a.error ≠ [] then w.initiated p pin random .failed
  else
    match p.verifyResponseStatus a.body with
    | some _ => w.initiated p pin random .failed
    | none =>
        if !p.paired a.body then w.initiated p pin random .failed
        else
          let plainCert := p.xmlStringFromHex a.body (qs "plaincert")
          if plainCert = [] then (w.perform .unpair).initiated p pin random .alreadyInProgress
          else
            { w with serverCertPem := plainCert, stage1Done := true }.initiated p pin random .ok

/-- The answer to the oldest request in flight. -/
def World.answer (p : Platform) (w : World) (a : Answer) (random : QByteArray) : Option World :=
  match w.waiting with
  | [] => none
  | .certificate pin :: rest => some ({ w with waiting := rest }.stage1 p pin a random)
  | .stage s :: rest =>
      let w := { w with
        waiting := rest, current := { w.current with answers := w.current.answers ++ [a] } }
      some (w.performAll (p.proceed w.serverCertPem random a s))

/-- `run` is a turn of `PairingChain::run`, one chain at a time; `answered` is
the host's or a middleman's answer, or the error of the transport. -/
inductive Event
  | run (pin : QString) (random : QByteArray)
  | answered (a : Answer) (random : QByteArray)

def move (p : Platform) (w : World) : Event → Option World
  | .run pin random => if w.waiting = [] then some (w.run p pin random) else none
  | .answered a random => w.answer p a random

def start : World where
  salt := []
  serverCertPem := []
  stage1Done := false
  waiting := []
  current := ⟨0, [], [], [], []⟩
  calls := 0
  log := []

end MoonlightWeb.Backend.NvPairingManager
