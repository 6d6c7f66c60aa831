import MoonlightWeb.Bootstrap.Pairing

/-! # The application page's half of the binding

`frontend/js/util/pairingCrypto.js`: the application's copies of the bootstrap
page's builder and extractor, and its own checks.
-/

namespace MoonlightWeb.Frontend.PairingCrypto

open Js Qt
open Bootstrap.Pairing (Field Record Identity Offer)

/-- `PROTOCOL`. -/
def protocol : String := "MW-BIND-v1"

def buildSignedMessage (fields : List Field) : List UInt8 :=
  Bootstrap.Pairing.buildSignedMessage fields

def hostDigestInput (hostId browserKeyId : JsString) (nonceB : List UInt8)
    (fingerprintHost : JsString) : List UInt8 :=
  buildSignedMessage [.text (qs (protocol ++ "|host")), .text hostId, .text browserKeyId,
    .bytes nonceB, .text fingerprintHost]

def browserDigestInput (hostId : JsString) (nonceH : List UInt8)
    (fingerprintHost fingerprintBrowser : JsString) : List UInt8 :=
  buildSignedMessage [.text (qs (protocol ++ "|browser")), .text hostId, .bytes nonceH,
    .text fingerprintHost, .text fingerprintBrowser]

def extractFingerprint (sdp : JsString) : Option JsString :=
  Bootstrap.Pairing.extractFingerprint sdp

/-- `recordId`; no host id at the host's own address. -/
def recordId (forHost : JsString) : JsString :=
  if forHost = [] then qs "mw-bind-v1" else qs "mw-bind-v1:" ++ forHost

/-- The checks of `verifyHostSignature` before the signature: the key to check it
with and the fingerprint. -/
def hostSignatureChecks (identity : Identity) (message : Offer) : Option (JsString × JsString) :=
  match identity.hostPublicKey with
  | none => none
  | some hostPublicKey =>
      if message.sig = [] ∨ message.nonce = [] then none
      else if identity.hostId ≠ none ∧ message.hostId ≠ [] ∧
          identity.hostId ≠ some message.hostId then none
      else (extractFingerprint message.sdp).map fun fingerprint => (hostPublicKey, fingerprint)

/-- What the signature covers; `none` when no nonce was drawn. -/
def hostSignatureDigest (identity : Identity) (message : Offer) (fingerprint : JsString) :
    Option (List UInt8) :=
  identity.nonceB.map fun nonceB =>
    hostDigestInput (if message.hostId = [] then identity.hostId.getD [] else message.hostId)
      identity.keyId nonceB fingerprint

/-- The record `rememberHostIdentity` writes, `none` when it refuses. -/
def rememberHostIdentity (record : Option Record) (hostPublicKey hostId : JsString) :
    Option Record :=
  if hostPublicKey = [] then none
  else
    match record with
    | none => none
    | some record =>
        if record.hostPublicKey ≠ none ∧ record.hostPublicKey ≠ some hostPublicKey then none
        else some { record with
          hostPublicKey := some hostPublicKey
          hostId := if hostId = [] then record.hostId else some hostId }

end MoonlightWeb.Frontend.PairingCrypto
