import MoonlightWeb.Js.Text

/-! # The bootstrap page's half of the binding

`bootstrap/v1/pairing.js`: the bytes that are signed, the fingerprint a session
description commits to, and what an offer must pass.
-/

namespace MoonlightWeb.Bootstrap.Pairing

open Js Lib Qt Bytes

/-- `PROTOCOL`. -/
def protocol : String := "MW-BIND-v1"

/-- A field as a caller gives it: text, encoded on the way in, or bytes. -/
inductive Field
  | text (s : JsString)
  | bytes (b : List UInt8)

def Field.part : Field → List UInt8
  | .text s => JsString.encode s
  | .bytes b => b

/-- The loop of `buildSignedMessage` over the parts left. -/
def writeParts (out : List UInt8) (offset : Nat) : List (List UInt8) → List UInt8
  | [] => out
  | p :: rest =>
      let out := setUint32 out offset p.length
      let offset := offset + 4
      let out := overwrite out offset p
      writeParts out (offset + p.length) rest

def buildSignedMessage (fields : List Field) : List UInt8 :=
  let parts := fields.map Field.part
  let total := parts.foldl (fun total p => total + (4 + p.length)) 0
  writeParts (List.replicate total 0) 0 parts

def hostDigestInput (hostId browserKeyId : JsString) (nonceB : List UInt8)
    (fingerprintHost : JsString) : List UInt8 :=
  buildSignedMessage [.text (qs (protocol ++ "|host")), .text hostId, .text browserKeyId,
    .bytes nonceB, .text fingerprintHost]

def browserDigestInput (hostId : JsString) (nonceH : List UInt8)
    (fingerprintHost fingerprintBrowser : JsString) : List UInt8 :=
  buildSignedMessage [.text (qs (protocol ++ "|browser")), .text hostId, .bytes nonceH,
    .text fingerprintHost, .text fingerprintBrowser]

theorem writeParts_eq (parts : List (List UInt8)) (done rest : List UInt8)
    (hroom : rest.length = (lengthPrefixed 4 parts).length) :
    writeParts (done ++ rest) done.length parts = done ++ lengthPrefixed 4 parts := by
  induction parts generalizing done rest with
  | nil =>
    have hnil : rest = [] := List.length_eq_zero_iff.mp (by simpa [lengthPrefixed] using hroom)
    simp [writeParts, hnil, lengthPrefixed]
  | cons p parts ih =>
    have hlength : (done ++ bigEndian 4 p.length).length = done.length + 4 := by simp
    have hwritten : (done ++ bigEndian 4 p.length ++ p).length =
        done.length + 4 + p.length := by
      simp only [List.length_append, bigEndian_length]
    have hleft : ((rest.drop 4).drop p.length).length =
        (lengthPrefixed 4 parts).length := by
      simp only [lengthPrefixed, List.flatMap_cons, List.length_append,
        bigEndian_length] at hroom
      simp only [List.length_drop, lengthPrefixed]
      omega
    rw [writeParts, setUint32, overwrite_next, bigEndian_length, ← hlength,
      overwrite_next, hlength, ← hwritten, ih _ _ hleft]
    simp [lengthPrefixed]

theorem buildSignedMessage_eq (fields : List Field) :
    buildSignedMessage fields = lengthPrefixed 4 (fields.map Field.part) := by
  have htotal : ∀ (parts : List (List UInt8)) (start : Nat),
      parts.foldl (fun total p => total + (4 + p.length)) start =
        start + (lengthPrefixed 4 parts).length := by
    intro parts
    induction parts with
    | nil => simp [lengthPrefixed]
    | cons p parts ih =>
      intro start
      rw [List.foldl_cons, ih]
      simp only [lengthPrefixed, List.flatMap_cons, List.length_append,
        bigEndian_length]
      omega
  have hfilled := writeParts_eq (fields.map Field.part) []
    (List.replicate (lengthPrefixed 4 (fields.map Field.part)).length 0) (by simp)
  unfold buildSignedMessage
  simpa [htotal] using hfilled

/-- `[0-9A-F]`. -/
def isUpperHex (u : UInt16) : Bool :=
  (unit '0' ≤ u && u ≤ unit '9') || (unit 'A' ≤ u && u ≤ unit 'F')

/-- `/^([0-9A-F]{2}:){n}[0-9A-F]{2}$/`. -/
def hexPairs : Nat → JsString → Bool
  | 0, [a, b] => isUpperHex a && isUpperHex b
  | n + 1, a :: b :: c :: rest => isUpperHex a && isUpperHex b && c = unit ':' && hexPairs n rest
  | _, _ => false

/-- What one line says: nothing (`none`), that the description is refused
(`some none`), or a value. -/
def lineValue (rawLine : JsString) : Option (Option JsString) :=
  let line := JsString.trim rawLine
  if !(qs "a=fingerprint:").isPrefixOf (JsString.toLowerCase line) then none
  else
    let body := JsString.trim (line.drop (qs "a=fingerprint:").length)
    let sep := body.idxOf (unit ' ')
    if sep = 0 ∨ sep = body.length then some none
    else if JsString.toLowerCase (body.take sep) ≠ qs "sha-256" then some none
    else
      let value := JsString.toUpperCase (JsString.trim (body.drop (sep + 1)))
      if hexPairs 31 value then some (some value) else some none

/-- The loop of `extractFingerprint`; `found` is the value of the lines before. -/
def extractFrom (found : Option JsString) : List JsString → Option JsString
  | [] => found
  | rawLine :: rest =>
      match lineValue rawLine with
      | none => extractFrom found rest
      | some none => none
      | some (some value) =>
          match found with
          | none => extractFrom (some value) rest
          | some f => if f ≠ value then none else extractFrom found rest

def extractFingerprint (sdp : JsString) : Option JsString :=
  if sdp = [] then none
  else extractFrom none (JsString.splitRuns (fun u => u = unit '\r' || u = unit '\n') sdp)

structure Record where
  keyId : JsString
  hostPublicKey : Option JsString
  hostId : Option JsString

/-- The identity a page holds, with the record it was loaded from. -/
structure Identity where
  recordId : JsString
  hostId : Option JsString
  keyId : JsString
  hostPublicKey : Option JsString
  nonceB : Option (List UInt8)

structure Offer where
  sig : JsString
  nonce : JsString
  hostKey : JsString
  hostId : JsString
  sdp : JsString

def recordId (hostId : JsString) : JsString := qs "mw-bind-v1:" ++ hostId

/-- The checks of `verifyOffer` before the signature: a reason to refuse, or
whether this is a first contact and the fingerprint. -/
def offerChecks (identity : Identity) (message : Offer) : Except String (Bool × JsString) :=
  if message.sig = [] ∨ message.nonce = [] ∨ message.hostKey = [] then
    .error "the offer is not signed"
  else if some message.hostId ≠ identity.hostId then
    .error "the offer names a different host"
  else
    match extractFingerprint message.sdp with
    | none => .error "the offer does not commit to one sha-256 fingerprint"
    | some fingerprint =>
        if identity.hostPublicKey ≠ none ∧ identity.hostPublicKey ≠ some message.hostKey then
          .error "this host presented a different identity key than the one this browser paired with"
        else .ok (identity.hostPublicKey = none, fingerprint)

/-- What the offer's signature covers; `none` when no nonce was drawn. -/
def offerDigest (identity : Identity) (fingerprint : JsString) : Option (List UInt8) :=
  identity.nonceB.map fun nonceB =>
    hostDigestInput (identity.hostId.getD []) identity.keyId nonceB fingerprint

/-- The record `rememberHostKey` writes, `none` when it refuses. -/
def rememberHostKey (record : Option Record) (hostPublicKey : JsString) : Option Record :=
  match record with
  | none => none
  | some record =>
      if record.hostPublicKey ≠ none ∧ record.hostPublicKey ≠ some hostPublicKey then none
      else some { record with hostPublicKey := some hostPublicKey }

end MoonlightWeb.Bootstrap.Pairing
