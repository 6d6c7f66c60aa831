import MoonlightWeb.Qt.QString

/-! # The fingerprint a session description commits to

`SdpFingerprint::extract`: one sha-256 value, repeated or not; anything weaker,
malformed or contradictory is refused with the empty string.
-/

namespace MoonlightWeb.Streaming.SdpFingerprint

open Qt

/-- `SHA256_BYTES`. -/
def sha256Bytes : Nat := 32

/-- `isxdigit(c.toLatin1())`. -/
def isHexDigit (u : UInt16) : Bool :=
  (unit '0' ≤ u && u ≤ unit '9') || (unit 'a' ≤ u && u ≤ unit 'f') ||
    (unit 'A' ≤ u && u ≤ unit 'F')

/-- `normalise`: uppercase hex, colon separated, or empty. -/
def normalise (value : QString) : QString :=
  let bytes := QString.splitSkipEmpty (· = unit ':') value
  if bytes.length ≠ sha256Bytes then []
  else if bytes.all fun b => b.length = 2 && b.all isHexDigit then
    [unit ':'].intercalate (bytes.map QString.toUpperAscii)
  else []

def lines (sdp : QString) : List QString :=
  QString.splitSkipEmpty (fun u => u = unit '\r' || u = unit '\n') sdp

/-- What one line says: nothing (`none`), or a value, empty when it is refused. -/
def lineValue (rawLine : QString) : Option QString :=
  let line := QString.trimmed rawLine
  if !QString.startsWithFolded line (qs "a=fingerprint:") then none
  else
    let body := QString.trimmed (line.drop (qs "a=fingerprint:").length)
    let sep := body.idxOf (unit ' ')
    if sep = 0 ∨ sep = body.length then some []
    else if !QString.equalsFolded (QString.trimmed (body.take sep)) (qs "sha-256") then some []
    else some (normalise (QString.trimmed (body.drop (sep + 1))))

/-- The loop of `extract`; `found` is the value of the lines before. -/
def extractFrom (found : QString) : List QString → QString
  | [] => found
  | rawLine :: rest =>
      match lineValue rawLine with
      | none => extractFrom found rest
      | some value =>
          if value = [] then []
          else if found = [] then extractFrom value rest
          else if found = value then extractFrom found rest
          else []

def extract (sdp : QString) : QString := extractFrom [] (lines sdp)

end MoonlightWeb.Streaming.SdpFingerprint
