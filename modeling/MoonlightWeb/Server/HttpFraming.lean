import MoonlightWeb.Server.HttpParser
import MoonlightWeb.Lib.Run

/-! # The framing of requests

`HttpServer::onReadyReadSocket` collects what a client sends, looks for the end of the
headers, reads the length of the body off the header lines in its own way, and hands
the request to the parser once it is complete. Sizes stay below the range of an `int`;
the checks of a WebSocket upgrade beyond the target are a parameter.
-/

namespace MoonlightWeb.Server

open Qt Lib Js

/-- `MAX_HEADER_BYTES`. -/
def maxHeaderBytes : Nat := 32 * 1024

/-- `MAX_BODY_BYTES`. -/
def maxBodyBytes : Nat := 8 * 1024 * 1024

def isDigit (u : UInt16) : Bool := unit '0' ≤ u && u ≤ unit '9'

def decimal (digits : QString) : Nat :=
  digits.foldl (fun v u => v * 10 + (u.toNat - (unit '0').toNat)) 0

/-- `QString::toInt`: the number in a text that is one, signs and all, and zero in any other
text and beyond the range of an `int`. -/
def toInt (s : QString) : Int :=
  let text := QString.trimmed s
  let negative := text.head? = some (unit '-') ∨ text.head? = some 0x2212
  let digits := if negative ∨ text.head? = some (unit '+') then text.tail else text
  if digits = [] ∨ ¬ digits.all isDigit then 0
  else
    let v : Int := if negative then -decimal digits else decimal digits
    if -2147483648 ≤ v ∧ v ≤ 2147483647 then v else 0

structure Framing where
  contentLength : Int
  haveContentLength : Bool
  haveTransferEncoding : Bool

def Framing.read (f : Framing) (line : QString) : Framing :=
  if !f.haveContentLength && QString.startsWithFolded line (qs "Content-Length:") then
    { f with
      contentLength := toInt (QString.trimmed (line.drop 15))
      haveContentLength := true }
  else if QString.startsWithFolded line (qs "Transfer-Encoding:") then
    let coding := QString.trimmed (line.drop (line.idxOf (unit ':') + 1))
    if !QString.equalsFolded coding (qs "identity") then { f with haveTransferEncoding := true }
    else f
  else f

def framing (head : QString) : Framing :=
  (QString.textLines head).foldl Framing.read ⟨0, false, false⟩

/-- The length of the body, or the status of the refusal. -/
def frame (head : QString) : Except Nat Nat :=
  let f := framing head
  let method := QString.toUpperAscii (QString.trimmed (head.takeWhile (· ≠ unit ' ')))
  let bodyExpected := method ≠ qs "GET" ∧ method ≠ qs "HEAD"
  if f.haveTransferEncoding ∧ f.haveContentLength then .error 400
  else if f.haveTransferEncoding ∧ bodyExpected then .error 501
  else if f.contentLength < 0 ∨ f.contentLength > maxBodyBytes then .error 413
  else .ok f.contentLength.toNat

/-- Why `handleWebSocketUpgrade` refuses an upgrade with a sound target. -/
inductive UpgradeRefusal
  | crossSite
  | unconfiguredSlot
  | unauthenticated

def UpgradeRefusal.status : UpgradeRefusal → Nat
  | .crossSite => 403
  | .unconfiguredSlot => 404
  | .unauthenticated => 401

/-- One listener and what it knows of its peer. `upgradeRefusal` stands for the origin, slot
and session checks, which read the path and the headers. -/
structure HttpListener where
  platform : Platform
  secure : Bool
  activeHttpsPort : Nat
  peerLocal : Bool
  isLanHost : QString → Bool
  upgradeRefusal : QString → QHash QString QString → Option UpgradeRefusal

/-- What becomes of the bytes of a request: it is handed to `serveRequest`, redirected to
HTTPS, refused with a status, or proxied to the signaling server. -/
inductive Outcome
  | served (raw : QByteArray) (req : HttpRequest)
  | redirected (raw : QByteArray) (req : HttpRequest)
  | refused (status : Nat)
  | proxied

namespace HttpListener

variable (server : HttpListener)

/-- `host` up to its last colon. -/
def hostname (host : QString) : QString :=
  if unit ':' ∈ host then ((host.reverse.dropWhile (· ≠ unit ':')).drop 1).reverse else host

def redirects (req : HttpRequest) : Bool :=
  let name := hostname ((req.headers.get (qs "host")).getD [])
  let isLoopbackHost := QString.equalsFolded name (qs "localhost") || name = qs "127.0.0.1" ||
    name = qs "::1" || name = qs "[::1]"
  !server.secure && 0 < server.activeHttpsPort &&
    !((server.peerLocal && !server.isLanHost name) || isLoopbackHost)

def processRequest (requestData : QByteArray) : Outcome :=
  let req := HttpParser.parse server.platform requestData
  if req.malformed then .refused 400
  else if server.redirects req then .redirected requestData req
  else .served requestData req

/-- `headerPart.contains("Upgrade: websocket", Qt::CaseInsensitive)`. -/
def isUpgrade (head : QString) : Bool :=
  (indexOf ((qs "Upgrade: websocket").map QString.fold) (head.map QString.fold)).isSome

def handleWebSocketUpgrade (requestData : QByteArray) : Outcome :=
  let up := HttpParser.parse server.platform requestData
  if up.malformed then .refused 400
  else
    let firstLine := QString.fromUtf8 ((QString.byteLines requestData).headD [])
    let path := (firstLine.splitOnP (· = unit ' ')).getD 1 []
    match server.upgradeRefusal path up.headers with
    | some refusal => .refused refusal.status
    | none => .proxied

/-- What `onReadyReadSocket` leaves of the buffer, and what became of the bytes. -/
def onReadyRead (buffer : QByteArray) : QByteArray × Option Outcome :=
  match indexOf HttpParser.blankLine buffer with
  | none => (buffer, if buffer.length > maxHeaderBytes then some (.refused 431) else none)
  | some headerEnd =>
      let head := QString.fromUtf8 (buffer.take headerEnd)
      if isUpgrade head then (buffer, some (server.handleWebSocketUpgrade buffer))
      else
        match frame head with
        | .error status => (buffer, some (.refused status))
        | .ok contentLength =>
            let totalSize := headerEnd + 4 + contentLength
            if buffer.length < totalSize then (buffer, none)
            else (buffer.drop totalSize, some (server.processRequest (buffer.take totalSize)))

end HttpListener

/-- `reading` ends when an answer is sent or the socket is handed on; `pending` is the
request whose answer is still to come. -/
structure HttpConnection where
  buffer : QByteArray
  reading : Bool
  pending : Bool
  outcomes : List Outcome

def Outcome.isServed : Outcome → Bool
  | .served _ _ => true
  | _ => false

inductive HttpEvent
  | read (chunk : QByteArray)
  | respond

namespace HttpConnection

def start : HttpConnection := ⟨[], true, false, []⟩

/-- Data that arrives after the answer is not read; an answer closes the connection. -/
def receive (server : HttpListener) (c : HttpConnection) : HttpEvent → HttpConnection
  | .read chunk =>
      if c.reading then
        match server.onReadyRead (c.buffer ++ chunk) with
        | (rest, none) => { c with buffer := rest }
        | (rest, some outcome) =>
            { buffer := rest
              reading := outcome.isServed
              pending := c.pending || outcome.isServed
              outcomes := c.outcomes ++ [outcome] }
      else c
  | .respond => if c.pending then { c with reading := false, pending := false } else c

/-- The bytes of the reads, in order. -/
def stream (events : List HttpEvent) : QByteArray :=
  events.flatMap fun
    | .read chunk => chunk
    | .respond => []

def run (server : HttpListener) (events : List HttpEvent) : HttpConnection :=
  events.foldl (receive server) start

end HttpConnection

end MoonlightWeb.Server
