import MoonlightWeb.Server.TunnelFrame
import MoonlightWeb.Js.Text

/-! # Requests over the control channel

`ControlTunnel::handleRequestFrame` and `sendResponse`: which requests of a page
reach the HTTP server, and the frames an answer goes out in.
-/

namespace MoonlightWeb.Server.TunnelRequests

open Lib Qt Js Server.TunnelFrame

/-- `kMaxInFlightRequests`. -/
def maxInFlightRequests : Int := 24

/-- The objects at the head of the frames: method, target and headers of a
request, status and headers of a response. -/
inductive Head
  | request (m p : QString) (h : List (QString × QString))
  | response (s : Int) (h : List (QString × QString))
  deriving DecidableEq

namespace Head

/-- `head.value("p").toString()`. -/
def p : Head → QString
  | .request _ target _ => target
  | .response _ _ => []

/-- `head.value("h").toObject()`. -/
def h : Head → List (QString × QString)
  | .request _ _ headers => headers
  | .response _ headers => headers

end Head

structure HttpResponse where
  statusCode : Int
  contentType : QString
  headers : List (QString × QString)
  body : QByteArray

/-- `HttpResponse::error`. -/
def HttpResponse.error (status : Int) (message : QString) : HttpResponse where
  statusCode := status
  contentType := qs "application/json"
  headers := []
  body := QString.toUtf8 (qs "\x7b\"error\":\"" ++ message ++ qs "\",\"status\":" ++
    qs (toString status) ++ qs "\x7d")

/-- `QJsonObject::insert`: the members stay in the order of their names. -/
def insertMember (members : List (QString × QString)) (member : QString × QString) :
    List (QString × QString) :=
  match members with
  | [] => [member]
  | first :: rest =>
      if member.1 = first.1 then member :: rest
      else if member.1 < first.1 then member :: first :: rest
      else first :: insertMember rest member

section

variable (securityHeaders : QString → List (QString × QString))

def responseHeaders (response : HttpResponse) (hostHeader : QString) : List (QString × QString) :=
  let headers := (securityHeaders hostHeader).foldl insertMember []
  let headers :=
    if response.contentType = [] then headers
    else insertMember headers (qs "Content-Type", response.contentType)
  response.headers.foldl insertMember headers

/-- The pieces a body is sent in. -/
def bodyChunks (body : QByteArray) : List QByteArray :=
  (List.range ((body.length + chunkBytes - 1) / chunkBytes)).map fun i =>
    body.mid ((i * chunkBytes : Nat) : Int) (chunkBytes : Int)

variable {Value : Type} (json : Json Head Value)

/-- The kinds and payloads of the frames `sendResponse` sends. -/
def responseFrames (response : HttpResponse) (hostHeader : QString) :
    List (UInt8 × QByteArray) :=
  let head := encodeHead json
    (.response response.statusCode (responseHeaders securityHeaders response hostHeader)) []
  (kindResponse, head) :: (bodyChunks response.body).map (fun chunk => (kindBody, chunk)) ++
    [(kindEnd, [])]

end

/-- A target split by `QUrl`: its path, and what follows. -/
structure Target where
  path : QString
  query : QString

structure Serving where
  id : UInt32
  head : Head
  target : Target
  body : QByteArray
  hostHeader : QString

/-- What becomes of a request frame. -/
inductive Handled
  | refused (response : HttpResponse)
  | ignored
  | accepted (serving : Serving)

section

variable {Value : Type} (json : Json Head Value) (beyond : Nat → UInt8)
variable (url : QString → Option Target) (toLower : QString → QString)

/-- The `host` header of a request, under its lower-case name. -/
def hostHeader (head : Head) : QString :=
  match head.h.reverse.find? fun member => toLower member.1 = qs "host" with
  | some member => member.2
  | none => []

def handleRequestFrame (inFlight : Int) (id : UInt32) (payload : QByteArray) : Handled :=
  if payload.length > maxRequestBytes then .refused (.error 413 (qs "Payload Too Large"))
  else if inFlight ≥ maxInFlightRequests then .refused (.error 429 (qs "Too Many Requests"))
  else
    match decodeHead beyond json payload with
    | none => .ignored
    | some (head, body) =>
        match url head.p with
        | none => .refused (.error 400 (qs "Bad Request"))
        | some target =>
            if target.path.head? ≠ some (unit '/') then .refused (.error 400 (qs "Bad Request"))
            else .accepted ⟨id, head, target, body, hostHeader toLower head⟩

end

theorem bodyChunks_flatten (body : QByteArray) : (bodyChunks body).flatten = body := by
  have hcut : ∀ i : Nat, body.mid ((i * chunkBytes : Nat) : Int) (chunkBytes : Int) =
      (body.drop (i * chunkBytes)).take chunkBytes := fun i => mid_within body _ _
  rw [bodyChunks, ← List.flatMap_def]
  simp only [hcut]
  rw [Bytes.flatMap_slices, List.take_of_length_le]
  unfold chunkBytes
  omega

theorem handleRequestFrame_accepted {Value : Type} {json : Json Head Value} {beyond : Nat → UInt8}
    {url : QString → Option Target} {toLower : QString → QString} {inFlight : Int} {id : UInt32}
    {payload : QByteArray} {serving : Serving}
    (h : handleRequestFrame json beyond url toLower inFlight id payload = .accepted serving) :
    serving.id = id ∧ inFlight < maxInFlightRequests := by
  unfold handleRequestFrame at h
  split_ifs at h with hsize hlimit
  · split at h
    · exact absurd h (by simp)
    · split at h
      · exact absurd h (by simp)
      · split_ifs at h with hpath
        cases h
        exact ⟨rfl, by omega⟩

end MoonlightWeb.Server.TunnelRequests
