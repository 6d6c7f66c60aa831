import MoonlightWeb.Bootstrap.TunnelCodec
import MoonlightWeb.Js.Maps
import MoonlightWeb.Server.TunnelRequests

/-! # Fetching over the control channel

`fetch`, `_onChannelMessage` and `_buildResponse` of `tunnel.js`: the requests
a page waits on, and what becomes of them as frames come in.
-/

namespace MoonlightWeb.Bootstrap.TunnelFetch

open Lib Qt Js Bootstrap.Tunnel
open Server.TunnelFrame (kindRequest kindResponse kindBody kindEnd build)
open Server.TunnelRequests (Head)

/-- The characters of a header name. -/
def isTokenUnit (u : UInt16) : Bool :=
  (unit 'a' ≤ u && u ≤ unit 'z') || (unit 'A' ≤ u && u ≤ unit 'Z') ||
    (unit '0' ≤ u && u ≤ unit '9') || u ∈ qs "!#$%&'*+-.^_`|~"

def isHttpSpace (u : UInt16) : Bool := u = 0x09 || u = 0x0A || u = 0x0D || u = 0x20

def lowerAscii (u : UInt16) : UInt16 := if unit 'A' ≤ u ∧ u ≤ unit 'Z' then u + 32 else u

/-- `Headers`, by lower-case name. -/
abbrev Headers := JsMap JsString JsString

/-- `headers.set(name, value)`; `none` when it throws. -/
def Headers.set (headers : Headers) (name value : JsString) : Option Headers :=
  let value := Lib.trim isHttpSpace value
  if name = [] ∨ ¬ name.all isTokenUnit ∨ value.any (fun u => u = 0 ∨ u = 0x0A ∨ u = 0x0D) ∨
      value.any (fun u => u > 0xFF) then none
  else some (JsMap.set headers (name.map lowerAscii) value)

structure Response where
  body : Option (List UInt8)
  status : Int
  headers : Headers

def nullBodyStatus : List Int := [101, 103, 204, 205, 304]

/-- `new Response(body, init)`; `none` when it throws. The status is an unsigned short. -/
def Response.new (body : Option (List UInt8)) (status : Int) (headers : Headers) :
    Option Response :=
  let status := status % 65536
  if status < 200 ∨ status > 599 then none
  else if body ≠ none ∧ status ∈ nullBodyStatus then none
  else some ⟨body, status, headers⟩

/-- `JSON.parse` of a response's head. -/
structure Reply where
  s : Int
  h : List (JsString × JsString)
  deriving DecidableEq

/-- A fetch without its answer; `timer` while the timeout is armed. -/
structure Waiter where
  head : Option Reply
  chunks : List (List UInt8)
  timer : Bool

/-- What a fetch came to. -/
inductive Outcome
  | resolved (response : Response)
  | rejected (message : String)

/-- The counter, the fetches waiting, the Set-Cookie values the jar was given,
and the fetches that came to something so far. -/
structure Page where
  nextId : Nat
  pending : JsMap Nat Waiter
  absorbed : List JsString
  settled : List (Nat × Outcome)

/-- One header of a response: Set-Cookie goes to the jar, what the guard refuses nowhere. -/
def readHeader (state : List JsString × Headers) (header : JsString × JsString) :
    List JsString × Headers :=
  if JsString.toLowerCase header.1 = qs "set-cookie" then (state.1 ++ [header.2], state.2)
  else (state.1, (Headers.set state.2 header.1 header.2).getD state.2)

/-- `_buildResponse`; the response is `none` when its constructor throws. -/
def buildResponse (waiter : Waiter) : List JsString × Option Response :=
  let head := waiter.head.getD ⟨502, []⟩
  let body := waiter.chunks.flatten
  let (cookies, headers) := head.h.foldl readHeader ([], JsMap.empty)
  let bodyless := head.s = 204 ∨ head.s = 304 ∨ head.s < 200
  (cookies, Response.new (if bodyless then none else some body) head.s headers)

section

variable (json : Server.TunnelFrame.Json Head Reply)

variable (page : Page)

/-- `_onChannelMessage`, as far as the fetches go. -/
def onChannelMessage (bytes : List UInt8) : Page :=
  match readFrame bytes with
  | none => page
  | some (kind, id, payload) =>
      if kind = kindResponse then
        match page.pending.get id with
        | none => page
        | some waiter =>
            match readHead json payload with
            | none => page
            | some head =>
                { page with
                  pending := page.pending.set id { waiter with head := some head, timer := false } }
      else if kind = kindBody then
        match page.pending.get id with
        | none => page
        | some waiter =>
            { page with
              pending := page.pending.set id { waiter with chunks := waiter.chunks ++ [payload] } }
      else if kind = kindEnd then
        match page.pending.get id with
        | none => page
        | some waiter =>
            let (cookies, response) := buildResponse waiter
            { page with
              pending := page.pending.delete id
              absorbed := page.absorbed ++ cookies
              settled :=
                match response with
                | none => page.settled
                | some response => page.settled ++ [(id, .resolved response)] }
      else page

def requestFrame (id : Nat) (head : Head) (body : List UInt8) : List UInt8 :=
  encodeFrame kindRequest id (encodeHead json head body)

/-- `fetch`, its frame taken by the channel or not. -/
def fetch (taken : Bool) : Page :=
  let id := page.nextId
  let pending := page.pending.set id ⟨none, [], true⟩
  if taken then { page with nextId := id + 1, pending }
  else
    { page with
      nextId := id + 1
      pending := pending.delete id
      settled := page.settled ++
        [(id, .rejected "the connection to your machine is not open")] }

def timeout (id : Nat) : Page :=
  { page with
    pending := page.pending.delete id
    settled := page.settled ++ [(id, .rejected "the host did not answer")] }

/-- `_teardown`. -/
def teardown (why : String) : Page :=
  { page with
    pending := JsMap.empty
    settled := page.settled ++ page.pending.entries.map fun entry => (entry.1, .rejected why) }

end

end MoonlightWeb.Bootstrap.TunnelFetch
