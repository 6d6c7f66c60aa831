import MoonlightWeb.Bootstrap.TunnelFetch
import MoonlightWeb.Lib.Run

/-! # Fetches and answers on one channel

A page, the host's side of its channel, and what is on its way between the two.
The HTTP server answers the requests it has in any order; on the way back the
frames of one answer keep their order, those of different answers need not.
-/

namespace MoonlightWeb.Bootstrap.TunnelExchange

open Lib Qt Js
open Bootstrap.TunnelFetch
open Server.TunnelFrame (kindRequest kindResponse kindBody kindEnd build Json)
open Server.TunnelRequests

/-- The two JSON libraries; a response's head whose text is well formed comes through. -/
structure HeadJson where
  codec : Json Head Reply
  object_response : ∀ s h, (∀ member ∈ h, JsString.isWellFormed member.1 = true ∧
    JsString.isWellFormed member.2 = true) → codec.object (.response s h) = ⟨s, h⟩

structure Asked where
  id : Nat
  head : Head
  body : List UInt8

structure Sent where
  id : UInt32
  kind : UInt8
  payload : QByteArray

structure Answer where
  id : UInt32
  response : HttpResponse
  hostHeader : QString

/-- A peer of the host while it is there, the requests the HTTP server has of
it, and the responses it was sent. -/
structure Host where
  present : Bool
  inFlight : Int
  serving : List Serving
  answered : List Answer

structure Exchange where
  page : Page
  host : Host
  toHost : List Asked
  toPage : List Sent

def start : Exchange where
  page := ⟨1, JsMap.empty, [], []⟩
  host := ⟨true, 0, [], []⟩
  toHost := []
  toPage := []

inductive Move
  /-- The page fetches; the channel takes the frame or does not. -/
  | fetch (head : Head) (body : List UInt8) (taken : Bool)
  /-- The page opens a socket, which takes an id from the same counter. -/
  | openSocket
  /-- The next request reaches the host. -/
  | request
  | answer (k : Nat) (response : HttpResponse)
  | socketFrame (id : UInt32) (kind : UInt8) (payload : QByteArray)
  /-- A frame reaches the page, the first of its id. -/
  | receive (k : Nat)
  | timeout (id : Nat)
  | teardown (why : String)
  | dropPeer

section

variable (securityHeaders : QString → List (QString × QString)) (json : HeadJson)
variable (beyond : Nat → UInt8) (url : QString → Option Target) (toLower : QString → QString)

variable (t : Exchange)

/-- `sendResponse`. -/
def sendResponse (answer : Answer) : Exchange :=
  { t with
    host := { t.host with answered := t.host.answered ++ [answer] }
    toPage := t.toPage ++
      (responseFrames securityHeaders json.codec answer.response answer.hostHeader).map
        fun frame => ⟨answer.id, frame.1, frame.2⟩ }

/-- `ControlTunnel::onChannelMessage`, as far as the requests go. -/
def hostReceives (message : QByteArray) : Exchange :=
  if t.host.present = false then t
  else
    match Server.TunnelFrame.parse beyond message with
    | none => t
    | some (kind, id, payload) =>
        if kind = kindRequest then
          match handleRequestFrame json.codec beyond url toLower t.host.inFlight id payload with
          | .refused response => sendResponse securityHeaders json t ⟨id, response, []⟩
          | .ignored => t
          | .accepted serving =>
              { t with
                host := { t.host with
                  inFlight := t.host.inFlight + 1
                  serving := t.host.serving ++ [serving] } }
        else t

/-- The callback of a request. -/
def hostAnswers (serving : Serving) (response : HttpResponse) : Exchange :=
  if t.host.present = false then t
  else
    sendResponse securityHeaders json
      { t with host := { t.host with inFlight := t.host.inFlight - 1 } }
      ⟨serving.id, response, serving.hostHeader⟩

def move : Move → Option Exchange
  | .fetch head body taken =>
      some { t with
        page := fetch t.page taken
        toHost := if taken then t.toHost ++ [⟨t.page.nextId, head, body⟩] else t.toHost }
  | .openSocket => some { t with page := { t.page with nextId := t.page.nextId + 1 } }
  | .request =>
      match t.toHost with
      | [] => none
      | asked :: rest =>
          some (hostReceives securityHeaders json beyond url toLower { t with toHost := rest }
            (requestFrame json.codec asked.id asked.head asked.body))
  | .answer k response =>
      match t.host.serving[k]? with
      | none => none
      | some serving =>
          some (hostAnswers securityHeaders json
            { t with host := { t.host with serving := t.host.serving.eraseIdx k } } serving response)
  | .socketFrame id kind payload =>
      if kind ∈ [Server.TunnelFrame.kindWsOpened, Server.TunnelFrame.kindWsText,
        Server.TunnelFrame.kindWsClose] then
        some { t with toPage := t.toPage ++ [⟨id, kind, payload⟩] }
      else none
  | .receive k =>
      match t.toPage[k]? with
      | none => none
      | some sent =>
          if (t.toPage.take k).any (fun earlier => earlier.id = sent.id) then none
          else
            some { t with
              page := onChannelMessage json.codec t.page (build sent.kind sent.id sent.payload)
              toPage := t.toPage.eraseIdx k }
  | .timeout id =>
      match t.page.pending.get id with
      | none => none
      | some waiter => if waiter.timer then some { t with page := timeout t.page id } else none
  | .teardown why => some { t with page := teardown t.page why }
  | .dropPeer => some { t with host := { t.host with present := false } }

end

section InFlight

variable {securityHeaders : QString → List (QString × QString)} {json : HeadJson}
variable {beyond : Nat → UInt8} {url : QString → Option Target} {toLower : QString → QString}

/-- The counter is the number of requests accepted and not answered, within the limit. -/
def Counted (t : Exchange) : Prop :=
  t.host.present = true → t.host.inFlight = t.host.serving.length ∧
    t.host.inFlight ≤ maxInFlightRequests

theorem counted_hostReceives {t : Exchange} (h : Counted t) (message : QByteArray) :
    Counted (hostReceives securityHeaders json beyond url toLower t message) := by
  unfold hostReceives
  split_ifs with hpresent
  · exact h
  · split
    · exact h
    · split_ifs
      · split
        case h_1 => exact h
        case h_2 => exact h
        case h_3 serving haccepted =>
          intro hpresent'
          obtain ⟨hcount, -⟩ := h hpresent'
          obtain ⟨-, hlimit⟩ := handleRequestFrame_accepted haccepted
          show t.host.inFlight + 1 = ((t.host.serving ++ [serving]).length : Int) ∧
            t.host.inFlight + 1 ≤ maxInFlightRequests
          rw [List.length_append, List.length_singleton]
          omega
      · exact h

theorem counted_step {t u : Exchange} {m : Move} (h : Counted t)
    (hstep : moves (move securityHeaders json beyond url toLower) t m u) : Counted u := by
  cases m with
  | fetch head body taken =>
    obtain rfl := Option.some.inj hstep
    exact h
  | openSocket =>
    obtain rfl := Option.some.inj hstep
    exact h
  | request =>
    cases hasked : t.toHost with
    | nil => simp [moves, move, hasked] at hstep
    | cons asked rest =>
      simp only [moves, move, hasked, Option.some.injEq] at hstep
      subst hstep
      exact counted_hostReceives (t := { t with toHost := rest }) h _
  | answer k response =>
    cases hserving : t.host.serving[k]? with
    | none => simp [moves, move, hserving] at hstep
    | some serving =>
      simp only [moves, move, hserving, Option.some.injEq] at hstep
      subst hstep
      unfold hostAnswers
      split_ifs with hpresent
      · intro hpresent'
        exact absurd hpresent' (by simpa using hpresent)
      · intro hpresent'
        obtain ⟨hcount, hlimit⟩ := h hpresent'
        obtain ⟨hk, -⟩ := List.getElem?_eq_some_iff.mp hserving
        show t.host.inFlight - 1 = ((t.host.serving.eraseIdx k).length : Int) ∧
          t.host.inFlight - 1 ≤ maxInFlightRequests
        rw [List.length_eraseIdx_of_lt hk]
        omega
  | socketFrame id kind payload =>
    simp only [moves, move] at hstep
    split_ifs at hstep
    obtain rfl := Option.some.inj hstep
    exact h
  | receive k =>
    cases hsent : t.toPage[k]? with
    | none => simp [moves, move, hsent] at hstep
    | some sent =>
      simp only [moves, move, hsent] at hstep
      split_ifs at hstep
      obtain rfl := Option.some.inj hstep
      exact h
  | timeout id =>
    cases hwaiter : t.page.pending.get id with
    | none => simp [moves, move, hwaiter] at hstep
    | some waiter =>
      simp only [moves, move, hwaiter] at hstep
      split_ifs at hstep
      obtain rfl := Option.some.inj hstep
      exact h
  | teardown why =>
    obtain rfl := Option.some.inj hstep
    exact h
  | dropPeer =>
    obtain rfl := Option.some.inj hstep
    intro hpresent
    exact absurd hpresent (by simp)

end InFlight

end MoonlightWeb.Bootstrap.TunnelExchange
