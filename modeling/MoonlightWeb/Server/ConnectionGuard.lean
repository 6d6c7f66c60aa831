import MoonlightWeb.Lib.RecentTimes
import MoonlightWeb.Qt.QHash
import MoonlightWeb.Qt.QString

/-! # Banning floods

Each address has the times of its connections and of its refused requests, as far as they
are recent. Too many of either ban it for a while; a purge drops what is idle and not banned.
-/

namespace MoonlightWeb.Server.ConnectionGuard

open Lib Qt Js
open RecentTimes (trim Log)

def CONN_WINDOW_MS : Int := 10000

def CONN_MAX_PER_WINDOW : Nat := 200

def AUTHFAIL_WINDOW_MS : Int := 60000

def AUTHFAIL_MAX : Nat := 10

def BAN_MS : Int := 600000

def IDLE_PURGE_MS : Int := 300000

structure IpState where
  connTimes : List Int := []
  authFailTimes : List Int := []
  bannedUntilMs : Int := 0
  lastSeenMs : Int := 0
deriving DecidableEq, Repr

abbrev Table := QHash QString IpState

def trimWindow (q : List Int) (nowMs windowMs : Int) : List Int :=
  RecentTimes.trim (nowMs - windowMs) q

/-- `m_state[ip]`. -/
def entry (m : Table) (ip : QString) : IpState :=
  (m.get ip).getD {}

def connect (s : IpState) (nowMs : Int) : Bool × IpState :=
  let s := { s with lastSeenMs := nowMs }
  if nowMs < s.bannedUntilMs then (false, s)
  else
    let s := { s with connTimes := trimWindow (s.connTimes ++ [nowMs]) nowMs CONN_WINDOW_MS }
    if s.connTimes.length > CONN_MAX_PER_WINDOW then
      (false, { s with bannedUntilMs := nowMs + BAN_MS, connTimes := [] })
    else (true, s)

/-- What a refused request does to the state of its address. -/
def fail (s : IpState) (nowMs : Int) : IpState :=
  let s := { s with
    lastSeenMs := nowMs
    authFailTimes := trimWindow (s.authFailTimes ++ [nowMs]) nowMs AUTHFAIL_WINDOW_MS }
  if s.authFailTimes.length ≥ AUTHFAIL_MAX then
    { s with bannedUntilMs := nowMs + BAN_MS, authFailTimes := [] }
  else s

section

-- `isExempt`
variable (exempt : QString → Bool)

variable (m : Table)

def allowConnection (ip : QString) (nowMs : Int) : Bool × Table :=
  if exempt ip then (true, m)
  else ((connect (entry m ip) nowMs).1, m.set ip (connect (entry m ip) nowMs).2)

def reportAuthFailure (ip : QString) (nowMs : Int) : Table :=
  if exempt ip then m else m.set ip (fail (entry m ip) nowMs)

def isBanned (ip : QString) (nowMs : Int) : Bool :=
  match m.get ip with
  | none => false
  | some s => nowMs < s.bannedUntilMs

def banSecondsRemaining (ip : QString) (nowMs : Int) : Int :=
  match m.get ip with
  | none => 0
  | some s =>
      if nowMs ≥ s.bannedUntilMs then 0
      else (s.bannedUntilMs - nowMs + 999).tdiv 1000

def purge (nowMs : Int) : Table :=
  m.filter fun _ s => !(!decide (nowMs < s.bannedUntilMs) &&
    decide (nowMs - s.lastSeenMs > IDLE_PURGE_MS))

inductive Op
  | allowConnection (ip : QString)
  | reportAuthFailure (ip : QString)
  | isBanned (ip : QString)
  | banSecondsRemaining (ip : QString)
  | purge
deriving DecidableEq

structure Call where
  nowMs : Int
  op : Op
deriving DecidableEq

inductive Answer
  | allowed (b : Bool)
  | banned (b : Bool)
  | seconds (n : Int)
deriving DecidableEq, Repr

def handle (c : Call) : Table :=
  match c.op with
  | .allowConnection ip => (allowConnection exempt m ip c.nowMs).2
  | .reportAuthFailure ip => reportAuthFailure exempt m ip c.nowMs
  | .isBanned _ => m
  | .banSecondsRemaining _ => m
  | .purge => purge m c.nowMs

def answer (c : Call) : Option Answer :=
  match c.op with
  | .allowConnection ip => some (.allowed (allowConnection exempt m ip c.nowMs).1)
  | .reportAuthFailure _ => none
  | .isBanned ip => some (.banned (isBanned m ip c.nowMs))
  | .banSecondsRemaining ip => some (.seconds (banSecondsRemaining m ip c.nowMs))
  | .purge => none

variable (calls : List Call)

def run : Table :=
  calls.foldl (handle exempt) JsMap.empty

theorem run_snoc (c : Call) :
    run exempt (calls ++ [c]) = handle exempt (run exempt calls) c :=
  List.foldl_append ..

def answersFrom : Table → List Call → List (Call × Answer)
  | _, [] => []
  | m, c :: rest =>
      ((answer exempt m c).map fun a => (c, a)).toList ++ answersFrom (handle exempt m c) rest

def answers : List (Call × Answer) :=
  answersFrom exempt JsMap.empty calls

theorem answersFrom_append (calls calls' : List Call) :
    answersFrom exempt m (calls ++ calls') =
      answersFrom exempt m calls ++ answersFrom exempt (calls.foldl (handle exempt) m) calls' := by
  induction calls generalizing m with
  | nil => rfl
  | cons c rest ih =>
    rw [List.cons_append, answersFrom, answersFrom, ih, List.append_assoc, List.foldl_cons]

theorem answers_snoc (c : Call) :
    answers exempt (calls ++ [c]) =
      answers exempt calls ++ ((answer exempt (run exempt calls) c).map fun a => (c, a)).toList := by
  unfold answers
  rw [answersFrom_append, answersFrom, answersFrom, List.append_nil]
  rfl

end

end MoonlightWeb.Server.ConnectionGuard
