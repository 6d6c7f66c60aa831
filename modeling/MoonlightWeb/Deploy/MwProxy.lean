import MoonlightWeb.Lib.Run
import Mathlib.Data.List.AList

/-! # The DNS gateway

`mw-proxy` stands in front of PowerDNS and remembers which owner holds which
uid. A PATCH is checked against the owner store under its lock, forwarded
without it, and only an accepted one is then recorded, again under the lock.
Between its check and its commit any number of other requests may run, so the
system keeps the requests in flight and lets each of them move on its own.
-/

namespace MoonlightWeb.Deploy.MwProxy

open Lib

inductive RecordKind
  | a
  | owner
  | acme
deriving DecidableEq, Repr

/-- `[0-9a-f]`. -/
def isLowerHex (c : Char) : Bool := ('0' ≤ c && c ≤ '9') || ('a' ≤ c && c ≤ 'f')

/-- `([0-9a-f]{8})\.zone`, on the whole of the name. -/
def matchUid (zone name : List Char) : Option String :=
  let uid := name.take 8
  if uid.length = 8 ∧ uid.all isLowerHex ∧ name.drop 8 = '.' :: zone then
    some (String.ofList uid)
  else none

/-- `strings.ToLower` on a character. The Kelvin sign and the dotted capital I
are the only letters outside ASCII whose lower case is ASCII. -/
def toLowerChar (c : Char) : Char :=
  if c = '\u212A' then 'k' else if c = '\u0130' then 'i' else c.toLower

def classify (zone name : String) : Option (String × RecordKind) :=
  let z := zone.toList
  let n := name.toList.map toLowerChar
  match matchUid z n with
  | some uid => some (uid, .a)
  | none =>
      match (n.dropPrefix? "_owner.".toList).bind (matchUid z) with
      | some uid => some (uid, .owner)
      | none =>
          match (n.dropPrefix? "_acme-challenge.".toList).bind (matchUid z) with
          | some uid => some (uid, .acme)
          | none => none

def typeAllowed (kind : RecordKind) (rrType : String) : Bool :=
  match kind with
  | .a => rrType = "A"
  | .owner => rrType = "TXT"
  | .acme => rrType = "TXT"

/-- `owners`: uid to the keyed hash of the owner's token. -/
abbrev Owners := AList fun _ : String => String

variable (owners : Owners)

def Owners.of (uid : String) : String := (owners.lookup uid).getD ""

/-- What the proxy is configured with; `hash` is the store's keyed hash. -/
structure Config where
  zone : String
  registrationClosed : Bool
  hash : String → String

/-- `pdnsRRSet`. The proxy forwards the records unread; PowerDNS applies them. -/
structure RRSet where
  name : String
  type : String
  changeType : String
  records : List String

structure Pending where
  claims : Owners := ∅
  releases : List String := []
  newClaims : Nat := 0

structure Refusal where
  code : Nat
  msg : String
deriving DecidableEq, Repr

/-- `ownerHoldsOtherUID`: a uid other than `self` the owner holds or claims. -/
def ownerHoldsOtherUID (otHash self : String) (pending : Pending) :
    Option String :=
  match owners.entries.find? fun e =>
      e.1 ≠ self && !pending.releases.contains e.1 && e.2 = otHash with
  | some e => some e.1
  | none => (pending.claims.entries.find? fun e => e.1 ≠ self && e.2 = otHash).map Sigma.fst

def subdomainClosedMessage : String :=
  "This machine cannot be published under its own " ++
  "name any more. MoonlightWeb 0.3.0 replaced per-machine sub-domains with an " ++
  "introduction service: your machine is reached at a moonlightweb.top address " ++
  "without any DNS record or certificate being created in your name. Update to " ++
  "0.3.0 or later to use internet access. Streaming over your local network is " ++
  "unaffected and keeps working on this version. Sub-domains registered before " ++
  "this change keep working until February 2027."

variable (cfg : Config)

/-- The REPLACE branch of the loop of `checkPatch`. -/
def checkReplace (owners : Owners) (otHash : String) (zoneHasA : String → Bool)
    (pending : Pending) (uid : String) (kind : RecordKind) : Except Refusal Pending :=
  let existing := owners.of uid
  if existing = "" then
    if otHash = "" then
      .error ⟨403, "X-MW-Owner required to claim a subdomain"⟩
    else if cfg.registrationClosed ∧ kind = .a ∧ !zoneHasA uid then
      .error ⟨403, subdomainClosedMessage⟩
    else
      match ownerHoldsOtherUID owners otHash uid pending with
      | some other =>
          .error ⟨409, "this owner already holds subdomain " ++ other ++ " — release it first"⟩
      | none =>
          .ok { pending with newClaims := pending.newClaims + 1,
                             claims := pending.claims.insert uid otHash }
  else if otHash ≠ existing then
    .error ⟨403, "not the owner of " ++ uid⟩
  else .ok pending

/-- The DELETE branch: deleting the A record releases the subdomain. -/
def checkDelete (otHash : String) (pending : Pending) (uid : String)
    (kind : RecordKind) : Except Refusal Pending :=
  let existing := owners.of uid
  if existing = "" then .ok pending
  else if otHash ≠ existing then .error ⟨403, "not the owner of " ++ uid⟩
  else if kind = .a then .ok { pending with releases := pending.releases ++ [uid] }
  else .ok pending

/-- `strings.ToUpper`, as far as it can yield an ASCII change type. -/
def toUpper (s : String) : String := String.ofList (s.toList.map Char.toUpper)

/-- One turn of the loop of `checkPatch`. -/
def checkRRSet (owners : Owners) (otHash : String) (zoneHasA : String → Bool)
    (pending : Pending) (rr : RRSet) : Except Refusal Pending :=
  match classify cfg.zone rr.name with
  | none => .error ⟨403, "record name not allowed: " ++ rr.name⟩
  | some (uid, kind) =>
      if !typeAllowed kind rr.type then
        .error ⟨403, "type " ++ rr.type ++ " not allowed for " ++ rr.name⟩
      else if toUpper rr.changeType = "DELETE" then
        checkDelete owners otHash pending uid kind
      else if toUpper rr.changeType = "REPLACE" then
        checkReplace cfg owners otHash zoneHasA pending uid kind
      else .error ⟨403, "changetype not allowed: " ++ rr.changeType⟩

def checkRRSets (cfg : Config) (owners : Owners) (otHash : String) (zoneHasA : String → Bool) :
    List RRSet → Pending → Except Refusal Pending
  | [], pending => .ok pending
  | rr :: rest, pending =>
      match checkRRSet cfg owners otHash zoneHasA pending rr with
      | .error refusal => .error refusal
      | .ok pending => checkRRSets cfg owners otHash zoneHasA rest pending

/-- `otHash` of `checkPatch`. -/
def ownerHash (ownerToken : String) : String :=
  if ownerToken = "" then "" else cfg.hash ownerToken

/-- `checkPatch`. `patch` is the decoded body, `none` where it is no JSON; the
answers of the zone and of the quota of the caller's address are arguments. -/
def checkPatch (owners : Owners) (ownerToken : String)
    (patch : Option (List RRSet)) (zoneHasA : String → Bool) (quotaAllows : Bool) :
    Except Refusal Pending :=
  match patch with
  | none => .error ⟨400, "invalid JSON body"⟩
  | some rrsets =>
      if rrsets = [] then .error ⟨400, "no rrsets in request"⟩
      else
        match checkRRSets cfg owners (ownerHash cfg ownerToken) zoneHasA rrsets {} with
        | .error refusal => .error refusal
        | .ok pending =>
            if pending.newClaims > 0 ∧ !quotaAllows then
              .error ⟨429, "too many new subdomains from this address, retry later"⟩
            else .ok pending

/-- The commit closure: releases first, then claims. -/
def Pending.commit (pending : Pending) (owners : Owners) : Owners :=
  pending.claims.entries.foldl (fun owners e => owners.insert e.1 e.2)
    (pending.releases.foldl (fun owners uid => owners.erase uid) owners)

/-- Whether the uid's A record is published once PowerDNS applied the rrset. -/
def applyRRSet (zone : String) (published : String → Bool) (rr : RRSet) : String → Bool :=
  match classify zone rr.name with
  | some (uid, .a) =>
      fun u => if u = uid then toUpper rr.changeType = "REPLACE" && !rr.records.isEmpty
               else published u
  | _ => published

/-- PowerDNS applies the rrsets of a patch in their order. -/
def applyPatch (zone : String) (published : String → Bool) (rrsets : List RRSet) :
    String → Bool :=
  rrsets.foldl (applyRRSet zone) published

structure Flight where
  otHash : String
  rrsets : List RRSet
  pending : Pending
  accepted : Bool

/-- `published` are the A records that accepted patches wrote and none deleted since. -/
structure State where
  owners : Owners
  published : String → Bool
  flights : List Flight

/-- `arrive` is a request's check, `upstream` the status PowerDNS answered it
with, `commit` its commit closure. -/
inductive Label
  | arrive (ownerToken : String) (patch : Option (List RRSet)) (zoneHasA : String → Bool)
      (quotaAllows : Bool)
  | upstream (i status : Nat)
  | commit (i : Nat)

def State.arrive (s : State) (ownerToken : String) (patch : Option (List RRSet))
    (zoneHasA : String → Bool) (quotaAllows : Bool) : State :=
  match checkPatch cfg s.owners ownerToken patch zoneHasA quotaAllows with
  | .error _ => s
  | .ok pending =>
      { s with flights := s.flights ++
          [⟨ownerHash cfg ownerToken, patch.getD [], pending, false⟩] }

/-- The answer to the forwarded request; without a 2xx nothing changed and nothing is committed. -/
def State.answered (s : State) (i status : Nat) (f : Flight) : State :=
  if 200 ≤ status ∧ status < 300 then
    { s with published := applyPatch cfg.zone s.published f.rrsets,
             flights := s.flights.set i { f with accepted := true } }
  else { s with flights := s.flights.eraseIdx i }

def State.committed (s : State) (i : Nat) (f : Flight) : State :=
  { s with owners := f.pending.commit s.owners, flights := s.flights.eraseIdx i }

def State.step (s : State) : Label → Option State
  | .arrive ownerToken patch zoneHasA quotaAllows =>
      some (s.arrive cfg ownerToken patch zoneHasA quotaAllows)
  | .upstream i status =>
      match s.flights[i]? with
      | none => none
      | some f => if f.accepted then none else some (s.answered cfg i status f)
  | .commit i =>
      match s.flights[i]? with
      | none => none
      | some f => if f.accepted then some (s.committed i f) else none

def State.Step : State → Label → State → Prop := moves (State.step cfg)

end MoonlightWeb.Deploy.MwProxy
