import MoonlightWeb.Common.PairingCrypto
import MoonlightWeb.Qt.QHash
import MoonlightWeb.Server.ShareManager

/-! # Sessions, passwords and lockouts

A browser that showed the PIN holds a session: a token in its cookie, of which
the host keeps only the digest. Sessions are written to `sessions.json` and read
again at start. An admin password raises a session that is already there, and a
home-screen key hands one on. Attempts at either secret are counted in buckets.

`now` is the clock in seconds. The settings the manager writes through
`AppSettings` are two of its fields.
-/

namespace MoonlightWeb.Server.AuthManager

open Qt
open Js (JsMap)
open Common.PairingCrypto (Crypto)
open ShareManager (Digest constantTimeEquals whole)
open QByteArray

/-- `SESSION_TTL_SECS`. -/
def sessionTtlSecs : Int := 90 * 24 * 3600

/-- `EPHEMERAL_SESSION_TTL_SECS`. -/
def ephemeralSessionTtlSecs : Int := 8 * 3600

/-- `HOME_SCREEN_KEY_PREFIX`. -/
def homeScreenKeyMark : QString := qs "hs-"

/-- `HOME_SCREEN_KEY_TTL_SECS`. -/
def homeScreenKeyTtlSecs : Int := 24 * 3600

/-- `MIN_ADMIN_PASSWORD_LEN`. -/
def minAdminPasswordLen : Nat := 8

/-- `PBKDF2_ITERATIONS`, `PBKDF2_KEY_BYTES`. -/
def pbkdf2Iterations : Int := 210000

def pbkdf2KeyBytes : Nat := 32

/-- `LOCKOUT_SHORT_MS`, `LOCKOUT_MEDIUM_MS` and `LOCKOUT_LONG_MS`, in seconds. -/
def lockoutShortSecs : Int := 30

def lockoutMediumSecs : Int := 120

def lockoutLongSecs : Int := 600

/-- The time a failure is kept before a sweep forgives it. -/
def forgivenessSecs : Int := 600

/-- What rests on Qt and OpenSSL. `pbkdf2` is `deriveKeyPbkdf2` over SHA-256;
`ipv6Network` writes the first half of an address that is IPv6. -/
structure Primitives where
  digest : Digest
  crypto : Crypto
  pbkdf2 : QByteArray → QByteArray → Int → Nat → QByteArray
  ipv6Network : QString → Option QString

variable (p : Primitives)

/-- `hashToken`. -/
def Primitives.hashToken (token : QString) : QString := p.digest.hash token

/-- `cleanClientAddress`. -/
def cleanClientAddress (ip : QString) : QString :=
  if (qs "::ffff:").isPrefixOf ip then ip.drop 7 else ip

/-- `toBase64` with the URL alphabet and no padding. -/
def toBase64Url (b : QByteArray) : QByteArray :=
  ((toBase64 b).filter fun u => u ≠ 0x3D).map fun u =>
    if u = 0x2B then 0x2D else if u = 0x2F then 0x5F else u

structure SessionInfo where
  token : QString := []
  ip : QString := []
  machineName : QString := []
  city : QString := []
  country : QString := []
  createdAt : Int := 0
  lastSeen : Int := 0
  streaming : Bool := false
  isHost : Bool := false
  isAdmin : Bool := false
  viaTunnel : Bool := false
  ephemeral : Bool := false
  pairingKey : QByteArray := []
  deriving DecidableEq

variable (s : SessionInfo)

/-- `ttlFor`. -/
def ttlFor : Int :=
  if s.ephemeral then ephemeralSessionTtlSecs else sessionTtlSecs

/-- The activity the expiry counts from. -/
def SessionInfo.last : Int := if s.lastSeen > 0 then s.lastSeen else s.createdAt

def SessionInfo.expired (now : Int) : Bool := now - s.last > ttlFor s

structure HomeScreenKey where
  key : QString := []
  issuedAt : Int := 0
  deriving DecidableEq

structure RateLimitEntry where
  failures : Int := 0
  lastFailure : Option Int := none
  lockoutUntilEpoch : Int := 0
  deriving DecidableEq

/-- The PIN that stands for none. -/
def noPin : QString := qs "------"

/-- The members, `remote_admin_enabled` and `admin_password` of the settings, and
the contents of `sessions.json`. -/
structure Manager where
  currentPin : QString := noPin
  pinConsumed : Bool := false
  sessions : QHash QString SessionInfo := JsMap.empty
  rateLimits : QHash QString RateLimitEntry := JsMap.empty
  homeScreenKeys : QHash QString HomeScreenKey := JsMap.empty
  homeScreenInstances : QHash QString (List QJsonValue) := JsMap.empty
  remoteAdminEnabled : Bool := true
  adminPasswordDigest : QString := []
  file : Option QJsonObject := none

variable (m : Manager)

/-- `adminPasswordSet`. -/
def Manager.adminPasswordSet : Bool := !m.adminPasswordDigest.isEmpty

def SessionInfo.toJson : QJsonObject :=
  [(qs "token", .string s.token)] ++
    (if s.pairingKey.isEmpty then []
      else [(qs "pairing_key", .string (toBase64 s.pairingKey).toQString)]) ++
    [(qs "ip", .string s.ip),
      (qs "machine_name", .string s.machineName),
      (qs "city", .string s.city),
      (qs "country", .string s.country),
      (qs "created_at", whole s.createdAt),
      (qs "last_seen", whole s.lastSeen),
      (qs "streaming", .bool s.streaming),
      (qs "is_host", .bool s.isHost),
      (qs "is_admin", .bool s.isAdmin),
      (qs "via_tunnel", .bool s.viaTunnel),
      (qs "ephemeral", .bool s.ephemeral)]

def persistent (sessions : List SessionInfo) : List SessionInfo :=
  sessions.filter fun s => !s.ephemeral

def document (sessions : List SessionInfo) : QJsonObject :=
  [(qs "sessions", .array (sessions.map fun s => .object s.toJson))]

def saveSessions : Manager :=
  { m with file := some (document (persistent m.sessions.values)) }

/-- What `loadSessions` restores of an entry, when it restores it. -/
def restoreSession (keepAdminFlags : Bool) (now : Int) (obj : QJsonObject) :
    Option SessionInfo :=
  let createdAt := (obj.value "created_at").toInt64 0
  let storedKey := (obj.value "pairing_key").toString
  let spki := fromBase64 storedKey.toUtf8
  let info : SessionInfo :=
    { token := (obj.value "token").toString
      ip := (obj.value "ip").toString
      machineName := (obj.value "machine_name").toString
      city := (obj.value "city").toString
      country := (obj.value "country").toString
      createdAt := createdAt
      lastSeen := if obj.contains "last_seen" then (obj.value "last_seen").toInt64 0 else createdAt
      isHost := (obj.value "is_host").toBool false
      viaTunnel := (obj.value "via_tunnel").toBool false
      isAdmin := keepAdminFlags && (obj.value "is_admin").toBool false
      pairingKey :=
        if !storedKey.isEmpty && p.crypto.isValidP256Spki spki then spki else [] }
  if now - info.last > sessionTtlSecs then none else some info

/-- One turn of the loop of `loadSessions`. -/
def loadSession (keepAdminFlags : Bool) (now : Int)
    (sessions : QHash QString SessionInfo) (val : QJsonValue) : QHash QString SessionInfo :=
  match restoreSession p keepAdminFlags now val.toObject with
  | none => sessions
  | some info => sessions.set info.token info

/-- With the door closed a persisted admin flag is stale and is not kept. -/
def loadSessions (m : Manager) (now : Int) : Manager :=
  match m.file with
  | none => m
  | some root =>
      let keepAdminFlags := m.remoteAdminEnabled && m.adminPasswordSet
      { m with
        sessions := (root.value "sessions").toArray.foldl (loadSession p keepAdminFlags now)
          JsMap.empty }

/-- The process ends and the next one is constructed over the same files. -/
def restart (m : Manager) (now : Int) : Manager :=
  loadSessions p
    { remoteAdminEnabled := m.remoteAdminEnabled
      adminPasswordDigest := m.adminPasswordDigest
      file := m.file } now

section

variable (p : Primitives)

variable (m : Manager)

def validateSession (now : Int) (token : QString) : Bool :=
  if token.isEmpty then false
  else
    match m.sessions.get (p.hashToken token) with
    | none => false
    | some s => now - s.last ≤ ttlFor s

def isEphemeralSession (now : Int) (token : QString) : Bool :=
  if validateSession p m now token = false then false
  else
    match m.sessions.get (p.hashToken token) with
    | none => false
    | some s => s.ephemeral

def isAdminSession (now : Int) (token : QString) : Bool :=
  if validateSession p m now token = false then false
  else
    match m.sessions.get (p.hashToken token) with
    | none => false
    | some s => s.isAdmin

/-- The session `createSession` makes. -/
def newSession (now : Int) (id ip machineName : QString) (isHost ephemeral viaTunnel : Bool) :
    SessionInfo where
  token := id
  ip := cleanClientAddress ip
  machineName := if machineName.isEmpty then qs "Unknown" else machineName
  createdAt := now
  lastSeen := now
  isHost := isHost
  ephemeral := ephemeral
  viaTunnel := viaTunnel

/-- `token` is what the random generators yield. -/
def createSession (now : Int) (token ip machineName : QString)
    (isHost ephemeral viaTunnel : Bool) : Manager :=
  let id := p.hashToken token
  let info := newSession now id ip machineName isHost ephemeral viaTunnel
  let m := { m with sessions := m.sessions.set id info }
  if ephemeral then m else saveSessions m

/-- `destroySession`, by the id the session table is keyed with. -/
def destroySession (id : QString) : Manager :=
  let m :=
    { m with
      homeScreenKeys := m.homeScreenKeys.delete id
      homeScreenInstances := m.homeScreenInstances.delete id }
  if m.sessions.contains id then saveSessions { m with sessions := m.sessions.delete id } else m

def logoutSession (token : QString) : Bool × Manager :=
  if token.isEmpty then (false, m)
  else if m.sessions.contains (p.hashToken token) = false then (false, m)
  else (true, destroySession m (p.hashToken token))

def destroyAllSessions : Manager := saveSessions { m with sessions := JsMap.empty }

def purgeExpiredSessions (now : Int) : Manager :=
  let removed := m.sessions.values.filter fun s => s.expired now
  let m := { m with sessions := m.sessions.filter fun _ s => !s.expired now }
  if removed.isEmpty then m else saveSessions m

def renameSession (id machineName : QString) : Bool × Manager :=
  if m.sessions.contains id = false then (false, m)
  else
    let sessions := m.sessions.modify id fun s => { s with machineName := machineName }
    (true, saveSessions { m with sessions := sessions })

/-- Disk writes are throttled to one an hour. -/
def touchSession (now : Int) (token : QString) : Manager :=
  if token.isEmpty then m
  else
    match m.sessions.get (p.hashToken token) with
    | none => m
    | some s =>
        let m := { m with sessions := m.sessions.set (p.hashToken token) { s with lastSeen := now } }
        if s.ephemeral = false ∧ now - s.lastSeen ≥ 3600 then saveSessions m else m

def updateSessionAddress (now : Int) (token ip : QString) : Bool × Manager :=
  let id := p.hashToken token
  match m.sessions.get id with
  | none => (false, m)
  | some s =>
      let s := { s with lastSeen := now }
      let cleanIp := cleanClientAddress ip
      if cleanIp.isEmpty ∨ s.ip = cleanIp then (false, { m with sessions := m.sessions.set id s })
      else
        let s := { s with ip := cleanIp, city := [], country := [] }
        (true, saveSessions { m with sessions := m.sessions.set id s })

def setSessionGeo (token city country : QString) : Manager :=
  let id := p.hashToken token
  if m.sessions.contains id = false then m
  else
    let sessions := m.sessions.modify id fun s => { s with city := city, country := country }
    saveSessions { m with sessions := sessions }

def bindSessionKey (token : QString) (spkiDer : QByteArray) : Bool × Manager :=
  if token.isEmpty then (false, m)
  else if p.crypto.isValidP256Spki spkiDer = false then (false, m)
  else
    let id := p.hashToken token
    match m.sessions.get id with
    | none => (false, m)
    | some s =>
        if s.pairingKey.isEmpty = false then (decide (s.pairingKey = spkiDer), m)
        else
          let m := { m with sessions := m.sessions.set id { s with pairingKey := spkiDer } }
          (true, if s.ephemeral then m else saveSessions m)

/-- A single active stream: setting the flag clears every other one first. -/
def setSessionStreaming (token : QString) (streaming : Bool) : Manager :=
  if token.isEmpty then m
  else
    let id := p.hashToken token
    let other (key : QString) (s : SessionInfo) : Bool := key ≠ id && s.streaming
    let cleared := streaming && m.sessions.entries.any fun e => other e.1 e.2
    let sessions :=
      if streaming then
        m.sessions.mapEntries fun key s => if other key s then { s with streaming := false } else s
      else m.sessions
    let flagged :=
      match sessions.get id with
      | none => false
      | some s => s.streaming != streaming
    let sessions := sessions.modify id fun s => { s with streaming := streaming }
    let m := { m with sessions := sessions }
    if cleared || flagged then saveSessions m else m

def promoteSessionToAdmin (now : Int) (token : QString) : Bool × Manager :=
  if validateSession p m now token = false then (false, m)
  else
    match m.sessions.get (p.hashToken token) with
    | none => (false, m)
    | some s =>
        if s.isAdmin then (true, m)
        else
          let sessions := m.sessions.set (p.hashToken token) { s with isAdmin := true }
          (true, saveSessions { m with sessions := sessions })

def demoteAdminSessions : Nat × Manager :=
  let cleared := (m.sessions.values.filter fun s => s.isAdmin).length
  let m := { m with sessions := m.sessions.mapEntries fun _ s => { s with isAdmin := false } }
  (cleared, if cleared > 0 then saveSessions m else m)

/-- `salt` is what the random generator yields. -/
def encodePassword (password : QString) (salt : QByteArray) : QString :=
  let key := p.pbkdf2 password.toUtf8 salt pbkdf2Iterations pbkdf2KeyBytes
  qs "pbkdf2-sha256$210000$" ++ (toBase64 salt).toQString ++ qs "$" ++
    (toBase64 key).toQString

def setAdminPassword (password : QString) (salt : QByteArray) : Bool × Manager :=
  if password.length < minAdminPasswordLen then (false, m)
  else
    let m := { m with adminPasswordDigest := encodePassword p password salt }
    (true, (demoteAdminSessions m).2)

def setRemoteAdminEnabled (enabled : Bool) : Manager :=
  let m := { m with remoteAdminEnabled := enabled }
  if enabled then m else (demoteAdminSessions m).2

/-- The key `homeScreenKey` answers with; `random` is what the generator yields
where a new one is minted. -/
def homeScreenKey (now : Int) (token : QString) (random : QByteArray) :
    QString × Manager :=
  if validateSession p m now token = false ∨ isEphemeralSession p m now token then ([], m)
  else
    let id := p.hashToken token
    let fresh : HomeScreenKey :=
      { key := homeScreenKeyMark ++ (toBase64Url random).toQString, issuedAt := now }
    let minted := (fresh.key, { m with homeScreenKeys := m.homeScreenKeys.set id fresh })
    match m.homeScreenKeys.get id with
    | none => minted
    | some found =>
        if now - found.issuedAt < homeScreenKeyTtlSecs / 2 then (found.key, m) else minted

def setHomeScreenInstances (now : Int) (token : QString)
    (instances : List QJsonValue) : Manager :=
  if validateSession p m now token = false then m
  else
    let id := p.hashToken token
    { m with homeScreenInstances := m.homeScreenInstances.set id instances }

structure HomeScreenHandoff where
  machineName : QString
  instances : List QJsonValue

/-- Every entry is compared, and the last match stands. -/
def homeScreenSession (key : QString) : QString :=
  m.homeScreenKeys.entries.foldl
    (fun found e => if constantTimeEquals e.2.key key then e.1 else found) []

/-- The key is spent whatever its checks say. -/
def redeemHomeScreenKey (now : Int) (key : QString) :
    Option HomeScreenHandoff × Manager :=
  if homeScreenKeyMark.isPrefixOf key = false then (none, m)
  else
    let sessionId := homeScreenSession m key
    if sessionId.isEmpty then (none, m)
    else
      match m.homeScreenKeys.get sessionId with
      | none => (none, m)
      | some found =>
          let m := { m with homeScreenKeys := m.homeScreenKeys.delete sessionId }
          if now - found.issuedAt > homeScreenKeyTtlSecs then (none, m)
          else
            match m.sessions.get sessionId with
            | none => (none, m)
            | some session =>
                if now - session.last > ttlFor session then (none, m)
                else
                  (some ⟨session.machineName, (m.homeScreenInstances.get sessionId).getD []⟩, m)

def rateLimitKey (ip : QString) : QString :=
  let clean := cleanClientAddress ip
  match p.ipv6Network clean with
  | some network => network ++ qs "/64"
  | none => clean

variable (e : RateLimitEntry)

/-- The time since the last failure; ten minutes when it is not a valid one. -/
def RateLimitEntry.secsSinceFailure (now : Int) : Int :=
  match e.lastFailure with
  | some t => now - t
  | none => 600

/-- What a sweep at `now` leaves of an entry: a failure older than ten minutes is
forgiven unless the lockout still runs. -/
def RateLimitEntry.decayed (now : Int) : RateLimitEntry :=
  if e.lockoutUntilEpoch > now then e
  else if e.secsSinceFailure now ≥ forgivenessSecs then
    { e with failures := max 0 (e.failures - 1) }
  else e

/-- Entries with no failures go, unless the lockout still runs. -/
def RateLimitEntry.kept (now : Int) : Bool :=
  e.lockoutUntilEpoch > now || e.failures > 0

def cleanupExpired (now : Int) : Manager :=
  { m with
    rateLimits := (m.rateLimits.mapEntries fun _ e => e.decayed now).filter fun _ e => e.kept now }

def bucketLockout (now : Int) (bucket : QString) : Int :=
  match m.rateLimits.get bucket with
  | none => 0
  | some e => if e.lockoutUntilEpoch > now then e.lockoutUntilEpoch - now else 0

def bucketRemainingAttempts (bucket : QString) : Int :=
  match m.rateLimits.get bucket with
  | none => 3
  | some e =>
      if e.failures < 3 then 3 - e.failures
      else if e.failures < 5 then 5 - e.failures
      else if e.failures < 10 then 10 - e.failures
      else 0

inductive Result
  | valid
  | invalidPin
  | rateLimited
  deriving DecidableEq

structure ValidateResult where
  result : Result := .invalidPin
  remainingAttempts : Int := 0
  lockoutSeconds : Int := 0

def RateLimitEntry.failed (now : Int) : RateLimitEntry :=
  let failures := e.failures + 1
  { failures := failures
    lastFailure := some now
    lockoutUntilEpoch :=
      if failures ≥ 10 then now + lockoutLongSecs
      else if failures ≥ 5 then now + lockoutMediumSecs
      else if failures ≥ 3 then now + lockoutShortSecs
      else e.lockoutUntilEpoch }

def recordAttempt (now : Int) (bucket : QString) (matched : Bool) :
    ValidateResult × Manager :=
  let entry := (m.rateLimits.get bucket).getD {}
  if matched then
    let entry := { entry with failures := 0, lockoutUntilEpoch := 0 }
    (⟨.valid, 3, 0⟩, { m with rateLimits := m.rateLimits.set bucket entry })
  else
    let m := { m with rateLimits := m.rateLimits.set bucket (entry.failed now) }
    (⟨.invalidPin, bucketRemainingAttempts m bucket, bucketLockout m now bucket⟩, m)

def hasValidPin : Bool := m.currentPin != noPin && !m.currentPin.isEmpty

def validatePin (now : Int) (ip pin : QString) : ValidateResult × Manager :=
  let m := cleanupExpired m now
  let bucket := rateLimitKey p ip
  let locked := bucketLockout m now bucket
  if locked > 0 then (⟨.rateLimited, 0, locked⟩, m)
  else recordAttempt m now bucket (hasValidPin m && constantTimeEquals pin m.currentPin)

/-- `toInt(&ok)`: blanks around a decimal number with a sign or none. -/
def toIntOk (s : QString) : Option Int :=
  let digits (t : QString) : Option Nat :=
    if t.isEmpty = false ∧ t.all fun u => unit '0' ≤ u && u ≤ unit '9' then
      some (t.foldl (fun n u => n * 10 + (u.toNat - 48)) 0)
    else none
  let value : Option Int :=
    match s.trimmed with
    | [] => none
    | u :: rest =>
        if u = unit '-' then (digits rest).map fun n => -(n : Int)
        else if u = unit '+' then (digits rest).map fun n => (n : Int)
        else (digits (u :: rest)).map fun n => (n : Int)
  value.filter fun v => -2147483648 ≤ v && v ≤ 2147483647

/-- `toLatin1`: a question mark for what Latin-1 has no byte for. -/
def toLatin1 (s : QString) : QByteArray :=
  s.map fun u => if u < 256 then UInt8.ofNat u.toNat else 0x3F

/-- A digest is `pbkdf2-sha256$<iterations>$<b64 salt>$<b64 key>`. -/
def passwordMatches (digest password : QString) : Bool :=
  match digest.splitOn (unit '$') with
  | [scheme, count, salt64, key64] =>
      if scheme ≠ qs "pbkdf2-sha256" then false
      else
        match toIntOk count with
        | none => false
        | some iterations =>
            let salt := fromBase64 (toLatin1 salt64)
            let expected := fromBase64 (toLatin1 key64)
            if iterations ≤ 0 then false
            else if salt.isEmpty || expected.isEmpty then false
            else
              let actual := p.pbkdf2 password.toUtf8 salt iterations expected.length
              constantTimeEquals (toBase64 actual).toQString key64
  | _ => false

/-- The bucket of the admin password, apart from that of the PIN. -/
def adminBucket (ip : QString) : QString := qs "admin|" ++ rateLimitKey p ip

/-- With the door closed nothing matches, and the attempt still counts. -/
def validateAdminPassword (now : Int) (ip password : QString) :
    ValidateResult × Manager :=
  let m := cleanupExpired m now
  let bucket := adminBucket p ip
  let locked := bucketLockout m now bucket
  if locked > 0 then (⟨.rateLimited, 0, locked⟩, m)
  else
    let matched :=
      m.remoteAdminEnabled && m.adminPasswordSet && passwordMatches p m.adminPasswordDigest password
    recordAttempt m now bucket matched

end

/-- `pin` is what the random generator yields, here and below. -/
def generatePin (pin : QString) : Manager :=
  { m with currentPin := pin, pinConsumed := false }

def regeneratePin (pin : QString) : Manager :=
  generatePin { destroyAllSessions m with rateLimits := JsMap.empty } pin

def autoRegeneratePin (pin : QString) : Manager :=
  { m with currentPin := pin, pinConsumed := true }

def clearPin : Manager := { m with currentPin := noPin, pinConsumed := false }

end MoonlightWeb.Server.AuthManager
