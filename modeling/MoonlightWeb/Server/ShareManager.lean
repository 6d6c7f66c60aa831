import MoonlightWeb.Qt.Json
import Mathlib.Logic.Function.Basic
import Mathlib.Data.Rat.Cast.Defs

/-! # Sharing a session

Opening a player row mints an activation: a link token and a PIN, bound to one
host, with a deadline. One device may spend the PIN and holds a cookie from
then on. Digests of all three live in the slot and in `share.json`, which is
written after every change and read again at start.

Times are seconds. An operation reads the clock more than once: `now` is the
reading of its sweep, `later` stands for those after it.
-/

namespace MoonlightWeb.Server.ShareManager

open Qt

def firstSlot : Int := 2

def lastSlot : Int := 4

/-- `isPlayerSlot`. -/
def isPlayerSlot (slot : Int) : Bool := firstSlot ≤ slot && slot ≤ lastSlot

/-- The slots, lowest first. A hash table visits them in an order of its own,
which shows only when two live slots share a digest. -/
def playerSlots : List Int := [2, 3, 4]

/-- `kTtlSecs`. -/
def ttlDefault : Int := 8 * 3600

/-- `kTtlChoices`; 0 is unlimited. -/
def ttlChoices : List Int := [3600, 4 * 3600, 8 * 3600, 24 * 3600, 48 * 3600, 0]

def isValidTtl (secs : Int) : Bool := ttlChoices.contains secs

def maxPinFailures : Int := 10

def maxCookiesPerActivation : Nat := 1

def maxNameLength : Nat := 32

/-- `hash`: SHA-256 in base64url without padding, 43 characters. -/
structure Digest where
  hash : QString → QString
  length_hash : ∀ s, (hash s).length = 43
  ascii_hash : ∀ s, ∀ u ∈ hash s, 0 < u ∧ u < 128

/-- A stand-in for runs on fixed inputs: the ASCII text itself, padded and cut. -/
def padded : Digest where
  hash s := ((s.filter fun u => 0 < u && u < 128) ++ List.replicate 43 (unit 'A')).take 43
  length_hash s := by simp
  ascii_hash s u hu := by
    rcases List.mem_append.mp (List.mem_of_mem_take hu) with h | h
    · simpa using (List.mem_filter.mp h).2
    · have heq : u = unit 'A' := List.eq_of_mem_replicate h
      rw [heq]
      decide

/-- The control characters `sanitizeName` removes. -/
def isControl (u : UInt16) : Bool := u ≤ 0x1F || u = 0x7F

def removeControls (s : QString) : QString := s.filter fun u => !isControl u

/-- `sanitizeName`: trim and clamp a name the owner typed. -/
def sanitizeName (name : QString) : QString :=
  (removeControls name.simplified).left maxNameLength

/-- `constantTimeEquals`: the sizes are compared in one byte, the bytes as if
the shorter text went on with zeros. -/
def constantTimeEquals (a b : QString) : Bool :=
  let ba := a.toUtf8
  let bb := b.toUtf8
  ba.length % 256 = bb.length % 256 &&
    (List.range (max ba.length bb.length)).all fun i => ba.getD i 0 = bb.getD i 0

structure Permissions where
  gamepad : Bool := false
  keyboardMouse : Bool := false
  deriving DecidableEq

structure BoundDevice where
  boundAt : Int := 0
  userAgent : QString := []
  deriving DecidableEq

structure Activation where
  id : QString := []
  tokenHash : QString := []
  pinHash : QString := []
  cookieHashes : List QString := []
  devices : List BoundDevice := []
  permissions : Permissions := {}
  ttlSecs : Int := ttlDefault
  expiresAtSecs : Int := 0
  activatedAt : Int := 0
  pinFailures : Int := 0
  streaming : Bool := false
  lastRefusedAt : Int := 0
  lastRefusedAgent : QString := []
  hostUuid : QString := []
  appId : Int32 := -1
  tokenClear : QString := []
  pinClear : QString := []

def Activation.live (a : Activation) : Bool := !a.tokenHash.isEmpty

/-- A deadline of 0 is unlimited. -/
def Activation.expired (a : Activation) (now : Int) : Bool :=
  0 < a.expiresAtSecs && a.expiresAtSecs ≤ now

structure Slot where
  name : QString := []
  lastPermissions : Permissions := {}
  lastTtlSecs : Int := ttlDefault
  activation : Activation := {}

structure RateEntry where
  failures : Nat := 0
  lastFailure : Int := 0
  lockoutUntil : Int := 0

/-- `m_Slots`, `m_RateLimits` and the contents of `share.json`. -/
structure Manager where
  slots : Int → Slot := fun _ => {}
  rateLimits : QString → Option RateEntry := fun _ => none
  file : Option QJsonObject := none

namespace Manager

def setSlot (m : Manager) (slot : Int) (s : Slot) : Manager :=
  { m with slots := Function.update m.slots slot s }

def setActivation (m : Manager) (slot : Int) (a : Activation) : Manager :=
  m.setSlot slot { m.slots slot with activation := a }

/-- `slotFor`: no slot outside the player range. -/
def slotFor (m : Manager) (slot : Int) : Option Slot :=
  if isPlayerSlot slot then some (m.slots slot) else none

end Manager

def Permissions.toJson (p : Permissions) : QJsonObject :=
  [(qs "gamepad", .bool p.gamepad), (qs "keyboardMouse", .bool p.keyboardMouse)]

def Permissions.fromJson (obj : QJsonObject) : Permissions where
  gamepad := (obj.value "gamepad").toBool false
  keyboardMouse := (obj.value "keyboardMouse").toBool false

def whole (n : Int) : QJsonValue := .number n

@[simp] theorem toInt64_whole (n default : Int) : (whole n).toInt64 default = n := by
  simp [whole, QJsonValue.toInt64, QJsonValue.toDouble]

def BoundDevice.toJson (d : BoundDevice) : QJsonObject :=
  [(qs "boundAt", whole d.boundAt), (qs "userAgent", .string d.userAgent)]

def BoundDevice.fromJson (dev : QJsonObject) : BoundDevice where
  boundAt := (dev.value "boundAt").toInt64 0
  userAgent := (dev.value "userAgent").toString

def Activation.toJson (a : Activation) : QJsonObject :=
  [(qs "id", .string a.id),
    (qs "tokenHash", .string a.tokenHash),
    (qs "pinHash", .string a.pinHash),
    (qs "cookieHashes", .array (a.cookieHashes.map .string)),
    (qs "devices", .array (a.devices.map fun d => .object d.toJson)),
    (qs "permissions", .object a.permissions.toJson),
    (qs "ttlSecs", whole a.ttlSecs),
    (qs "expiresAt", whole a.expiresAtSecs),
    (qs "activatedAt", whole a.activatedAt),
    (qs "pinFailures", whole a.pinFailures),
    (qs "hostUuid", .string a.hostUuid),
    (qs "appId", whole a.appId.toInt),
    (qs "lastRefusedAt", whole a.lastRefusedAt),
    (qs "lastRefusedAgent", .string a.lastRefusedAgent)]

/-- One entry of the `slots` array; only a live activation is written. -/
def Slot.toJson (slot : Int) (s : Slot) : QJsonObject :=
  [(qs "slot", whole slot),
    (qs "name", .string s.name),
    (qs "lastPermissions", .object s.lastPermissions.toJson),
    (qs "lastTtlSecs", whole s.lastTtlSecs)] ++
    if s.activation.live then [(qs "activation", .object s.activation.toJson)] else []

def document (slots : Int → Slot) : QJsonObject :=
  [(qs "slots", .array (playerSlots.map fun slot => .object ((slots slot).toJson slot)))]

variable (m : Manager)

def save : Manager := { m with file := some (document m.slots) }

def alignDevices (devices : List BoundDevice) (cookies : Nat) : List BoundDevice :=
  (devices ++ List.replicate (cookies - devices.length) ({} : BoundDevice)).take cookies

/-- What `load` restores of an entry's activation at `now`, when it restores one. -/
def restoreActivation (now : Int) (act : QJsonObject) : Option Activation :=
  if act.isEmpty then none
  else
    let activatedAt := (act.value "activatedAt").toInt64 0
    if activatedAt ≤ 0 then none
    else
      let ttl := (act.value "ttlSecs").toInt64 ttlDefault
      let ttlSecs := if isValidTtl ttl then ttl else ttlDefault
      let expiresAt :=
        if act.contains "expiresAt" then (act.value "expiresAt").toInt64 0
        else if ttlSecs > 0 then activatedAt + ttlSecs else 0
      if expiresAt > 0 ∧ now ≥ expiresAt then none
      else
        let cookieHashes := (act.value "cookieHashes").toArray.map QJsonValue.toString
        let devices := (act.value "devices").toArray.map fun d => BoundDevice.fromJson d.toObject
        let a : Activation :=
          { id := (act.value "id").toString
            tokenHash := (act.value "tokenHash").toString
            pinHash := (act.value "pinHash").toString
            cookieHashes := cookieHashes
            devices := alignDevices devices cookieHashes.length
            permissions := Permissions.fromJson (act.value "permissions").toObject
            ttlSecs := ttlSecs
            expiresAtSecs := expiresAt
            activatedAt := activatedAt
            pinFailures := (act.value "pinFailures").toInt 0
            streaming := false
            hostUuid := (act.value "hostUuid").toString
            appId := Int32.ofInt ((act.value "appId").toInt (-1))
            lastRefusedAt := (act.value "lastRefusedAt").toInt64 0
            lastRefusedAgent := (act.value "lastRefusedAgent").toString }
        if a.tokenHash.isEmpty || a.pinHash.isEmpty then none
        else if a.hostUuid.isEmpty then none
        else some a

/-- One turn of the loop of `load`. -/
def loadSlot (now : Int) (m : Manager) (v : QJsonValue) : Manager :=
  let obj := v.toObject
  let slot := (obj.value "slot").toInt (-1)
  if isPlayerSlot slot = false then m
  else
    let lastTtl := (obj.value "lastTtlSecs").toInt64 ttlDefault
    let s : Slot :=
      { m.slots slot with
        name := sanitizeName (obj.value "name").toString
        lastPermissions := Permissions.fromJson (obj.value "lastPermissions").toObject
        lastTtlSecs := if isValidTtl lastTtl then lastTtl else ttlDefault }
    match restoreActivation now (obj.value "activation").toObject with
    | none => m.setSlot slot s
    | some a => m.setSlot slot { s with activation := a }

def load (now : Int) : Manager :=
  match m.file with
  | none => m
  | some root => (root.value "slots").toArray.foldl (loadSlot now) m

/-- The process ends and the next one is constructed over the same file. -/
def restart (now : Int) : Manager := load { file := m.file } now

def clearActivation (slot : Int) : Manager :=
  match m.slotFor slot with
  | none => m
  | some s => if s.activation.live then m.setActivation slot {} else m

def pruneExpired (now : Int) : Manager :=
  let expired := playerSlots.filter fun slot =>
    (m.slots slot).activation.live && (m.slots slot).activation.expired now
  let m := expired.foldl clearActivation m
  if expired.isEmpty then m else save m

/-- Every slot is visited, and the last match stands. -/
def slotForTokenHash (tokenHash : QString) : Option Int :=
  if tokenHash.isEmpty then none
  else
    playerSlots.foldl
      (fun found slot =>
        let act := (m.slots slot).activation
        if act.live && constantTimeEquals act.tokenHash tokenHash then some slot else found)
      none

def rateLockout (now : Int) (bucket : QString) : Int :=
  match m.rateLimits bucket with
  | none => 0
  | some e => if e.lockoutUntil > now then e.lockoutUntil - now else 0

/-- `RATE_TIER1`, `RATE_TIER2`, `RATE_TIER3` and the lockouts they earn. -/
def rateTier1 : Nat := 3

def rateTier2 : Nat := 5

def rateTier3 : Nat := 10

def lockoutShortSecs : Int := 30

def lockoutMediumSecs : Int := 120

def lockoutLongSecs : Int := 600

/-- The remaining attempts, the lockout, and the manager with the entry updated. -/
def rateRecord (now : Int) (bucket : QString) (matched : Bool) :
    Nat × Int × Manager :=
  let e := (m.rateLimits bucket).getD {}
  let put (e : RateEntry) : Manager :=
    { m with rateLimits := Function.update m.rateLimits bucket (some e) }
  if matched then (rateTier1, 0, put { e with failures := 0, lockoutUntil := 0 })
  else
    let failures := e.failures + 1
    let lockoutUntil :=
      if failures ≥ rateTier3 then now + lockoutLongSecs
      else if failures ≥ rateTier2 then now + lockoutMediumSecs
      else if failures ≥ rateTier1 then now + lockoutShortSecs
      else e.lockoutUntil
    let remaining :=
      if failures < rateTier1 then rateTier1 - failures
      else if failures < rateTier2 then rateTier2 - failures
      else if failures < rateTier3 then rateTier3 - failures
      else 0
    let m := put { failures := failures, lastFailure := now, lockoutUntil := lockoutUntil }
    (remaining, rateLockout m now bucket, m)

/-- One failure is forgiven per quiet ten minutes. -/
def ratePurge (now : Int) : Manager :=
  { m with
    rateLimits := fun bucket =>
      match m.rateLimits bucket with
      | none => none
      | some e =>
          if e.lockoutUntil ≤ now ∧ now - e.lastFailure ≥ lockoutLongSecs then
            if e.failures - 1 = 0 then none else some { e with failures := e.failures - 1 }
          else some e }

section

variable (d : Digest)

/-- The activation `activate` mints on a slot. -/
def mint (s : Slot) (later : Int) (hostUuid : QString) (appId : Int32) (ttlSecs : Int)
    (token pin id : QString) : Activation where
  id := id
  tokenHash := d.hash token
  pinHash := d.hash pin
  tokenClear := token
  pinClear := pin
  permissions := s.lastPermissions
  ttlSecs := ttlSecs
  activatedAt := later
  expiresAtSecs := if ttlSecs > 0 then later + ttlSecs else 0
  hostUuid := hostUuid
  appId := appId

variable (m : Manager)

/-- `token`, `pin` and `id` are what the random generators yield. -/
def activate (now later : Int) (slot : Int) (hostUuid : QString) (appId : Int32)
    (ttlSecs : Int) (token pin id : QString) : Bool × Manager :=
  if isPlayerSlot slot = false then (false, m)
  else if hostUuid.isEmpty then (false, m)
  else if isValidTtl ttlSecs = false then (false, m)
  else
    let m := pruneExpired m now
    let m := if (m.slots slot).activation.live then clearActivation m slot else m
    let s := m.slots slot
    let act := mint d s later hostUuid appId ttlSecs token pin id
    (true, save (m.setSlot slot { s with activation := act, lastTtlSecs := ttlSecs }))

def setPermissions (now : Int) (slot : Int) (perms : Permissions) :
    Bool × Manager :=
  let m := pruneExpired m now
  match m.slotFor slot with
  | none => (false, m)
  | some s =>
      if s.activation.live = false then
        if s.lastPermissions = perms then (true, m)
        else (true, save (m.setSlot slot { s with lastPermissions := perms }))
      else if s.activation.permissions = perms then (true, m)
      else
        (true, save (m.setSlot slot
          { s with
            activation := { s.activation with permissions := perms }
            lastPermissions := perms }))

/-- The deadline `setTtl` leaves: counted from now, and capped by the deadline
already in force. -/
def cappedDeadline (expiresAt now ttlSecs : Int) : Int :=
  let candidate := if ttlSecs > 0 then now + ttlSecs else 0
  if expiresAt = 0 then candidate
  else if candidate > 0 then min candidate expiresAt
  else expiresAt

def setTtl (now later : Int) (slot : Int) (ttlSecs : Int) : Bool × Manager :=
  if isValidTtl ttlSecs = false then (false, m)
  else
    let m := pruneExpired m now
    match m.slotFor slot with
    | none => (false, m)
    | some s =>
        let s := { s with lastTtlSecs := ttlSecs }
        if s.activation.live = false then (true, save (m.setSlot slot s))
        else
          let act :=
            { s.activation with
              expiresAtSecs := cappedDeadline s.activation.expiresAtSecs later ttlSecs
              ttlSecs := ttlSecs }
          (true, save (m.setSlot slot { s with activation := act }))

def setName (slot : Int) (name : QString) : Bool × Manager :=
  match m.slotFor slot with
  | none => (false, m)
  | some s =>
      let clean := sanitizeName name
      if s.name = clean then (true, m)
      else (true, save (m.setSlot slot { s with name := clean }))

def deactivate (slot : Int) : Bool × Manager :=
  match m.slotFor slot with
  | none => (false, m)
  | some s =>
      if s.activation.live = false then (false, m)
      else (true, save (clearActivation m slot))

def deactivateAll : Manager :=
  let live := playerSlots.filter fun slot => (m.slots slot).activation.live
  let m := live.foldl clearActivation m
  if live.isEmpty then m else save m

inductive PinResult
  | ok | invalid | rateLimited | alreadyBound
  deriving DecidableEq

structure PinOutcome where
  result : PinResult := .invalid
  slot : Int := -1
  cookie : QString := []
  lockoutSeconds : Int := 0
  remainingAttempts : Nat := 0

def pinMatches (slot : Int) (pin : QString) : Bool :=
  !pin.isEmpty && constantTimeEquals (m.slots slot).activation.pinHash (d.hash pin)

/-- A wrong PIN on a real token, charged to the activation. -/
def chargeFailure (slot : Int) : Manager :=
  let act := (m.slots slot).activation
  let m := m.setActivation slot { act with pinFailures := act.pinFailures + 1 }
  save (if act.pinFailures + 1 ≥ maxPinFailures then clearActivation m slot else m)

/-- A correct PIN: one device per invitation, a second one is refused. -/
def bindDevice (later : Int) (slot : Int) (userAgent cookie : QString) :
    Bool × Manager :=
  let act := { (m.slots slot).activation with pinFailures := 0 }
  let agent := userAgent.simplified.left 256
  if act.cookieHashes.length ≥ maxCookiesPerActivation then
    (false, save (m.setActivation slot
      { act with lastRefusedAt := later, lastRefusedAgent := agent }))
  else
    (true, save (m.setActivation slot
      { act with
        cookieHashes := act.cookieHashes ++ [d.hash cookie]
        devices := act.devices ++ [⟨later, agent⟩] }))

/-- `cookie` is what `randomToken` yields when the PIN is accepted. -/
def redeemPin (now later : Int) (token pin rateKey userAgent cookie : QString) :
    PinOutcome × Manager :=
  let m := pruneExpired m now
  let bucket := qs "share-pin:" ++ rateKey
  let locked := rateLockout m later bucket
  if locked > 0 then ({ result := .rateLimited, lockoutSeconds := locked }, m)
  else
    let found := slotForTokenHash m (d.hash token)
    let matched := found.any fun slot => pinMatches d m slot pin
    let recorded := rateRecord m later bucket matched
    let out : PinOutcome :=
      { remainingAttempts := recorded.1, lockoutSeconds := recorded.2.1 }
    let m := recorded.2.2
    match found with
    | none => (out, m)
    | some slot =>
        if matched = false then (out, chargeFailure m slot)
        else
          let bound := bindDevice d m later slot userAgent cookie
          if bound.1 then ({ out with result := .ok, slot := slot, cookie := cookie }, bound.2)
          else ({ out with result := .alreadyBound, slot := slot }, bound.2)

/-- The slot a cookie unlocks, -1 when it matches no live activation. -/
def slotForCookie (now : Int) (cookie : QString) : Int × Manager :=
  if cookie.isEmpty then (-1, m)
  else
    let m := pruneExpired m now
    let found := playerSlots.foldl
      (fun found slot =>
        let act := (m.slots slot).activation
        if act.live && act.cookieHashes.any fun stored => constantTimeEquals stored (d.hash cookie)
        then slot else found)
      (-1)
    (found, m)

/-- The slot a token belongs to, -1 when it names no live activation. -/
def slotForToken (now : Int) (token : QString) : Int × Manager :=
  let m := pruneExpired m now
  ((slotForTokenHash m (d.hash token)).getD (-1), m)

/-- The host a slot's live activation is bound to. -/
def hostForSlot (now : Int) (slot : Int) : QString × Manager :=
  let m := pruneExpired m now
  match m.slotFor slot with
  | none => ([], m)
  | some s => (if s.activation.live then s.activation.hostUuid else [], m)

def setStreaming (slot : Int) (streaming : Bool) : Manager :=
  match m.slotFor slot with
  | none => m
  | some s =>
      if s.activation.live = false then m
      else m.setActivation slot { s.activation with streaming := streaming }

/-- What one activation handed out, kept for the record. -/
structure Mint where
  slot : Int
  hostUuid : QString
  token : QString
  pin : QString
  cookies : List QString := []

/-- The manager, the last reading of the clock and the record of what was minted. -/
structure System where
  manager : Manager := {}
  clock : Int
  mints : List Mint := []

inductive Op
  | activate (slot : Int) (hostUuid : QString) (appId : Int32) (ttlSecs : Int)
      (token pin id : QString)
  | setPermissions (slot : Int) (perms : Permissions)
  | setTtl (slot ttlSecs : Int)
  | setName (slot : Int) (name : QString)
  | deactivate (slot : Int)
  | deactivateAll
  | redeemPin (token pin rateKey userAgent cookie : QString)
  | setStreaming (slot : Int) (streaming : Bool)
  | prune
  | ratePurge
  | restart

/-- An operation with the readings of the clock it makes. `prune` is what the
accessors and the sweep do first. -/
structure Event where
  op : Op
  now : Int
  later : Int

def apply (e : Event) : Manager :=
  match e.op with
  | .activate slot hostUuid appId ttlSecs token pin id =>
      (activate d m e.now e.later slot hostUuid appId ttlSecs token pin id).2
  | .setPermissions slot perms => (setPermissions m e.now slot perms).2
  | .setTtl slot ttlSecs => (setTtl m e.now e.later slot ttlSecs).2
  | .setName slot name => (setName m slot name).2
  | .deactivate slot => (deactivate m slot).2
  | .deactivateAll => deactivateAll m
  | .redeemPin token pin rateKey userAgent cookie =>
      (redeemPin d m e.now e.later token pin rateKey userAgent cookie).2
  | .setStreaming slot streaming => setStreaming m slot streaming
  | .prune => pruneExpired m e.now
  | .ratePurge => ratePurge m e.now
  | .restart => restart m e.now

/-- The record after an event: a mint for an activation, a cookie for a PIN accepted. -/
def record (t : System) (e : Event) : List Mint :=
  match e.op with
  | .activate slot hostUuid appId ttlSecs token pin id =>
      if (activate d t.manager e.now e.later slot hostUuid appId ttlSecs token pin id).1 then
        t.mints ++ [⟨slot, hostUuid, token, pin, []⟩]
      else t.mints
  | .redeemPin token pin rateKey userAgent cookie =>
      if (redeemPin d t.manager e.now e.later token pin rateKey userAgent cookie).1.result = .ok
      then
        t.mints.map fun m =>
          if d.hash m.token = d.hash token then { m with cookies := m.cookies ++ [cookie] } else m
      else t.mints
  | _ => t.mints

/-- The clock does not run backwards. -/
def step (t : System) (e : Event) : Option System :=
  if t.clock ≤ e.now ∧ e.now ≤ e.later then
    some { manager := apply d t.manager e, clock := e.later, mints := record d t e }
  else none

/-- A fresh installation, started at `clock`. -/
def installed (clock : Int) : System := { clock := clock }

end

end MoonlightWeb.Server.ShareManager
