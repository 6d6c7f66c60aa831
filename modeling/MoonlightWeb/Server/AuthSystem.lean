import MoonlightWeb.Lib.Run
import MoonlightWeb.Server.AuthManager

/-! # Runs of the session manager

The clock, the manager and the calls the program makes of it. Tokens and
home-screen keys are random: one that was drawn before is not drawn again. Both
routes that promote a session do so with the door open, and activity is noted
only of a session that validated.
-/

namespace MoonlightWeb.Server.AuthManager

open Qt
open Js (JsMap)
open Lib

/-- `used` and `keys` are the session ids and the home-screen keys drawn so far. -/
structure World where
  now : Int
  manager : Manager
  used : List QString
  keys : List QString

/-- A fresh install at `now` under given settings. -/
def World.initial (now : Int) (remoteAdminEnabled : Bool) (adminPasswordDigest : QString) : World where
  now := now
  manager :=
    { remoteAdminEnabled := remoteAdminEnabled, adminPasswordDigest := adminPasswordDigest }
  used := []
  keys := []

def World.session (w : World) (id : QString) : Option SessionInfo := w.manager.sessions.get id

/-- The ids of the sessions in `sessions.json`. -/
def World.written (w : World) : List QString :=
  match w.manager.file with
  | none => []
  | some root =>
      (root.value "sessions").toArray.map fun val => (val.toObject.value "token").toString

inductive Event
  | tick (secs : Nat)
  | createSession (token ip machineName : QString) (isHost ephemeral viaTunnel : Bool)
  | bindSessionKey (token : QString) (spkiDer : QByteArray)
  | setSessionStreaming (token : QString) (streaming : Bool)
  | visit (token ip : QString)
  | setSessionGeo (token city country : QString)
  | renameSession (id machineName : QString)
  | promoteSessionToAdmin (token : QString)
  | setAdminPassword (password : QString) (salt : QByteArray)
  | setRemoteAdminEnabled (enabled : Bool)
  | destroySession (id : QString)
  | logoutSession (token : QString)
  | destroyAllSessions
  | purgeExpiredSessions
  | saveSessions
  | loadSessions
  | restart
  | homeScreenKey (token : QString) (random : QByteArray)
  | setHomeScreenInstances (token : QString) (instances : List QJsonValue)
  | redeemHomeScreenKey (key : QString)
  | validatePin (ip pin : QString)
  | validateAdminPassword (ip password : QString)
  | generatePin (pin : QString)
  | regeneratePin (pin : QString)
  | autoRegeneratePin (pin : QString)
  | clearPin

section

variable (p : Primitives)

variable (m : Manager)

/-- `/api/auth/status` with a session cookie. -/
def visit (now : Int) (token ip : QString) : Manager :=
  if validateSession p m now token = false then m
  else (updateSessionAddress p (touchSession p m now token) now token ip).2

def applyEnabled : Option Bool → Manager
  | none => m
  | some enabled => setRemoteAdminEnabled m enabled

/-- `/api/admin/password`: the switch first, then the password; a caller who was an
admin is handed the access back. -/
def changeAdmin (now : Int) (token : QString) (enabled : Option Bool)
    (password : QString) (salt : QByteArray) : Bool × Manager :=
  let callerWasRemoteAdmin := isAdminSession p m now token
  let m := applyEnabled m enabled
  if password.isEmpty = false ∧ (setAdminPassword p m password salt).1 = false then (false, m)
  else
    let m := if password.isEmpty then m else (setAdminPassword p m password salt).2
    if callerWasRemoteAdmin && m.remoteAdminEnabled then
      (true, (promoteSessionToAdmin p m now token).2)
    else (true, m)

/-- The text of the key minted from `random`. -/
def mintedKey (random : QByteArray) : QString :=
  homeScreenKeyMark ++ (toBase64Url random).toQString

/-- The manager after an event; the clock's own event leaves it alone. -/
def handle (now : Int) : Event → Manager
  | .tick _ => m
  | .createSession token ip machineName isHost ephemeral viaTunnel =>
      createSession p m now token ip machineName isHost ephemeral viaTunnel
  | .bindSessionKey token spkiDer => (bindSessionKey p m token spkiDer).2
  | .setSessionStreaming token streaming => setSessionStreaming p m token streaming
  | .visit token ip => visit p m now token ip
  | .setSessionGeo token city country => setSessionGeo p m token city country
  | .renameSession id machineName => (renameSession m id machineName).2
  | .promoteSessionToAdmin token => (promoteSessionToAdmin p m now token).2
  | .setAdminPassword password salt => (setAdminPassword p m password salt).2
  | .setRemoteAdminEnabled enabled => setRemoteAdminEnabled m enabled
  | .destroySession id => destroySession m id
  | .logoutSession token => (logoutSession p m token).2
  | .destroyAllSessions => destroyAllSessions m
  | .purgeExpiredSessions => purgeExpiredSessions m now
  | .saveSessions => AuthManager.saveSessions m
  | .loadSessions => AuthManager.loadSessions p m now
  | .restart => restart p m now
  | .homeScreenKey token random => (homeScreenKey p m now token random).2
  | .setHomeScreenInstances token instances => setHomeScreenInstances p m now token instances
  | .redeemHomeScreenKey key => (redeemHomeScreenKey m now key).2
  | .validatePin ip pin => (validatePin p m now ip pin).2
  | .validateAdminPassword ip password => (validateAdminPassword p m now ip password).2
  | .generatePin pin => generatePin m pin
  | .regeneratePin pin => regeneratePin m pin
  | .autoRegeneratePin pin => autoRegeneratePin m pin
  | .clearPin => clearPin m

variable (w : World)

/-- What is drawn is fresh, and the door is open to a promotion. -/
def World.allows : Event → Bool
  | .createSession token _ _ _ _ _ => !w.used.contains (p.hashToken token)
  | .homeScreenKey _ random => !w.keys.contains (mintedKey random)
  | .promoteSessionToAdmin _ => w.manager.remoteAdminEnabled && w.manager.adminPasswordSet
  | _ => true

def World.drawnIds : Event → List QString
  | .createSession token _ _ _ _ _ => p.hashToken token :: w.used
  | _ => w.used

def World.drawnKeys : Event → List QString
  | .homeScreenKey _ random => mintedKey random :: w.keys
  | _ => w.keys

def World.clock : Event → Int
  | .tick secs => w.now + secs
  | _ => w.now

def step (e : Event) : Option World :=
  if w.allows p e then
    some
      { now := w.clock e
        manager := handle p w.manager w.now e
        used := w.drawnIds p e
        keys := w.drawnKeys e }
  else none

theorem step_eq_some {w v : World} {e : Event} (h : step p w e = some v) :
    w.allows p e = true ∧ v.now = w.clock e ∧ v.manager = handle p w.manager w.now e ∧
      v.used = w.drawnIds p e ∧ v.keys = w.drawnKeys e := by
  unfold step at h
  split_ifs at h with hallowed
  obtain rfl := Option.some.inj h
  exact ⟨hallowed, rfl, rfl, rfl, rfl⟩

end

end MoonlightWeb.Server.AuthManager
