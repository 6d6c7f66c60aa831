import MoonlightWeb.Qt.Base64
import MoonlightWeb.Server.AuthManager

/-! # Sessions that are read back

`restored` says what a written session comes back as. A key is kept when it
parses, and every key a session carries did when it was bound.
-/

namespace MoonlightWeb.Server.AuthManager

open Qt
open Js (JsMap)
open ShareManager (whole toInt64_whole)
open List

/-- No key, or one that parses. -/
def ValidKey (p : Primitives) (s : SessionInfo) : Prop :=
  s.pairingKey = [] ∨ p.crypto.isValidP256Spki s.pairingKey = true

def restored (keepAdminFlags : Bool) (s : SessionInfo) : SessionInfo :=
  { s with streaming := false, ephemeral := false, isAdmin := keepAdminFlags && s.isAdmin }

variable (s : SessionInfo)

def storedKey : QString := (QByteArray.toBase64 s.pairingKey).toQString

theorem storedKey_isEmpty : (storedKey s).isEmpty = s.pairingKey.isEmpty := by
  unfold storedKey QByteArray.toQString
  rw [isEmpty_map]
  match hkey : s.pairingKey with
  | [] => rfl
  | [_] => rfl
  | [_, _] => rfl
  | _ :: _ :: _ :: _ => rfl

/-- Every field `loadSessions` reads is the one `saveSessions` wrote. -/
theorem session_fields :
    s.toJson.value "token" = .string s.token ∧
    (s.toJson.value "pairing_key").toString = storedKey s ∧
    s.toJson.value "ip" = .string s.ip ∧
    s.toJson.value "machine_name" = .string s.machineName ∧
    s.toJson.value "city" = .string s.city ∧
    s.toJson.value "country" = .string s.country ∧
    s.toJson.value "created_at" = whole s.createdAt ∧
    s.toJson.value "last_seen" = whole s.lastSeen ∧
    s.toJson.contains "last_seen" = true ∧
    s.toJson.value "is_host" = .bool s.isHost ∧
    s.toJson.value "is_admin" = .bool s.isAdmin ∧
    s.toJson.value "via_tunnel" = .bool s.viaTunnel := by
  have hstored : s.pairingKey = [] → storedKey s = [] := by
    intro hkey
    simp [storedKey, hkey, QByteArray.toBase64, QByteArray.toQString]
  by_cases hkey : s.pairingKey = []
  · have hjson : s.toJson = { s with pairingKey := [] }.toJson := by
      rw [← hkey]
    rw [hjson, hstored hkey]
    exact ⟨rfl, rfl, rfl, rfl, rfl, rfl, rfl, rfl, rfl, rfl, rfl, rfl⟩
  · obtain ⟨byte, rest, hcons⟩ := exists_cons_of_ne_nil hkey
    have hjson : s.toJson = { s with pairingKey := byte :: rest }.toJson := by
      rw [← hcons]
    rw [hjson]
    refine ⟨rfl, ?_, rfl, rfl, rfl, rfl, rfl, rfl, rfl, rfl, rfl, rfl⟩
    unfold storedKey
    rw [hcons]
    rfl

theorem expired_iff {s : SessionInfo} {now : Int} (h : s.ephemeral = false) :
    s.expired now = true ↔ now - s.last > sessionTtlSecs := by
  simp [SessionInfo.expired, ttlFor, h]

variable {p : Primitives}

theorem restoreSession_toJson {s : SessionInfo} (hvalid : ValidKey p s)
    (keepAdminFlags : Bool) (now : Int) :
    restoreSession p keepAdminFlags now s.toJson =
      if now - s.last > sessionTtlSecs then none else some (restored keepAdminFlags s) := by
  obtain ⟨htoken, hkey, hip, hname, hcity, hcountry, hcreated, hseen, hcontains, hhost, hadmin,
    htunnel⟩ := session_fields s
  have hback : QByteArray.fromBase64 (storedKey s).toUtf8 = s.pairingKey :=
    QByteArray.fromBase64_toQString_toBase64 s.pairingKey
  have hparsed :
      (if !(storedKey s).isEmpty && p.crypto.isValidP256Spki s.pairingKey then s.pairingKey
        else []) = s.pairingKey := by
    rw [storedKey_isEmpty]
    rcases hvalid with hnil | hgood
    · simp [hnil]
    · cases hshape : s.pairingKey with
      | nil => rfl
      | cons byte rest => simp [← hshape, hgood]
  unfold restoreSession
  simp only [htoken, hkey, hip, hname, hcity, hcountry, hcreated, hseen, hcontains, hhost, hadmin,
    htunnel, hback, hparsed, toInt64_whole, QJsonValue.toString_string, QJsonValue.toBool, if_true]
  rfl

section

variable (p : Primitives) (keepAdminFlags : Bool) (now : Int)

def readBack (records : List SessionInfo) : QHash QString SessionInfo :=
  (records.map fun s => QJsonValue.object s.toJson).foldl (loadSession p keepAdminFlags now)
    JsMap.empty

theorem readBack_snoc (records : List SessionInfo) {r : SessionInfo} (hvalid : ValidKey p r) :
    readBack p keepAdminFlags now (records ++ [r]) =
      if now - r.last > sessionTtlSecs then readBack p keepAdminFlags now records
      else (readBack p keepAdminFlags now records).set r.token (restored keepAdminFlags r) := by
  unfold readBack
  rw [map_append, foldl_append]
  simp only [map_cons, map_nil, foldl_cons, foldl_nil, loadSession,
    QJsonValue.toObject_object, restoreSession_toJson hvalid]
  split_ifs <;> rfl

/-- What the table holds was written and has not expired. -/
theorem readBack_some {records : List SessionInfo} (hvalid : ∀ r ∈ records, ValidKey p r)
    {id : QString} {s : SessionInfo} (h : (readBack p keepAdminFlags now records).get id = some s) :
    ∃ r ∈ records, r.token = id ∧ ¬ now - r.last > sessionTtlSecs ∧
      s = restored keepAdminFlags r := by
  induction records using List.reverseRecOn with
  | nil => simp [readBack] at h
  | append_singleton records r ih =>
    have hmem : r ∈ records ++ [r] := by simp
    have ih' (hrest : (readBack p keepAdminFlags now records).get id = some s) :
        ∃ r' ∈ records ++ [r], r'.token = id ∧ ¬ now - r'.last > sessionTtlSecs ∧
          s = restored keepAdminFlags r' := by
      obtain ⟨r', hr', hrest⟩ := ih (fun r' hr' => hvalid r' (mem_append_left _ hr')) hrest
      exact ⟨r', mem_append_left _ hr', hrest⟩
    rw [readBack_snoc p keepAdminFlags now records (hvalid r hmem)] at h
    split_ifs at h with hexpired
    · exact ih' h
    · by_cases hid : id = r.token
      · rw [hid, JsMap.get_set_self] at h
        exact ⟨r, hmem, hid.symm, hexpired, (Option.some.inj h).symm⟩
      · rw [JsMap.get_set_of_ne _ _ hid] at h
        exact ih' h

/-- What was written and has not expired is in the table, ids written once. -/
theorem readBack_of_mem {records : List SessionInfo} (hvalid : ∀ r ∈ records, ValidKey p r)
    (hnodup : (records.map SessionInfo.token).Nodup) {r : SessionInfo} (hr : r ∈ records)
    (hfresh : ¬ now - r.last > sessionTtlSecs) :
    (readBack p keepAdminFlags now records).get r.token = some (restored keepAdminFlags r) := by
  induction records using List.reverseRecOn with
  | nil => cases hr
  | append_singleton records last ih =>
    have hlast : last ∈ records ++ [last] := by simp
    rw [map_append, nodup_append] at hnodup
    obtain ⟨hrest, -, hapart⟩ := hnodup
    rw [readBack_snoc p keepAdminFlags now records (hvalid last hlast)]
    rcases mem_append.mp hr with hold | hnew
    · have hback := ih (fun r' hr' => hvalid r' (mem_append_left _ hr')) hrest hold
      have hne : r.token ≠ last.token :=
        hapart r.token (mem_map.mpr ⟨r, hold, rfl⟩) last.token (by simp)
      split_ifs with hexpired
      · exact hback
      · rw [JsMap.get_set_of_ne _ _ hne]
        exact hback
    · obtain rfl : r = last := mem_singleton.mp hnew
      rw [if_neg hfresh, JsMap.get_set_self]

end

theorem loadSessions_sessions {m : Manager} {records : List SessionInfo}
    (h : m.file = some (document records)) (now : Int) :
    (loadSessions p m now).sessions =
      readBack p (m.remoteAdminEnabled && m.adminPasswordSet) now records := by
  unfold loadSessions
  rw [h]
  rfl

theorem loadSessions_none {m : Manager} (h : m.file = none) (now : Int) :
    loadSessions p m now = m := by
  unfold loadSessions
  rw [h]

/-- Loading leaves everything but the table alone. -/
theorem loadSessions_frame (p : Primitives) (m : Manager) (now : Int) :
    (loadSessions p m now).file = m.file ∧
      (loadSessions p m now).remoteAdminEnabled = m.remoteAdminEnabled ∧
      (loadSessions p m now).adminPasswordDigest = m.adminPasswordDigest ∧
      (loadSessions p m now).homeScreenKeys = m.homeScreenKeys := by
  unfold loadSessions
  cases hfile : m.file with
  | none => simp [hfile]
  | some root => simp

end MoonlightWeb.Server.AuthManager
