import MoonlightWeb.Server.AuthSessions

/-! # What calls leave alone

Home-screen keys and buckets of attempts stand apart from the sessions. A call
that is about neither leaves both tables alone.
-/

namespace MoonlightWeb.Server.AuthManager

open Qt
open Js (JsMap)

def Manager.tables (m : Manager) : QHash QString HomeScreenKey × QHash QString RateLimitEntry :=
  (m.homeScreenKeys, m.rateLimits)

def Event.tabled : Event → Bool
  | .destroySession _ => true
  | .logoutSession _ => true
  | .restart => true
  | .homeScreenKey _ _ => true
  | .redeemHomeScreenKey _ => true
  | .validatePin _ _ => true
  | .validateAdminPassword _ _ => true
  | .regeneratePin _ => true
  | _ => false

section

variable {p : Primitives} {now : Int} {e : Event} {m : Manager}

theorem saveIf_tables (c : Prop) [Decidable c] (m : Manager) :
    (if c then saveSessions m else m).tables = m.tables := by
  split_ifs <;> rfl

theorem demoteAdminSessions_tables (m : Manager) :
    (demoteAdminSessions m).2.tables = m.tables := by
  unfold demoteAdminSessions
  dsimp only
  split_ifs <;> rfl

theorem touchSession_tables (m : Manager) (now : Int) (token : QString) :
    (touchSession p m now token).tables = m.tables := by
  unfold touchSession
  split_ifs
  · rfl
  · cases m.sessions.get (p.hashToken token) with
    | none => rfl
    | some s =>
      dsimp only
      split_ifs <;> rfl

theorem updateSessionAddress_tables (m : Manager) (now : Int) (token ip : QString) :
    (updateSessionAddress p m now token ip).2.tables = m.tables := by
  unfold updateSessionAddress
  dsimp only
  cases m.sessions.get (p.hashToken token) with
  | none => rfl
  | some s =>
    dsimp only
    split_ifs <;> rfl

theorem bindSessionKey_tables (m : Manager) (token : QString) (spkiDer : QByteArray) :
    (bindSessionKey p m token spkiDer).2.tables = m.tables := by
  unfold bindSessionKey
  split_ifs
  · rfl
  · rfl
  · dsimp only
    cases m.sessions.get (p.hashToken token) with
    | none => rfl
    | some s =>
      dsimp only
      split_ifs <;> rfl

theorem promoteSessionToAdmin_tables (m : Manager) (now : Int) (token : QString) :
    (promoteSessionToAdmin p m now token).2.tables = m.tables := by
  unfold promoteSessionToAdmin
  split_ifs
  · rfl
  · cases m.sessions.get (p.hashToken token) with
    | none => rfl
    | some s =>
      dsimp only
      split_ifs <;> rfl

/-- No other event writes them. -/
theorem handle_tables (h : e.tabled = false) :
    (handle p m now e).tables = m.tables := by
  cases e with
  | tick => rfl
  | createSession token ip machineName isHost ephemeral viaTunnel =>
    simp only [handle, createSession]
    split_ifs <;> rfl
  | bindSessionKey token spkiDer => exact bindSessionKey_tables m token spkiDer
  | setSessionStreaming token streaming =>
    simp only [handle, setSessionStreaming]
    by_cases hempty : token.isEmpty = true
    · rw [if_pos hempty]
    · rw [if_neg hempty]
      exact saveIf_tables _ _
  | visit token ip =>
    simp only [handle, visit]
    split_ifs
    · rfl
    · rw [updateSessionAddress_tables, touchSession_tables]
  | setSessionGeo token city country =>
    simp only [handle, setSessionGeo]
    split_ifs <;> rfl
  | renameSession id machineName =>
    simp only [handle, renameSession]
    split_ifs <;> rfl
  | promoteSessionToAdmin token => exact promoteSessionToAdmin_tables m now token
  | setAdminPassword password salt =>
    simp only [handle, setAdminPassword]
    split_ifs
    · rfl
    · exact demoteAdminSessions_tables _
  | setRemoteAdminEnabled enabled =>
    simp only [handle, setRemoteAdminEnabled]
    split_ifs
    · rfl
    · exact demoteAdminSessions_tables _
  | destroySession => cases h
  | logoutSession => cases h
  | destroyAllSessions => rfl
  | purgeExpiredSessions =>
    simp only [handle, purgeExpiredSessions]
    split_ifs <;> rfl
  | saveSessions => rfl
  | loadSessions =>
    simp only [handle, loadSessions]
    cases m.file with
    | none => rfl
    | some root => rfl
  | restart => cases h
  | homeScreenKey => cases h
  | setHomeScreenInstances token instances =>
    simp only [handle, setHomeScreenInstances]
    split_ifs <;> rfl
  | redeemHomeScreenKey => cases h
  | validatePin => cases h
  | validateAdminPassword => cases h
  | generatePin => rfl
  | regeneratePin => cases h
  | autoRegeneratePin => rfl
  | clearPin => rfl

end

end MoonlightWeb.Server.AuthManager
