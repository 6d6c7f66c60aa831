import MoonlightWeb.Server.AuthPersistence
import MoonlightWeb.Server.AuthSystem

/-! # What becomes of a session

Every session after an event was one before it under the same id, or has just
been created. `Heir` says what such a step may change of it, `Follows` what the
file relies on when the event did not write it.
-/

namespace MoonlightWeb.Server.AuthManager

open Qt
open Js (JsMap)
open Lib

variable (p : Primitives)

/-- The event sets the streaming flag of a session. -/
def Event.starts : Event → QString → Prop
  | .setSessionStreaming token true, id => token ≠ [] ∧ p.hashToken token = id
  | _, _ => False

/-- The event changes the admin password or takes it away. -/
def Event.demotes : Event → Prop
  | .setAdminPassword password _ => minAdminPasswordLen ≤ password.length
  | .setRemoteAdminEnabled enabled => enabled = false
  | _ => False

/-- The event unlocks admin access for a session. -/
def Event.promotes : Event → QString → Prop
  | .promoteSessionToAdmin token, id => p.hashToken token = id
  | _, _ => False

def Event.creates (now : Int) : Event → QString → SessionInfo → Prop
  | .createSession token ip machineName isHost ephemeral viaTunnel, id, s =>
      p.hashToken token = id ∧ s = newSession now id ip machineName isHost ephemeral viaTunnel
  | _, _, _ => False

/-- The event reads `sessions.json`. -/
def Event.loads : Event → Bool
  | .loadSessions => true
  | .restart => true
  | _ => false

/-- Activity is never later than the clock. -/
def SessionInfo.Past (s : SessionInfo) (now : Int) : Prop := s.lastSeen ≤ now ∧ s.createdAt ≤ now

/-- `s'` is what an event at `now` leaves of `s` under `id`. -/
structure Heir (p : Primitives) (now : Int) (e : Event) (id : QString) (s s' : SessionInfo) :
    Prop where
  token : s'.token = s.token
  ephemeral : s'.ephemeral = s.ephemeral
  key : s'.pairingKey = s.pairingKey ∨
    s.pairingKey = [] ∧ p.crypto.isValidP256Spki s'.pairingKey = true
  admin : s'.isAdmin = true → ¬ e.demotes ∧ (s.isAdmin = true ∨ e.promotes p id)
  streaming : s'.streaming = true →
    e.starts p id ∨ s.streaming = true ∧ ∀ other, ¬ e.starts p other
  alive : s'.expired now = false → s.expired now = false
  past : s.Past now → s'.Past now

/-- `s'` is a session the record `r` of the file still speaks of. -/
structure Follows (r s' : SessionInfo) : Prop where
  ephemeral : s'.ephemeral = false
  key : s'.pairingKey = r.pairingKey
  admin : r.isAdmin = true → s'.isAdmin = true
  last : r.last ≤ s'.last

abbrev Table := QHash QString SessionInfo

/-- Every session of `t'` is the heir of one of `t`, or new. -/
def Heirs (now : Int) (e : Event) (t t' : Table) : Prop :=
  ∀ id s', t'.get id = some s' →
    (∃ s, t.get id = some s ∧ Heir p now e id s s') ∨ e.creates p now id s'

/-- Every session of `t` that is written is still in `t'`. -/
def Followed (t t' : Table) : Prop :=
  ∀ id s, t.get id = some s → s.ephemeral = false → ∃ s', t'.get id = some s' ∧ Follows s s'

/-- `t'` is `t` with one session written over. -/
def Writes (t : Table) (changed : QString) (s' : SessionInfo) (t' : Table) : Prop :=
  ∀ id, t'.get id = if id = changed then some s' else t.get id

structure Event.Quiet (p : Primitives) (e : Event) : Prop where
  starts : ∀ other, ¬ e.starts p other
  demotes : ¬ e.demotes

/-- The events that have nothing to do with either. -/
def Event.mild : Event → Bool
  | .setSessionStreaming _ _ => false
  | .setAdminPassword _ _ => false
  | .setRemoteAdminEnabled _ => false
  | _ => true

section

variable {p : Primitives} {now : Int} {e : Event} {id changed : QString} {s s' : SessionInfo}
variable {t t' : Table}

theorem Event.Quiet.of_mild (h : e.mild = true) : e.Quiet p := by
  cases e with
  | setSessionStreaming token streaming => cases h
  | setAdminPassword password salt => cases h
  | setRemoteAdminEnabled enabled => cases h
  | _ => exact ⟨fun _ hstarts => hstarts, fun hdemotes => hdemotes⟩

theorem Heir.refl (h : e.Quiet p) (id : QString) (s : SessionInfo) : Heir p now e id s s where
  token := rfl
  ephemeral := rfl
  key := Or.inl rfl
  admin hadmin := ⟨h.demotes, Or.inl hadmin⟩
  streaming hstreaming := Or.inr ⟨hstreaming, h.starts⟩
  alive := fun h => h
  past := fun h => h

theorem Follows.refl (h : s.ephemeral = false) : Follows s s where
  ephemeral := h
  key := rfl
  admin := fun h => h
  last := le_refl _

theorem Follows.trans {r : SessionInfo} (h : Follows r s) (h' : Follows s s') : Follows r s' where
  ephemeral := h'.ephemeral
  key := h'.key.trans h.key
  admin hadmin := h'.admin (h.admin hadmin)
  last := le_trans h.last h'.last

theorem Heirs.refl (h : e.Quiet p) (t : Table) : Heirs p now e t t :=
  fun id s' hget => Or.inl ⟨s', hget, Heir.refl h id s'⟩

theorem Followed.refl (t : Table) : Followed t t :=
  fun _ s hget hephemeral => ⟨s, hget, Follows.refl hephemeral⟩

theorem heirs_empty (t : Table) : Heirs p now e t JsMap.empty := by
  intro id s' hget
  simp at hget

theorem heirs_delete (h : e.Quiet p) (t : Table) (gone : QString) :
    Heirs p now e t (t.delete gone) := by
  intro id s' hget
  by_cases hid : id = gone
  · rw [hid, JsMap.get_delete_self] at hget
    cases hget
  · rw [JsMap.get_delete_of_ne t hid] at hget
    exact Or.inl ⟨s', hget, Heir.refl h id s'⟩

theorem heirs_filter (h : e.Quiet p) (t : Table) (keep : QString → SessionInfo → Bool) :
    Heirs p now e t (t.filter keep) := by
  intro id s' hget
  rw [JsMap.get_filter, Option.filter_eq_some_iff] at hget
  exact Or.inl ⟨s', hget.1, Heir.refl h id s'⟩

theorem heirs_map {f : QString → SessionInfo → SessionInfo}
    (hmap : ∀ id, t'.get id = (t.get id).map (f id))
    (h : ∀ id s, t.get id = some s → Heir p now e id s (f id s)) : Heirs p now e t t' := by
  intro id s' hget
  rw [hmap, Option.map_eq_some_iff] at hget
  obtain ⟨s, hs, rfl⟩ := hget
  exact Or.inl ⟨s, hs, h id s hs⟩

theorem writes_set (t : Table) (changed : QString) (s' : SessionInfo) :
    Writes t changed s' (t.set changed s') := by
  intro id
  by_cases hid : id = changed
  · rw [if_pos hid, hid, JsMap.get_set_self]
  · rw [if_neg hid, JsMap.get_set_of_ne t _ hid]

theorem writes_modify {f : SessionInfo → SessionInfo} (hget : t.get changed = some s) :
    Writes t changed (f s) (t.modify changed f) := by
  intro id
  rw [JsMap.get_modify]
  split_ifs with hid
  · rw [hid, hget]
    rfl
  · rfl

theorem Writes.again {s'' : SessionInfo} (h : Writes t changed s' t') :
    Writes t changed s'' (t'.set changed s'') := by
  intro id
  rw [writes_set t' changed s'' id]
  split_ifs with hid
  · rfl
  · rw [h id, if_neg hid]

theorem heirs_writes (h : e.Quiet p) (hwrites : Writes t changed s' t')
    (hs : (∃ s, t.get changed = some s ∧ Heir p now e changed s s') ∨
      e.creates p now changed s') : Heirs p now e t t' := by
  intro id r hr
  rw [hwrites id] at hr
  split_ifs at hr with hid
  · obtain rfl := Option.some.inj hr
    rw [hid]
    exact hs
  · exact Or.inl ⟨r, hr, Heir.refl h id r⟩

theorem followed_writes (hwrites : Writes t changed s' t')
    (hs : ∀ s, t.get changed = some s → s.ephemeral = false → Follows s s') : Followed t t' := by
  intro id r hr hephemeral
  rw [hwrites id]
  split_ifs with hid
  · rw [hid] at hr
    exact ⟨s', rfl, hs r hr hephemeral⟩
  · exact ⟨r, hr, Follows.refl hephemeral⟩

theorem followed_map {f : QString → SessionInfo → SessionInfo}
    (hmap : ∀ id, t'.get id = (t.get id).map (f id))
    (h : ∀ id s, t.get id = some s → s.ephemeral = false → Follows s (f id s)) :
    Followed t t' := by
  intro id s hget hephemeral
  refine ⟨f id s, ?_, h id s hget hephemeral⟩
  rw [hmap, hget]
  rfl

end

def Manager.doorOpen (m : Manager) : Bool := m.remoteAdminEnabled && m.adminPasswordSet

structure Moves (p : Primitives) (now : Int) (e : Event) (m m' : Manager) : Prop where
  heirs : Heirs p now e m.sessions m'.sessions
  filed : m'.file = some (document (persistent m'.sessions.values)) ∨
    m'.file = m.file ∧ Followed m.sessions m'.sessions
  door : ¬ e.demotes → m.doorOpen = true → m'.doorOpen = true

open Moves

section

variable {p : Primitives} {now : Int} {e : Event} {m m' : Manager} {token : QString}

/-- A call on other members. -/
theorem Moves.same (h : e.Quiet p) (hsessions : m'.sessions = m.sessions) (hfile : m'.file = m.file)
    (hdoor : m'.doorOpen = m.doorOpen) : Moves p now e m m' where
  heirs := by
    rw [hsessions]
    exact Heirs.refl h m.sessions
  filed := by
    rw [hsessions]
    exact Or.inr ⟨hfile, Followed.refl m.sessions⟩
  door _ hopen := hdoor.trans hopen

theorem Moves.refl (h : e.Quiet p) (m : Manager) : Moves p now e m m := same h rfl rfl rfl

/-- A call that ends with `saveSessions`. -/
theorem Moves.saved (hheirs : Heirs p now e m.sessions m'.sessions)
    (hdoor : ¬ e.demotes → m.doorOpen = true → m'.doorOpen = true) :
    Moves p now e m (saveSessions m') where
  heirs := hheirs
  filed := Or.inl rfl
  door := hdoor

/-- A call that saves only sometimes. -/
theorem Moves.savedIf {c : Prop} [Decidable c] (hheirs : Heirs p now e m.sessions m'.sessions)
    (hfollowed : Followed m.sessions m'.sessions) (hfile : m'.file = m.file)
    (hdoor : ¬ e.demotes → m.doorOpen = true → m'.doorOpen = true) :
    Moves p now e m (if c then saveSessions m' else m') := by
  split_ifs
  · exact saved hheirs hdoor
  · exact ⟨hheirs, Or.inr ⟨hfile, hfollowed⟩, hdoor⟩

theorem validateSession_iff :
    validateSession p m now token = true ↔
      token ≠ [] ∧ ∃ s, m.sessions.get (p.hashToken token) = some s ∧ s.expired now = false := by
  unfold validateSession
  cases hget : m.sessions.get (p.hashToken token) with
  | none => simp
  | some s => simp [SessionInfo.expired]

theorem moves_createSession {ip machineName : QString} {isHost ephemeral viaTunnel : Bool}
    (hfresh : m.sessions.get (p.hashToken token) = none) :
    Moves p now (.createSession token ip machineName isHost ephemeral viaTunnel) m
      (createSession p m now token ip machineName isHost ephemeral viaTunnel) := by
  have hwrites := writes_set m.sessions (p.hashToken token)
    (newSession now (p.hashToken token) ip machineName isHost ephemeral viaTunnel)
  have hheirs : Heirs p now (.createSession token ip machineName isHost ephemeral viaTunnel)
      m.sessions _ :=
    heirs_writes (.of_mild rfl) hwrites (Or.inr ⟨rfl, rfl⟩)
  unfold createSession
  cases ephemeral with
  | false => exact saved hheirs fun _ h => h
  | true =>
    refine ⟨hheirs, Or.inr ⟨rfl, followed_writes hwrites ?_⟩, fun _ h => h⟩
    intro s hget
    rw [hfresh] at hget
    cases hget

theorem moves_bindSessionKey {spkiDer : QByteArray} :
    Moves p now (.bindSessionKey token spkiDer) m (bindSessionKey p m token spkiDer).2 := by
  have hquiet : (Event.bindSessionKey token spkiDer).Quiet p := .of_mild rfl
  unfold bindSessionKey
  by_cases hempty : token.isEmpty = true
  · rw [if_pos hempty]
    exact refl hquiet m
  by_cases hvalid : p.crypto.isValidP256Spki spkiDer = false
  · rw [if_neg hempty, if_pos hvalid]
    exact refl hquiet m
  rw [if_neg hempty, if_neg hvalid]
  dsimp only
  cases hget : m.sessions.get (p.hashToken token) with
  | none => exact refl hquiet m
  | some s =>
    dsimp only
    by_cases hkey : s.pairingKey.isEmpty = false
    · rw [if_pos hkey]
      exact refl hquiet m
    rw [if_neg hkey]
    have hnil : s.pairingKey = [] := by simpa using hkey
    have hwrites := writes_set m.sessions (p.hashToken token) { s with pairingKey := spkiDer }
    have hheir : Heir p now (.bindSessionKey token spkiDer) (p.hashToken token) s
        { s with pairingKey := spkiDer } :=
      { Heir.refl hquiet (p.hashToken token) s with
        key := Or.inr ⟨hnil, by simpa using hvalid⟩ }
    have hheirs := heirs_writes hquiet hwrites (Or.inl ⟨s, hget, hheir⟩)
    by_cases hephemeral : s.ephemeral = true
    · rw [if_pos hephemeral]
      refine ⟨hheirs, Or.inr ⟨rfl, followed_writes hwrites ?_⟩, fun _ h => h⟩
      intro r hr hpersistent
      rw [hget] at hr
      obtain rfl := Option.some.inj hr
      rw [hephemeral] at hpersistent
      cases hpersistent
    · rw [if_neg hephemeral]
      exact saved hheirs fun _ h => h

/-- The flag a session is left with when `id` is marked. -/
def flagAfter (id : QString) (streaming : Bool) (key : QString) (s : SessionInfo) : Bool :=
  if key = id then streaming else s.streaming && !streaming

variable {s : SessionInfo} {streaming : Bool}

theorem streaming_self (h : s.streaming = streaming) :
    { s with streaming := streaming } = s := by
  subst h
  rfl

theorem get_streamed (t : Table) (id : QString) (streaming : Bool) (key : QString) :
    ((if streaming then
        t.mapEntries fun key s =>
          if key ≠ id && s.streaming then { s with streaming := false } else s
      else t).modify id fun s => { s with streaming := streaming }).get key =
      (t.get key).map fun s => { s with streaming := flagAfter id streaming key s } := by
  rw [JsMap.get_modify]
  cases streaming with
  | false =>
    rw [if_neg Bool.false_ne_true]
    cases t.get key with
    | none => simp
    | some s =>
      by_cases hkey : key = id
      · simp [flagAfter, hkey]
      · simp [flagAfter, hkey]
  | true =>
    rw [if_pos rfl, JsMap.get_mapEntries]
    cases t.get key with
    | none => simp
    | some s =>
      by_cases hkey : key = id
      · simp [flagAfter, hkey]
      · cases hflag : s.streaming with
        | true => simp [flagAfter, hkey, hflag]
        | false =>
          have hself := streaming_self hflag
          simp [flagAfter, hkey, hflag, hself]

theorem heir_streamed (htoken : token ≠ []) (id : QString) (s : SessionInfo) :
    Heir p now (.setSessionStreaming token streaming) id s
      { s with streaming := flagAfter (p.hashToken token) streaming id s } where
  token := rfl
  ephemeral := rfl
  key := Or.inl rfl
  admin hadmin := ⟨fun h => h, Or.inl hadmin⟩
  streaming hstreaming := by
    simp only [flagAfter] at hstreaming
    cases streaming with
    | false =>
      split_ifs at hstreaming with hid
      exact Or.inr ⟨by simpa using hstreaming, fun _ h => h⟩
    | true =>
      split_ifs at hstreaming with hid
      · exact Or.inl ⟨htoken, hid.symm⟩
      · simp at hstreaming
  alive := fun h => h
  past := fun h => h

theorem moves_setSessionStreaming :
    Moves p now (.setSessionStreaming token streaming) m
      (setSessionStreaming p m token streaming) := by
  unfold setSessionStreaming
  by_cases hempty : token.isEmpty = true
  · rw [if_pos hempty]
    have hnil : token = [] := by simpa using hempty
    have hquiet : (Event.setSessionStreaming token streaming).Quiet p := by
      refine ⟨?_, fun h => h⟩
      intro other hstarts
      cases streaming with
      | false => exact hstarts
      | true => exact hstarts.1 hnil
    exact refl hquiet m
  rw [if_neg hempty]
  have htoken : token ≠ [] := by simpa using hempty
  have hmap := get_streamed m.sessions (p.hashToken token) streaming
  have hheirs : Heirs p now (.setSessionStreaming token streaming) m.sessions _ :=
    heirs_map hmap fun id s _ => heir_streamed htoken id s
  have hfollowed := followed_map hmap fun _ s _ hephemeral =>
    { Follows.refl hephemeral with }
  exact savedIf hheirs hfollowed rfl fun _ h => h

/-- A session seen now: activity is later, the rest is the same. -/
theorem last_seen_le (hpast : s.Past now) :
    s.last ≤ ({ s with lastSeen := now } : SessionInfo).last := by
  obtain ⟨hseen, hcreated⟩ := hpast
  simp only [SessionInfo.last]
  split_ifs <;> omega

/-- The address of a session just seen: the same manager, or one saved. -/
theorem updateSessionAddress_seen {ip : QString}
    (hget : m.sessions.get (p.hashToken token) = some s) (hseen : s.lastSeen = now) :
    (updateSessionAddress p m now token ip).2 = m ∨
      (updateSessionAddress p m now token ip).2 =
        saveSessions { m with
          sessions := m.sessions.set (p.hashToken token)
            { s with ip := cleanClientAddress ip, city := [], country := [] } } := by
  subst hseen
  unfold updateSessionAddress
  dsimp only
  rw [hget]
  dsimp only
  split_ifs with hsame
  · left
    rw [JsMap.set_of_get hget]
  · exact Or.inr rfl

theorem touchSession_of_get (htoken : token ≠ [])
    (hget : m.sessions.get (p.hashToken token) = some s) :
    touchSession p m now token =
      let m' := { m with
        sessions := m.sessions.set (p.hashToken token) { s with lastSeen := now } }
      if s.ephemeral = false ∧ now - s.lastSeen ≥ 3600 then saveSessions m' else m' := by
  unfold touchSession
  rw [if_neg (by simpa using htoken), hget]

theorem moves_visit {ip : QString} (hpast : ∀ id s, m.sessions.get id = some s → s.Past now) :
    Moves p now (.visit token ip) m (visit p m now token ip) := by
  have hquiet : (Event.visit token ip).Quiet p := .of_mild rfl
  unfold visit
  by_cases hvalid : validateSession p m now token = false
  · rw [if_pos hvalid]
    exact refl hquiet m
  rw [if_neg hvalid]
  obtain ⟨htoken, s, hget, halive⟩ := validateSession_iff.mp (by simpa using hvalid)
  have hsame : Heir p now (.visit token ip) (p.hashToken token) s s := Heir.refl hquiet _ s
  have hseen : Heir p now (.visit token ip) (p.hashToken token) s { s with lastSeen := now } :=
    { hsame with
      alive := fun _ => halive
      past := fun h => ⟨le_refl now, h.2⟩ }
  have hwrites := writes_set m.sessions (p.hashToken token) { s with lastSeen := now }
  have hfollowed := followed_writes hwrites (by
    intro r hr hephemeral
    rw [hget] at hr
    obtain rfl := Option.some.inj hr
    exact { Follows.refl hephemeral with last := last_seen_le (hpast _ s hget) })
  have htouch : Moves p now (.visit token ip) m (touchSession p m now token) := by
    rw [touchSession_of_get htoken hget]
    exact savedIf (heirs_writes hquiet hwrites (Or.inl ⟨s, hget, hseen⟩)) hfollowed rfl
      fun _ h => h
  have hsessions : (touchSession p m now token).sessions =
      m.sessions.set (p.hashToken token) { s with lastSeen := now } := by
    rw [touchSession_of_get htoken hget]
    dsimp only
    split_ifs <;> rfl
  have hdoor : (touchSession p m now token).doorOpen = m.doorOpen := by
    rw [touchSession_of_get htoken hget]
    dsimp only
    split_ifs <;> rfl
  have hnow : (touchSession p m now token).sessions.get (p.hashToken token) =
      some { s with lastSeen := now } := by
    rw [hsessions, JsMap.get_set_self]
  rcases @updateSessionAddress_seen p now _ token _ ip hnow rfl with hstill | hmoved
  · rw [hstill]
    exact htouch
  · rw [hmoved]
    refine saved ?_ fun _ h => hdoor.trans h
    dsimp only
    rw [hsessions]
    refine heirs_writes hquiet hwrites.again (Or.inl ⟨s, hget, ?_⟩)
    exact { hseen with }

theorem moves_setSessionGeo {city country : QString} :
    Moves p now (.setSessionGeo token city country) m (setSessionGeo p m token city country) := by
  have hquiet : (Event.setSessionGeo token city country).Quiet p := .of_mild rfl
  unfold setSessionGeo
  dsimp only
  split_ifs with hnone
  · exact refl hquiet m
  · refine saved ?_ fun _ h => h
    cases hget : m.sessions.get (p.hashToken token) with
    | none => simp [JsMap.contains, hget] at hnone
    | some s =>
      refine heirs_writes hquiet (writes_modify hget) (Or.inl ⟨s, hget, ?_⟩)
      exact { Heir.refl hquiet (p.hashToken token) s with }

theorem moves_renameSession {id machineName : QString} :
    Moves p now (.renameSession id machineName) m (renameSession m id machineName).2 := by
  have hquiet : (Event.renameSession id machineName).Quiet p := .of_mild rfl
  unfold renameSession
  split_ifs with hnone
  · exact refl hquiet m
  · refine saved ?_ fun _ h => h
    cases hget : m.sessions.get id with
    | none => simp [JsMap.contains, hget] at hnone
    | some s =>
      refine heirs_writes hquiet (writes_modify hget) (Or.inl ⟨s, hget, ?_⟩)
      exact { Heir.refl hquiet id s with }

theorem moves_promoteSessionToAdmin :
    Moves p now (.promoteSessionToAdmin token) m (promoteSessionToAdmin p m now token).2 := by
  have hquiet : (Event.promoteSessionToAdmin token).Quiet p := .of_mild rfl
  unfold promoteSessionToAdmin
  by_cases hvalid : validateSession p m now token = false
  · rw [if_pos hvalid]
    exact refl hquiet m
  rw [if_neg hvalid]
  cases hget : m.sessions.get (p.hashToken token) with
  | none => exact refl hquiet m
  | some s =>
    dsimp only
    split_ifs with hadmin
    · exact refl hquiet m
    · refine saved ?_ fun _ h => h
      refine heirs_writes hquiet (writes_set _ _ _) (Or.inl ⟨s, hget, ?_⟩)
      exact { Heir.refl hquiet (p.hashToken token) s with
        admin := fun _ => ⟨fun h => h, Or.inr rfl⟩ }

/-- The admin flags go, whatever the door is. -/
theorem moves_demoteAdminSessions (hstarts : ∀ other, ¬ e.starts p other) (hdemotes : e.demotes) :
    Moves p now e m (demoteAdminSessions m).2 := by
  have hmap := JsMap.get_mapEntries m.sessions fun _ s => { s with isAdmin := false }
  have hheirs : Heirs p now e m.sessions _ := heirs_map hmap (by
    intro id s hget
    exact {
      token := rfl
      ephemeral := rfl
      key := Or.inl rfl
      admin := fun h => absurd h Bool.false_ne_true
      streaming := fun h => Or.inr ⟨h, hstarts⟩
      alive := fun h => h
      past := fun h => h })
  unfold demoteAdminSessions
  dsimp only
  split_ifs with hcleared
  · exact saved hheirs fun h => absurd hdemotes h
  · refine ⟨hheirs, Or.inr ⟨rfl, followed_map hmap ?_⟩, fun h => absurd hdemotes h⟩
    intro id s hget hephemeral
    have hnone : m.sessions.values.filter (fun s => s.isAdmin) = [] :=
      List.length_eq_zero_iff.mp (by omega)
    have hmem : s ∈ m.sessions.values := (m.sessions.mem_values_iff s).mpr ⟨id, hget⟩
    have hplain : ¬ s.isAdmin = true := List.filter_eq_nil_iff.mp hnone s hmem
    exact { Follows.refl hephemeral with admin := fun h => absurd h hplain }

theorem moves_setAdminPassword {password : QString} {salt : QByteArray} :
    Moves p now (.setAdminPassword password salt) m (setAdminPassword p m password salt).2 := by
  unfold setAdminPassword
  split_ifs with hshort
  · have hquiet : (Event.setAdminPassword password salt).Quiet p :=
      ⟨fun _ h => h, fun h => absurd hshort (Nat.not_lt.mpr h)⟩
    exact refl hquiet m
  · have hdemote : Moves p now (.setAdminPassword password salt) _ _ :=
      @moves_demoteAdminSessions p now (.setAdminPassword password salt)
        { m with adminPasswordDigest := encodePassword p password salt } (fun _ h => h)
        (Nat.not_lt.mp hshort)
    exact ⟨hdemote.heirs, hdemote.filed, fun h => absurd (Nat.not_lt.mp hshort) h⟩

theorem moves_setRemoteAdminEnabled {enabled : Bool} :
    Moves p now (.setRemoteAdminEnabled enabled) m (setRemoteAdminEnabled m enabled) := by
  unfold setRemoteAdminEnabled
  cases enabled with
  | true =>
    have hquiet : (Event.setRemoteAdminEnabled true).Quiet p := by
      refine ⟨fun _ h => h, fun h => ?_⟩
      cases h
    have hsame : Moves p now (.setRemoteAdminEnabled true) m m := refl hquiet m
    refine ⟨hsame.heirs, hsame.filed, ?_⟩
    intro _ hopen
    simp only [Manager.doorOpen, Bool.and_eq_true] at hopen ⊢
    exact ⟨rfl, hopen.2⟩
  | false =>
    have hdemote : Moves p now (.setRemoteAdminEnabled false) _ _ :=
      @moves_demoteAdminSessions p now (.setRemoteAdminEnabled false)
        { m with remoteAdminEnabled := false } (fun _ h => h) rfl
    exact ⟨hdemote.heirs, hdemote.filed, fun h => absurd rfl h⟩

theorem moves_destroySession (hquiet : e.Quiet p) (id : QString) :
    Moves p now e m (destroySession m id) := by
  unfold destroySession
  dsimp only
  split_ifs with hthere
  · exact saved (heirs_delete hquiet m.sessions id) fun _ h => h
  · exact same hquiet rfl rfl rfl

theorem moves_logoutSession :
    Moves p now (.logoutSession token) m (logoutSession p m token).2 := by
  have hquiet : (Event.logoutSession token).Quiet p := .of_mild rfl
  unfold logoutSession
  split_ifs with hempty hnone
  · exact refl hquiet m
  · exact refl hquiet m
  · exact moves_destroySession hquiet (p.hashToken token)

theorem moves_destroyAllSessions : Moves p now e m (destroyAllSessions m) :=
  saved (heirs_empty m.sessions) fun _ h => h

theorem moves_purgeExpiredSessions :
    Moves p now .purgeExpiredSessions m (purgeExpiredSessions m now) := by
  have hquiet : Event.purgeExpiredSessions.Quiet p := .of_mild rfl
  have hheirs : Heirs p now .purgeExpiredSessions m.sessions _ :=
    heirs_filter hquiet m.sessions fun _ s => !s.expired now
  unfold purgeExpiredSessions
  dsimp only
  split_ifs with hnone
  · refine ⟨hheirs, Or.inr ⟨rfl, ?_⟩, fun _ h => h⟩
    intro id s hget hephemeral
    have hmem : s ∈ m.sessions.values := (m.sessions.mem_values_iff s).mpr ⟨id, hget⟩
    have halive : ¬ s.expired now = true :=
      List.filter_eq_nil_iff.mp (List.isEmpty_iff.mp hnone) s hmem
    refine ⟨s, ?_, Follows.refl hephemeral⟩
    rw [JsMap.get_filter, hget]
    exact Option.filter_some_pos (by simpa using halive)
  · exact saved hheirs fun _ h => h

theorem recordAttempt_frame (m : Manager) (now : Int) (bucket : QString) (matched : Bool) :
    ∃ rateLimits, (recordAttempt m now bucket matched).2 = { m with rateLimits := rateLimits } := by
  unfold recordAttempt
  dsimp only
  split_ifs
  · exact ⟨_, rfl⟩
  · exact ⟨_, rfl⟩

theorem validatePin_frame (p : Primitives) (m : Manager) (now : Int) (ip pin : QString) :
    ∃ rateLimits, (validatePin p m now ip pin).2 = { m with rateLimits := rateLimits } := by
  unfold validatePin
  dsimp only
  split_ifs
  · exact ⟨_, rfl⟩
  · obtain ⟨rateLimits, hrecord⟩ := recordAttempt_frame (cleanupExpired m now) now
      (rateLimitKey p ip) (hasValidPin (cleanupExpired m now) &&
        ShareManager.constantTimeEquals pin (cleanupExpired m now).currentPin)
    rw [hrecord]
    exact ⟨rateLimits, rfl⟩

theorem validateAdminPassword_frame (p : Primitives) (m : Manager) (now : Int)
    (ip password : QString) :
    ∃ rateLimits,
      (validateAdminPassword p m now ip password).2 = { m with rateLimits := rateLimits } := by
  unfold validateAdminPassword
  dsimp only
  split_ifs
  · exact ⟨_, rfl⟩
  · obtain ⟨rateLimits, hrecord⟩ := recordAttempt_frame (cleanupExpired m now) now
      (adminBucket p ip) ((cleanupExpired m now).remoteAdminEnabled &&
        (cleanupExpired m now).adminPasswordSet &&
        passwordMatches p (cleanupExpired m now).adminPasswordDigest password)
    rw [hrecord]
    exact ⟨rateLimits, rfl⟩

theorem homeScreenKey_frame (p : Primitives) (m : Manager) (now : Int) (token : QString)
    (random : QByteArray) :
    ∃ keys, (homeScreenKey p m now token random).2 = { m with homeScreenKeys := keys } := by
  unfold homeScreenKey
  split_ifs
  · exact ⟨m.homeScreenKeys, rfl⟩
  · dsimp only
    cases m.homeScreenKeys.get (p.hashToken token) with
    | none => exact ⟨_, rfl⟩
    | some found =>
      dsimp only
      split_ifs
      · exact ⟨m.homeScreenKeys, rfl⟩
      · exact ⟨_, rfl⟩

theorem redeemHomeScreenKey_frame (m : Manager) (now : Int) (key : QString) :
    ∃ keys, (redeemHomeScreenKey m now key).2 = { m with homeScreenKeys := keys } := by
  unfold redeemHomeScreenKey
  split_ifs
  · exact ⟨m.homeScreenKeys, rfl⟩
  · dsimp only
    split_ifs
    · exact ⟨m.homeScreenKeys, rfl⟩
    · cases m.homeScreenKeys.get (homeScreenSession m key) with
      | none => exact ⟨m.homeScreenKeys, rfl⟩
      | some found =>
        refine ⟨m.homeScreenKeys.delete (homeScreenSession m key), ?_⟩
        dsimp only
        split_ifs
        · rfl
        · cases m.sessions.get (homeScreenSession m key) with
          | none => rfl
          | some session =>
            dsimp only
            split_ifs <;> rfl

/-- What every call makes of the sessions, the file and the door. -/
theorem moves_handle (hloads : e.loads = false)
    (hfresh : ∀ id s, e.creates p now id s → m.sessions.get id = none)
    (hpast : ∀ id s, m.sessions.get id = some s → s.Past now) :
    Moves p now e m (handle p m now e) := by
  have hquiet : e.mild = true → e.Quiet p := Event.Quiet.of_mild
  cases e with
  | tick secs => exact refl (hquiet rfl) m
  | createSession token ip machineName isHost ephemeral viaTunnel =>
    exact moves_createSession (hfresh _ _ ⟨rfl, rfl⟩)
  | bindSessionKey token spkiDer => exact moves_bindSessionKey
  | setSessionStreaming token streaming => exact moves_setSessionStreaming
  | visit token ip => exact moves_visit hpast
  | setSessionGeo token city country => exact moves_setSessionGeo
  | renameSession id machineName => exact moves_renameSession
  | promoteSessionToAdmin token => exact moves_promoteSessionToAdmin
  | setAdminPassword password salt => exact moves_setAdminPassword
  | setRemoteAdminEnabled enabled => exact moves_setRemoteAdminEnabled
  | destroySession id => exact moves_destroySession (hquiet rfl) id
  | logoutSession token => exact moves_logoutSession
  | destroyAllSessions => exact moves_destroyAllSessions
  | purgeExpiredSessions => exact moves_purgeExpiredSessions
  | saveSessions =>
    exact saved (Heirs.refl (hquiet rfl) m.sessions) fun _ h => h
  | loadSessions => cases hloads
  | restart => cases hloads
  | homeScreenKey token random =>
    obtain ⟨keys, hframe⟩ := homeScreenKey_frame p m now token random
    simp only [handle, hframe]
    exact same (hquiet rfl) rfl rfl rfl
  | setHomeScreenInstances token instances =>
    simp only [handle, setHomeScreenInstances]
    split_ifs
    · exact refl (hquiet rfl) m
    · exact same (hquiet rfl) rfl rfl rfl
  | redeemHomeScreenKey key =>
    obtain ⟨keys, hframe⟩ := redeemHomeScreenKey_frame m now key
    simp only [handle, hframe]
    exact same (hquiet rfl) rfl rfl rfl
  | validatePin ip pin =>
    obtain ⟨rateLimits, hframe⟩ := validatePin_frame p m now ip pin
    simp only [handle, hframe]
    exact same (hquiet rfl) rfl rfl rfl
  | validateAdminPassword ip password =>
    obtain ⟨rateLimits, hframe⟩ := validateAdminPassword_frame p m now ip password
    simp only [handle, hframe]
    exact same (hquiet rfl) rfl rfl rfl
  | generatePin pin => exact same (hquiet rfl) rfl rfl rfl
  | regeneratePin pin =>
    have hall : Moves p now (.regeneratePin pin) m (destroyAllSessions m) :=
      moves_destroyAllSessions
    exact ⟨hall.heirs, hall.filed, hall.door⟩
  | autoRegeneratePin pin => exact same (hquiet rfl) rfl rfl rfl
  | clearPin => exact same (hquiet rfl) rfl rfl rfl

end

end MoonlightWeb.Server.AuthManager
