import MoonlightWeb.Server.AuthSessions

/-! # Sessions over whole runs

The table and the file keep an invariant each: a written session that has not
expired is still in the table, with its key and at least its admin flag. A
session is then traced through any number of events and restarts.
-/

namespace MoonlightWeb.Server.AuthManager

open Qt
open Js (JsMap)
open Lib SessionInfo List

/-- What holds of the sessions in memory. -/
structure Memory (p : Primitives) (w : World) : Prop where
  keyed : ∀ id s, w.session id = some s → s.token = id
  valid : ∀ id s, w.session id = some s → ValidKey p s
  past : ∀ id s, w.session id = some s → s.Past w.now
  door : ∀ id s, w.session id = some s → s.isAdmin = true → w.manager.doorOpen = true
  single : ∀ id id' s s', w.session id = some s → w.session id' = some s' →
    s.streaming = true → s'.streaming = true → id = id'
  known : ∀ id s, w.session id = some s → id ∈ w.used

structure Disk (p : Primitives) (w : World) (records : List SessionInfo) : Prop where
  file : w.manager.file = none ∧ records = [] ∨ w.manager.file = some (document records)
  nodup : (records.map token).Nodup
  valid : ∀ r ∈ records, ValidKey p r
  remembered : ∀ r ∈ records, r.ephemeral = false
  past : ∀ r ∈ records, r.Past w.now
  known : ∀ r ∈ records, r.token ∈ w.used
  current : ∀ r ∈ records, r.expired w.now = true ∨
    ∃ s, w.session r.token = some s ∧ Follows r s
  apart : ∀ id s, w.session id = some s → s.ephemeral = true → ∀ r ∈ records, r.token ≠ id

def Inv (p : Primitives) (w : World) : Prop := Memory p w ∧ ∃ records, Disk p w records

section

variable {p : Primitives} {w v : World} {e : Event} {id : QString} {records : List SessionInfo}

theorem inv_initial (now : Int) (remoteAdminEnabled : Bool) (adminPasswordDigest : QString) :
    Inv p (World.initial now remoteAdminEnabled adminPasswordDigest) := by
  have hnone : ∀ id s, (World.initial now remoteAdminEnabled adminPasswordDigest).session id ≠
      some s := by
    intro id s h
    cases h
  constructor
  · exact {
      keyed := fun id s h => absurd h (hnone id s)
      valid := fun id s h => absurd h (hnone id s)
      past := fun id s h => absurd h (hnone id s)
      door := fun id s h => absurd h (hnone id s)
      single := fun id _ s _ h => absurd h (hnone id s)
      known := fun id s h => absurd h (hnone id s) }
  · exact ⟨[], {
      file := Or.inl ⟨rfl, rfl⟩
      nodup := nodup_nil
      valid := forall_mem_nil _
      remembered := forall_mem_nil _
      past := forall_mem_nil _
      known := forall_mem_nil _
      current := forall_mem_nil _
      apart := fun id s h => absurd h (hnone id s) }⟩

theorem clock_le (w : World) (e : Event) : w.now ≤ w.clock e := by
  cases e with
  | tick secs =>
    simp only [World.clock]
    omega
  | _ => exact le_refl _

theorem mem_drawnIds (h : id ∈ w.used) : id ∈ w.drawnIds p e := by
  cases e with
  | createSession => exact mem_cons_of_mem _ h
  | _ => exact h

variable {s : SessionInfo}

theorem creates_drawn (h : e.creates p w.now id s) : id ∈ w.drawnIds p e := by
  cases e with
  | createSession =>
    obtain ⟨rfl, -⟩ := h
    exact mem_cons_self
  | _ => exact False.elim h

theorem creates_fresh (hallowed : w.allows p e = true)
    (h : e.creates p w.now id s) : id ∉ w.used := by
  cases e with
  | createSession =>
    obtain ⟨rfl, -⟩ := h
    simpa [World.allows] using hallowed
  | _ => exact False.elim h

/-- A session just created carries nothing yet. -/
theorem creates_new (h : e.creates p w.now id s) :
    s.token = id ∧ s.pairingKey = [] ∧ s.Past w.now ∧ s.isAdmin = false ∧ s.streaming = false := by
  cases e with
  | createSession =>
    obtain ⟨rfl, rfl⟩ := h
    exact ⟨rfl, rfl, ⟨le_refl _, le_refl _⟩, rfl, rfl⟩
  | _ => exact False.elim h

theorem promotes_open (hallowed : w.allows p e = true) (h : e.promotes p id) :
    w.manager.doorOpen = true := by
  cases e with
  | promoteSessionToAdmin => exact hallowed
  | _ => exact False.elim h

theorem starts_eq {other : QString} (h : e.starts p id) (h' : e.starts p other) : id = other := by
  cases e with
  | setSessionStreaming token streaming =>
    cases streaming with
    | false => exact False.elim h
    | true => exact h.2.symm.trans h'.2
  | _ => exact False.elim h

theorem expired_mono {now later : Int} (hle : now ≤ later)
    (h : s.expired now = true) : s.expired later = true := by
  simp only [expired, decide_eq_true_eq] at h ⊢
  omega

theorem follows_restored {r : SessionInfo} {keepAdminFlags : Bool}
    (h : r.isAdmin = true → keepAdminFlags = true) : Follows r (restored keepAdminFlags r) where
  ephemeral := rfl
  key := rfl
  admin hadmin := by simp [restored, h hadmin, hadmin]
  last := le_refl _

theorem heir_restored {r s : SessionInfo} {keepAdminFlags : Bool} {now : Int}
    (hdemotes : ¬ e.demotes) (hremembered : r.ephemeral = false) (hpast : r.Past now)
    (htoken : s.token = r.token) (hfollows : Follows r s) :
    Heir p now e id s (restored keepAdminFlags r) where
  token := htoken.symm
  ephemeral := hfollows.ephemeral.symm
  key := Or.inl hfollows.key.symm
  admin hadmin := by
    have hboth := Bool.and_eq_true_iff.mp hadmin
    exact ⟨hdemotes, Or.inl (hfollows.admin hboth.2)⟩
  streaming h := absurd h Bool.false_ne_true
  alive halive := by
    have hlast := hfollows.last
    have hr : r.expired now = false := by
      simpa [expired, ttlFor, restored, hremembered, last] using halive
    simp only [expired, ttlFor, hremembered, hfollows.ephemeral,
      decide_eq_false_iff_not] at hr ⊢
    omega
  past _ := hpast

theorem quiet_of_loads (h : e.loads = true) : e.Quiet p := by
  cases e with
  | loadSessions => exact .of_mild rfl
  | restart => exact .of_mild rfl
  | _ => cases h

/-- Reading leaves the file and the door alone. -/
theorem loads_frame (h : e.loads = true) (m : Manager) (now : Int) :
    (handle p m now e).file = m.file ∧ (handle p m now e).doorOpen = m.doorOpen := by
  cases e with
  | loadSessions =>
    obtain ⟨hfile, henabled, hdigest, -⟩ := loadSessions_frame p m now
    refine ⟨hfile, ?_⟩
    simp only [handle, Manager.doorOpen, Manager.adminPasswordSet, henabled, hdigest]
  | restart =>
    obtain ⟨hfile, henabled, hdigest, -⟩ := loadSessions_frame p
      { remoteAdminEnabled := m.remoteAdminEnabled
        adminPasswordDigest := m.adminPasswordDigest
        file := m.file } now
    refine ⟨hfile, ?_⟩
    simp only [handle, restart, Manager.doorOpen, Manager.adminPasswordSet, henabled, hdigest]
  | _ => cases h

theorem loads_none (h : e.loads = true) {m : Manager} (hfile : m.file = none) (now : Int) :
    (handle p m now e).sessions = m.sessions ∨ (handle p m now e).sessions = JsMap.empty := by
  cases e with
  | loadSessions =>
    left
    rw [handle, loadSessions_none hfile]
  | restart =>
    right
    simp only [handle, restart, loadSessions, hfile]
  | _ => cases h

theorem loads_some (h : e.loads = true) {m : Manager}
    (hfile : m.file = some (document records)) (now : Int) :
    (handle p m now e).sessions = readBack p m.doorOpen now records := by
  cases e with
  | loadSessions => exact loadSessions_sessions hfile now
  | restart =>
    simp only [handle, restart, loadSessions, hfile]
    rfl
  | _ => cases h

theorem heirs_loads (hloads : e.loads = true) (hmemory : Memory p w) (hdisk : Disk p w records) :
    Heirs p w.now e w.manager.sessions (handle p w.manager w.now e).sessions := by
  have hquiet : e.Quiet p := quiet_of_loads hloads
  rcases hdisk.file with ⟨hnone, -⟩ | hsome
  · rcases loads_none (p := p) hloads hnone w.now with hsame | hempty
    · rw [hsame]
      exact Heirs.refl hquiet _
    · rw [hempty]
      exact heirs_empty _
  · rw [loads_some hloads hsome]
    intro id s' hget
    obtain ⟨r, hr, rfl, hfresh, rfl⟩ := readBack_some p _ _ hdisk.valid hget
    rcases hdisk.current r hr with hexpired | ⟨s, hs, hfollows⟩
    · exact absurd ((expired_iff (hdisk.remembered r hr)).mp hexpired) hfresh
    · left
      exact ⟨s, hs, heir_restored hquiet.demotes (hdisk.remembered r hr) (hdisk.past r hr)
        (hmemory.keyed _ s hs) hfollows⟩

theorem step_moves (hmemory : Memory p w) (h : step p w e = some v) (hloads : e.loads = false) :
    Moves p w.now e w.manager v.manager := by
  obtain ⟨hallowed, -, hmanager, -, -⟩ := step_eq_some p h
  rw [hmanager]
  refine moves_handle hloads ?_ hmemory.past
  intro id s hcreates
  cases hget : w.manager.sessions.get id with
  | none => rfl
  | some s => exact absurd (hmemory.known id s hget) (creates_fresh hallowed hcreates)

theorem step_heirs (hinv : Inv p w) (h : step p w e = some v) :
    Heirs p w.now e w.manager.sessions v.manager.sessions ∧
      (¬ e.demotes → w.manager.doorOpen = true → v.manager.doorOpen = true) := by
  obtain ⟨hmemory, records, hdisk⟩ := hinv
  cases hloads : e.loads with
  | true =>
    obtain ⟨-, -, hmanager, -, -⟩ := step_eq_some p h
    rw [hmanager]
    exact ⟨heirs_loads hloads hmemory hdisk,
      fun _ hopen => (loads_frame hloads w.manager w.now).2.trans hopen⟩
  | false =>
    have hmoves := step_moves hmemory h hloads
    exact ⟨hmoves.heirs, hmoves.door⟩

theorem Memory.step (hinv : Inv p w) (h : step p w e = some v) : Memory p v := by
  obtain ⟨hheirs, hdoor⟩ := step_heirs hinv h
  obtain ⟨hmemory, -⟩ := hinv
  obtain ⟨hallowed, hnow, -, hused, -⟩ := step_eq_some p h
  have hle : w.now ≤ v.now := hnow ▸ clock_le w e
  refine { keyed := ?_, valid := ?_, past := ?_, door := ?_, single := ?_, known := ?_ }
  · intro id s' hget
    rcases hheirs id s' hget with ⟨s, hs, hheir⟩ | hnew
    · exact hheir.token.trans (hmemory.keyed id s hs)
    · exact (creates_new hnew).1
  · intro id s' hget
    rcases hheirs id s' hget with ⟨s, hs, hheir⟩ | hnew
    · rcases hheir.key with hsame | ⟨-, hvalid⟩
      · rw [ValidKey, hsame]
        exact hmemory.valid id s hs
      · exact Or.inr hvalid
    · exact Or.inl (creates_new hnew).2.1
  · intro id s' hget
    have hpast : s'.Past w.now := by
      rcases hheirs id s' hget with ⟨s, hs, hheir⟩ | hnew
      · exact hheir.past (hmemory.past id s hs)
      · exact (creates_new hnew).2.2.1
    exact ⟨le_trans hpast.1 hle, le_trans hpast.2 hle⟩
  · intro id s' hget hadmin
    rcases hheirs id s' hget with ⟨s, hs, hheir⟩ | hnew
    · obtain ⟨hkept, hbefore⟩ := hheir.admin hadmin
      rcases hbefore with hwas | hpromoted
      · exact hdoor hkept (hmemory.door id s hs hwas)
      · exact hdoor hkept (promotes_open hallowed hpromoted)
    · rw [(creates_new hnew).2.2.2.1] at hadmin
      cases hadmin
  · intro id id' s₁ s₂ hget₁ hget₂ hon₁ hon₂
    have hwas {id s'} (hget : v.session id = some s') (hon : s'.streaming = true) :
        ∃ s, w.session id = some s ∧ Heir p w.now e id s s' := by
      rcases hheirs id s' hget with hold | hnew
      · exact hold
      · rw [(creates_new hnew).2.2.2.2] at hon
        cases hon
    obtain ⟨r₁, hr₁, hheir₁⟩ := hwas hget₁ hon₁
    obtain ⟨r₂, hr₂, hheir₂⟩ := hwas hget₂ hon₂
    rcases hheir₁.streaming hon₁ with hstart₁ | ⟨hstill₁, hquiet₁⟩
    · rcases hheir₂.streaming hon₂ with hstart₂ | ⟨-, hquiet₂⟩
      · exact starts_eq hstart₁ hstart₂
      · exact absurd hstart₁ (hquiet₂ id)
    · rcases hheir₂.streaming hon₂ with hstart₂ | ⟨hstill₂, -⟩
      · exact absurd hstart₂ (hquiet₁ id')
      · exact hmemory.single id id' r₁ r₂ hr₁ hr₂ hstill₁ hstill₂
  · intro id s' hget
    rw [hused]
    rcases hheirs id s' hget with ⟨s, hs, -⟩ | hnew
    · exact mem_drawnIds (hmemory.known id s hs)
    · exact creates_drawn hnew

theorem Disk.saved (hmemory : Memory p v)
    (hfile : v.manager.file = some (document (persistent v.manager.sessions.values))) :
    Disk p v (persistent v.manager.sessions.values) := by
  have hentry : ∀ r ∈ persistent v.manager.sessions.values,
      v.session r.token = some r ∧ r.ephemeral = false := by
    intro r hr
    obtain ⟨hvalue, hpersistent⟩ := mem_filter.mp hr
    obtain ⟨id, hget⟩ := (v.manager.sessions.mem_values_iff r).mp hvalue
    rw [hmemory.keyed id r hget]
    exact ⟨hget, by simpa using hpersistent⟩
  have hnodup := v.manager.sessions.nodup_values_key token hmemory.keyed
  exact {
    file := Or.inr hfile
    nodup := hnodup.sublist (filter_sublist.map token)
    valid := fun r hr => hmemory.valid _ r (hentry r hr).1
    remembered := fun r hr => (hentry r hr).2
    past := fun r hr => hmemory.past _ r (hentry r hr).1
    known := fun r hr => hmemory.known _ r (hentry r hr).1
    current := fun r hr => Or.inr ⟨r, (hentry r hr).1, Follows.refl (hentry r hr).2⟩
    apart := by
      intro id s hget hephemeral r hr htoken
      obtain ⟨hrget, hrpersistent⟩ := hentry r hr
      rw [htoken, hget] at hrget
      obtain rfl := Option.some.inj hrget
      rw [hephemeral] at hrpersistent
      cases hrpersistent }

/-- The file of the step before, read against the table of this one. -/
theorem Disk.unsaved (hdisk : Disk p w records)
    (hfile : v.manager.file = w.manager.file) (hle : w.now ≤ v.now)
    (hused : ∀ id, id ∈ w.used → id ∈ v.used)
    (hcurrent : ∀ r ∈ records, ∀ s, w.session r.token = some s → Follows r s →
      r.expired v.now = true ∨ ∃ s', v.session r.token = some s' ∧ Follows r s')
    (hapart : ∀ id s, v.session id = some s → s.ephemeral = true → ∀ r ∈ records, r.token ≠ id) :
    Disk p v records where
  file := hfile ▸ hdisk.file
  nodup := hdisk.nodup
  valid := hdisk.valid
  remembered := hdisk.remembered
  past r hr := ⟨le_trans (hdisk.past r hr).1 hle, le_trans (hdisk.past r hr).2 hle⟩
  known r hr := hused _ (hdisk.known r hr)
  current r hr := by
    rcases hdisk.current r hr with hexpired | ⟨s, hs, hfollows⟩
    · exact Or.inl (expired_mono hle hexpired)
    · exact hcurrent r hr s hs hfollows
  apart := hapart

theorem Disk.loads (hloads : e.loads = true) (hmemory : Memory p w) (hdisk : Disk p w records)
    (h : step p w e = some v) : Disk p v records := by
  obtain ⟨-, hnow, hmanager, hused, -⟩ := step_eq_some p h
  have hclock : w.clock e = w.now := by
    cases e with
    | tick => cases hloads
    | _ => rfl
  have hfile : v.manager.file = w.manager.file := by
    rw [hmanager]
    exact (loads_frame hloads w.manager w.now).1
  have hsession (id : QString) : v.session id = (handle p w.manager w.now e).sessions.get id := by
    rw [World.session, hmanager]
  refine hdisk.unsaved hfile (hnow ▸ clock_le w e) (fun id hid => hused ▸ mem_drawnIds hid) ?_ ?_
  · intro r hr s hs hfollows
    rcases hdisk.file with ⟨-, hnil⟩ | hsome
    · rw [hnil] at hr
      cases hr
    · by_cases hexpired : r.expired w.now = true
      · left
        rw [hnow, hclock]
        exact hexpired
      · right
        have hfresh := fun h => hexpired ((expired_iff (hdisk.remembered r hr)).mpr h)
        refine ⟨restored w.manager.doorOpen r, ?_, follows_restored fun hadmin =>
          hmemory.door r.token s hs (hfollows.admin hadmin)⟩
        rw [hsession, loads_some hloads hsome]
        exact readBack_of_mem p _ _ hdisk.valid hdisk.nodup hr hfresh
  · intro id s hget hephemeral r hr
    rw [hsession] at hget
    rcases hdisk.file with ⟨-, hnil⟩ | hsome
    · rw [hnil] at hr
      cases hr
    · rw [loads_some hloads hsome] at hget
      obtain ⟨r', -, -, -, rfl⟩ := readBack_some p _ _ hdisk.valid hget
      cases hephemeral

theorem Inv.step (hinv : Inv p w) (h : step p w e = some v) : Inv p v := by
  have hmemory' := Memory.step hinv h
  obtain ⟨hheirs, -⟩ := step_heirs hinv h
  obtain ⟨hmemory, records, hdisk⟩ := hinv
  refine ⟨hmemory', ?_⟩
  cases hloads : e.loads with
  | true => exact ⟨records, Disk.loads hloads hmemory hdisk h⟩
  | false =>
    obtain ⟨hallowed, hnow, -, hused, -⟩ := step_eq_some p h
    rcases (step_moves hmemory h hloads).filed with hsaved | ⟨hfile, hfollowed⟩
    · exact ⟨_, Disk.saved hmemory' hsaved⟩
    · refine ⟨records, hdisk.unsaved hfile (hnow ▸ clock_le w e)
        (fun id hid => hused ▸ mem_drawnIds hid) ?_ ?_⟩
      · intro r hr s hs hfollows
        obtain ⟨s', hs', hfollows'⟩ := hfollowed r.token s hs hfollows.ephemeral
        exact Or.inr ⟨s', hs', hfollows.trans hfollows'⟩
      · intro id s' hget hephemeral r hr
        rcases hheirs id s' hget with ⟨s, hs, hheir⟩ | hnew
        · exact hdisk.apart id s hs (hheir.ephemeral.symm.trans hephemeral) r hr
        · intro htoken
          exact creates_fresh hallowed hnew (htoken ▸ hdisk.known r hr)

theorem Inv.run {labels : List Event} (hinv : Inv p w)
    (hrun : Run (moves (AuthManager.step p)) w labels v) : Inv p v :=
  hrun.invariant (fun _ _ _ hinv hstep => hinv.step hstep) hinv

theorem written_document (h : w.manager.file = some (document records)) :
    w.written = records.map token := by
  unfold World.written
  rw [h]
  have hread : (document records).value "sessions" =
      .array (records.map fun s => .object s.toJson) := rfl
  simp only [hread, QJsonValue.toArray_array, map_map]
  apply map_congr_left
  intro s _
  simp [(session_fields s).1]

/-- The file of a step is the one before, or holds the sessions that are remembered. -/
theorem step_written (hinv : Inv p w) (h : step p w e = some v) :
    v.written = w.written ∨ v.written = (persistent v.manager.sessions.values).map token := by
  obtain ⟨hmemory, records, hdisk⟩ := hinv
  have hsame (hfile : v.manager.file = w.manager.file) : v.written = w.written := by
    unfold World.written
    rw [hfile]
  cases hloads : e.loads with
  | true =>
    obtain ⟨-, -, hmanager, -, -⟩ := step_eq_some p h
    left
    apply hsame
    rw [hmanager]
    exact (loads_frame hloads w.manager w.now).1
  | false =>
    rcases (step_moves hmemory h hloads).filed with hsaved | ⟨hfile, -⟩
    · exact Or.inr (written_document hsaved)
    · exact Or.inl (hsame hfile)

/-- A key bound to a session stays the only one it can have. -/
theorem key_step {key : QByteArray} (hkey : key ≠ []) (hinv : Inv p w) (h : step p w e = some v)
    (hused : id ∈ w.used) (hbound : ∀ s, w.session id = some s → s.pairingKey = key) :
    ∀ s, v.session id = some s → s.pairingKey = key := by
  intro s' hget
  obtain ⟨hallowed, -⟩ := step_eq_some p h
  rcases (step_heirs hinv h).1 id s' hget with ⟨s, hs, hheir⟩ | hnew
  · rcases hheir.key with hsame | ⟨hnil, -⟩
    · exact hsame.trans (hbound s hs)
    · exact absurd ((hbound s hs).symm.trans hnil) hkey
  · exact absurd hused (creates_fresh hallowed hnew)

theorem used_step (h : step p w e = some v) (hused : id ∈ w.used) : id ∈ v.used := by
  obtain ⟨-, -, -, hdrawn, -⟩ := step_eq_some p h
  rw [hdrawn]
  exact mem_drawnIds hused

theorem ephemeral_step (hinv : Inv p w) (h : step p w e = some v) (hused : id ∈ w.used)
    (hephemeral : ∀ s, w.session id = some s → s.ephemeral = true) :
    ∀ s, v.session id = some s → s.ephemeral = true := by
  intro s' hget
  obtain ⟨hallowed, -⟩ := step_eq_some p h
  rcases (step_heirs hinv h).1 id s' hget with ⟨s, hs, hheir⟩ | hnew
  · exact hheir.ephemeral.trans (hephemeral s hs)
  · exact absurd hused (creates_fresh hallowed hnew)

theorem unwritten_step (hinv : Inv p w) (h : step p w e = some v)
    (hephemeral : ∀ s, v.session id = some s → s.ephemeral = true) (hunwritten : id ∉ w.written) :
    id ∉ v.written := by
  rcases step_written hinv h with hsame | hsaved
  · rwa [hsame]
  · rw [hsaved, mem_map]
    rintro ⟨s, hs, rfl⟩
    obtain ⟨hvalue, hremembered⟩ := mem_filter.mp hs
    obtain ⟨id, hget⟩ := (v.manager.sessions.mem_values_iff s).mp hvalue
    have hkeyed := (hinv.step h).1.keyed id s hget
    rw [← hkeyed] at hget
    have htemporary := hephemeral s hget
    simp [htemporary] at hremembered

theorem unwritten_of_ephemeral (hinv : Inv p w) (hget : w.session id = some s)
    (hephemeral : s.ephemeral = true) : id ∉ w.written := by
  obtain ⟨-, records, hdisk⟩ := hinv
  rcases hdisk.file with ⟨hnone, -⟩ | hsome
  · simp [World.written, hnone]
  · rw [written_document hsome, mem_map]
    rintro ⟨r, hr, htoken⟩
    exact hdisk.apart id s hget hephemeral r hr htoken

/-- A step that is no unlock makes nobody an admin. -/
theorem plain_step (hinv : Inv p w) (h : step p w e = some v) (hunlock : ¬ e.promotes p id)
    (hplain : ∀ s, w.session id = some s → s.isAdmin = false) :
    ∀ s, v.session id = some s → s.isAdmin = false := by
  intro s' hget
  rcases (step_heirs hinv h).1 id s' hget with ⟨s, hs, hheir⟩ | hnew
  · by_contra hadmin
    obtain ⟨-, hwas | hpromoted⟩ := hheir.admin (by simpa using hadmin)
    · rw [hplain s hs] at hwas
      cases hwas
    · exact hunlock hpromoted
  · exact (creates_new hnew).2.2.2.1

theorem plain_of_demotes (hinv : Inv p w) (h : step p w e = some v) (hdemotes : e.demotes) :
    ∀ s, v.session id = some s → s.isAdmin = false := by
  intro s' hget
  rcases (step_heirs hinv h).1 id s' hget with ⟨s, hs, hheir⟩ | hnew
  · by_contra hadmin
    exact (hheir.admin (by simpa using hadmin)).1 hdemotes
  · exact (creates_new hnew).2.2.2.1

end

/-- What holds of the sessions in a state, now and in whatever is reached from it:
one stream, a key that is never replaced, nothing written of a temporary session,
and no admin access left by a change of the password until it is unlocked anew. -/
structure SessionsKept (p : Primitives) (w : World) : Prop where
  stream : ∀ id id' s s', w.session id = some s → w.session id' = some s' →
    s.streaming = true → s'.streaming = true → id = id'
  key : ∀ labels v id s s', Run (moves (step p)) w labels v → w.session id = some s →
    s.pairingKey ≠ [] → v.session id = some s' → s'.pairingKey = s.pairingKey
  temporary : ∀ labels v id s, Run (moves (step p)) w labels v → w.session id = some s →
    s.ephemeral = true → id ∉ v.written
  demoted : ∀ e v labels x id s, step p w e = some v → e.demotes →
    Run (moves (step p)) v labels x → (∀ a ∈ labels, ¬ a.promotes p id) →
    x.session id = some s → s.isAdmin = false

theorem sessionsKept_of_inv {p : Primitives} {w : World} (hinv : Inv p w) : SessionsKept p w where
  stream := hinv.1.single
  key := by
    intro labels v id s s' hrun hget hkey hget'
    have hkept : Inv p v ∧ id ∈ v.used ∧
        ∀ r, v.session id = some r → r.pairingKey = s.pairingKey := by
      refine hrun.invariant (I := fun v => Inv p v ∧ id ∈ v.used ∧
        ∀ r, v.session id = some r → r.pairingKey = s.pairingKey) ?_
        ⟨hinv, hinv.1.known id s hget, ?_⟩
      · rintro x a y ⟨hx, hused, hbound⟩ hstep
        exact ⟨hx.step hstep, used_step hstep hused, key_step hkey hx hstep hused hbound⟩
      · intro r hr
        rw [hget] at hr
        rw [Option.some.inj hr]
    exact hkept.2.2 s' hget'
  temporary := by
    intro labels v id s hrun hget hephemeral
    have hkept : Inv p v ∧ id ∈ v.used ∧ (∀ r, v.session id = some r → r.ephemeral = true) ∧
        id ∉ v.written := by
      refine hrun.invariant (I := fun v => Inv p v ∧ id ∈ v.used ∧
        (∀ r, v.session id = some r → r.ephemeral = true) ∧ id ∉ v.written) ?_
        ⟨hinv, hinv.1.known id s hget, ?_, unwritten_of_ephemeral hinv hget hephemeral⟩
      · rintro x a y ⟨hx, hused, htemporary, hunwritten⟩ hstep
        have hstill := ephemeral_step hx hstep hused htemporary
        exact ⟨hx.step hstep, used_step hstep hused, hstill,
          unwritten_step hx hstep hstill hunwritten⟩
      · intro r hr
        rw [hget] at hr
        rwa [← Option.some.inj hr]
    exact hkept.2.2.2
  demoted := by
    intro e v labels x id s hstep hdemotes hrun hlocked hget
    have hguarded := hrun.guard hlocked
    have hkept : Inv p x ∧ ∀ r, x.session id = some r → r.isAdmin = false := by
      refine hguarded.invariant (I := fun x => Inv p x ∧
        ∀ r, x.session id = some r → r.isAdmin = false) ?_
        ⟨hinv.step hstep, plain_of_demotes hinv hstep hdemotes⟩
      rintro y a z ⟨hy, hplain⟩ ⟨hunlock, hnext⟩
      exact ⟨hy.step hnext, plain_step hy hnext hunlock hplain⟩
    exact hkept.2 s hget

end MoonlightWeb.Server.AuthManager
