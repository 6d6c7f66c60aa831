import MoonlightWeb.Server.ShareSlots
import MoonlightWeb.Lib.Run
import Mathlib.Tactic.NormNum

/-! # Saving and loading

`reload` says what a slot comes back as when the file of some slots is loaded.
The file is always that of slots which agree with the memory on every
activation a restart can revive.
-/

namespace MoonlightWeb.Server.ShareManager

open Lib Qt QJsonValue

structure Slot.Sound (s : Slot) : Prop where
  remembered : isValidTtl s.lastTtlSecs = true
  off : s.activation.live = false → s.activation = {}
  chosen : isValidTtl s.activation.ttlSecs = true
  paired : s.activation.cookieHashes.length = s.activation.devices.length
  single : s.activation.cookieHashes.length ≤ maxCookiesPerActivation
  failures : 0 ≤ s.activation.pinFailures ∧ s.activation.pinFailures < maxPinFailures
  pin : s.activation.live = true → s.activation.pinHash ≠ []
  host : s.activation.live = true → s.activation.hostUuid ≠ []

theorem Slot.Sound.fresh : Slot.Sound {} where
  remembered := by decide
  off _ := rfl
  chosen := by decide
  paired := rfl
  single := by decide
  failures := by decide
  pin h := by simp at h
  host h := by simp at h

section

variable {d : Digest} {e : Event} {m : Manager} {slot : Int} {s s' : Slot}

theorem hash_ne_nil (d : Digest) (x : QString) : d.hash x ≠ [] := by
  intro h
  have hlen := d.length_hash x
  simp [h] at hlen

theorem Slot.Sound.cleared (h : s.Sound) : s.cleared.Sound :=
  { Slot.Sound.fresh with remembered := h.remembered }

theorem never_off {a b : Activation} (hlive : a.live = true) (hsame : b.tokenHash = a.tokenHash)
    (hoff : b.live = false) : b = {} := by
  have hb : b.live = true := by rw [Activation.live_iff, hsame, ← Activation.live_iff, hlive]
  rw [hb] at hoff
  cases hoff

theorem Change.sound (h : s.Sound) (hc : Change d e slot s s') : s'.Sound := by
  have hzero : (0 : Int) ≤ 0 ∧ (0 : Int) < maxPinFailures := by decide
  cases hc with
  | revoked => exact h.cleared
  | @minted hostUuid appId ttlSecs token pin id hop hhost httl =>
    have hlive : (mint d s e.later hostUuid appId ttlSecs token pin id).live = true :=
      Activation.live_iff.mpr (hash_ne_nil d token)
    exact {
      remembered := httl
      off := never_off hlive rfl
      chosen := httl
      paired := rfl
      single := Nat.zero_le _
      failures := hzero
      pin := fun _ => hash_ne_nil d pin
      host := fun _ => hhost }
  | remembered perms => exact { h with }
  | permitted perms hlive =>
    exact { h with
      off := never_off hlive rfl }
  | chosen ttlSecs httl => exact { h with remembered := httl }
  | retimed ttlSecs httl hlive =>
    exact { h with
      remembered := httl
      chosen := httl
      off := never_off hlive rfl }
  | renamed hop => exact { h with }
  | failed hlive hleft =>
    have hnonneg := h.failures.1
    exact { h with
      failures := ⟨by simp only; omega, hleft⟩
      off := never_off hlive rfl }
  | refused agent hlive =>
    exact { h with
      failures := hzero
      off := never_off hlive rfl }
  | bound agent hop hlive hroom =>
    exact { h with
      paired := by simp [h.paired]
      single := by simpa using Nat.succ_le_of_lt hroom
      failures := hzero
      off := never_off hlive rfl }
  | streamed streaming hlive =>
    exact { h with
      off := never_off hlive rfl }

theorem Effect.sound (h : s.Sound) (he : Effect d e slot s s') : s'.Sound := by
  obtain ⟨first, hfirst, hlast⟩ := he
  have hsound : first.Sound := by
    rcases hfirst with rfl | rfl
    · exact h
    · exact h.cleared
  rcases hlast with rfl | hchange
  · exact hsound
  · exact hchange.sound hsound

end

theorem toInt_whole {n : Int} (default : Int) (h : -2147483648 ≤ n ∧ n ≤ 2147483647) :
    (whole n).toInt default = n := by
  simp [whole, QJsonValue.toInt, h.1, h.2]

theorem permissions_fromJson (p : Permissions) : Permissions.fromJson p.toJson = p := rfl

theorem device_fromJson (dev : BoundDevice) : BoundDevice.fromJson dev.toJson = dev := by
  have hfields : dev.toJson.value "boundAt" = whole dev.boundAt ∧
      dev.toJson.value "userAgent" = .string dev.userAgent := ⟨rfl, rfl⟩
  simp [BoundDevice.fromJson, hfields]

theorem alignDevices_self (devices : List BoundDevice) :
    alignDevices devices devices.length = devices := by
  simp [alignDevices]

/-- Every field `load` reads of an activation is the one `save` wrote. -/
theorem activation_fields (a : Activation) :
    a.toJson.value "id" = .string a.id ∧
    a.toJson.value "tokenHash" = .string a.tokenHash ∧
    a.toJson.value "pinHash" = .string a.pinHash ∧
    a.toJson.value "cookieHashes" = .array (a.cookieHashes.map .string) ∧
    a.toJson.value "devices" = .array (a.devices.map fun dev => .object dev.toJson) ∧
    a.toJson.value "permissions" = .object a.permissions.toJson ∧
    a.toJson.value "ttlSecs" = whole a.ttlSecs ∧
    a.toJson.value "expiresAt" = whole a.expiresAtSecs ∧
    a.toJson.contains "expiresAt" = true ∧
    a.toJson.value "activatedAt" = whole a.activatedAt ∧
    a.toJson.value "pinFailures" = whole a.pinFailures ∧
    a.toJson.value "hostUuid" = .string a.hostUuid ∧
    a.toJson.value "appId" = whole a.appId.toInt ∧
    a.toJson.value "lastRefusedAt" = whole a.lastRefusedAt ∧
    a.toJson.value "lastRefusedAgent" = .string a.lastRefusedAgent ∧
    a.toJson.isEmpty = false :=
  ⟨rfl, rfl, rfl, rfl, rfl, rfl, rfl, rfl, rfl, rfl, rfl, rfl, rfl, rfl, rfl, rfl⟩

/-- What a restart at `now` makes of a slot that was saved. -/
def reload (now : Int) (s : Slot) : Slot :=
  { name := sanitizeName s.name
    lastPermissions := s.lastPermissions
    lastTtlSecs := s.lastTtlSecs
    activation :=
      if s.activation.live && 0 < s.activation.activatedAt && !s.activation.expired now then
        s.activation.persisted
      else {} }

variable {s : Slot}

theorem restoreActivation_toJson (h : s.Sound) (hlive : s.activation.live = true) (now : Int) :
    restoreActivation now s.activation.toJson =
      if 0 < s.activation.activatedAt && !s.activation.expired now then
        some s.activation.persisted
      else none := by
  obtain ⟨hid, htoken, hpin, hcookies, hdevices, hperms, httl, hexpires, hcontains, hat, hfailures,
    hhost, happ, hrefused, hagent, hempty⟩ := activation_fields s.activation
  have hcookieList : (s.activation.cookieHashes.map string).map toString =
      s.activation.cookieHashes := by
    simp [Function.comp_def]
  have hdeviceList : (s.activation.devices.map fun dev => object dev.toJson).map
      (fun v => BoundDevice.fromJson v.toObject) = s.activation.devices := by
    simp [Function.comp_def, device_fromJson]
  have hcount : (whole s.activation.pinFailures).toInt 0 = s.activation.pinFailures := by
    apply toInt_whole
    have hrange := h.failures
    unfold maxPinFailures at hrange
    omega
  have happId : Int32.ofInt ((whole s.activation.appId.toInt).toInt (-1)) = s.activation.appId := by
    rw [toInt_whole]
    · exact Int32.ofInt_toInt _
    · exact ⟨s.activation.appId.le_toInt, Int.le_of_lt_add_one s.activation.appId.toInt_lt⟩
  have hexpired : (s.activation.expiresAtSecs > 0 ∧ now ≥ s.activation.expiresAtSecs) ↔
      s.activation.expired now = true := Activation.expired_iff.symm
  have htokenHash : s.activation.tokenHash.isEmpty = false := by
    simpa using Activation.live_iff.mp hlive
  have hpinHash : s.activation.pinHash.isEmpty = false := by simpa using h.pin hlive
  have hhostUuid : s.activation.hostUuid.isEmpty = false := by simpa using h.host hlive
  unfold restoreActivation
  simp only [hid, htoken, hpin, hcookies, hdevices, hperms, httl, hexpires, hcontains, hat,
    hfailures, hhost, happ, hrefused, hagent, hempty, toInt64_whole, toArray_array,
    toString_string, toObject_object, h.chosen, hcount, happId, hexpired,
    permissions_fromJson, htokenHash, hpinHash, hhostUuid, hcookieList, hdeviceList, h.paired,
    alignDevices_self, if_true, Bool.false_eq_true, if_false, Bool.or_self]
  by_cases hat : s.activation.activatedAt ≤ 0
  · have hnot : ¬ 0 < s.activation.activatedAt := by omega
    simp [hat, hnot]
  · have hpos : 0 < s.activation.activatedAt := by omega
    by_cases hrun : s.activation.expired now = true
    · simp [hrun]
    · simp only [hat, hrun, hpos, if_false, decide_true, Bool.true_and, Bool.not_false, if_true]
      rfl

/-- Every field `load` reads of an entry is the one `save` wrote. -/
theorem slot_fields (slot : Int) (s : Slot) :
    (s.toJson slot).value "slot" = whole slot ∧
    (s.toJson slot).value "name" = .string s.name ∧
    (s.toJson slot).value "lastPermissions" = .object s.lastPermissions.toJson ∧
    (s.toJson slot).value "lastTtlSecs" = whole s.lastTtlSecs ∧
    (s.toJson slot).value "activation" =
      if s.activation.live then .object s.activation.toJson else .undefined := by
  unfold Slot.toJson
  by_cases hlive : s.activation.live = true
  · rw [if_pos hlive, if_pos hlive]
    exact ⟨rfl, rfl, rfl, rfl, rfl⟩
  · rw [if_neg hlive, if_neg hlive]
    exact ⟨rfl, rfl, rfl, rfl, rfl⟩

theorem loadSlot_toJson {m : Manager} {slot : Int} (h : s.Sound)
    (hplayer : isPlayerSlot slot = true) (hfresh : (m.slots slot).activation = {}) (now : Int) :
    loadSlot now m (.object (s.toJson slot)) = m.setSlot slot (reload now s) := by
  obtain ⟨hslot, hname, hperms, httl, hact⟩ := slot_fields slot s
  have hnumber : (whole slot).toInt (-1) = slot := by
    apply toInt_whole
    have hmem := isPlayerSlot_iff.mp hplayer
    simp only [playerSlots, List.mem_cons, List.not_mem_nil, or_false] at hmem
    omega
  unfold loadSlot
  simp only [toObject_object, hslot, hnumber, hplayer, Bool.true_eq_false, if_false,
    hname, toString_string, hperms, permissions_fromJson, httl, toInt64_whole,
    h.remembered, if_true, hact, hfresh]
  by_cases hlive : s.activation.live = true
  · rw [if_pos hlive, toObject_object, restoreActivation_toJson h hlive now]
    unfold reload
    by_cases hcond : (decide (0 < s.activation.activatedAt) && !s.activation.expired now) = true
    · rw [if_pos hcond]
      simp only [hlive, Bool.true_and, hcond, if_true]
    · rw [if_neg hcond]
      simp only [hlive, Bool.true_and, if_neg hcond]
  · rw [if_neg hlive]
    have hnone : restoreActivation now undefined.toObject = none := rfl
    simp [hnone, reload, hlive]

theorem loadAll_slots {slots : Int → Slot} (now : Int) (ids : List Int) (m : Manager)
    (hids : ∀ id ∈ ids, isPlayerSlot id = true ∧ (slots id).Sound ∧ (m.slots id).activation = {})
    (honce : ids.Nodup) (slot : Int) :
    ((ids.map fun id => object ((slots id).toJson id)).foldl (loadSlot now) m).slots
      slot = if slot ∈ ids then reload now (slots slot) else m.slots slot := by
  induction ids generalizing m with
  | nil => simp
  | cons id ids ih =>
    rw [List.nodup_cons] at honce
    obtain ⟨hplayer, hsound, hfresh⟩ := hids id (by simp)
    rw [List.map_cons, List.foldl_cons, loadSlot_toJson hsound hplayer hfresh, ih _ _ honce.2]
    · by_cases heq : slot = id
      · subst heq
        simp [honce.1, setSlot_self]
      · simp [heq, setSlot_ne m _ heq]
    · intro id' hid'
      have hne : id' ≠ id := fun heq => honce.1 (heq ▸ hid')
      rw [setSlot_ne m _ hne]
      exact hids id' (List.mem_cons_of_mem id hid')

theorem load_file (m : Manager) (now : Int) : (load m now).file = m.file := by
  have hone : ∀ (m : Manager) (v : QJsonValue), (loadSlot now m v).file = m.file := by
    intro m v
    unfold loadSlot
    by_cases hplayer : isPlayerSlot ((v.toObject.value "slot").toInt (-1)) = false
    · simp only [if_pos hplayer]
    · simp only [if_neg hplayer]
      split <;> rfl
  have hall : ∀ (values : List QJsonValue) (m : Manager),
      (values.foldl (loadSlot now) m).file = m.file := by
    intro values
    induction values with
    | nil => exact fun m => rfl
    | cons v values ih =>
      intro m
      rw [List.foldl_cons, ih, hone]
  unfold load
  split
  · rfl
  · exact hall _ m

/-- The file is that of the slots `saved`, or there is none yet. -/
structure Filed (m : Manager) (saved : Int → Slot) : Prop where
  sound : ∀ slot, (saved slot).Sound
  file : (m.file = none ∧ ∀ slot, saved slot = {}) ∨ m.file = some (document saved)

theorem reload_fresh (now : Int) : reload now {} = {} := rfl

theorem restart_slots {m : Manager} {saved : Int → Slot} (h : Filed m saved) (now slot : Int) :
    (restart m now).slots slot =
      if isPlayerSlot slot = true then reload now (saved slot) else {} := by
  rcases h.file with ⟨hnone, hfresh⟩ | hfile
  · have hload : (restart m now).slots slot = {} := by
      unfold restart load
      rw [hnone]
    rw [hload, hfresh slot, reload_fresh]
    split_ifs <;> rfl
  · have hvalue : ((document saved).value "slots").toArray =
        playerSlots.map fun id => object ((saved id).toJson id) := rfl
    have hload : restart m now = (playerSlots.map fun id =>
        object ((saved id).toJson id)).foldl (loadSlot now)
          { file := m.file } := by
      unfold restart load
      rw [hfile]
      simp only [hvalue]
    rw [hload, loadAll_slots]
    · simp only [isPlayerSlot_iff]
    · intro id hid
      exact ⟨isPlayerSlot_iff.mpr hid, h.sound id, rfl⟩
    · decide

theorem restart_file (m : Manager) (now : Int) : (restart m now).file = m.file :=
  load_file { file := m.file } now

/-- An activation a restart revives is the one that was saved, and an earlier
restart would have revived it too. -/
theorem reload_live (now : Int) {later : Int} (h : now ≤ later)
    (hlive : (reload later s).activation.live = true) :
    (reload now s).activation = s.activation.persisted ∧
      (reload later s).activation = s.activation.persisted := by
  unfold reload at hlive ⊢
  simp only at hlive ⊢
  by_cases hcond : (s.activation.live && decide (0 < s.activation.activatedAt) &&
      !s.activation.expired later) = true
  · have hparts : (s.activation.live = true ∧ 0 < s.activation.activatedAt) ∧
        s.activation.expired later = false := by simpa using hcond
    have hnow : s.activation.expired now = false := by
      cases hexp : s.activation.expired now with
      | false => rfl
      | true =>
        rw [Activation.expired_mono h hexp] at hparts
        cases hparts.2
    rw [if_pos hcond]
    simp [hparts.1.1, hparts.1.2, hnow]
  · rw [if_neg hcond] at hlive
    simp at hlive

theorem Slot.Sound.persisted (h : s.Sound) : s.persisted.Sound where
  remembered := h.remembered
  off hoff := by
    have hempty := h.off hoff
    simp [Slot.persisted, hempty, Activation.persisted]
  chosen := h.chosen
  paired := h.paired
  single := h.single
  failures := h.failures
  pin := h.pin
  host := h.host

theorem reload_sound (h : s.Sound) (now : Int) : (reload now s).Sound := by
  unfold reload
  split_ifs
  · exact { h.persisted with }
  · exact { Slot.Sound.fresh with remembered := h.remembered }

/-- The slots are sound, and what a restart revives from the file is what the
memory holds. -/
def Consistent (t : System) : Prop :=
  (∀ slot, (t.manager.slots slot).Sound) ∧
    ∃ saved, Filed t.manager saved ∧
      ∀ slot, isPlayerSlot slot = true → ∀ now, t.clock ≤ now →
        (reload now (saved slot)).activation.live = true →
        (reload now (saved slot)).activation = (t.manager.slots slot).activation.persisted

theorem installed_consistent (clock : Int) : Consistent (installed clock) := by
  refine ⟨fun _ => Slot.Sound.fresh, fun _ => {}, ⟨fun _ => Slot.Sound.fresh, ?_⟩, ?_⟩
  · exact Or.inl ⟨rfl, fun _ => rfl⟩
  · intro slot _ now _ hlive
    rw [reload_fresh] at hlive
    simp at hlive

/-- The step lemma: every event keeps memory and file consistent. -/
theorem step_consistent {d : Digest} {t u : System} {e : Event} (h : Consistent t)
    (hstep : step d t e = some u) : Consistent u := by
  obtain ⟨hsound, saved, hfiled, hmirror⟩ := h
  unfold step at hstep
  split_ifs at hstep with hclock
  obtain rfl : _ = u := by simpa using hstep
  by_cases hop : e.op = .restart
  · have hrestart : apply d t.manager e = restart t.manager e.now := by simp [apply, hop]
    have hslots := restart_slots hfiled e.now
    refine ⟨?_, saved, ⟨hfiled.sound, ?_⟩, ?_⟩
    · intro slot
      simp only [hrestart, hslots]
      split_ifs
      · exact reload_sound (hfiled.sound slot) e.now
      · exact Slot.Sound.fresh
    · simp only [hrestart, restart_file]
      exact hfiled.file
    · intro slot hplayer now hnow hlive
      simp only at hnow
      have hrevived := reload_live e.now (by omega) hlive
      simp only [hrestart, hslots, if_pos hplayer, hrevived.1, hrevived.2]
      rfl
  · have hslotSound : ∀ slot, ((apply d t.manager e).slots slot).Sound := fun slot =>
      (apply_effect d t.manager e slot hop).sound (hsound slot)
    rcases apply_written d t.manager e hop with hsaved | ⟨hfile, hslots⟩
    · refine ⟨hslotSound, (apply d t.manager e).slots, ⟨hslotSound, Or.inr hsaved⟩, ?_⟩
      intro slot _ now _ hlive
      exact (reload_live now (Int.le_refl now) hlive).1
    · refine ⟨hslotSound, saved, ⟨hfiled.sound, ?_⟩, ?_⟩
      · simp only [hfile]
        exact hfiled.file
      · intro slot hplayer now hnow hlive
        simp only at hnow
        have hsame : ((apply d t.manager e).slots slot).activation.persisted =
            (t.manager.slots slot).activation.persisted :=
          congrArg Slot.activation (hslots slot)
        rw [hsame]
        exact hmirror slot hplayer now (by omega) hlive

end MoonlightWeb.Server.ShareManager
