import MoonlightWeb.Server.ShareManager

/-! # What an operation does to a slot

Every operation may clear a slot first, when its activation has run out or is
replaced, and then makes at most one change. `Change` lists the changes; the
invariants of the slots are read off it.
-/

namespace MoonlightWeb.Server.ShareManager

open Qt Manager Slot

/-- An activation without what is not persisted: the streaming mark and the
clear secrets. -/
def Activation.persisted (a : Activation) : Activation :=
  { a with streaming := false, tokenClear := [], pinClear := [] }

def Slot.persisted (s : Slot) : Slot := { s with activation := s.activation.persisted }

variable (s : Slot)

def Slot.cleared : Slot := { s with activation := {} }

/-- The slot as a sweep at `now` leaves it. -/
def Slot.prunedAt (now : Int) : Slot :=
  if s.activation.live && s.activation.expired now then s.cleared else s

theorem isPlayerSlot_iff {slot : Int} : isPlayerSlot slot = true ↔ slot ∈ playerSlots := by
  have hrange : isPlayerSlot slot = true ↔ 2 ≤ slot ∧ slot ≤ 4 := by
    change (decide (2 ≤ slot) && decide (slot ≤ 4)) = true ↔ _
    simp
  rw [hrange]
  simp only [playerSlots, List.mem_cons, List.not_mem_nil, or_false]
  omega

variable {a : Activation}

theorem Activation.live_iff : a.live = true ↔ a.tokenHash ≠ [] := by
  simp [Activation.live]

theorem Activation.expired_iff {now : Int} :
    a.expired now = true ↔ 0 < a.expiresAtSecs ∧ a.expiresAtSecs ≤ now := by
  simp [Activation.expired]

/-- What has run out stays run out. -/
theorem Activation.expired_mono {now later : Int} (h : now ≤ later)
    (he : a.expired now = true) : a.expired later = true := by
  rw [Activation.expired_iff] at he ⊢
  omega

@[simp] theorem live_empty : Activation.live {} = false := rfl

@[simp] theorem live_persisted (a : Activation) : a.persisted.live = a.live := rfl

@[simp] theorem expired_persisted (a : Activation) (now : Int) :
    a.persisted.expired now = a.expired now := rfl

theorem Slot.prunedAt_later {now later : Int} (h : now ≤ later) :
    ((s.prunedAt now).persisted.prunedAt later).persisted = (s.prunedAt later).persisted := by
  unfold prunedAt
  by_cases hnow : s.activation.live = true ∧ s.activation.expired now = true
  · have hlater := Activation.expired_mono h hnow.2
    simp [hnow.1, hnow.2, hlater, persisted, cleared]
    rfl
  · have hcond : (s.activation.live && s.activation.expired now) = false := by
      simpa using hnow
    simp only [hcond, Bool.false_eq_true, if_false, persisted, live_persisted,
      expired_persisted]
    split_ifs <;> rfl

variable (m : Manager)

theorem setSlot_self (slot : Int) (s : Slot) : (m.setSlot slot s).slots slot = s := by
  simp [setSlot]

theorem setSlot_ne {slot other : Int} (s : Slot) (h : other ≠ slot) :
    (m.setSlot slot s).slots other = m.slots other := by
  simp [setSlot, Function.update_of_ne h]

/-- `clearActivation` on the slot it is about. -/
def Slot.revoked : Slot := if s.activation.live then s.cleared else s

theorem Slot.revoked_revoked : s.revoked.revoked = s.revoked := by
  unfold revoked
  by_cases hlive : s.activation.live = true
  · simp [hlive, cleared]
  · simp [hlive]

theorem clearActivation_slots (slot other : Int) :
    (clearActivation m slot).slots other =
      if other = slot ∧ isPlayerSlot slot = true then (m.slots other).revoked
      else m.slots other := by
  unfold clearActivation slotFor
  by_cases hplayer : isPlayerSlot slot = true
  · simp only [hplayer, if_true, and_true]
    by_cases heq : other = slot
    · subst heq
      simp only [if_true, revoked]
      split_ifs
      · exact setSlot_self m other _
      · rfl
    · rw [if_neg heq]
      split_ifs
      · exact setSlot_ne m _ heq
      · rfl
  · simp [hplayer]

/-- Clearing a list of slots clears those and no others. -/
theorem clearAll_slots (ids : List Int) (m : Manager) (slot : Int) :
    (ids.foldl clearActivation m).slots slot =
      if slot ∈ ids ∧ isPlayerSlot slot = true then (m.slots slot).revoked
      else m.slots slot := by
  induction ids generalizing m with
  | nil => simp
  | cons id ids ih =>
    rw [List.foldl_cons, ih, clearActivation_slots]
    by_cases heq : slot = id
    · subst heq
      by_cases hplayer : isPlayerSlot slot = true
      · simp [hplayer, revoked_revoked]
      · simp [hplayer]
    · simp [heq]

theorem pruneExpired_slots (now slot : Int) :
    (pruneExpired m now).slots slot =
      if isPlayerSlot slot = true then (m.slots slot).prunedAt now else m.slots slot := by
  have hslots : (pruneExpired m now).slots =
      ((playerSlots.filter fun slot =>
        (m.slots slot).activation.live && (m.slots slot).activation.expired now).foldl
          clearActivation m).slots := by
    unfold pruneExpired
    simp only
    split_ifs <;> rfl
  rw [hslots, clearAll_slots]
  by_cases hplayer : isPlayerSlot slot = true
  · have hmem := isPlayerSlot_iff.mp hplayer
    simp only [List.mem_filter, hmem, hplayer, true_and, and_true, if_true, prunedAt,
      revoked]
    by_cases hlive : (m.slots slot).activation.live = true
    · simp [hlive]
    · simp [hlive]
  · simp [hplayer]

/-- The file is that of the slots, or neither the file nor what is persisted
of the slots moved. -/
def Written (m u : Manager) : Prop :=
  u.file = some (document u.slots) ∨
    (u.file = m.file ∧ ∀ slot, (u.slots slot).persisted = (m.slots slot).persisted)

theorem document_congr {slots slots' : Int → Slot}
    (h : ∀ slot, (slots slot).persisted = (slots' slot).persisted) :
    document slots = document slots' := by
  have hentry : ∀ slot, (slots slot).toJson slot = (slots' slot).toJson slot := by
    intro slot
    have hjson := congrArg (toJson slot) (h slot)
    exact hjson
  simp [document, hentry]

namespace Written

variable {m u v : Manager}

theorem refl (m : Manager) : Written m m := Or.inr ⟨rfl, fun _ => rfl⟩

theorem saved (m u : Manager) : Written m (save u) := Or.inl rfl

theorem kept (hfile : u.file = m.file) (hslots : u.slots = m.slots) : Written m u :=
  Or.inr ⟨hfile, fun _ => by rw [hslots]⟩

theorem trans (h : Written m u) (h' : Written u v) : Written m v := by
  rcases h' with hsaved | ⟨hfile, hslots⟩
  · exact Or.inl hsaved
  rcases h with hsaved | ⟨hfile', hslots'⟩
  · left
    rw [hfile, hsaved, document_congr hslots]
  · exact Or.inr ⟨by rw [hfile, hfile'], fun slot => by rw [hslots, hslots']⟩

end Written

theorem pruneExpired_written (now : Int) : Written m (pruneExpired m now) := by
  unfold pruneExpired
  simp only
  split_ifs with hnone
  · have hnil : playerSlots.filter (fun slot =>
        (m.slots slot).activation.live && (m.slots slot).activation.expired now) = [] := by
      simpa using hnone
    rw [hnil]
    exact Written.refl m
  · exact Written.saved m _

section

variable (d : Digest)

inductive Change (e : Event) (slot : Int) (s : Slot) : Slot → Prop
  | revoked : Change e slot s s.cleared
  | minted {hostUuid : QString} {appId : Int32} {ttlSecs : Int} {token pin id : QString}
      (hop : e.op = .activate slot hostUuid appId ttlSecs token pin id)
      (hhost : hostUuid ≠ []) (httl : isValidTtl ttlSecs = true) :
      Change e slot s
        { s with
          activation := mint d s e.later hostUuid appId ttlSecs token pin id
          lastTtlSecs := ttlSecs }
  | remembered (perms : Permissions) : Change e slot s { s with lastPermissions := perms }
  | permitted (perms : Permissions) (hlive : s.activation.live = true) :
      Change e slot s
        { s with
          activation := { s.activation with permissions := perms }
          lastPermissions := perms }
  | chosen (ttlSecs : Int) (httl : isValidTtl ttlSecs = true) :
      Change e slot s { s with lastTtlSecs := ttlSecs }
  | retimed (ttlSecs : Int) (httl : isValidTtl ttlSecs = true)
      (hlive : s.activation.live = true) :
      Change e slot s
        { s with
          lastTtlSecs := ttlSecs
          activation :=
            { s.activation with
              expiresAtSecs := cappedDeadline s.activation.expiresAtSecs e.later ttlSecs
              ttlSecs := ttlSecs } }
  | renamed {name : QString} (hop : e.op = .setName slot name) :
      Change e slot s { s with name := sanitizeName name }
  | failed (hlive : s.activation.live = true)
      (hleft : s.activation.pinFailures + 1 < maxPinFailures) :
      Change e slot s
        { s with activation := { s.activation with pinFailures := s.activation.pinFailures + 1 } }
  | refused (agent : QString) (hlive : s.activation.live = true) :
      Change e slot s
        { s with
          activation :=
            { s.activation with
              pinFailures := 0
              lastRefusedAt := e.later
              lastRefusedAgent := agent } }
  | bound {token pin rateKey userAgent cookie : QString} (agent : QString)
      (hop : e.op = .redeemPin token pin rateKey userAgent cookie)
      (hlive : s.activation.live = true)
      (hroom : s.activation.cookieHashes.length < maxCookiesPerActivation) :
      Change e slot s
        { s with
          activation :=
            { s.activation with
              pinFailures := 0
              cookieHashes := s.activation.cookieHashes ++ [d.hash cookie]
              devices := s.activation.devices ++ [⟨e.later, agent⟩] } }
  | streamed (streaming : Bool) (hlive : s.activation.live = true) :
      Change e slot s { s with activation := { s.activation with streaming := streaming } }

/-- What an event does to a slot: it may clear it first, and then makes at
most one change. -/
def Effect (e : Event) (slot : Int) (s s' : Slot) : Prop :=
  ∃ first, (first = s ∨ first = s.cleared) ∧ (s' = first ∨ Change d e slot first s')

end

section

variable {d : Digest} {e : Event} {m : Manager} {slot : Int} {s s' : Slot}

theorem Effect.refl : Effect d e slot s s := ⟨s, Or.inl rfl, Or.inl rfl⟩

theorem Change.effect (h : Change d e slot s s') : Effect d e slot s s' :=
  ⟨s, Or.inl rfl, Or.inr h⟩

theorem prunedAt_or (s : Slot) (now : Int) : s.prunedAt now = s ∨ s.prunedAt now = s.cleared := by
  unfold prunedAt
  split_ifs
  · exact Or.inr rfl
  · exact Or.inl rfl

theorem pruneExpired_or (m : Manager) (now slot : Int) :
    (pruneExpired m now).slots slot = m.slots slot ∨
      (pruneExpired m now).slots slot = (m.slots slot).cleared := by
  rw [pruneExpired_slots]
  split_ifs
  · exact prunedAt_or _ now
  · exact Or.inl rfl

theorem pruneExpired_effect (now : Int) :
    Effect d e slot (m.slots slot) ((pruneExpired m now).slots slot) :=
  ⟨_, pruneExpired_or m now slot, Or.inl rfl⟩

theorem setSlot_effect {now target : Int}
    (h : slot = target → Change d e slot ((pruneExpired m now).slots slot) s') :
    Effect d e slot (m.slots slot) (((pruneExpired m now).setSlot target s').slots slot) := by
  by_cases heq : slot = target
  · rw [← heq, setSlot_self]
    exact ⟨_, pruneExpired_or m now slot, Or.inr (h heq)⟩
  · rw [setSlot_ne _ _ heq]
    exact pruneExpired_effect now

variable {target : Int}

theorem activate_effect {hostUuid : QString} {appId : Int32} {ttlSecs : Int}
    {token pin id : QString} (hop : e.op = .activate target hostUuid appId ttlSecs token pin id) :
    Effect d e slot (m.slots slot)
      ((activate d m e.now e.later target hostUuid appId ttlSecs token pin id).2.slots slot) := by
  unfold activate
  split_ifs with hplayer hhost httl
  · exact Effect.refl
  · exact Effect.refl
  · exact Effect.refl
  · simp only [save]
    generalize hcleared : (if ((pruneExpired m e.now).slots target).activation.live = true then
      clearActivation (pruneExpired m e.now) target else pruneExpired m e.now) = m'
    have hfirst : m'.slots slot = m.slots slot ∨ m'.slots slot = (m.slots slot).cleared := by
      have hpruned := pruneExpired_or m e.now slot
      rw [← hcleared]
      split_ifs
      · rw [clearActivation_slots]
        split_ifs
        · unfold revoked
          split_ifs
          · rcases hpruned with h | h <;> rw [h]
            · exact Or.inr rfl
            · exact Or.inr rfl
          · exact hpruned
        · exact hpruned
      · exact hpruned
    by_cases heq : slot = target
    · subst heq
      rw [setSlot_self]
      exact ⟨_, hfirst, Or.inr (.minted hop (by simpa using hhost) (by simpa using httl))⟩
    · rw [setSlot_ne _ _ heq]
      exact ⟨_, hfirst, Or.inl rfl⟩

theorem setPermissions_effect {perms : Permissions} :
    Effect d e slot (m.slots slot) ((setPermissions m e.now target perms).2.slots slot) := by
  unfold setPermissions slotFor
  split_ifs with hplayer
  · simp only
    split_ifs with hlive
    · exact pruneExpired_effect e.now
    · exact setSlot_effect fun heq => by subst heq; exact .remembered perms
    · exact pruneExpired_effect e.now
    · exact setSlot_effect fun heq => by subst heq; exact .permitted perms (by simpa using hlive)
  · exact pruneExpired_effect e.now

theorem setTtl_effect {target ttlSecs : Int} :
    Effect d e slot (m.slots slot) ((setTtl m e.now e.later target ttlSecs).2.slots slot) := by
  unfold setTtl slotFor
  split_ifs with httl hplayer
  · exact Effect.refl
  · have hvalid : isValidTtl ttlSecs = true := by simpa using httl
    simp only
    split_ifs with hlive
    · exact setSlot_effect fun heq => by subst heq; exact .chosen ttlSecs hvalid
    · exact setSlot_effect fun heq => by
        subst heq
        exact .retimed ttlSecs hvalid (by simpa using hlive)
  · exact pruneExpired_effect e.now

theorem setName_effect {name : QString} (hop : e.op = .setName target name) :
    Effect d e slot (m.slots slot) ((setName m target name).2.slots slot) := by
  unfold setName slotFor
  split_ifs with hplayer
  · simp only
    split_ifs
    · exact Effect.refl
    · by_cases heq : slot = target
      · subst heq
        simp only [save, setSlot_self]
        exact Change.effect (.renamed hop)
      · simp only [save, setSlot_ne _ _ heq]
        exact Effect.refl
  · exact Effect.refl

theorem deactivate_slots (m : Manager) (target slot : Int) :
    (deactivate m target).2.slots slot =
      if slot = target ∧ isPlayerSlot target = true then (m.slots slot).revoked
      else m.slots slot := by
  unfold deactivate slotFor
  by_cases hplayer : isPlayerSlot target = true
  · simp only [hplayer, if_true, and_true]
    by_cases hlive : (m.slots target).activation.live = false
    · rw [if_pos hlive]
      split_ifs with heq
      · subst heq
        simp [revoked, hlive]
      · rfl
    · rw [if_neg hlive]
      simp only [save, clearActivation_slots, hplayer, and_true]
  · simp [hplayer]

theorem deactivate_effect :
    Effect d e slot (m.slots slot) ((deactivate m target).2.slots slot) := by
  rw [deactivate_slots]
  unfold revoked
  split_ifs
  · exact Change.effect .revoked
  · exact Effect.refl
  · exact Effect.refl

theorem deactivateAll_slots (m : Manager) (slot : Int) :
    (deactivateAll m).slots slot =
      if isPlayerSlot slot = true then (m.slots slot).revoked else m.slots slot := by
  have hslots : (deactivateAll m).slots =
      ((playerSlots.filter fun slot => (m.slots slot).activation.live).foldl
        clearActivation m).slots := by
    unfold deactivateAll
    simp only
    split_ifs <;> rfl
  rw [hslots, clearAll_slots]
  by_cases hplayer : isPlayerSlot slot = true
  · have hmem := isPlayerSlot_iff.mp hplayer
    by_cases hlive : (m.slots slot).activation.live = true
    · simp [hplayer, hmem, hlive]
    · simp [hplayer, hlive, revoked]
  · simp [hplayer]

theorem deactivateAll_effect : Effect d e slot (m.slots slot) ((deactivateAll m).slots slot) := by
  rw [deactivateAll_slots]
  unfold revoked
  split_ifs
  · exact Change.effect .revoked
  · exact Effect.refl
  · exact Effect.refl

theorem setStreaming_effect {streaming : Bool} :
    Effect d e slot (m.slots slot) ((setStreaming m target streaming).slots slot) := by
  unfold setStreaming slotFor
  split_ifs
  · simp only
    split_ifs with hlive
    · exact Effect.refl
    · by_cases heq : slot = target
      · subst heq
        simp only [setActivation, setSlot_self]
        exact Change.effect (.streamed streaming (by simpa using hlive))
      · simp only [setActivation, setSlot_ne _ _ heq]
        exact Effect.refl
  · exact Effect.refl

/-- A loop that keeps the last match yields its start value or a match. -/
theorem foldl_lastMatch {α β : Type} (p : α → Bool) (f : α → β) (l : List α) (start : β) :
    l.foldl (fun found x => if p x then f x else found) start = start ∨
      ∃ x ∈ l, p x = true ∧
        l.foldl (fun found x => if p x then f x else found) start = f x := by
  induction l generalizing start with
  | nil => exact Or.inl rfl
  | cons a l ih =>
    rw [List.foldl_cons]
    rcases ih (if p a then f a else start) with hstart | ⟨x, hx, hp, heq⟩
    · by_cases ha : p a = true
      · exact Or.inr ⟨a, by simp, ha, by rw [hstart, if_pos ha]⟩
      · exact Or.inl (by rw [hstart, if_neg ha])
    · exact Or.inr ⟨x, List.mem_cons_of_mem a hx, hp, heq⟩

theorem slotForTokenHash_spec {tokenHash : QString} (h : slotForTokenHash m tokenHash = some slot) :
    isPlayerSlot slot = true ∧ (m.slots slot).activation.live = true ∧
      constantTimeEquals (m.slots slot).activation.tokenHash tokenHash = true := by
  unfold slotForTokenHash at h
  split_ifs at h
  rcases foldl_lastMatch
    (fun slot => (m.slots slot).activation.live &&
      constantTimeEquals (m.slots slot).activation.tokenHash tokenHash) some playerSlots none
    with hnone | ⟨x, hx, hp, heq⟩
  · rw [h] at hnone
    cases hnone
  · rw [h] at heq
    obtain rfl : slot = x := by simpa using heq
    have hboth : (m.slots slot).activation.live = true ∧
        constantTimeEquals (m.slots slot).activation.tokenHash tokenHash = true := by
      simpa using hp
    exact ⟨isPlayerSlot_iff.mpr hx, hboth.1, hboth.2⟩

theorem rateRecord_frame (m : Manager) (now : Int) (bucket : QString) (matched : Bool) :
    (rateRecord m now bucket matched).2.2.slots = m.slots ∧
      (rateRecord m now bucket matched).2.2.file = m.file := by
  unfold rateRecord
  simp only
  split_ifs <;> exact ⟨rfl, rfl⟩

/-- How an attempt ends, on the slots `m₁` as the sweep leaves them: turned
away, charged to the activation of the token, or matched. -/
inductive Redeemed (d : Digest) (m₁ : Manager) (later : Int) (token pin userAgent cookie : QString) :
    PinOutcome × Manager → Prop
  | away {r : PinOutcome × Manager} (hslots : r.2.slots = m₁.slots) (hfile : r.2.file = m₁.file)
      (hresult : r.1.result = .invalid ∨ r.1.result = .rateLimited) :
      Redeemed d m₁ later token pin userAgent cookie r
  | charged {r : PinOutcome × Manager} {m₂ : Manager} {slot : Int}
      (hfound : slotForTokenHash m₁ (d.hash token) = some slot) (hslots : m₂.slots = m₁.slots)
      (hresult : r.1.result = .invalid) (hm : r.2 = chargeFailure m₂ slot) :
      Redeemed d m₁ later token pin userAgent cookie r
  | matched {r : PinOutcome × Manager} {m₂ : Manager} {slot : Int}
      (hfound : slotForTokenHash m₁ (d.hash token) = some slot)
      (hpin : pinMatches d m₁ slot pin = true) (hslots : m₂.slots = m₁.slots)
      (hresult : r.1.result =
        if (bindDevice d m₂ later slot userAgent cookie).1 then .ok else .alreadyBound)
      (hm : r.2 = (bindDevice d m₂ later slot userAgent cookie).2) :
      Redeemed d m₁ later token pin userAgent cookie r

theorem redeemPin_redeemed (d : Digest) (m : Manager) (now later : Int)
    (token pin rateKey userAgent cookie : QString) :
    Redeemed d (pruneExpired m now) later token pin userAgent cookie
      (redeemPin d m now later token pin rateKey userAgent cookie) := by
  unfold redeemPin
  by_cases hlocked : rateLockout (pruneExpired m now) later (qs "share-pin:" ++ rateKey) > 0
  · simp only [if_pos hlocked]
    exact .away rfl rfl (Or.inr rfl)
  · simp only [if_neg hlocked]
    obtain ⟨hslots, hfile⟩ := rateRecord_frame (pruneExpired m now) later
      (qs "share-pin:" ++ rateKey)
      ((slotForTokenHash (pruneExpired m now) (d.hash token)).any fun slot =>
        pinMatches d (pruneExpired m now) slot pin)
    cases hfound : slotForTokenHash (pruneExpired m now) (d.hash token) with
    | none =>
      rw [hfound] at hslots hfile
      exact .away hslots hfile (Or.inl rfl)
    | some slot =>
      rw [hfound] at hslots
      simp only [Option.any_some] at hslots ⊢
      by_cases hpin : pinMatches d (pruneExpired m now) slot pin = true
      · simp only [hpin, Bool.true_eq_false, if_false] at hslots ⊢
        apply Redeemed.matched hfound hpin hslots
        · by_cases hbound : (bindDevice d (rateRecord (pruneExpired m now) later
              (qs "share-pin:" ++ rateKey) true).2.2 later slot userAgent cookie).1 = true
          · simp only [if_pos hbound]
          · simp only [if_neg hbound]
        · split_ifs <;> rfl
      · have hpin : pinMatches d (pruneExpired m now) slot pin = false := by simpa using hpin
        simp only [hpin, if_true] at hslots ⊢
        exact .charged hfound hslots rfl rfl

theorem chargeFailure_effect (hplayer : isPlayerSlot target = true)
    (hlive : (m.slots target).activation.live = true) :
    (chargeFailure m target).slots slot = m.slots slot ∨
      Change d e slot (m.slots slot) ((chargeFailure m target).slots slot) := by
  by_cases heq : slot = target
  · subst heq
    right
    unfold chargeFailure
    simp only [save]
    split_ifs with hmany
    · have hself : (clearActivation
          (m.setActivation slot
            { (m.slots slot).activation with
              pinFailures := (m.slots slot).activation.pinFailures + 1 }) slot).slots slot =
          (m.slots slot).cleared := by
        rw [clearActivation_slots, if_pos ⟨rfl, hplayer⟩]
        simp only [setActivation, setSlot_self, revoked, cleared]
        exact if_pos hlive
      rw [hself]
      exact .revoked
    · simp only [setActivation, setSlot_self]
      exact .failed hlive (by omega)
  · left
    unfold chargeFailure
    simp only [save]
    split_ifs
    · rw [clearActivation_slots, if_neg (fun h => heq h.1)]
      exact setSlot_ne m _ heq
    · exact setSlot_ne m _ heq

theorem bindDevice_effect {token pin rateKey userAgent cookie : QString}
    (hop : e.op = .redeemPin token pin rateKey userAgent cookie)
    (hlive : (m.slots target).activation.live = true) :
    (bindDevice d m e.later target userAgent cookie).2.slots slot = m.slots slot ∨
      Change d e slot (m.slots slot)
        ((bindDevice d m e.later target userAgent cookie).2.slots slot) := by
  by_cases heq : slot = target
  · subst heq
    right
    unfold bindDevice
    simp only [save]
    split_ifs with hfull
    · simp only [setActivation, setSlot_self]
      exact .refused _ hlive
    · simp only [setActivation, setSlot_self]
      exact .bound _ hop hlive (by simpa using hfull)
  · left
    unfold bindDevice
    simp only [save]
    split_ifs
    · exact setSlot_ne m _ heq
    · exact setSlot_ne m _ heq

theorem redeemPin_effect {token pin rateKey userAgent cookie : QString}
    (hop : e.op = .redeemPin token pin rateKey userAgent cookie) :
    Effect d e slot (m.slots slot)
      ((redeemPin d m e.now e.later token pin rateKey userAgent cookie).2.slots slot) := by
  have hfirst := pruneExpired_or m e.now slot
  cases redeemPin_redeemed d m e.now e.later token pin rateKey userAgent cookie with
  | away hslots _ _ =>
    rw [hslots]
    exact pruneExpired_effect e.now
  | charged hfound hslots _ hm =>
    obtain ⟨hplayer, hlive, _⟩ := slotForTokenHash_spec hfound
    rw [hm]
    refine ⟨_, hfirst, ?_⟩
    rw [← hslots] at hlive ⊢
    exact chargeFailure_effect hplayer hlive
  | matched hfound _ hslots _ hm =>
    obtain ⟨_, hlive, _⟩ := slotForTokenHash_spec hfound
    rw [hm]
    refine ⟨_, hfirst, ?_⟩
    rw [← hslots] at hlive ⊢
    exact bindDevice_effect hop hlive

/-- The step lemma: every operation but a restart is an `Effect` on every slot. -/
theorem apply_effect (d : Digest) (m : Manager) (e : Event) (slot : Int) (h : e.op ≠ .restart) :
    Effect d e slot (m.slots slot) ((apply d m e).slots slot) := by
  unfold apply
  cases hop : e.op with
  | activate target hostUuid appId ttlSecs token pin id => exact activate_effect hop
  | setPermissions target perms => exact setPermissions_effect
  | setTtl target ttlSecs => exact setTtl_effect
  | setName target name => exact setName_effect hop
  | deactivate target => exact deactivate_effect
  | deactivateAll => exact deactivateAll_effect
  | redeemPin token pin rateKey userAgent cookie => exact redeemPin_effect hop
  | setStreaming target streaming => exact setStreaming_effect
  | prune => exact pruneExpired_effect e.now
  | ratePurge => exact Effect.refl
  | restart => exact absurd hop h

/-- Every operation but a restart writes the file whenever what is persisted moved. -/
theorem apply_written (d : Digest) (m : Manager) (e : Event) (h : e.op ≠ .restart) :
    Written m (apply d m e) := by
  have hpruned := pruneExpired_written m e.now
  unfold apply
  cases hop : e.op with
  | activate target hostUuid appId ttlSecs token pin id =>
    simp only [activate]
    split_ifs <;> first | exact Written.refl m | exact Written.saved m _
  | setPermissions target perms =>
    simp only [setPermissions]
    split
    · exact hpruned
    · split_ifs <;> first | exact hpruned | exact Written.saved m _
  | setTtl target ttlSecs =>
    simp only [setTtl]
    split_ifs
    · exact Written.refl m
    · split
      · exact hpruned
      · split_ifs <;> exact Written.saved m _
  | setName target name =>
    simp only [setName]
    split
    · exact Written.refl m
    · split_ifs <;> first | exact Written.refl m | exact Written.saved m _
  | deactivate target =>
    simp only [deactivate]
    split
    · exact Written.refl m
    · split_ifs <;> first | exact Written.refl m | exact Written.saved m _
  | deactivateAll =>
    simp only [deactivateAll]
    split_ifs with hnone
    · have hnil : playerSlots.filter (fun slot => (m.slots slot).activation.live) = [] := by
        simpa using hnone
      rw [hnil]
      exact Written.refl m
    · exact Written.saved m _
  | redeemPin token pin rateKey userAgent cookie =>
    simp only
    cases redeemPin_redeemed d m e.now e.later token pin rateKey userAgent cookie with
    | away hslots hfile _ => exact hpruned.trans (Written.kept hfile hslots)
    | charged _ _ _ hm =>
      rw [hm]
      exact Written.saved m _
    | matched _ _ _ _ hm =>
      rw [hm]
      simp only [bindDevice]
      split_ifs <;> exact Written.saved m _
  | setStreaming target streaming =>
    simp only [setStreaming]
    split
    · exact Written.refl m
    · rename_i s hs
      have hsame : s = m.slots target := by
        unfold slotFor at hs
        split_ifs at hs
        simpa using hs.symm
      split_ifs
      · exact Written.refl m
      · right
        refine ⟨rfl, fun slot => ?_⟩
        by_cases heq : slot = target
        · subst heq
          simp only [setActivation, setSlot_self, hsame]
          rfl
        · simp only [setActivation, setSlot_ne _ _ heq]
  | prune => exact hpruned
  | ratePurge => exact Written.kept rfl rfl
  | restart => exact absurd hop h

end

end MoonlightWeb.Server.ShareManager
