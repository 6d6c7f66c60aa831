import MoonlightWeb.Lib.Run
import MoonlightWeb.Streaming.InputMessages

/-! # The policy on every transport

The type filter keeps a guest to the calls its policy grants, whatever it sends. The
heartbeat passes it, and the two relays that do not filter it once more hand a view-only
guest's held keys to the engine, which presses them.
-/

namespace MoonlightWeb.Streaming.InputMsg

open Lib Js Qt InputWatchdog Controllers

section

variable {relay : Relay} {s : Session} {msg : QJsonObject} {type : QString} {call : EngineCall}

theorem keyCall_kind (down : Bool) : (keyCall s msg down).kind = .keyboardMouse := by
  unfold keyCall
  simp only
  split <;> rfl

theorem mouseMoveCall_kind : (mouseMoveCall msg).kind = .keyboardMouse := by
  unfold mouseMoveCall
  split <;> rfl

theorem of_ite_eq {p : Prop} [Decidable p] {a b : Option EngineCall}
    (h : (if p then a else b) = some call) : p ∧ a = some call ∨ b = some call := by
  by_cases hp : p
  · exact Or.inl ⟨hp, by rwa [if_pos hp] at h⟩
  · exact Or.inr (by rwa [if_neg hp] at h)

theorem switch_cases (h : switch relay s msg type = some call) :
    (type ∈ keyboardTypes ∧ call.kind = .keyboardMouse) ∨
      (type = qs "inputstate" ∧ call = .syncHeldInputs (heartbeat relay s msg).1
        (heartbeat relay s msg).2 ((msg.value "buttonsHold").toBool false)) ∨
      (type ∈ gamepadTypes ∧ call.kind = .gamepad) := by
  have keyboard : ∀ {name : QString} {c : EngineCall}, name ∈ keyboardTypes →
      c.kind = .keyboardMouse → type = name → some c = some call →
      type ∈ keyboardTypes ∧ call.kind = .keyboardMouse := by
    intro name c hname hkind htype hcall
    cases hcall
    exact ⟨htype ▸ hname, hkind⟩
  have pad : ∀ {name : QString} {c : Call}, name ∈ gamepadTypes →
      type = name → some (.controller c) = some call →
      type ∈ gamepadTypes ∧ call.kind = .gamepad := by
    intro name c hname htype hcall
    cases hcall
    exact ⟨htype ▸ hname, rfl⟩
  unfold switch at h
  rcases of_ite_eq h with ⟨htype, hcall⟩ | h
  · exact Or.inl (keyboard (by decide) (keyCall_kind true) htype hcall)
  rcases of_ite_eq h with ⟨htype, hcall⟩ | h
  · exact Or.inl (keyboard (by decide) (keyCall_kind false) htype hcall)
  rcases of_ite_eq h with ⟨htype, hcall⟩ | h
  · exact Or.inr (Or.inl ⟨htype, (Option.some.inj hcall).symm⟩)
  rcases of_ite_eq h with ⟨htype, hcall⟩ | h
  · exact Or.inl (keyboard (by decide) mouseMoveCall_kind htype hcall)
  rcases of_ite_eq h with ⟨htype, hcall⟩ | h
  · exact Or.inl (keyboard (by decide) rfl htype hcall)
  rcases of_ite_eq h with ⟨htype, hcall⟩ | h
  · exact Or.inl (keyboard (by decide) rfl htype hcall)
  rcases of_ite_eq h with ⟨htype, hcall⟩ | h
  · exact Or.inl (keyboard (by decide) rfl htype hcall)
  rcases of_ite_eq h with ⟨htype, hcall⟩ | h
  · exact Or.inl (keyboard (by decide) rfl htype hcall)
  rcases of_ite_eq h with ⟨htype, hcall⟩ | h
  · exact Or.inl (keyboard (by decide) rfl htype hcall)
  rcases of_ite_eq h with ⟨htype, hcall⟩ | h
  · exact Or.inl (keyboard (by decide) rfl htype hcall)
  rcases of_ite_eq h with ⟨htype, hcall⟩ | h
  · exact Or.inl (keyboard (by decide) rfl htype hcall)
  rcases of_ite_eq h with ⟨htype, hpaste⟩ | h
  · rcases of_ite_eq hpaste with ⟨_, hcall⟩ | hcall
    · exact Or.inl (keyboard (by decide) rfl htype hcall)
    · cases hcall
  rcases of_ite_eq h with ⟨htype, hunblock⟩ | h
  · rcases of_ite_eq hunblock with ⟨_, hcall⟩ | hcall
    · exact Or.inl (keyboard (by decide) rfl htype hcall)
    · cases hcall
  rcases of_ite_eq h with ⟨htype, hcall⟩ | h
  · exact Or.inr (Or.inr (pad (by decide) htype hcall))
  rcases of_ite_eq h with ⟨htype, hcall⟩ | h
  · exact Or.inr (Or.inr (pad (by decide) htype hcall))
  rcases of_ite_eq h with ⟨htype, hcall⟩ | h
  · exact Or.inr (Or.inr (pad (by decide) htype hcall))
  cases h

def typeOf (msg : QJsonObject) : QString := (msg.value "type").toString

variable (h : onInputMessage relay s msg = some call)

include h

theorem onInputMessage_eq_some :
    allowed (typeOf msg) s.policy = true ∧ switch relay s msg (typeOf msg) = some call := by
  unfold onInputMessage at h
  change (if !allowed (typeOf msg) s.policy then none else switch relay s msg (typeOf msg)) = _ at h
  cases hallowed : allowed (typeOf msg) s.policy with
  | false => simp [hallowed] at h
  | true =>
    rw [hallowed] at h
    exact ⟨rfl, h⟩

theorem keyboard_granted
    (hkind : call.kind = .keyboardMouse) : s.policy.keyboardMouse = true := by
  obtain ⟨hallowed, hswitch⟩ := onInputMessage_eq_some h
  rcases switch_cases hswitch with ⟨htype, _⟩ | ⟨_, rfl⟩ | ⟨_, hpad⟩
  · rwa [allowed_keyboard htype] at hallowed
  · cases hkind
  · rw [hkind] at hpad
    cases hpad

theorem gamepad_granted
    (hkind : call.kind = .gamepad) : s.policy.gamepad = true := by
  obtain ⟨hallowed, hswitch⟩ := onInputMessage_eq_some h
  rcases switch_cases hswitch with ⟨_, hkeyboard⟩ | ⟨_, rfl⟩ | ⟨htype, _⟩
  · rw [hkind] at hkeyboard
    cases hkeyboard
  · cases hkind
  · rwa [allowed_gamepad htype] at hallowed

omit h

theorem onInputMessage_heartbeat (relay : Relay) (s : Session) (h : typeOf msg = qs "inputstate") :
    onInputMessage relay s msg = some (.syncHeldInputs (heartbeat relay s msg).1
      (heartbeat relay s msg).2 ((msg.value "buttonsHold").toBool false)) := by
  have hallowed : allowed (qs "inputstate") s.policy = true := by
    have hplain : (qs "gamepad").isPrefixOf (qs "inputstate") = false ∧
        qs "inputstate" ∉ housekeeping := by decide
    simp [allowed, hplain.1, hplain.2]
  have hother : qs "inputstate" ≠ qs "keydown" ∧ qs "inputstate" ≠ qs "keyup" := by decide
  unfold onInputMessage
  change (if !allowed (typeOf msg) s.policy then none else switch relay s msg (typeOf msg)) = _
  rw [h, hallowed]
  unfold switch
  rw [if_neg (by decide), if_neg hother.1, if_neg hother.2, if_pos rfl]

theorem onInputMessage_relay (relay relay' : Relay) (s : Session)
    (h : typeOf msg ≠ qs "inputstate") :
    onInputMessage relay s msg = onInputMessage relay' s msg := by
  unfold onInputMessage switch
  change typeOf msg ≠ _ at h
  unfold typeOf at h
  simp only [h, if_false]

end

theorem buttonsOf_eq_nil_iff (buttons : BitVec 32) : buttonsOf buttons = [] ↔ buttons = 0 := by
  constructor
  · intro h
    apply BitVec.eq_of_getLsbD_eq
    intro i hi
    by_contra hset
    have hbit : buttons.getLsbD ((i : Int) + 1 - 1).toNat = true := by
      have hindex : ((i : Int) + 1 - 1).toNat = i := by omega
      rw [hindex]
      simpa using hset
    have hmem : (i : Int) + 1 ∈ buttonsOf buttons :=
      (mem_buttonsOf _ _).mpr ((and_buttonBit _ _).mpr ⟨by omega, by omega, hbit⟩)
    rw [h] at hmem
    exact absurd hmem List.not_mem_nil
  · rintro rfl
    decide

theorem length_press_le (keys : List HeldKey) (found : QHash Int HeldKey × List HeldKey) :
    found.2.length ≤ (keys.foldl syncKey found).2.length := by
  induction keys generalizing found with
  | nil => exact Nat.le_refl _
  | cons key rest ih =>
    have hstep : found.2.length ≤ (syncKey found key).2.length := by
      unfold syncKey
      cases found.1.get key.keyCode <;> simp
    have hrest := ih (syncKey found key)
    rw [List.foldl_cons]
    omega

structure Idle (w : Watchdog) : Prop where
  keys : w.heldKeys.entries = []
  buttons : w.heldButtons = 0

section

variable {w : Watchdog}

variable (h : Idle w)

include h

theorem Idle.get (keyCode : Int) : w.heldKeys.get keyCode = none := by
  simp [JsMap.get, h.keys]

theorem Idle.alive (nowMs : Int) : Idle (noteClientAlive w nowMs).1 :=
  ⟨h.keys, h.buttons⟩

theorem Idle.release (includeHold : Bool) : Idle (release w includeHold).1 := by
  constructor
  · simp [InputWatchdog.release, JsMap.filter, h.keys]
  · simp [InputWatchdog.release, h.buttons]

theorem Idle.tick (nowMs : Int) : Idle (tick w nowMs).1 := by
  unfold InputWatchdog.tick
  split
  · exact h
  · split
    · exact h
    · simp only
      split
      · exact Idle.release (w := { w with longFired := true, shortFired := true })
          ⟨h.keys, h.buttons⟩ true
      · split
        · exact Idle.release (w := { w with shortFired := true }) ⟨h.keys, h.buttons⟩ false
        · exact h

theorem Idle.controller (engine : Engine) (offset : Int)
    (c : Call) : Idle (call engine offset w c).1 := by
  have hstate : ∀ number mask pad, Idle (shimState offset w number mask pad).1 := by
    intro number mask pad
    unfold shimState
    cases applyControllerOffset offset number mask with
    | none => exact h
    | some shifted => exact ⟨h.keys, h.buttons⟩
  cases engine with
  | moonlight =>
    cases c with
    | sendControllerArrival number mask type hasRumble =>
      simp only [call, shimCall]
      cases applyControllerOffset offset (toShort number) mask with
      | none => exact h
      | some shifted => exact h
    | sendControllerState number mask pad => exact hstate number mask pad
    | sendControllerRemoval number mask => exact hstate (toShort number) mask .zero
  | native =>
    cases c with
    | sendControllerArrival number mask type hasRumble => exact h
    | sendControllerState number mask pad => exact ⟨h.keys, h.buttons⟩
    | sendControllerRemoval number mask => exact h

theorem Idle.represses_eq_nil_iff (keys : List HeldKey) (buttons : BitVec 32)
    (buttonsHold : Bool) :
    represses w (.syncHeldInputs keys buttons buttonsHold) = ([], []) ↔
      keys = [] ∧ buttons = 0 := by
  have hkeys : (keys.foldl syncKey (w.heldKeys, [])).2 = [] ↔ keys = [] := by
    cases keys with
    | nil => exact iff_of_true rfl rfl
    | cons key rest =>
      refine iff_of_false ?_ (List.cons_ne_nil _ _)
      intro hnone
      have hgrown := length_press_le rest (syncKey (w.heldKeys, []) key)
      rw [List.foldl_cons] at hnone
      rw [hnone] at hgrown
      simp [syncKey, h.get] at hgrown
  have hbuttons : buttonsOf (buttons &&& ~~~ w.heldButtons) = [] ↔ buttons = 0 := by
    have hall : buttons &&& ~~~ (0 : BitVec 32) = buttons := BitVec.and_allOnes
    rw [buttonsOf_eq_nil_iff, h.buttons, hall]
  simp only [represses, sync, Prod.mk.injEq, hkeys, hbuttons]

omit h

theorem idle_sync_nothing (w : Watchdog) (buttonsHold : Bool) :
    Idle (sync w [] 0 buttonsHold).1 := by
  constructor
  · simp [sync, JsMap.filter, listed]
  · rfl

end

inductive Event
  | message (msg : QJsonObject) (nowMs : Int)
  | tick (nowMs : Int)
  | release (includeHold : Bool)

def Event.call (relay : Relay) (s : Session) : Event → Option EngineCall
  | .message msg _ => onInputMessage relay s msg
  | _ => none

/-- The engine's watchdog after an event; any message marks the client alive first. -/
def session (relay : Relay) (s : Session) (engine : Engine) (offset : Int)
    (w : Watchdog) : Event → Watchdog
  | .message msg nowMs =>
      match onInputMessage relay s msg with
      | none => (noteClientAlive w nowMs).1
      | some call => noted engine offset (noteClientAlive w nowMs).1 call
  | .tick nowMs => (tick w nowMs).1
  | .release includeHold => (release w includeHold).1

/-- The engine is asked for nothing the policy withholds, and a heartbeat presses nothing
where keyboard and mouse are withheld. -/
structure Enforced (relay : Relay) (s : Session) (w : Watchdog) (e : Event) (_ : Watchdog) :
    Prop where
  keyboardMouse : s.policy.keyboardMouse = false → ∀ call, e.call relay s = some call →
    call.kind ≠ .keyboardMouse ∧ represses w call = ([], [])
  gamepad : s.policy.gamepad = false → ∀ call, e.call relay s = some call → call.kind ≠ .gamepad

/-- A message that every relay may hand on as it is. -/
def Harmless (s : Session) (msg : QJsonObject) : Prop :=
  s.policy.keyboardMouse = true ∨ typeOf msg ≠ qs "inputstate" ∨
    (heartbeatKeys s msg = [] ∧ heartbeatButtons msg = 0)

/-- The relay filters heartbeats, or every message is harmless as it is. -/
def Filtered (relay : Relay) (s : Session) (_ : Watchdog) (e : Event) (_ : Watchdog) : Prop :=
  match e with
  | .message msg _ => relay = .dataChannel ∨ Harmless s msg
  | _ => True

section

variable {relay : Relay} {s : Session}

/-- What a relay hands on is empty, to a guest without keyboard and mouse, exactly when it
was filtered. -/
theorem heartbeat_eq_nothing_iff (hwithheld : s.policy.keyboardMouse = false)
    {msg : QJsonObject} (htype : typeOf msg = qs "inputstate") :
    (heartbeat relay s msg).1 = [] ∧ (heartbeat relay s msg).2 = 0 ↔
      relay = .dataChannel ∨ Harmless s msg := by
  have hharmless : Harmless s msg ↔ heartbeatKeys s msg = [] ∧ heartbeatButtons msg = 0 := by
    simp [Harmless, hwithheld, htype]
  rw [hharmless]
  cases relay <;> simp [heartbeat, filterHeldState, hwithheld]

theorem enforced_iff_filtered {w w' : Watchdog}
    (hidle : s.policy.keyboardMouse = false → Idle w) (e : Event) :
    Enforced relay s w e w' ↔ Filtered relay s w e w' := by
  cases e with
  | tick nowMs => exact iff_of_true ⟨fun _ _ h => (by cases h), fun _ _ h => (by cases h)⟩ trivial
  | release includeHold =>
    exact iff_of_true ⟨fun _ _ h => (by cases h), fun _ _ h => (by cases h)⟩ trivial
  | message msg nowMs =>
    change _ ↔ relay = .dataChannel ∨ Harmless s msg
    by_cases htype : typeOf msg = qs "inputstate"
    · have hcall := onInputMessage_heartbeat relay s htype
      cases hpolicy : s.policy.keyboardMouse with
      | true =>
        refine iff_of_true ⟨fun h => ?_, fun _ call h => ?_⟩ (Or.inr (Or.inl hpolicy))
        · rw [hpolicy] at h
          cases h
        · rw [show Event.call relay s (.message msg nowMs) = _ from hcall] at h
          obtain rfl := Option.some.inj h
          exact Kind.noConfusion
      | false =>
        rw [← heartbeat_eq_nothing_iff hpolicy htype,
          ← (hidle hpolicy).represses_eq_nil_iff _ _ ((msg.value "buttonsHold").toBool false)]
        constructor
        · intro h
          exact (h.keyboardMouse hpolicy _ hcall).2
        · intro h
          refine ⟨fun _ call hsame => ?_, fun _ call hsame => ?_⟩
          · rw [show Event.call relay s (.message msg nowMs) = _ from hcall] at hsame
            obtain rfl := Option.some.inj hsame
            exact ⟨Kind.noConfusion, h⟩
          · rw [show Event.call relay s (.message msg nowMs) = _ from hcall] at hsame
            obtain rfl := Option.some.inj hsame
            exact Kind.noConfusion
    · refine iff_of_true ⟨fun hwithheld call hcall => ?_, fun hwithheld call hcall hkind => ?_⟩
        (Or.inr (Or.inr (Or.inl htype)))
      · have hkind : call.kind ≠ .keyboardMouse := by
          intro hkind
          have hgranted := keyboard_granted hcall hkind
          rw [hwithheld] at hgranted
          cases hgranted
        refine ⟨hkind, ?_⟩
        rcases switch_cases (onInputMessage_eq_some hcall).2 with ⟨_, hno⟩ | ⟨hno, _⟩ | ⟨_, hpad⟩
        · exact absurd hno hkind
        · exact absurd hno htype
        · cases call <;> first | rfl | cases hpad
      · have hgranted := gamepad_granted hcall hkind
        rw [hwithheld] at hgranted
        cases hgranted

/-- Where keyboard and mouse are withheld, steps that enforce it keep the engine idle. -/
theorem Idle.session {w w' : Watchdog} (engine : Engine) (offset : Int)
    (hwithheld : s.policy.keyboardMouse = false) (h : Idle w) (e : Event)
    (henforced : Enforced relay s w e w') : Idle (session relay s engine offset w e) := by
  cases e with
  | tick nowMs => exact h.tick nowMs
  | release includeHold => exact h.release includeHold
  | message msg nowMs =>
    have halive := h.alive nowMs
    cases hcall : onInputMessage relay s msg with
    | none =>
      simp only [InputMsg.session, hcall]
      exact halive
    | some call =>
      simp only [InputMsg.session, hcall]
      obtain ⟨hkind, hpressed⟩ := henforced.keyboardMouse hwithheld call hcall
      cases call with
      | syncHeldInputs keys buttons buttonsHold =>
        obtain ⟨rfl, rfl⟩ := (h.represses_eq_nil_iff keys buttons buttonsHold).mp hpressed
        exact idle_sync_nothing _ buttonsHold
      | controller c => exact halive.controller engine offset c
      | _ => exact absurd rfl hkind

/-- A relay keeps a guest to its policy in exactly the runs whose heartbeats it filters or
finds harmless, and the relays agree on exactly the harmless messages. -/
theorem policy_enforced_iff (relay : Relay) (s : Session) (engine : Engine)
    (offset : Int) (labels : List Event) :
    (EachStep (handles (session relay s engine offset)) (Enforced relay s) .fresh labels ↔
        EachStep (handles (session relay s engine offset)) (Filtered relay s) .fresh labels) ∧
      ∀ msg, (∀ relay relay', onInputMessage relay s msg = onInputMessage relay' s msg) ↔
        Harmless s msg := by
  constructor
  · refine eachStep_iff_of_kept (S := fun _ => True)
      (I := fun w => s.policy.keyboardMouse = false → Idle w) ?_ ?_ ?_ trivial ?_ labels
    · intro w e w' _ _
      trivial
    · rintro w e _ _ hidle rfl henforced hwithheld
      exact (hidle hwithheld).session engine offset hwithheld e henforced
    · intro w e w' _ hidle _
      exact enforced_iff_filtered hidle e
    · exact fun _ => ⟨rfl, rfl⟩
  · intro msg
    by_cases htype : typeOf msg = qs "inputstate"
    · have hequal : ∀ relay relay', onInputMessage relay s msg = onInputMessage relay' s msg ↔
          heartbeat relay s msg = heartbeat relay' s msg := by
        intro relay relay'
        rw [onInputMessage_heartbeat relay s htype, onInputMessage_heartbeat relay' s htype]
        simp [Prod.ext_iff]
      simp only [hequal]
      cases hpolicy : s.policy.keyboardMouse with
      | true =>
          refine iff_of_true (fun relay relay' => ?_) (Or.inl hpolicy)
          cases relay <;> cases relay' <;> simp [heartbeat, filterHeldState, hpolicy]
      | false =>
          have hnothing := fun relay => @heartbeat_eq_nothing_iff relay s hpolicy msg htype
          constructor
          · intro hall
            have hfiltered := (hnothing .dataChannel).mpr (Or.inl rfl)
            rw [hall .dataChannel .mediaTrack] at hfiltered
            exact ((hnothing .mediaTrack).mp hfiltered).resolve_left (by decide)
          · intro hharmless relay relay'
            have hleft := (hnothing relay).mpr (Or.inr hharmless)
            have hright := (hnothing relay').mpr (Or.inr hharmless)
            rw [Prod.ext_iff, hleft.1, hleft.2, hright.1, hright.2]
            exact ⟨rfl, rfl⟩
    · exact iff_of_true (fun relay relay' => onInputMessage_relay relay relay' s htype)
        (Or.inr (Or.inl htype))

def heartbeatOfA : QJsonObject :=
  [(qs "type", .string (qs "inputstate")),
    (qs "keys", .array [.object [(qs "keyCode", .number 65)]])]

def viewOnly : Session := ⟨⟨false, false⟩, .native, false, true⟩

/-- A view-only guest's heartbeat presses A on the media transport. -/
theorem unfiltered_heartbeat_presses :
    ¬ ∀ (relay : Relay) (s : Session) (engine : Engine) (offset : Int)
      (labels : List Event),
      EachStep (handles (session relay s engine offset)) (Enforced relay s) .fresh labels := by
  intro hall
  have hstep := hall .mediaTrack viewOnly .native 0 [.message heartbeatOfA 0] [] _ [] .fresh _ rfl
    Run.nil rfl
  have hheartbeat : typeOf heartbeatOfA = qs "inputstate" := by decide
  have hpressed := (hstep.keyboardMouse rfl _ (onInputMessage_heartbeat _ _ hheartbeat)).2
  cases hpressed

end

end MoonlightWeb.Streaming.InputMsg
