import MoonlightWeb.Server.ShareDeadline
import MoonlightWeb.Server.ShareRateLimits

/-! # Wrong PINs

The failures charged to an activation are the wrong PINs evaluated against it since the last
correct one, through operations and restarts, so at most ten are. To the caller an unknown
token and a wrong PIN are the same answer.
-/

namespace MoonlightWeb.Server.ShareManager

open Lib Qt Function

/-- The slot an attempt is evaluated against and whether its PIN is the one; nothing for a
caller locked out or a token unknown. -/
def evaluation (d : Digest) (m : Manager) (now later : Int) (token pin rateKey : QString) :
    Option (Int × Bool) :=
  if rateLockout (pruneExpired m now) later (shareBucket rateKey) > 0 then none
  else
    (slotForTokenHash (pruneExpired m now) (d.hash token)).map fun slot =>
      (slot, pinMatches d (pruneExpired m now) slot pin)

/-- The system with the wrong PINs evaluated against each slot since it was activated, or
since the last correct one. -/
structure Guessed where
  system : System
  wrong : Int → Nat

def recount (d : Digest) (t : Guessed) (e : Event) : Int → Nat :=
  match e.op with
  | .activate target hostUuid appId ttlSecs token pin id =>
      if (activate d t.system.manager e.now e.later target hostUuid appId ttlSecs token pin id).1
      then update t.wrong target 0
      else t.wrong
  | .redeemPin token pin rateKey _ _ =>
      match evaluation d t.system.manager e.now e.later token pin rateKey with
      | some (target, true) => update t.wrong target 0
      | some (target, false) => update t.wrong target (t.wrong target + 1)
      | none => t.wrong
  | _ => t.wrong

def guess (d : Digest) (t : Guessed) (e : Event) : Option Guessed :=
  match step d t.system e with
  | none => none
  | some s => some { system := s, wrong := recount d t e }

def Guessed.installed (clock : Int) : Guessed where
  system := ShareManager.installed clock
  wrong _ := 0

section

variable {d : Digest} {m : Manager} {now later slot : Int} {s s' : Slot}

/-- What is live afterwards was live before, with as many failures charged. -/
def Uncharged (s s' : Slot) : Prop :=
  s'.activation.live = true →
    s.activation.live = true ∧ s'.activation.pinFailures = s.activation.pinFailures

theorem Uncharged.refl (s : Slot) : Uncharged s s := fun hlive => ⟨hlive, rfl⟩

theorem Uncharged.of_off (h : s'.activation.live = false) : Uncharged s s' := by
  intro hlive
  rw [h] at hlive
  cases hlive

theorem Uncharged.trans {s'' : Slot} (h : Uncharged s s') (h' : Uncharged s' s'') :
    Uncharged s s'' := by
  intro hlive
  obtain ⟨hmid, heq'⟩ := h' hlive
  obtain ⟨hfirst, heq⟩ := h hmid
  exact ⟨hfirst, heq'.trans heq⟩

theorem Uncharged.revoked (s : Slot) : Uncharged s s.revoked := by
  unfold Slot.revoked
  split_ifs
  · exact Uncharged.of_off rfl
  · exact Uncharged.refl s

theorem clearActivation_uncharged (m : Manager) (target slot : Int) :
    Uncharged (m.slots slot) ((clearActivation m target).slots slot) := by
  rw [clearActivation_slots]
  split_ifs
  · exact Uncharged.revoked _
  · exact Uncharged.refl _

theorem pruneExpired_uncharged (m : Manager) (now slot : Int) :
    Uncharged (m.slots slot) ((pruneExpired m now).slots slot) := by
  rcases pruneExpired_or m now slot with hsame | hcleared
  · rw [hsame]
    exact Uncharged.refl _
  · rw [hcleared]
    exact Uncharged.of_off rfl

variable {target : Int}

theorem setSlot_uncharged (h : Uncharged (m.slots target) s') :
    Uncharged (m.slots slot) ((m.setSlot target s').slots slot) := by
  by_cases heq : slot = target
  · rw [heq, setSlot_self]
    exact h
  · rw [setSlot_ne _ _ heq]
    exact Uncharged.refl _

theorem setPermissions_uncharged (target : Int) (perms : Permissions) :
    Uncharged (m.slots slot) ((setPermissions m now target perms).2.slots slot) := by
  refine (pruneExpired_uncharged m now slot).trans ?_
  unfold setPermissions Manager.slotFor
  split_ifs
  · simp only
    split_ifs
    · exact Uncharged.refl _
    · exact setSlot_uncharged fun hlive => ⟨hlive, rfl⟩
    · exact Uncharged.refl _
    · exact setSlot_uncharged fun hlive => ⟨hlive, rfl⟩
  · exact Uncharged.refl _

theorem setTtl_uncharged (target ttlSecs : Int) :
    Uncharged (m.slots slot) ((setTtl m now later target ttlSecs).2.slots slot) := by
  unfold setTtl Manager.slotFor
  split_ifs
  · exact Uncharged.refl _
  · refine (pruneExpired_uncharged m now slot).trans ?_
    simp only
    split_ifs
    · exact setSlot_uncharged fun hlive => ⟨hlive, rfl⟩
    · exact setSlot_uncharged fun hlive => ⟨hlive, rfl⟩
  · exact pruneExpired_uncharged m now slot

theorem setName_uncharged (target : Int) (name : QString) :
    Uncharged (m.slots slot) ((setName m target name).2.slots slot) := by
  unfold setName Manager.slotFor
  split_ifs
  · simp only
    split_ifs
    · exact Uncharged.refl _
    · exact setSlot_uncharged fun hlive => ⟨hlive, rfl⟩
  · exact Uncharged.refl _

theorem setStreaming_uncharged (target : Int) (streaming : Bool) :
    Uncharged (m.slots slot) ((setStreaming m target streaming).slots slot) := by
  unfold setStreaming Manager.slotFor
  split_ifs
  · simp only
    split_ifs
    · exact Uncharged.refl _
    · exact setSlot_uncharged fun hlive => ⟨hlive, rfl⟩
  · exact Uncharged.refl _

/-- A refused activation changes nothing; a granted one leaves the other slots' counts. -/
theorem activate_uncharged {hostUuid : QString} {appId : Int32} {ttlSecs : Int}
    {token pin id : QString}
    (hother : (activate d m now later target hostUuid appId ttlSecs token pin id).1 = true →
      slot ≠ target) :
    Uncharged (m.slots slot)
      ((activate d m now later target hostUuid appId ttlSecs token pin id).2.slots slot) := by
  unfold activate at hother ⊢
  split_ifs at hother ⊢
  · exact Uncharged.refl _
  · exact Uncharged.refl _
  · exact Uncharged.refl _
  · simp only [save] at hother ⊢
    rw [setSlot_ne _ _ (hother trivial)]
    split_ifs
    · exact (pruneExpired_uncharged m now slot).trans (clearActivation_uncharged _ target slot)
    · exact pruneExpired_uncharged m now slot

/-- A granted activation starts with none. -/
theorem activate_fresh {hostUuid : QString} {appId : Int32} {ttlSecs : Int} {token pin id : QString}
    (h : (activate d m now later target hostUuid appId ttlSecs token pin id).1 = true) :
    ((activate d m now later target hostUuid appId ttlSecs token pin id).2.slots
      target).activation.pinFailures = 0 := by
  unfold activate at h ⊢
  split_ifs at h ⊢
  simp only [save, setSlot_self]
  rfl

theorem chargeFailure_other (hne : slot ≠ target) :
    (chargeFailure m target).slots slot = m.slots slot := by
  unfold chargeFailure
  simp only [save]
  split_ifs
  · rw [clearActivation_slots, if_neg fun h => hne h.1]
    exact setSlot_ne m _ hne
  · exact setSlot_ne m _ hne

/-- The last failure ends the activation, the others are charged to it. -/
theorem chargeFailure_self (hplayer : isPlayerSlot slot = true)
    (hlive : (m.slots slot).activation.live = true) :
    ((chargeFailure m slot).slots slot).activation =
      if (m.slots slot).activation.pinFailures + 1 ≥ maxPinFailures then {}
      else { (m.slots slot).activation with
          pinFailures := (m.slots slot).activation.pinFailures + 1 } := by
  unfold chargeFailure
  simp only [save]
  split_ifs
  · rw [clearActivation_slots, if_pos ⟨rfl, hplayer⟩]
    simp only [Manager.setActivation, setSlot_self, Slot.revoked, Slot.cleared]
    exact congrArg Slot.activation (if_pos hlive)
  · simp only [Manager.setActivation, setSlot_self]

theorem bindDevice_other {userAgent cookie : QString} (hne : slot ≠ target) :
    (bindDevice d m later target userAgent cookie).2.slots slot = m.slots slot := by
  unfold bindDevice
  simp only [save]
  split_ifs
  · exact setSlot_ne m _ hne
  · exact setSlot_ne m _ hne

theorem bindDevice_self (userAgent cookie : QString) :
    ((bindDevice d m later slot userAgent cookie).2.slots slot).activation.pinFailures = 0 := by
  unfold bindDevice
  simp only [save]
  split_ifs
  · simp only [Manager.setActivation, setSlot_self]
  · simp only [Manager.setActivation, setSlot_self]

/-- An attempt acts on the slot it is evaluated against, after the sweep. -/
theorem redeemPin_evaluated (d : Digest) (m : Manager) (now later : Int)
    (token pin rateKey userAgent cookie : QString) :
    ∃ m₂, m₂.slots = (pruneExpired m now).slots ∧
      (redeemPin d m now later token pin rateKey userAgent cookie).2 =
        match evaluation d m now later token pin rateKey with
        | none => m₂
        | some (slot, false) => chargeFailure m₂ slot
        | some (slot, true) => (bindDevice d m₂ later slot userAgent cookie).2 := by
  unfold redeemPin evaluation shareBucket
  by_cases hlocked : rateLockout (pruneExpired m now) later (qs "share-pin:" ++ rateKey) > 0
  · simp only [if_pos hlocked]
    exact ⟨_, rfl, rfl⟩
  · simp only [if_neg hlocked]
    have hframe := rateRecord_frame (pruneExpired m now) later (qs "share-pin:" ++ rateKey)
    cases hfound : slotForTokenHash (pruneExpired m now) (d.hash token) with
    | none => exact ⟨_, (hframe _).1, rfl⟩
    | some slot =>
      simp only [Option.any_some, Option.map_some]
      cases hpin : pinMatches d (pruneExpired m now) slot pin with
      | true =>
        refine ⟨_, (hframe true).1, ?_⟩
        simp only [Bool.true_eq_false, if_false]
        split_ifs <;> rfl
      | false => exact ⟨_, (hframe false).1, rfl⟩

theorem evaluation_spec {token pin rateKey : QString} {matched : Bool}
    (h : evaluation d m now later token pin rateKey = some (slot, matched)) :
    isPlayerSlot slot = true ∧ ((pruneExpired m now).slots slot).activation.live = true := by
  unfold evaluation at h
  split_ifs at h
  obtain ⟨found, hfound, heq⟩ := Option.map_eq_some_iff.mp h
  obtain rfl : found = slot := congrArg Prod.fst heq
  obtain ⟨hplayer, hlive, _⟩ := slotForTokenHash_spec hfound
  exact ⟨hplayer, hlive⟩

structure Charged (t : Guessed) : Prop where
  consistent : Consistent t.system
  counted : ∀ slot, (t.system.manager.slots slot).activation.live = true →
    (t.system.manager.slots slot).activation.pinFailures = t.wrong slot
  bounded : ∀ slot, (t.wrong slot : Int) ≤ maxPinFailures

theorem installed_charged (clock : Int) : Charged (Guessed.installed clock) where
  consistent := installed_consistent clock
  counted slot hlive := by cases hlive
  bounded slot := by show (0 : Int) ≤ 10; decide

variable {t u : Guessed} {e : Event}

theorem guess_eq_some (h : guess d t e = some u) :
    step d t.system e = some u.system ∧ u.wrong = recount d t e ∧ t.system.clock ≤ e.now ∧
      u.system.manager = apply d t.system.manager e := by
  unfold guess at h
  cases hstep : step d t.system e with
  | none =>
    rw [hstep] at h
    cases h
  | some s =>
    rw [hstep] at h
    obtain rfl := Option.some.inj h
    refine ⟨rfl, rfl, ?_⟩
    unfold step at hstep
    split_ifs at hstep with hclock
    obtain rfl := Option.some.inj hstep
    exact ⟨hclock.1, rfl⟩

/-- One slot keeps its charge through what does not charge it. -/
theorem Charged.kept (h : Charged t) {slot : Int} {s' : Slot}
    (hkept : Uncharged (t.system.manager.slots slot) s') (hlive : s'.activation.live = true) :
    s'.activation.pinFailures = t.wrong slot := by
  obtain ⟨hwas, heq⟩ := hkept hlive
  exact heq.trans (h.counted slot hwas)

theorem step_redeemed (h : Charged t) {token pin rateKey userAgent cookie : QString}
    (hop : e.op = .redeemPin token pin rateKey userAgent cookie) (hstep : guess d t e = some u)
    (slot : Int) :
    ((u.system.manager.slots slot).activation.live = true →
        (u.system.manager.slots slot).activation.pinFailures = u.wrong slot) ∧
      (u.wrong slot : Int) ≤ maxPinFailures := by
  obtain ⟨_, hwrong, _, hmanager⟩ := guess_eq_some hstep
  obtain ⟨m₂, hslots, hredeemed⟩ := redeemPin_evaluated d t.system.manager e.now e.later token pin
    rateKey userAgent cookie
  have happly : u.system.manager =
      (redeemPin d t.system.manager e.now e.later token pin rateKey userAgent cookie).2 := by
    rw [hmanager, apply, hop]
  rw [hredeemed] at happly
  have hpruned := pruneExpired_uncharged t.system.manager e.now slot
  rw [← hslots] at hpruned
  simp only [recount, hop] at hwrong
  rw [happly, hwrong]
  cases hevaluation : evaluation d t.system.manager e.now e.later token pin rateKey with
  | none => exact ⟨h.kept hpruned, h.bounded slot⟩
  | some evaluated =>
    obtain ⟨target, matched⟩ := evaluated
    obtain ⟨hplayer, hlive⟩ := evaluation_spec hevaluation
    rw [← hslots] at hlive
    by_cases heq : slot = target
    · subst heq
      cases matched with
      | true =>
        simp only [update_self]
        exact ⟨fun _ => bindDevice_self userAgent cookie, by decide⟩
      | false =>
        obtain ⟨hwas, hsame⟩ := hpruned hlive
        have hcount := h.counted slot hwas
        have hless := (h.consistent.1 slot).failures.2
        simp only [update_self]
        rw [chargeFailure_self hplayer hlive, hsame, hcount]
        rw [hcount] at hless
        refine ⟨fun hleft => ?_, by push_cast; omega⟩
        split_ifs at hleft ⊢
        · cases hleft
        · push_cast
          rfl
    · cases matched with
      | true =>
        simp only [update_of_ne heq, bindDevice_other heq]
        exact ⟨h.kept hpruned, h.bounded slot⟩
      | false =>
        simp only [update_of_ne heq, chargeFailure_other heq]
        exact ⟨h.kept hpruned, h.bounded slot⟩

theorem step_charged (h : Charged t) (hstep : guess d t e = some u) : Charged u := by
  obtain ⟨hsystem, hwrong, hclock, hmanager⟩ := guess_eq_some hstep
  have hconsistent := step_consistent h.consistent hsystem
  have hquiet : u.wrong = t.wrong →
      (∀ slot, Uncharged (t.system.manager.slots slot) (u.system.manager.slots slot)) →
        Charged u := by
    intro hsame hkept
    refine ⟨hconsistent, fun slot hlive => ?_, fun slot => ?_⟩
    · rw [hsame]
      exact h.kept (hkept slot) hlive
    · rw [hsame]
      exact h.bounded slot
  cases hop : e.op with
  | redeemPin token pin rateKey userAgent cookie =>
    have hslot := step_redeemed h hop hstep
    exact ⟨hconsistent, fun slot => (hslot slot).1, fun slot => (hslot slot).2⟩
  | activate target hostUuid appId ttlSecs token pin id =>
    simp only [recount, hop] at hwrong
    simp only [apply, hop] at hmanager
    cases hgranted : (activate d t.system.manager e.now e.later target hostUuid appId ttlSecs
        token pin id).1 with
    | false =>
      rw [hgranted] at hwrong
      refine hquiet hwrong fun slot => ?_
      rw [hmanager]
      exact activate_uncharged fun hyes => by rw [hgranted] at hyes; cases hyes
    | true =>
      rw [hgranted, if_pos rfl] at hwrong
      refine ⟨hconsistent, fun slot => ?_, fun slot => ?_⟩
      · rw [hmanager, hwrong]
        by_cases heq : slot = target
        · subst heq
          intro _
          rw [update_self, activate_fresh hgranted]
          rfl
        · rw [update_of_ne heq]
          exact h.kept (activate_uncharged fun _ => heq)
      · rw [hwrong]
        by_cases heq : slot = target
        · subst heq
          rw [update_self]
          decide
        · rw [update_of_ne heq]
          exact h.bounded slot
  | setPermissions target perms =>
    refine hquiet (by rw [hwrong, recount, hop]) fun slot => ?_
    rw [hmanager, apply, hop]
    exact setPermissions_uncharged target perms
  | setTtl target ttlSecs =>
    refine hquiet (by rw [hwrong, recount, hop]) fun slot => ?_
    rw [hmanager, apply, hop]
    exact setTtl_uncharged target ttlSecs
  | setName target name =>
    refine hquiet (by rw [hwrong, recount, hop]) fun slot => ?_
    rw [hmanager, apply, hop]
    exact setName_uncharged target name
  | deactivate target =>
    refine hquiet (by rw [hwrong, recount, hop]) fun slot => ?_
    rw [hmanager, apply, hop]
    simp only [deactivate_slots]
    split_ifs
    · exact Uncharged.revoked _
    · exact Uncharged.refl _
  | deactivateAll =>
    refine hquiet (by rw [hwrong, recount, hop]) fun slot => ?_
    rw [hmanager, apply, hop]
    simp only [deactivateAll_slots]
    split_ifs
    · exact Uncharged.revoked _
    · exact Uncharged.refl _
  | setStreaming target streaming =>
    refine hquiet (by rw [hwrong, recount, hop]) fun slot => ?_
    rw [hmanager, apply, hop]
    exact setStreaming_uncharged target streaming
  | prune =>
    refine hquiet (by rw [hwrong, recount, hop]) fun slot => ?_
    rw [hmanager, apply, hop]
    exact pruneExpired_uncharged _ e.now slot
  | ratePurge =>
    refine hquiet (by rw [hwrong, recount, hop]) fun slot => ?_
    rw [hmanager, apply, hop]
    exact Uncharged.refl _
  | restart =>
    refine hquiet (by rw [hwrong, recount, hop]) fun slot => ?_
    rw [hmanager, apply, hop]
    intro hlive
    obtain ⟨hwas, hsame⟩ := restart_revives h.consistent hclock hlive
    exact ⟨hwas, (congrArg Activation.pinFailures hsame :)⟩

/-- The event activates the slot, and is not refused. -/
def Reactivates (d : Digest) (slot : Int) (t : Guessed) (e : Event) : Prop :=
  match e.op with
  | .activate target hostUuid appId ttlSecs token pin id =>
      target = slot ∧
        (activate d t.system.manager e.now e.later target hostUuid appId ttlSecs token pin id).1 =
          true
  | _ => False

/-- At most ten wrong PINs are evaluated against an activation, and after the tenth it is
dead until the slot is activated again. -/
structure AttemptsBounded (d : Digest) (t : Guessed) : Prop where
  bounded : ∀ slot, (t.wrong slot : Int) ≤ maxPinFailures
  spent : ∀ slot, (t.wrong slot : Int) = maxPinFailures → ∀ events u,
    Run (guarded (fun v e => ¬ Reactivates d slot v e) (moves (guess d))) t events u →
      (u.system.manager.slots slot).activation.live = false

/-- An unknown token and a wrong PIN yield the same outcome, and the same buckets. -/
def Alike (d : Digest) (m : Manager) (now later : Int) (rateKey : QString) : Prop :=
  ∀ token pin userAgent cookie token' pin' userAgent' cookie' slot,
    slotForTokenHash (pruneExpired m now) (d.hash token) = none →
      slotForTokenHash (pruneExpired m now) (d.hash token') = some slot →
        pinMatches d (pruneExpired m now) slot pin' = false →
          (redeemPin d m now later token pin rateKey userAgent cookie).1 =
              (redeemPin d m now later token' pin' rateKey userAgent' cookie').1 ∧
            (redeemPin d m now later token pin rateKey userAgent cookie).2.rateLimits =
              (redeemPin d m now later token' pin' rateKey userAgent' cookie').2.rateLimits

theorem redeemPin_alike (d : Digest) (m : Manager) (now later : Int) (rateKey : QString) :
    Alike d m now later rateKey := by
  intro token pin userAgent cookie token' pin' userAgent' cookie' slot hnone hfound hwrong
  have haccepted : pinAccepted d m now token pin = pinAccepted d m now token' pin' := by
    rw [pinAccepted, pinAccepted, hnone, hfound, Option.any_none, Option.any_some, hwrong]
  constructor
  · unfold redeemPin
    by_cases hlocked : rateLockout (pruneExpired m now) later (qs "share-pin:" ++ rateKey) > 0
    · simp only [if_pos hlocked]
    · simp only [if_neg hlocked, hnone, hfound, Option.any_none, Option.any_some, hwrong, if_true]
  · rw [redeemPin_rates, redeemPin_rates, haccepted]

theorem dead_stays {slot : Int} {events : List Event} (h : Charged t)
    (hdead : (t.system.manager.slots slot).activation.live = false)
    (hrun : Run (guarded (fun v e => ¬ Reactivates d slot v e) (moves (guess d))) t events u) :
    (u.system.manager.slots slot).activation.live = false := by
  have hboth : Charged u ∧ (u.system.manager.slots slot).activation.live = false := by
    refine hrun.invariant
      (I := fun v => Charged v ∧ (v.system.manager.slots slot).activation.live = false) ?_
      ⟨h, hdead⟩
    intro v e w hv hstep
    refine ⟨step_charged hv.1 hstep.2, ?_⟩
    obtain ⟨hsystem, _, _, hmanager⟩ := guess_eq_some hstep.2
    cases hlive : (w.system.manager.slots slot).activation.live with
    | false => rfl
    | true =>
      have hwas : (v.system.manager.slots slot).activation.live = true := by
        rcases step_outlives_or slot hv.1.consistent hsystem with
          houtlives | ⟨_, hostUuid, appId, ttlSecs, token, pin, id, hop, _⟩
        · exact (houtlives hlive).live
        · have hrefused := hstep.1
          simp only [Reactivates, hop, true_and] at hrefused
          simp only [apply, hop] at hmanager
          rw [hmanager] at hlive
          exact (activate_uncharged (fun hyes => absurd hyes hrefused) hlive).1
      rw [hv.2] at hwas
      cases hwas
  exact hboth.2

def guessing : List Event :=
  [inviting, ⟨.redeemPin (qs "token") (qs "0") (qs "k") [] (qs "c"), 1010, 1010⟩]

end

end MoonlightWeb.Server.ShareManager
