import MoonlightWeb.Server.RateLimits
import MoonlightWeb.Server.ShareSlots

/-! # Buckets of the share manager

The same decay on a timer of one minute. Only a PIN that is redeemed records in a
bucket, and only the timer sweeps.
-/

namespace MoonlightWeb.Server.ShareManager

open Qt
open Lib

section

variable {d : Digest}

variable (m : Manager)

theorem clearActivation_rates (slot : Int) :
    (clearActivation m slot).rateLimits = m.rateLimits := by
  unfold clearActivation
  cases m.slotFor slot with
  | none => rfl
  | some s =>
    dsimp only
    split_ifs <;> rfl

theorem clearAll_rates (ids : List Int) (m : Manager) :
    (ids.foldl clearActivation m).rateLimits = m.rateLimits := by
  induction ids generalizing m with
  | nil => rfl
  | cons slot ids ih => rw [List.foldl_cons, ih, clearActivation_rates]

theorem pruneExpired_rates (now : Int) :
    (pruneExpired m now).rateLimits = m.rateLimits := by
  unfold pruneExpired
  dsimp only
  split_ifs
  · exact clearAll_rates _ m
  · exact clearAll_rates _ m

theorem activate_rates (now later slot : Int) (hostUuid : QString) (appId : Int32)
    (ttlSecs : Int) (token pin id : QString) :
    (activate d m now later slot hostUuid appId ttlSecs token pin id).2.rateLimits =
      m.rateLimits := by
  unfold activate
  split_ifs
  · rfl
  · rfl
  · rfl
  · dsimp only
    simp only [save, Manager.setSlot]
    split_ifs
    · rw [clearActivation_rates, pruneExpired_rates]
    · rw [pruneExpired_rates]

theorem setPermissions_rates (now slot : Int) (perms : Permissions) :
    (setPermissions m now slot perms).2.rateLimits = m.rateLimits := by
  unfold setPermissions
  dsimp only
  cases (pruneExpired m now).slotFor slot with
  | none => exact pruneExpired_rates m now
  | some s =>
    dsimp only
    split_ifs <;> exact pruneExpired_rates m now

theorem setTtl_rates (now later slot ttlSecs : Int) :
    (setTtl m now later slot ttlSecs).2.rateLimits = m.rateLimits := by
  unfold setTtl
  split_ifs
  · rfl
  · dsimp only
    cases (pruneExpired m now).slotFor slot with
    | none => exact pruneExpired_rates m now
    | some s =>
      dsimp only
      split_ifs <;> exact pruneExpired_rates m now

theorem setName_rates (slot : Int) (name : QString) :
    (setName m slot name).2.rateLimits = m.rateLimits := by
  unfold setName
  cases m.slotFor slot with
  | none => rfl
  | some s =>
    dsimp only
    split_ifs <;> rfl

theorem deactivate_rates (slot : Int) :
    (deactivate m slot).2.rateLimits = m.rateLimits := by
  unfold deactivate
  cases m.slotFor slot with
  | none => rfl
  | some s =>
    dsimp only
    split_ifs
    · rfl
    · exact clearActivation_rates m slot

theorem deactivateAll_rates : (deactivateAll m).rateLimits = m.rateLimits := by
  unfold deactivateAll
  dsimp only
  split_ifs
  · exact clearAll_rates _ m
  · exact clearAll_rates _ m

theorem setStreaming_rates (slot : Int) (streaming : Bool) :
    (setStreaming m slot streaming).rateLimits = m.rateLimits := by
  unfold setStreaming
  cases m.slotFor slot with
  | none => rfl
  | some s =>
    dsimp only
    split_ifs <;> rfl

theorem chargeFailure_rates (slot : Int) :
    (chargeFailure m slot).rateLimits = m.rateLimits := by
  unfold chargeFailure
  dsimp only
  split_ifs
  · exact clearActivation_rates _ slot
  · rfl

theorem bindDevice_rates (later slot : Int) (userAgent cookie : QString) :
    (bindDevice d m later slot userAgent cookie).2.rateLimits = m.rateLimits := by
  unfold bindDevice
  dsimp only
  split_ifs <;> rfl

def shareBucket (rateKey : QString) : QString := qs "share-pin:" ++ rateKey

def pinAccepted (d : Digest) (m : Manager) (now : Int) (token pin : QString) : Bool :=
  (slotForTokenHash (pruneExpired m now) (d.hash token)).any fun slot =>
    pinMatches d (pruneExpired m now) slot pin

theorem redeemPin_rates (now later : Int)
    (token pin rateKey userAgent cookie : QString) :
    (redeemPin d m now later token pin rateKey userAgent cookie).2.rateLimits =
      if rateLockout (pruneExpired m now) later (shareBucket rateKey) > 0 then m.rateLimits
      else (rateRecord (pruneExpired m now) later (shareBucket rateKey)
          (pinAccepted d m now token pin)).2.2.rateLimits := by
  unfold redeemPin shareBucket pinAccepted
  by_cases hlocked :
      rateLockout (pruneExpired m now) later (qs "share-pin:" ++ rateKey) > 0
  · simp only [hlocked, if_true]
    exact pruneExpired_rates m now
  · simp only [hlocked, if_false]
    generalize hfound : slotForTokenHash (pruneExpired m now) (d.hash token) = found
    generalize hmatched : (found.any fun slot => pinMatches d (pruneExpired m now) slot pin) = matched
    cases found with
    | none => rfl
    | some slot =>
      cases matched with
      | false => exact chargeFailure_rates _ slot
      | true =>
        simp only [Bool.true_eq_false, if_false]
        split_ifs
        · exact bindDevice_rates _ _ _ _ _
        · exact bindDevice_rates _ _ _ _ _

end

def RateEntry.bucket (e : RateEntry) : Bucket where
  failures := e.failures
  last := some e.lastFailure
  locked := e.lockoutUntil

def Manager.bucket (m : Manager) (key : QString) : Bucket :=
  match m.rateLimits key with
  | none => { failures := 0, last := none, locked := 0 }
  | some e => e.bucket

structure Audited where
  system : System
  accounts : QString → Option Account

/-- The accounts after an event: a sweep is counted, a failure opens the account anew. -/
def settle (d : Digest) (t : Audited) (e : Event) (m' : Manager) (key : QString) :
    Option Account :=
  let m := t.system.manager
  match e.op with
  | .restart => none
  | .ratePurge => (t.accounts key).map (Account.counted lockoutLongSecs e.now (m.bucket key))
  | .redeemPin token pin rateKey _ _ =>
      if key = shareBucket rateKey ∧ rateLockout m e.later key ≤ 0 then
        if pinAccepted d m e.now token pin then none
        else some { peak := (m'.bucket key).failures, since := e.later, sweeps := 0 }
      else t.accounts key
  | _ => t.accounts key

def audit (d : Digest) (t : Audited) (e : Event) : Option Audited :=
  match step d t.system e with
  | none => none
  | some s => some { system := s, accounts := settle d t e s.manager }

def Audited.installed (clock : Int) : Audited where
  system := ShareManager.installed clock
  accounts _ := none

/-- Every bucket has been forgiven no more failures than it has been quiet periods
since the last one. -/
def Fair (t : Audited) : Prop :=
  ∀ key a, t.accounts key = some a →
    a.Earned lockoutLongSecs t.system.clock (t.system.manager.bucket key)

/-- An event leaves every bucket fair, and a sweep when it is made; it shortens no lock. -/
def Forgives (t : Audited) (e : Event) (u : Audited) : Prop :=
  Fair u ∧
    (e.op = .ratePurge → ∀ key a, t.accounts key = some a →
      a.Earned lockoutLongSecs e.now ((ratePurge t.system.manager e.now).bucket key) ∧
      rateLockout (ratePurge t.system.manager e.now) e.now key =
        rateLockout t.system.manager e.now key)

/-- A sweep that finds a bucket due comes after a quiet period of its own. -/
def SweepsSpaced (t : Audited) (e : Event) (_ : Audited) : Prop :=
  e.op = .ratePurge → ∀ key a, t.accounts key = some a →
    a.Spaced lockoutLongSecs e.now (t.system.manager.bucket key)

section

variable {d : Digest} {m : Manager} {now : Int} {key : QString} {t u : Audited} {e : Event}

theorem bucket_congr {m' : Manager} (h : m'.rateLimits = m.rateLimits) :
    m'.bucket key = m.bucket key := by
  unfold Manager.bucket
  rw [h]

theorem due_entry_iff {entry : RateEntry} :
    entry.bucket.due lockoutLongSecs now = true ↔
      0 < entry.failures ∧ entry.lockoutUntil ≤ now ∧
        lockoutLongSecs ≤ now - entry.lastFailure := by
  change (decide (0 < entry.failures) && decide (entry.lockoutUntil ≤ now) &&
    decide (lockoutLongSecs ≤ now - entry.lastFailure)) = true ↔ _
  simp [and_assoc]

theorem purge_failures (m : Manager) (now : Int) (key : QString) :
    ((ratePurge m now).bucket key).failures =
      ((m.bucket key).swept lockoutLongSecs now).failures := by
  unfold Manager.bucket ratePurge
  cases hget : m.rateLimits key with
  | none => simp [hget, Bucket.swept, Bucket.due]
  | some entry =>
    simp only [hget, Bucket.swept]
    by_cases hquiet : entry.lockoutUntil ≤ now ∧ now - entry.lastFailure ≥ lockoutLongSecs
    · rw [if_pos hquiet]
      by_cases hpos : 0 < entry.failures
      · rw [if_pos (due_entry_iff.mpr ⟨hpos, hquiet⟩)]
        by_cases hlast : entry.failures - 1 = 0
        · simp [hlast, RateEntry.bucket]
        · simp [hlast, RateEntry.bucket]
      · have hzero : entry.failures = 0 := by omega
        have hdue : ¬ entry.bucket.due lockoutLongSecs now = true := by
          rw [due_entry_iff]
          omega
        rw [if_neg hdue]
        simp [hzero, RateEntry.bucket]
    · rw [if_neg hquiet, if_neg (by rw [due_entry_iff]; tauto)]

theorem purge_last (h : 0 < ((ratePurge m now).bucket key).failures) :
    ((ratePurge m now).bucket key).last = (m.bucket key).last := by
  unfold Manager.bucket ratePurge at h ⊢
  cases hget : m.rateLimits key with
  | none => simp [hget]
  | some entry =>
    simp only [hget] at h ⊢
    by_cases hquiet : entry.lockoutUntil ≤ now ∧ now - entry.lastFailure ≥ lockoutLongSecs
    · rw [if_pos hquiet] at h ⊢
      by_cases hlast : entry.failures - 1 = 0
      · simp [hlast] at h
      · rw [if_neg hlast]
        rfl
    · rw [if_neg hquiet]

/-- A sweep leaves every lock that still runs alone. -/
theorem purge_lockout (m : Manager) (now : Int) (key : QString) :
    rateLockout (ratePurge m now) now key = rateLockout m now key := by
  unfold rateLockout ratePurge
  cases hget : m.rateLimits key with
  | none => simp [hget]
  | some entry =>
    simp only [hget]
    by_cases hquiet : entry.lockoutUntil ≤ now ∧ now - entry.lastFailure ≥ lockoutLongSecs
    · rw [if_pos hquiet]
      have hopen : ¬ entry.lockoutUntil > now := by omega
      split_ifs <;> simp [hopen]
    · rw [if_neg hquiet]

/-- The accounts are those of the buckets. -/
def Balanced (t : Audited) : Prop :=
  ∀ key a, t.accounts key = some a → a.Fits (t.system.manager.bucket key)

theorem fits_purge {a : Account} (h : a.Fits (m.bucket key)) :
    (a.counted lockoutLongSecs now (m.bucket key)).Fits ((ratePurge m now).bucket key) := by
  refine h.swept.congr (purge_failures m now key) ?_
  intro hpos
  rw [purge_last hpos]
  unfold Bucket.swept
  split_ifs <;> rfl

theorem rateLockout_congr {m' : Manager} (h : m'.rateLimits = m.rateLimits) :
    rateLockout m' now key = rateLockout m now key := by
  unfold rateLockout
  rw [h]

theorem rateRecord_other {bucket : QString} {matched : Bool} (hne : key ≠ bucket) :
    (rateRecord m now bucket matched).2.2.rateLimits key = m.rateLimits key := by
  unfold rateRecord
  cases matched with
  | true => simp [Function.update_of_ne hne]
  | false => simp [Function.update_of_ne hne]

theorem rateRecord_failed (bucket : QString) :
    ((rateRecord m now bucket false).2.2.bucket bucket).last = some now := by
  unfold rateRecord Manager.bucket
  simp [RateEntry.bucket]

/-- What the step of an event makes of one bucket and its account. -/
inductive Settled (t : Audited) (e : Event) (u : Audited) (key : QString) : Prop
  | none (h : u.accounts key = none)
  | opened (h : u.accounts key = some
      { peak := (u.system.manager.bucket key).failures, since := e.later, sweeps := 0 })
    (hlast : (u.system.manager.bucket key).last = some e.later)
  | swept (hsweeps : e.op = .ratePurge) (h : u.accounts key = (t.accounts key).map
      (Account.counted lockoutLongSecs e.now (t.system.manager.bucket key)))
    (hbucket : u.system.manager.bucket key = (ratePurge t.system.manager e.now).bucket key)
  | same (h : u.accounts key = t.accounts key)
    (hbucket : u.system.manager.bucket key = t.system.manager.bucket key)

variable (h : audit d t e = some u)

include h

theorem audit_eq_some :
    u.system.manager = apply d t.system.manager e ∧ t.system.clock ≤ e.now ∧ e.now ≤ e.later ∧
      u.system.clock = e.later ∧ u.accounts = settle d t e u.system.manager := by
  unfold audit step at h
  by_cases hclock : t.system.clock ≤ e.now ∧ e.now ≤ e.later
  · rw [if_pos hclock] at h
    obtain rfl := Option.some.inj h
    exact ⟨rfl, hclock.1, hclock.2, rfl, rfl⟩
  · rw [if_neg hclock] at h
    cases h

theorem Settled.of_same (haccounts : u.accounts key = t.accounts key)
    (hrates : (apply d t.system.manager e).rateLimits = t.system.manager.rateLimits) :
    Settled t e u key := by
  refine .same haccounts ?_
  rw [(audit_eq_some h).1]
  exact bucket_congr hrates

theorem settled_redeemPin {token pin rateKey userAgent cookie : QString} (hop : e.op = .redeemPin token pin rateKey userAgent cookie) :
    Settled t e u key := by
  obtain ⟨hmanager, -, -, -, haccounts⟩ := audit_eq_some h
  have haccount := congrFun haccounts key
  have happly : u.system.manager =
      (redeemPin d t.system.manager e.now e.later token pin rateKey userAgent cookie).2 := by
    rw [hmanager, apply, hop]
  have hrates := redeemPin_rates (d := d) t.system.manager e.now e.later token pin rateKey
    userAgent cookie
  rw [← happly, rateLockout_congr (pruneExpired_rates _ _)] at hrates
  simp only [settle, hop] at haccount
  by_cases hkey : key = shareBucket rateKey
  · subst hkey
    by_cases hlocked : rateLockout t.system.manager e.later (shareBucket rateKey) > 0
    · rw [if_pos hlocked] at hrates
      rw [if_neg (by simpa using hlocked)] at haccount
      exact .same haccount (bucket_congr hrates)
    · rw [if_neg hlocked] at hrates
      rw [if_pos (by simpa using hlocked)] at haccount
      cases hmatched : pinAccepted d t.system.manager e.now token pin with
      | true =>
        rw [if_pos hmatched] at haccount
        exact .none haccount
      | false =>
        rw [if_neg (by simp [hmatched])] at haccount
        rw [hmatched] at hrates
        refine .opened haccount ?_
        rw [bucket_congr hrates]
        exact rateRecord_failed _
  · rw [if_neg (fun hboth => hkey hboth.1)] at haccount
    refine .same haccount ?_
    have hsame : u.system.manager.rateLimits key = t.system.manager.rateLimits key := by
      rw [hrates]
      split_ifs
      · rfl
      · rw [rateRecord_other hkey, pruneExpired_rates]
    unfold Manager.bucket
    rw [hsame]

theorem settled (key : QString) : Settled t e u key := by
  obtain ⟨hmanager, -, -, -, haccounts⟩ := audit_eq_some h
  have haccount := congrFun haccounts key
  cases hop : e.op with
  | restart =>
    simp only [settle, hop] at haccount
    exact .none haccount
  | ratePurge =>
    simp only [settle, hop] at haccount
    refine .swept hop haccount ?_
    rw [hmanager, apply, hop]
  | redeemPin token pin rateKey userAgent cookie => exact settled_redeemPin h hop
  | activate slot hostUuid appId ttlSecs token pin id =>
    simp only [settle, hop] at haccount
    refine .of_same h haccount ?_
    rw [apply, hop]
    exact activate_rates _ _ _ _ _ _ _ _ _ _
  | setPermissions slot perms =>
    simp only [settle, hop] at haccount
    refine .of_same h haccount ?_
    rw [apply, hop]
    exact setPermissions_rates _ _ _ _
  | setTtl slot ttlSecs =>
    simp only [settle, hop] at haccount
    refine .of_same h haccount ?_
    rw [apply, hop]
    exact setTtl_rates _ _ _ _ _
  | setName slot name =>
    simp only [settle, hop] at haccount
    refine .of_same h haccount ?_
    rw [apply, hop]
    exact setName_rates _ _ _
  | deactivate slot =>
    simp only [settle, hop] at haccount
    refine .of_same h haccount ?_
    rw [apply, hop]
    exact deactivate_rates _ _
  | deactivateAll =>
    simp only [settle, hop] at haccount
    refine .of_same h haccount ?_
    rw [apply, hop]
    exact deactivateAll_rates _
  | setStreaming slot streaming =>
    simp only [settle, hop] at haccount
    refine .of_same h haccount ?_
    rw [apply, hop]
    exact setStreaming_rates _ _ _
  | prune =>
    simp only [settle, hop] at haccount
    refine .of_same h haccount ?_
    rw [apply, hop]
    exact pruneExpired_rates _ _

omit h

theorem Balanced.next (hbalanced : Balanced t) (h : audit d t e = some u) : Balanced u := by
  intro key a haccount
  cases settled h key with
  | none hnone =>
    rw [hnone] at haccount
    cases haccount
  | opened hopened hlast =>
    rw [hopened] at haccount
    obtain rfl := Option.some.inj haccount
    exact ⟨rfl, fun _ => hlast⟩
  | swept _ hswept hbucket =>
    rw [hswept, Option.map_eq_some_iff] at haccount
    obtain ⟨before, hbefore, rfl⟩ := haccount
    rw [hbucket]
    exact fits_purge (hbalanced key before hbefore)
  | same hsame hbucket =>
    rw [hsame] at haccount
    rw [hbucket]
    exact hbalanced key a haccount

/-- What is fair stays fair when the sweep of the step forgives what is earned. -/
theorem Fair.next (hfair : Fair t) (h : audit d t e = some u)
    (hsweep : e.op = .ratePurge → ∀ key a, t.accounts key = some a →
      a.Earned lockoutLongSecs e.now ((ratePurge t.system.manager e.now).bucket key)) :
    Fair u := by
  obtain ⟨-, hnow, hlater, hclock, -⟩ := audit_eq_some h
  intro key a haccount
  rw [hclock]
  cases settled h key with
  | none hnone =>
    rw [hnone] at haccount
    cases haccount
  | opened hopened _ =>
    rw [hopened] at haccount
    obtain rfl := Option.some.inj haccount
    simp only [Account.Earned]
    omega
  | swept hsweeps hswept hbucket =>
    rw [hswept, Option.map_eq_some_iff] at haccount
    obtain ⟨before, hbefore, rfl⟩ := haccount
    rw [Account.earned_counted, hbucket]
    exact (hsweep hsweeps key before hbefore).mono hlater
  | same hsame hbucket =>
    rw [hsame] at haccount
    rw [hbucket]
    exact (hfair key a haccount).mono (le_trans hnow hlater)

theorem sweep_earned_iff (hbalanced : Balanced t) (hfair : Fair t) (hnow : t.system.clock ≤ now)
    {a : Account} (haccount : t.accounts key = some a) :
    a.Earned lockoutLongSecs now ((ratePurge t.system.manager now).bucket key) ↔
      a.Spaced lockoutLongSecs now (t.system.manager.bucket key) := by
  rw [Account.Earned.congr (purge_failures _ _ _)]
  exact (hbalanced key a haccount).swept_earned_iff ((hfair key a haccount).mono hnow)

theorem forgives_iff (hbalanced : Balanced t) (hfair : Fair t) (h : audit d t e = some u) :
    Forgives t e u ↔ SweepsSpaced t e u := by
  obtain ⟨-, hnow, -, -, -⟩ := audit_eq_some h
  constructor
  · rintro ⟨-, hforgives⟩ hsweeps key a haccount
    exact (sweep_earned_iff hbalanced hfair hnow haccount).mp
      (hforgives hsweeps key a haccount).1
  · intro hspaced
    have hearned : e.op = .ratePurge → ∀ key a, t.accounts key = some a →
        a.Earned lockoutLongSecs e.now ((ratePurge t.system.manager e.now).bucket key) := by
      intro hsweeps key a haccount
      exact (sweep_earned_iff hbalanced hfair hnow haccount).mpr (hspaced hsweeps key a haccount)
    refine ⟨hfair.next h hearned, ?_⟩
    intro hsweeps key a haccount
    exact ⟨hearned hsweeps key a haccount, purge_lockout _ _ _⟩

theorem forgives_along_iff (d : Digest) (clock : Int) (labels : List Event) :
    EachStep (moves (audit d)) Forgives (Audited.installed clock) labels ↔
      EachStep (moves (audit d)) SweepsSpaced (Audited.installed clock) labels := by
  have hnone : ∀ key a, (Audited.installed clock).accounts key ≠ some a := by
    intro key a h
    cases h
  refine eachStep_iff (S := Balanced) (I := Fair) (fun _ _ _ h hstep => h.next hstep)
    (fun _ _ _ _ h => h.1) (fun _ _ _ hbalanced hfair hstep => forgives_iff hbalanced hfair hstep)
    ?_ ?_ labels
  · exact fun key a h => absurd h (hnone key a)
  · exact fun key a h => absurd h (hnone key a)

end

end MoonlightWeb.Server.ShareManager

namespace MoonlightWeb.Server

open Qt
open Lib

/-- Both managers forgive each bucket one failure per quiet period in exactly the runs
whose sweeps leave a due bucket a period each. -/
theorem lockouts_decay_iff (p : AuthManager.Primitives) (now : Int) (remoteAdminEnabled : Bool)
    (adminPasswordDigest : QString) (labels : List AuthManager.Event) (d : ShareManager.Digest)
    (clock : Int) (shareLabels : List ShareManager.Event) :
    (EachStep (moves (AuthManager.audit p)) AuthManager.Forgives
          (AuthManager.Audited.initial now remoteAdminEnabled adminPasswordDigest) labels ↔
        EachStep (moves (AuthManager.audit p)) AuthManager.SweepsSpaced
          (AuthManager.Audited.initial now remoteAdminEnabled adminPasswordDigest) labels) ∧
      (EachStep (moves (ShareManager.audit d)) ShareManager.Forgives
            (ShareManager.Audited.installed clock) shareLabels ↔
          EachStep (moves (ShareManager.audit d)) ShareManager.SweepsSpaced
            (ShareManager.Audited.installed clock) shareLabels) :=
  ⟨AuthManager.forgives_along_iff p now remoteAdminEnabled adminPasswordDigest labels,
    ShareManager.forgives_along_iff d clock shareLabels⟩

/-- Stand-ins for runs on fixed inputs. -/
def plainPrimitives : AuthManager.Primitives where
  digest := ShareManager.padded
  crypto := Common.PairingCrypto.checksum
  pbkdf2 _ _ _ _ := []
  ipv6Network _ := none

/-- Two wrong PINs, ten quiet minutes, and two attempts by somebody else. -/
def neighbourRun : List AuthManager.Event :=
  [.validatePin (qs "10.0.0.1") (qs "1"), .validatePin (qs "10.0.0.1") (qs "1"), .tick 600,
    .validatePin (qs "10.0.0.2") (qs "1")]

theorem neighbour_forgives_twice :
    ¬ ∀ (p : AuthManager.Primitives) (now : Int) (remoteAdminEnabled : Bool)
        (adminPasswordDigest : QString) (labels : List AuthManager.Event),
      EachStep (moves (AuthManager.audit p)) AuthManager.Forgives
        (AuthManager.Audited.initial now remoteAdminEnabled adminPasswordDigest) labels := by
  intro hall
  have hrun : Run (moves (AuthManager.audit plainPrimitives))
      (AuthManager.Audited.initial 0 true []) neighbourRun _ := run_of_runMoves _ rfl
  have hstep := hall plainPrimitives 0 true []
    (neighbourRun ++ [.validatePin (qs "10.0.0.2") (qs "1")]) neighbourRun
    (.validatePin (qs "10.0.0.2") (qs "1")) [] _ _ rfl hrun rfl
  have hearned := (hstep.2 rfl (qs "10.0.0.1") ⟨2, 0, 1⟩ rfl).1
  change ((2 : Int) - ((0 : Nat) : Int)) * 600 ≤ 600 - 0 at hearned
  omega

end MoonlightWeb.Server
