import MoonlightWeb.Lib.Decay
import MoonlightWeb.Server.AuthTables

/-! # Buckets of the session manager

Every attempt sweeps all the buckets first, whoever makes it and whether or not
it is refused. An account is kept beside each bucket from its last failure on.
-/

namespace MoonlightWeb.Server.AuthManager

open Qt
open Js (JsMap)
open Lib RateLimitEntry

/-- An entry as a bucket; no entry is one without failures. -/
def RateLimitEntry.bucket (e : RateLimitEntry) : Bucket where
  failures := e.failures.toNat
  last := e.lastFailure
  locked := e.lockoutUntilEpoch

def Manager.bucket (m : Manager) (key : QString) : Bucket :=
  match m.rateLimits.get key with
  | none => { failures := 0, last := none, locked := 0 }
  | some e => e.bucket

section

variable (p : Primitives)

/-- The bucket an attempt is counted in, and whether the secret was right. -/
def attemptOn (m : Manager) : Event → Option (QString × Bool)
  | .validatePin ip pin =>
      some (rateLimitKey p ip, hasValidPin m && ShareManager.constantTimeEquals pin m.currentPin)
  | .validateAdminPassword ip password =>
      some (adminBucket p ip,
        m.remoteAdminEnabled && m.adminPasswordSet &&
          passwordMatches p m.adminPasswordDigest password)
  | _ => none

def Event.sweeps (e : Event) : Bool :=
  match e with
  | .validatePin _ _ => true
  | .validateAdminPassword _ _ => true
  | _ => false

/-- What an event records: nothing when the bucket is locked after the sweep. -/
def recorded (m : Manager) (now : Int) (e : Event) : Option (QString × Bool) :=
  (attemptOn p m e).filter fun attempt =>
    bucketLockout (cleanupExpired m now) now attempt.1 ≤ 0

def Event.drops : Event → Bool
  | .regeneratePin _ => true
  | .restart => true
  | _ => false

structure Audited where
  world : World
  accounts : QString → Option Account

variable (t : Audited)

/-- The accounts after an event: a sweep is counted, a failure opens the account anew. -/
def settle (e : Event) (m' : Manager) (key : QString) : Option Account :=
  let m := t.world.manager
  let now := t.world.now
  if e.drops then none
  else
    match recorded p m now e with
    | some (failed, matched) =>
        if key = failed then
          if matched then none
          else some { peak := (m'.bucket key).failures, since := now, sweeps := 0 }
        else (t.accounts key).map (Account.counted forgivenessSecs now (m.bucket key))
    | none =>
        if e.sweeps then (t.accounts key).map (Account.counted forgivenessSecs now (m.bucket key))
        else t.accounts key

def audit (e : Event) : Option Audited :=
  match step p t.world e with
  | none => none
  | some w => some { world := w, accounts := settle p t e w.manager }

def Audited.initial (now : Int) (remoteAdminEnabled : Bool) (adminPasswordDigest : QString) :
    Audited where
  world := World.initial now remoteAdminEnabled adminPasswordDigest
  accounts _ := none

/-- Every bucket has been forgiven no more failures than it has been quiet periods
since the last one. -/
def Fair : Prop :=
  ∀ key a, t.accounts key = some a →
    a.Earned forgivenessSecs t.world.now (t.world.manager.bucket key)

/-- An event leaves every bucket fair, that of its own caller included when only the
sweep has been made, and shortens no lock. -/
def Forgives (e : Event) (u : Audited) : Prop :=
  Fair u ∧
    (e.sweeps = true → ∀ key a, t.accounts key = some a →
      a.Earned forgivenessSecs t.world.now
        ((cleanupExpired t.world.manager t.world.now).bucket key) ∧
      bucketLockout (cleanupExpired t.world.manager t.world.now) t.world.now key =
        bucketLockout t.world.manager t.world.now key)

/-- A sweep that finds a bucket due comes after a quiet period of its own. -/
def SweepsSpaced (e : Event) (_ : Audited) : Prop :=
  e.sweeps = true → ∀ key a, t.accounts key = some a →
    a.Spaced forgivenessSecs t.world.now (t.world.manager.bucket key)

end

section

variable {p : Primitives} {m : Manager} {now : Int} {key : QString}

theorem due_entry_iff {e : RateLimitEntry} :
    e.bucket.due forgivenessSecs now = true ↔
      0 < e.failures ∧ e.lockoutUntilEpoch ≤ now ∧ forgivenessSecs ≤ e.secsSinceFailure now := by
  unfold secsSinceFailure
  cases hlast : e.lastFailure with
  | none => simp [Bucket.due, bucket, hlast, forgivenessSecs]
  | some last => simp [Bucket.due, bucket, hlast, and_assoc]

theorem decayed_frame (e : RateLimitEntry) (now : Int) :
    (e.decayed now).lastFailure = e.lastFailure ∧
      (e.decayed now).lockoutUntilEpoch = e.lockoutUntilEpoch := by
  unfold decayed
  split_ifs
  · exact ⟨rfl, rfl⟩
  · exact ⟨rfl, rfl⟩
  · exact ⟨rfl, rfl⟩

/-- The loop of `cleanupExpired` on one entry. -/
theorem decayed_failures (e : RateLimitEntry) (now : Int) :
    (e.decayed now).failures.toNat = (e.bucket.swept forgivenessSecs now).failures := by
  unfold decayed Bucket.swept
  have hiff := @due_entry_iff now e
  by_cases hlocked : e.lockoutUntilEpoch > now
  · rw [if_pos hlocked, if_neg (by rw [hiff]; omega)]
    rfl
  rw [if_neg hlocked]
  by_cases hquiet : e.secsSinceFailure now ≥ forgivenessSecs
  · rw [if_pos hquiet]
    by_cases hpos : 0 < e.failures
    · rw [if_pos (hiff.mpr ⟨hpos, by omega, hquiet⟩)]
      simp only [bucket]
      omega
    · rw [if_neg (by rw [hiff]; omega)]
      simp only [bucket]
      omega
  · rw [if_neg hquiet, if_neg (by rw [hiff]; omega)]
    rfl

theorem get_cleanup_none (h : m.rateLimits.get key = none) :
    (cleanupExpired m now).rateLimits.get key = none := by
  unfold cleanupExpired
  rw [JsMap.get_filter, JsMap.get_mapEntries, h]
  rfl

/-- An entry is swept and kept, or it is gone and had nothing left to say. -/
theorem get_cleanup_some {e : RateLimitEntry} (h : m.rateLimits.get key = some e) :
    (cleanupExpired m now).rateLimits.get key = some (e.decayed now) ∨
      (cleanupExpired m now).rateLimits.get key = none ∧ (e.decayed now).failures ≤ 0 ∧
        e.lockoutUntilEpoch ≤ now := by
  unfold cleanupExpired
  rw [JsMap.get_filter, JsMap.get_mapEntries, h, Option.map_some]
  cases hkept : (e.decayed now).kept now with
  | true => exact Or.inl (Option.filter_some_pos hkept)
  | false =>
    right
    refine ⟨Option.filter_some_neg hkept, ?_⟩
    simp only [kept, (decayed_frame e now).2, Bool.or_eq_false_iff,
      decide_eq_false_iff_not, not_lt, gt_iff_lt] at hkept
    exact ⟨hkept.2, hkept.1⟩

theorem bucket_none (h : m.rateLimits.get key = none) :
    m.bucket key = { failures := 0, last := none, locked := 0 } := by
  unfold Manager.bucket
  rw [h]

theorem bucket_some {e : RateLimitEntry} (h : m.rateLimits.get key = some e) :
    m.bucket key = e.bucket := by
  unfold Manager.bucket
  rw [h]

theorem cleanup_failures (m : Manager) (now : Int) (key : QString) :
    ((cleanupExpired m now).bucket key).failures =
      ((m.bucket key).swept forgivenessSecs now).failures := by
  cases hget : m.rateLimits.get key with
  | none =>
    rw [bucket_none (get_cleanup_none hget), bucket_none hget]
    simp [Bucket.swept, Bucket.due]
  | some e =>
    have hfailures := decayed_failures e now
    rw [bucket_some hget, ← hfailures]
    rcases get_cleanup_some hget with hkept | ⟨hgone, hzero, -⟩
    · rw [bucket_some hkept]
      rfl
    · rw [bucket_none hgone]
      dsimp only
      omega

theorem cleanup_last (h : 0 < ((cleanupExpired m now).bucket key).failures) :
    ((cleanupExpired m now).bucket key).last = (m.bucket key).last := by
  cases hget : m.rateLimits.get key with
  | none =>
    rw [bucket_none (get_cleanup_none hget)] at h
    cases h
  | some e =>
    rcases get_cleanup_some hget with hkept | ⟨hgone, -, -⟩
    · rw [bucket_some hkept, bucket_some hget]
      exact (decayed_frame e now).1
    · rw [bucket_none hgone] at h
      cases h

/-- A sweep leaves every lock that still runs alone. -/
theorem cleanup_lockout (m : Manager) (now : Int) (key : QString) :
    bucketLockout (cleanupExpired m now) now key = bucketLockout m now key := by
  unfold bucketLockout
  cases hget : m.rateLimits.get key with
  | none => rw [get_cleanup_none hget]
  | some e =>
    rcases get_cleanup_some hget with hkept | ⟨hgone, -, hopen⟩
    · rw [hkept]
      simp only [(decayed_frame e now).2]
    · rw [hgone]
      dsimp only
      rw [if_neg (by omega)]

variable {e : Event}

theorem handle_attempt (h : e.sweeps = true) :
    handle p m now e =
      match recorded p m now e with
      | none => cleanupExpired m now
      | some attempt => (recordAttempt (cleanupExpired m now) now attempt.1 attempt.2).2 := by
  cases e with
  | validatePin ip pin =>
    simp only [handle, validatePin, recorded, attemptOn]
    by_cases hlocked : bucketLockout (cleanupExpired m now) now (rateLimitKey p ip) > 0
    · rw [if_pos hlocked, Option.filter_some_neg (by simpa using hlocked)]
    · rw [if_neg hlocked, Option.filter_some_pos (by simpa using hlocked)]
      rfl
  | validateAdminPassword ip password =>
    simp only [handle, validateAdminPassword, recorded, attemptOn]
    by_cases hlocked : bucketLockout (cleanupExpired m now) now (adminBucket p ip) > 0
    · rw [if_pos hlocked, Option.filter_some_neg (by simpa using hlocked)]
    · rw [if_neg hlocked, Option.filter_some_pos (by simpa using hlocked)]
      rfl
  | _ => cases h

theorem recordAttempt_other {bucket : QString} {matched : Bool} (hne : key ≠ bucket) :
    ((recordAttempt m now bucket matched).2).bucket key = m.bucket key := by
  unfold recordAttempt Manager.bucket
  cases matched with
  | true => simp only [if_true, JsMap.get_set_of_ne _ _ hne]
  | false => simp only [Bool.false_eq_true, if_false, JsMap.get_set_of_ne _ _ hne]

theorem recordAttempt_failed (bucket : QString) :
    ((recordAttempt m now bucket false).2.bucket bucket).last = some now := by
  unfold recordAttempt Manager.bucket
  simp only [Bool.false_eq_true, if_false, JsMap.get_set_self]
  rfl

/-- The accounts are those of the buckets. -/
def Balanced (t : Audited) : Prop :=
  ∀ key a, t.accounts key = some a → a.Fits (t.world.manager.bucket key)

theorem fits_cleanup {a : Account} (h : a.Fits (m.bucket key)) :
    (a.counted forgivenessSecs now (m.bucket key)).Fits ((cleanupExpired m now).bucket key) := by
  refine h.swept.congr (cleanup_failures m now key) ?_
  intro hpos
  rw [cleanup_last hpos]
  unfold Bucket.swept
  split_ifs <;> rfl

theorem rateLimits_kept (hsweeps : e.sweeps = false) (hdrops : e.drops = false) :
    (handle p m now e).rateLimits = m.rateLimits := by
  by_cases htabled : e.tabled = true
  · cases e with
    | destroySession id =>
      simp only [handle, destroySession]
      split_ifs <;> rfl
    | logoutSession token =>
      simp only [handle, logoutSession, destroySession]
      split_ifs <;> rfl
    | homeScreenKey token random =>
      obtain ⟨keys, hframe⟩ := homeScreenKey_frame p m now token random
      simp only [handle, hframe]
    | redeemHomeScreenKey key =>
      obtain ⟨keys, hframe⟩ := redeemHomeScreenKey_frame m now key
      simp only [handle, hframe]
    | restart => cases hdrops
    | regeneratePin => cases hdrops
    | validatePin => cases hsweeps
    | validateAdminPassword => cases hsweeps
    | _ => cases htabled
  · exact congrArg Prod.snd (handle_tables (by simpa using htabled))

theorem sweeps_of_recorded {attempt : QString × Bool}
    (h : recorded p m now e = some attempt) : e.sweeps = true := by
  cases e with
  | validatePin => rfl
  | validateAdminPassword => rfl
  | _ => cases h

/-- What the step of an event makes of one bucket and its account. -/
inductive Settled (t : Audited) (e : Event) (u : Audited) (key : QString) : Prop
  | none (h : u.accounts key = none)
  | opened (h : u.accounts key = some
      { peak := (u.world.manager.bucket key).failures, since := t.world.now, sweeps := 0 })
    (hlast : (u.world.manager.bucket key).last = some t.world.now)
  | swept (hsweeps : e.sweeps = true) (h : u.accounts key = (t.accounts key).map
      (Account.counted forgivenessSecs t.world.now (t.world.manager.bucket key)))
    (hbucket : u.world.manager.bucket key =
      (cleanupExpired t.world.manager t.world.now).bucket key)
  | same (h : u.accounts key = t.accounts key)
    (hbucket : u.world.manager.bucket key = t.world.manager.bucket key)

theorem audit_eq_some {t u : Audited} (h : audit p t e = some u) :
    step p t.world e = some u.world ∧ u.accounts = settle p t e u.world.manager := by
  unfold audit at h
  cases hstep : step p t.world e with
  | none => simp [hstep] at h
  | some w =>
    rw [hstep] at h
    obtain rfl := Option.some.inj h
    exact ⟨rfl, rfl⟩

theorem settled {t u : Audited} (h : audit p t e = some u) (key : QString) :
    Settled t e u key := by
  obtain ⟨hstep, haccounts⟩ := audit_eq_some h
  obtain ⟨-, -, hmanager, -, -⟩ := step_eq_some p hstep
  have haccount := congrFun haccounts key
  unfold settle at haccount
  dsimp only at haccount
  cases hdrops : e.drops with
  | true =>
    rw [if_pos hdrops] at haccount
    exact .none haccount
  | false =>
    rw [if_neg (by simp [hdrops])] at haccount
    cases hsweeps : e.sweeps with
    | false =>
      have hnone : recorded p t.world.manager t.world.now e = none := by
        cases hrecorded : recorded p t.world.manager t.world.now e with
        | none => rfl
        | some attempt =>
          rw [sweeps_of_recorded hrecorded] at hsweeps
          cases hsweeps
      simp only [hnone, hsweeps, Bool.false_eq_true, if_false] at haccount
      refine .same haccount ?_
      unfold Manager.bucket
      rw [hmanager, rateLimits_kept hsweeps hdrops]
    | true =>
      rw [handle_attempt hsweeps] at hmanager
      cases hrecorded : recorded p t.world.manager t.world.now e with
      | none =>
        simp only [hrecorded, hsweeps, if_true] at haccount hmanager
        exact .swept hsweeps haccount (by rw [hmanager])
      | some attempt =>
        obtain ⟨failed, matched⟩ := attempt
        simp only [hrecorded] at haccount hmanager
        by_cases hkey : key = failed
        · subst hkey
          rw [if_pos rfl] at haccount
          cases matched with
          | true => exact .none haccount
          | false =>
            refine .opened haccount ?_
            rw [hmanager]
            exact recordAttempt_failed key
        · rw [if_neg hkey] at haccount
          refine .swept hsweeps haccount ?_
          rw [hmanager]
          exact recordAttempt_other hkey

variable {t u : Audited} {e : Event}

theorem audit_now_le (h : audit p t e = some u) : t.world.now ≤ u.world.now := by
  obtain ⟨-, hnow, -⟩ := step_eq_some p (audit_eq_some h).1
  rw [hnow]
  cases e with
  | tick secs =>
    simp only [World.clock]
    omega
  | _ => exact le_refl _

theorem Balanced.next (hbalanced : Balanced t) (h : audit p t e = some u) : Balanced u := by
  intro key a haccount
  cases settled h key with
  | none hnone =>
    rw [hnone] at haccount
    cases haccount
  | opened hopened hlast =>
    rw [hopened] at haccount
    obtain rfl := Option.some.inj haccount
    exact ⟨rfl, fun _ => hlast⟩
  | swept _ hswept hbucket =>
    rw [hswept, Option.map_eq_some_iff] at haccount
    obtain ⟨before, hbefore, rfl⟩ := haccount
    rw [hbucket]
    exact fits_cleanup (hbalanced key before hbefore)
  | same hsame hbucket =>
    rw [hsame] at haccount
    rw [hbucket]
    exact hbalanced key a haccount

/-- What is fair stays fair when the sweep of the step forgives what is earned. -/
theorem Fair.next (hfair : Fair t) (h : audit p t e = some u)
    (hsweep : e.sweeps = true → ∀ key a, t.accounts key = some a →
      a.Earned forgivenessSecs t.world.now
        ((cleanupExpired t.world.manager t.world.now).bucket key)) : Fair u := by
  have hle := audit_now_le h
  intro key a haccount
  cases settled h key with
  | none hnone =>
    rw [hnone] at haccount
    cases haccount
  | opened hopened _ =>
    rw [hopened] at haccount
    obtain rfl := Option.some.inj haccount
    simp only [Account.Earned]
    omega
  | swept hsweeps hswept hbucket =>
    rw [hswept, Option.map_eq_some_iff] at haccount
    obtain ⟨before, hbefore, rfl⟩ := haccount
    rw [Account.earned_counted, hbucket]
    exact (hsweep hsweeps key before hbefore).mono hle
  | same hsame hbucket =>
    rw [hsame] at haccount
    rw [hbucket]
    exact (hfair key a haccount).mono hle

theorem sweep_earned_iff (hbalanced : Balanced t) (hfair : Fair t) {key : QString} {a : Account}
    (haccount : t.accounts key = some a) :
    a.Earned forgivenessSecs t.world.now ((cleanupExpired t.world.manager t.world.now).bucket key) ↔
      a.Spaced forgivenessSecs t.world.now (t.world.manager.bucket key) := by
  rw [Account.Earned.congr (cleanup_failures _ _ _)]
  exact (hbalanced key a haccount).swept_earned_iff (hfair key a haccount)

theorem forgives_iff (hbalanced : Balanced t) (hfair : Fair t) (h : audit p t e = some u) :
    Forgives t e u ↔ SweepsSpaced t e u := by
  constructor
  · rintro ⟨-, hforgives⟩ hsweeps key a haccount
    exact (sweep_earned_iff hbalanced hfair haccount).mp (hforgives hsweeps key a haccount).1
  · intro hspaced
    have hearned : e.sweeps = true → ∀ key a, t.accounts key = some a →
        a.Earned forgivenessSecs t.world.now
          ((cleanupExpired t.world.manager t.world.now).bucket key) := by
      intro hsweeps key a haccount
      exact (sweep_earned_iff hbalanced hfair haccount).mpr (hspaced hsweeps key a haccount)
    refine ⟨hfair.next h hearned, ?_⟩
    intro hsweeps key a haccount
    exact ⟨hearned hsweeps key a haccount, cleanup_lockout _ _ _⟩

theorem forgives_along_iff (p : Primitives) (now : Int) (remoteAdminEnabled : Bool)
    (adminPasswordDigest : QString) (labels : List Event) :
    EachStep (moves (audit p)) Forgives
        (Audited.initial now remoteAdminEnabled adminPasswordDigest) labels ↔
      EachStep (moves (audit p)) SweepsSpaced
        (Audited.initial now remoteAdminEnabled adminPasswordDigest) labels := by
  have hnone : ∀ key a,
      (Audited.initial now remoteAdminEnabled adminPasswordDigest).accounts key ≠ some a := by
    intro key a h
    cases h
  refine eachStep_iff (S := Balanced) (I := Fair) (fun _ _ _ h hstep => h.next hstep)
    (fun _ _ _ _ h => h.1) (fun _ _ _ hbalanced hfair hstep => forgives_iff hbalanced hfair hstep)
    ?_ ?_ labels
  · exact fun key a h => absurd h (hnone key a)
  · exact fun key a h => absurd h (hnone key a)

end

end MoonlightWeb.Server.AuthManager
