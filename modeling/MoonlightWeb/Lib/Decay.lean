import Mathlib

/-! # Counters that decay

A bucket counts failures, and a sweep takes one off when the bucket has been
quiet for a period and no lock runs. An account beside it remembers how many
failures there were at the last one and how many sweeps took one off since. A
bucket decays as it should when each failure taken off stands for a period gone.
-/

namespace MoonlightWeb.Lib

/-- `last` is the time of the last failure, `locked` the time a lock runs to. -/
structure Bucket where
  failures : Nat
  last : Option Int
  locked : Int

namespace Bucket

/-- The sweep at `now` takes a failure off. -/
def due (period now : Int) (b : Bucket) : Bool :=
  0 < b.failures && b.locked ≤ now && b.last.all fun last => period ≤ now - last

def swept (period now : Int) (b : Bucket) : Bucket :=
  if b.due period now then { b with failures := b.failures - 1 } else b

end Bucket

/-- A bucket since its last failure: the failures it had then, the time, and the
sweeps that took one off. -/
structure Account where
  peak : Nat
  since : Int
  sweeps : Nat

namespace Account

variable (period now : Int)

/-- The account after a sweep of its bucket. -/
def counted (b : Bucket) (a : Account) : Account :=
  if b.due period now then { a with sweeps := a.sweeps + 1 } else a

structure Fits (a : Account) (b : Bucket) : Prop where
  total : b.failures + a.sweeps = a.peak
  since : 0 < b.failures → b.last = some a.since

/-- No more failures are forgiven than periods have passed since the last one. -/
def Earned (a : Account) (b : Bucket) : Prop :=
  ((a.peak : Int) - b.failures) * period ≤ now - a.since

/-- A sweep that takes a failure off comes after a period of its own. -/
def Spaced (a : Account) (b : Bucket) : Prop :=
  b.due period now = true → ((a.sweeps : Int) + 1) * period ≤ now - a.since

section

variable {period now later : Int} {a : Account} {b : Bucket}

theorem Fits.swept (h : a.Fits b) : (a.counted period now b).Fits (b.swept period now) := by
  obtain ⟨htotal, hsince⟩ := h
  unfold counted Bucket.swept
  by_cases hdue : b.due period now = true
  · have hpos : 0 < b.failures := by
      simp only [Bucket.due, Bool.and_eq_true, decide_eq_true_eq] at hdue
      exact hdue.1.1
    rw [if_pos hdue, if_pos hdue]
    constructor
    · simp only
      omega
    · intro _
      exact hsince hpos
  · rw [if_neg hdue, if_neg hdue]
    exact ⟨htotal, hsince⟩

variable {b' : Bucket}

theorem Fits.congr (h : a.Fits b) (hfailures : b'.failures = b.failures)
    (hlast : 0 < b'.failures → b'.last = b.last) : a.Fits b' where
  total := by rw [hfailures, h.total]
  since hpos := (hlast hpos).trans (h.since (hfailures ▸ hpos))

theorem Earned.congr (hfailures : b'.failures = b.failures) :
    a.Earned period now b' ↔ a.Earned period now b := by
  rw [Earned, Earned, hfailures]

/-- Counting a sweep changes nothing that is forgiven. -/
theorem earned_counted :
    (a.counted period now b).Earned period later b' ↔ a.Earned period later b' := by
  unfold counted
  split_ifs <;> rfl

theorem Fits.earned_iff (h : a.Fits b) :
    a.Earned period now b ↔ (a.sweeps : Int) * period ≤ now - a.since := by
  have htotal := h.total
  have heq : (a.peak : Int) - b.failures = a.sweeps := by omega
  rw [Earned, heq]

theorem Earned.mono (h : a.Earned period now b) (hle : now ≤ later) : a.Earned period later b := by
  unfold Earned at h ⊢
  omega

/-- A sweep forgives what is earned exactly when it is spaced. -/
theorem Fits.swept_earned_iff (h : a.Fits b) (hearned : a.Earned period now b) :
    a.Earned period now (b.swept period now) ↔ a.Spaced period now b := by
  rw [← @earned_counted period now now a b _, h.swept.earned_iff]
  rw [h.earned_iff] at hearned
  unfold counted Spaced
  by_cases hdue : b.due period now = true
  · simp [hdue]
  · simp [hdue, hearned]

end

end Account

end MoonlightWeb.Lib
