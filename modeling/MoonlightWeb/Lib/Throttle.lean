import Mathlib
import MoonlightWeb.Lib.Run

/-! # Throttled descents

A level is lowered through two clocks: an arrival ticks the first when `tick` has passed
since it last ticked, and a tick drops the level by `drop` when `period` has passed since the
last drop, down to a floor. Arrivals at most `gap` apart then drop the level once in every
span of `period + tick + gap`.
-/

namespace MoonlightWeb.Lib.Throttle

universe u

variable {K : Type u} [AddCommGroup K] [LinearOrder K]

/-- The times, between a start and an end, are at most `gap` apart. -/
def Apart (gap start finish : K) (times : List K) : Prop :=
  List.IsChain (fun x y => y ≤ x + gap) (start :: (times ++ [finish]))

section
variable [IsOrderedAddMonoid K]

variable {gap start finish : K} {times : List K}

variable (h : Apart gap start finish times)

include h

/-- Every stretch of `gap` has a time in it, the first one that reaches the stretch. -/
theorem Apart.first_between {x : K} (hstart : start < x) (hfinish : x + gap ≤ finish) :
    ∃ before y after, times = before ++ y :: after ∧ (∀ z ∈ before, z < x) ∧ x ≤ y ∧
      y < x + gap ∧ Apart gap y finish after := by
  have hlt : start + gap < x + gap := by
    simpa using hstart
  induction times generalizing start with
  | nil =>
    have hlast : finish ≤ start + gap := by
      simpa [Apart] using h
    exact absurd (hlast.trans_lt hlt) (not_lt.mpr hfinish)
  | cons y times ih =>
    have hsplit : y ≤ start + gap ∧ Apart gap y finish times := by
      simpa [Apart] using h
    rcases lt_or_ge y x with hbefore | hreached
    · have hnext : y + gap < x + gap := by
        simpa using hbefore
      obtain ⟨before, z, after, rfl, hsmall, hrest⟩ := ih hsplit.2 hbefore hnext
      refine ⟨y :: before, z, after, rfl, ?_, hrest⟩
      intro w hw
      rcases List.mem_cons.mp hw with rfl | hold
      · exact hbefore
      · exact hsmall w hold
    · exact ⟨[], y, times, rfl, by simp, hreached, hsplit.1.trans_lt hlt, hsplit.2⟩

theorem Apart.exists_between {x : K} (hstart : start < x) (hfinish : x + gap ≤ finish) :
    ∃ y ∈ times, x ≤ y ∧ y < x + gap := by
  obtain ⟨before, y, after, rfl, -, hreached, hsoon, -⟩ := h.first_between hstart hfinish
  exact ⟨y, by simp, hreached, hsoon⟩

theorem Apart.gap_nonneg (htimes : ∀ z ∈ times, start ≤ z) (hle : start ≤ finish) :
    0 ≤ gap := by
  cases times with
  | nil =>
    have hlast : finish ≤ start + gap := by
      simpa [Apart] using h
    simpa using hle.trans hlast
  | cons y times =>
    have hfirst : y ≤ start + gap := by
      have : y ≤ start + gap ∧ Apart gap y finish times := by
        simpa [Apart] using h
      exact this.1
    simpa using (htimes y (List.mem_cons_self ..)).trans hfirst

omit h

end

structure Gauge (K : Type u) where
  level : K
  ticked : K
  dropped : K

/-- The clocks of the gauge are not ahead of `now`. -/
def Gauge.Behind (s : Gauge K) (now : K) : Prop :=
  s.ticked ≤ now ∧ s.dropped ≤ now

/-- What an arrival at `now` does: it raises the level no higher than the floor, and a tick
drops the level when a drop is due, as far as the floor allows. -/
structure Descends (tick period drop floor : K) (s : Gauge K) (now : K) (s' : Gauge K) : Prop where
  level_le : s'.level ≤ max floor s.level
  dropped_le : s'.dropped = s.dropped ∨ s'.dropped = now
  early : now - s.ticked < tick → s'.ticked = s.ticked ∧ s'.dropped = s.dropped
  late : tick ≤ now - s.ticked → s'.ticked = now ∧
    (s'.level ≤ max floor (s.level - drop) ∨ now - s.dropped < period ∧ s'.dropped = s.dropped)

/-- A level no higher than it was at `since`: a drop lower, or with both clocks as they were
at `since` as far as the next drop goes. -/
structure Waiting (period drop floor top since : K) (s : Gauge K) : Prop where
  level_le : s.level ≤ max floor top
  lowered : s.level ≤ max floor (top - drop) ∨ s.dropped ≤ since ∧ s.ticked < since + period

variable {tick period drop floor top since now : K} {s s' t : Gauge K} {times : List K}

theorem Descends.behind {z : K} (h : Descends tick period drop floor s z s') (hs : s.Behind now)
    (hz : z ≤ now) : s'.Behind now := by
  constructor
  · rcases lt_or_ge (z - s.ticked) tick with hearly | hlate
    · rw [(h.early hearly).1]
      exact hs.1
    · rw [(h.late hlate).1]
      exact hz
  · rcases h.dropped_le with hkept | hdropped
    · rw [hkept]
      exact hs.2
    · rw [hdropped]
      exact hz

theorem Descends.adjusted {level : K} (h : Descends tick period drop floor s now s')
    (hlevel : level ≤ max floor s'.level) :
    Descends tick period drop floor s now { s' with level := level } where
  level_le := hlevel.trans (max_le (le_max_left _ _) h.level_le)
  dropped_le := h.dropped_le
  early := h.early
  late hlate := by
    obtain ⟨hnow, hlower | hkept⟩ := h.late hlate
    · exact ⟨hnow, .inl (hlevel.trans (max_le (le_max_left _ _) hlower))⟩
    · exact ⟨hnow, .inr hkept⟩

theorem level_le (hrun : Run (Descends tick period drop floor) s times t) :
    t.level ≤ max floor s.level := by
  refine hrun.invariant (I := fun t => t.level ≤ max floor s.level) ?_ (le_max_right _ _)
  intro m now u hm hstep
  exact hstep.level_le.trans (max_le (le_max_left _ _) hm)

theorem behind (hrun : Run (Descends tick period drop floor) s times t) (hs : s.Behind now)
    (htimes : ∀ z ∈ times, z ≤ now) : t.Behind now := by
  refine (hrun.guard htimes).invariant (I := fun t => t.Behind now) ?_ hs
  intro m z u hm hstep
  exact hstep.2.behind hm hstep.1

variable [IsOrderedAddMonoid K]

theorem max_sub_le (hdrop : 0 ≤ drop) {level : K} (h : level ≤ max floor top) :
    max floor (level - drop) ≤ max floor (top - drop) := by
  apply max_le (le_max_left _ _)
  rcases le_max_iff.mp h with hfloor | htop
  · exact (sub_le_self _ hdrop).trans (hfloor.trans (le_max_left _ _))
  · exact (sub_le_sub_right htop _).trans (le_max_right _ _)

namespace Waiting

theorem start (hperiod : 0 < period) (hs : s.Behind since) :
    Waiting period drop floor s.level since s where
  level_le := le_max_right _ _
  lowered := .inr ⟨hs.2, hs.1.trans_lt (lt_add_of_pos_right _ hperiod)⟩

theorem step (hdrop : 0 ≤ drop) (hs : Waiting period drop floor top since s)
    (h : Descends tick period drop floor s now s') : Waiting period drop floor top since s' where
  level_le := h.level_le.trans (max_le (le_max_left _ _) hs.level_le)
  lowered := by
    rcases hs.lowered with hdown | ⟨hdropped, hticked⟩
    · exact .inl (h.level_le.trans (max_le (le_max_left _ _) hdown))
    · rcases lt_or_ge (now - s.ticked) tick with hearly | hlate
      · obtain ⟨hsame, hsame'⟩ := h.early hearly
        rw [hsame, hsame']
        exact .inr ⟨hdropped, hticked⟩
      · obtain ⟨hnow, hlower | ⟨hrecent, hsame⟩⟩ := h.late hlate
        · exact .inl (hlower.trans (max_sub_le hdrop hs.level_le))
        · -- The tick is too close to the last drop, so it comes before the period is over.
          have hsoon : now < since + period := by
            have : now < s.dropped + period := sub_lt_iff_lt_add'.mp hrecent
            exact this.trans_le (by gcongr)
          exact .inr ⟨hsame ▸ hdropped, hnow ▸ hsoon⟩

theorem arrival (hdrop : 0 ≤ drop) (htick : 0 ≤ tick)
    (hs : Waiting period drop floor top since s) (h : Descends tick period drop floor s now s')
    (hdue : since + period + tick ≤ now) : s'.level ≤ max floor (top - drop) := by
  rcases hs.lowered with hdown | ⟨hdropped, hticked⟩
  · exact h.level_le.trans (max_le (le_max_left _ _) hdown)
  · have hlate : tick ≤ now - s.ticked := by
      rw [le_sub_iff_add_le']
      exact (add_le_add_left hticked.le tick).trans hdue
    obtain ⟨-, hlower | ⟨hrecent, -⟩⟩ := h.late hlate
    · exact hlower.trans (max_sub_le hdrop hs.level_le)
    · have hnow : now < s.dropped + period := sub_lt_iff_lt_add'.mp hrecent
      have hle : s.dropped + period ≤ since + period + tick :=
        (add_le_add_left hdropped period).trans (le_add_of_nonneg_right htick)
      exact absurd (hnow.trans_le (hle.trans hdue)) (lt_irrefl _)

end Waiting

/-- A run from a state with its clocks at `since` or before, with an arrival a period and a
tick after `since`, lowers the level by a drop. -/
theorem lowered (hperiod : 0 < period) (hdrop : 0 ≤ drop) (htick : 0 ≤ tick)
    (hs : s.Behind since) (hrun : Run (Descends tick period drop floor) s times t) {y : K}
    (hy : y ∈ times) (hdue : since + period + tick ≤ y) :
    t.level ≤ max floor (s.level - drop) := by
  obtain ⟨before, after, rfl⟩ := List.append_of_mem hy
  rw [List.append_cons] at hrun
  obtain ⟨m, hfirst, hrest⟩ := hrun.split
  obtain ⟨w, hwaited, harrival⟩ := hfirst.snoc_inv
  have hw : Waiting period drop floor s.level since w :=
    hwaited.invariant (fun _ _ _ hv hstep => hv.step hdrop hstep) (.start hperiod hs)
  have hm : m.level ≤ max floor (s.level - drop) := hw.arrival hdrop htick harrival hdue
  exact (level_le hrest).trans (max_le (le_max_left _ _) hm)

/-- Arrivals at most `gap` apart lower the level by a drop in every span. -/
theorem lowered_by_spans {gap start finish : K} (hperiod : 0 < period) (hdrop : 0 ≤ drop)
    (htick : 0 ≤ tick) (hgap : 0 ≤ gap) (hs : s.Behind start)
    (hrun : Run (Descends tick period drop floor) s times t)
    (hapart : Apart gap start finish times) (n : Nat)
    (hlong : start + n • (period + tick + gap) ≤ finish) :
    t.level ≤ max floor (s.level - n • drop) := by
  induction n generalizing s start times with
  | zero => simpa using level_le hrun
  | succ n ih =>
    have hspan : 0 ≤ period + tick + gap := by positivity
    rw [succ_nsmul', ← add_assoc] at hlong
    have hstart : start < start + (period + tick) := lt_add_of_pos_right _ (by positivity)
    have hfinish : start + (period + tick) + gap ≤ finish := by
      rw [add_assoc start]
      exact (le_add_of_nonneg_right (nsmul_nonneg hspan n)).trans hlong
    obtain ⟨before, y, after, rfl, hbefore, hreached, hsoon, hrest⟩ :=
      hapart.first_between hstart hfinish
    rw [List.append_cons] at hrun
    obtain ⟨m, hfirst, hsecond⟩ := hrun.split
    have hy : y ∈ before ++ [y] := by simp
    have hm : m.level ≤ max floor (s.level - drop) :=
      lowered hperiod hdrop htick hs hfirst hy (by rwa [add_assoc])
    have hmbehind : m.Behind y := by
      have hle : start ≤ y := hstart.le.trans hreached
      refine behind hfirst ⟨hs.1.trans hle, hs.2.trans hle⟩ ?_
      intro z hz
      rcases List.mem_append.mp hz with hold | hlast
      · exact (hbefore z hold).le.trans hreached
      · exact (List.mem_singleton.mp hlast).le
    have hlong' : y + n • (period + tick + gap) ≤ finish := by
      refine le_trans ?_ hlong
      rw [← add_assoc start]
      gcongr
    refine (ih hmbehind hsecond hrest hlong').trans ?_
    rw [succ_nsmul', ← sub_sub]
    exact max_sub_le (nsmul_nonneg hdrop n) hm

end MoonlightWeb.Lib.Throttle
