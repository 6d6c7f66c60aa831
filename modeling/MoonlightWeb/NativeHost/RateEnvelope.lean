import MoonlightWeb.NativeHost.RateGovernor

/-! # The envelope of the rates

The target and the rate known to be good stay below the setting, and the target
above the floor of the lowest setting there was. Cuts lower the target, unless a
setting raised meanwhile lifted the floor over it.
-/

namespace MoonlightWeb.NativeHost.RateGovernor

open Lib

def reach (settingKbps : Int) : Int := min (floorOf settingKbps) settingKbps

theorem reach_mono {low high : Int} (h : low ≤ high) : reach low ≤ reach high := by
  unfold reach floorOf floorPercent floorMinKbps
  simp only
  split <;> split <;> omega

theorem reach_pos {settingKbps : Int} (h : 0 < settingKbps) : 0 < reach settingKbps := by
  unfold reach floorOf floorPercent floorMinKbps
  simp only
  split <;> omega

section

variable {g : Governor} {fb : LinkFeedback} {nowMs settingKbps : Int}

theorem cutTo_bounds (g : Governor) : reach g.setting ≤ cutTo g ∧ cutTo g ≤ g.setting := by
  unfold reach cutTo floorKbps
  simp only
  constructor
  · split <;> split <;> omega
  · split <;> split <;> omega

theorem cutTo_le_iff (hpos : 0 ≤ g.target) (hle : g.target ≤ g.setting) :
    cutTo g ≤ g.target ↔ reach g.setting ≤ g.target := by
  have hshare : 0 ≤ g.target * cutPercent / 100 := by
    unfold cutPercent
    omega
  unfold reach cutTo floorKbps
  simp only
  constructor
  · intro h
    split at h <;> split at h <;> omega
  · intro h
    split <;> split <;> omega

@[simp] theorem cut_target (g : Governor) : (cut g).target = cutTo g := by
  unfold cut
  split
  · rename_i hsame
    exact hsame.symm
  · rfl

theorem cut_cases (g : Governor) :
    ∃ changes, cut g = { g with target := cutTo g, changes := changes } := by
  unfold cut
  split
  · rename_i hsame
    refine ⟨g.changes, ?_⟩
    rw [hsame]
  · exact ⟨g.changes + 1, rfl⟩

theorem raise_bounds (hpos : 0 ≤ g.target) (hle : g.target ≤ g.setting) :
    g.target ≤ (raise g nowMs).target ∧ (raise g nowMs).target ≤ g.setting := by
  have hfast : 0 ≤ g.target * fastRaisePercent / 100 := by
    unfold fastRaisePercent
    omega
  have hslow : 0 ≤ g.target * raisePercent / 100 := by
    unfold raisePercent
    omega
  unfold raise
  by_cases htop : g.target ≥ g.setting
  · rw [if_pos htop]
    exact ⟨le_refl _, hle⟩
  · rw [if_neg htop]
    by_cases hproven : g.target < g.good
    · simp only [if_pos hproven, fastStep]
      constructor
      · split <;> split <;> split <;> omega
      · split <;> split <;> split <;> omega
    · simp only [if_neg hproven]
      constructor
      · split <;> split <;> omega
      · split <;> split <;> omega

/-- A raise keeps the setting, the good rate and the sample. -/
theorem raise_frame (g : Governor) (nowMs : Int) :
    (raise g nowMs).setting = g.setting ∧ (raise g nowMs).good = g.good ∧
      (raise g nowMs).goodSample = g.goodSample := by
  unfold raise
  split
  · exact ⟨rfl, rfl, rfl⟩
  · by_cases hproven : g.target < g.good
    · rw [if_pos hproven]
      exact ⟨rfl, rfl, rfl⟩
    · rw [if_neg hproven]
      exact ⟨rfl, rfl, rfl⟩

/-- The rates of a governor whose lowest setting was `lowest`. An overuse that fails a
probe may have restored a good rate above the setting: `overshot`. -/
structure Enveloped (g : Governor) (lowest : Int) (overshot : Bool) : Prop where
  settings : 0 < lowest ∧ lowest ≤ g.setting
  target : g.target ≤ g.setting
  floor : reach lowest ≤ g.target
  good : overshot = false → g.good ≤ g.setting
  sample : g.goodSample ≤ g.setting

variable {lowest : Int} {overshot : Bool}

theorem Enveloped.pos (h : Enveloped g lowest overshot) : 0 < g.target :=
  lt_of_lt_of_le (reach_pos h.settings.1) h.floor

theorem Enveloped.fresh : Enveloped Governor.fresh 20000 false where
  settings := by decide
  target := by decide
  floor := by decide
  good := by decide
  sample := by decide

variable (h : Enveloped g lowest overshot)

include h

/-- Only the rates matter. -/
theorem Enveloped.congr {g' : Governor}
    (heq : (g'.setting, g'.target, g'.good, g'.goodSample) =
      (g.setting, g.target, g.good, g.goodSample)) : Enveloped g' lowest overshot := by
  simp only [Prod.mk.injEq] at heq
  obtain ⟨hsetting, htarget, hgood, hsample⟩ := heq
  constructor
  · rw [hsetting]
    exact h.settings
  · rw [hsetting, htarget]
    exact h.target
  · rw [htarget]
    exact h.floor
  · rw [hsetting, hgood]
    exact h.good
  · rw [hsetting, hsample]
    exact h.sample

theorem Enveloped.rearm (nowMs : Int) :
    Enveloped (rearmGoodSample g nowMs) lowest overshot :=
  ⟨h.settings, h.target, h.floor, h.good, h.target⟩

theorem Enveloped.cut : Enveloped (cut g) lowest overshot := by
  have hbounds := cutTo_bounds g
  have hreach := reach_mono h.settings.2
  obtain ⟨changes, hcut⟩ := cut_cases g
  rw [hcut]
  exact ⟨h.settings, hbounds.2, hreach.trans hbounds.1, h.good, h.sample⟩

theorem Enveloped.raise (nowMs : Int) :
    Enveloped (raise g nowMs) lowest overshot := by
  have hbounds := @raise_bounds g nowMs h.pos.le h.target
  obtain ⟨hsetting, hgood, hsample⟩ := raise_frame g nowMs
  constructor
  · rw [hsetting]
    exact h.settings
  · rw [hsetting]
    exact hbounds.2
  · exact h.floor.trans hbounds.1
  · rw [hsetting, hgood]
    exact h.good
  · rw [hsetting, hsample]
    exact h.sample

omit h

theorem Enveloped.start (g : Governor) (settingKbps nowMs : Int) :
    Enveloped (RateGovernor.start g settingKbps nowMs)
      (RateGovernor.start g settingKbps nowMs).setting false := by
  have hpos : 0 < (RateGovernor.start g settingKbps nowMs).setting := by
    change 0 < if settingKbps > 0 then settingKbps else 20000
    split <;> omega
  constructor
  · exact ⟨hpos, le_refl _⟩
  · exact le_refl _
  · exact min_le_right _ _
  · intro _
    exact hpos.le
  · exact le_refl _

theorem Enveloped.setSetting (h : Enveloped g lowest overshot) (hpos : 0 < settingKbps) :
    Enveloped (setSetting g settingKbps) (min lowest settingKbps) false := by
  have hlow : reach (min lowest settingKbps) ≤ g.target :=
    (reach_mono (min_le_left _ _)).trans h.floor
  have hnew : reach (min lowest settingKbps) ≤ settingKbps :=
    (min_le_right _ _).trans (min_le_right _ _)
  have hlowest := h.settings
  unfold RateGovernor.setSetting
  rw [if_neg (not_le.mpr hpos)]
  constructor
  · simp only
    omega
  · simp only
    split <;> omega
  · simp only
    split
    · exact hnew
    · exact hlow
  · intro _
    simp only
    split <;> omega
  · simp only
    split <;> omega

theorem Enveloped.reportResumed (h : Enveloped g lowest overshot) (nowMs : Int) :
    Enveloped (reportResumed g nowMs) lowest overshot := by
  have hlowest := h.settings
  have htarget := h.target
  have hfloor := h.floor
  have hreach : reach lowest ≤ g.setting := hfloor.trans htarget
  unfold RateGovernor.reportResumed
  simp only
  by_cases hrestore : (g.silenceCut && decide (g.targetBeforeSilence > g.target)) = true
  · rw [hrestore]
    rw [Bool.and_eq_true, decide_eq_true_eq] at hrestore
    obtain ⟨_, habove⟩ := hrestore
    constructor
    · exact hlowest
    · simp only [Bool.not_true, Bool.false_eq_true, if_false]
      split <;> omega
    · simp only [Bool.not_true, Bool.false_eq_true, if_false]
      split <;> omega
    · exact h.good
    · exact h.sample
  · rw [Bool.not_eq_true] at hrestore
    rw [hrestore]
    exact h.congr rfl

def overshoots (g : Governor) : Bool := decide (g.climbStart > g.setting)

variable (h : Enveloped g lowest overshot)

include h

theorem Enveloped.reportOveruse (nowMs : Int) :
    Enveloped (reportOveruse g nowMs) lowest
      (if probing g nowMs then overshoots g else overshot) := by
  refine Enveloped.rearm (Enveloped.cut ?_) nowMs
  constructor
  · exact h.settings
  · exact h.target
  · exact h.floor
  · simp only
    by_cases hprobing : probing g nowMs = true
    · rw [if_pos hprobing, if_pos hprobing]
      intro hwithin
      exact not_lt.mp (of_decide_eq_false hwithin)
    · rw [if_neg hprobing, if_neg hprobing]
      exact h.good
  · exact h.sample

theorem Enveloped.reportClean (fb : LinkFeedback)
    (nowMs : Int) : Enveloped (reportClean g fb nowMs) lowest overshot := by
  have hwindow : Enveloped (closeWindow g nowMs) lowest overshot := by
    unfold closeWindow
    split
    · refine Enveloped.rearm ?_ nowMs
      refine ⟨h.settings, h.target, h.floor, fun hwithin => ?_, h.sample⟩
      have hgood := h.good hwithin
      have hsample := h.sample
      simp only
      split <;> assumption
    · exact h
  unfold RateGovernor.reportClean
  simp only
  split
  · exact hwindow.congr rfl
  · split
    · exact hwindow
    · split
      · exact hwindow
      · exact hwindow.raise nowMs

theorem Enveloped.tick (nowMs : Int) :
    Enveloped (tick g nowMs) lowest overshot := by
  unfold RateGovernor.tick
  split
  · exact h
  · have hmarked : Enveloped
        { g with
          silenceCut := true, targetBeforeSilence := g.target,
          holdUntilMs := nowMs + holdAfterCutMs, quietSinceMs := nowMs,
          silences := g.silences + 1, lastRaiseFast := false, lastFastRaiseMs := none }
        lowest overshot := h.congr rfl
    exact hmarked.cut.rearm nowMs

omit h

end

/-- The governor with the clock, the lowest setting since the start, and whether a failed
probe left the good rate over the setting. -/
structure Metered where
  governor : Governor
  clockMs : Int
  lowest : Int
  overshot : Bool

open Metered

namespace Metered

def initial (clockMs : Int) : Metered := ⟨Governor.fresh, clockMs, 20000, false⟩

variable (w : Metered)

def lowestAfter : Event → Int
  | .start settingKbps nowMs => (start w.governor settingKbps nowMs).setting
  | .setSetting settingKbps => if settingKbps ≤ 0 then w.lowest else min w.lowest settingKbps
  | .report _ _ => w.lowest
  | .tick _ => w.lowest

def overshotAfter : Event → Bool
  | .start _ _ => false
  | .setSetting settingKbps => if settingKbps ≤ 0 then w.overshot else false
  | .report fb nowMs =>
      if !fb.resumed && overuse fb && probing w.governor nowMs then overshoots w.governor
      else w.overshot
  | .tick _ => w.overshot

/-- The clock does not go back. -/
def next (e : Event) : Option Metered :=
  let clockMs := e.nowMs.getD w.clockMs
  if clockMs < w.clockMs then none
  else some ⟨handle w.governor e, clockMs, w.lowestAfter e, w.overshotAfter e⟩

def Within : Prop := Enveloped w.governor w.lowest w.overshot

theorem next_eq {w w' : Metered} {e : Event} (h : w.next e = some w') :
    w' = ⟨handle w.governor e, e.nowMs.getD w.clockMs, w.lowestAfter e, w.overshotAfter e⟩ := by
  unfold next at h
  simp only at h
  split at h
  · cases h
  · exact (Option.some.inj h).symm

theorem Within.step {w w' : Metered} {e : Event} (h : w.Within) (hnext : w.next e = some w') :
    w'.Within := by
  rw [next_eq hnext]
  unfold Within at h ⊢
  cases e with
  | start settingKbps nowMs => exact Enveloped.start w.governor settingKbps nowMs
  | setSetting settingKbps =>
    by_cases hpos : settingKbps ≤ 0
    · simp only [lowestAfter, overshotAfter, if_pos hpos, handle, setSetting]
      exact h
    · simp only [lowestAfter, overshotAfter, if_neg hpos, handle]
      exact h.setSetting (not_le.mp hpos)
  | report fb nowMs =>
    simp only [lowestAfter, overshotAfter, handle, report]
    by_cases hresumed : fb.resumed = true
    · simp only [hresumed, if_true, Bool.not_true, Bool.false_and, Bool.false_eq_true, if_false]
      have hmarked : Enveloped
          { w.governor with lastReportMs := nowMs, lastRaiseFast := false } w.lowest
          w.overshot := h.congr rfl
      exact hmarked.reportResumed nowMs
    · rw [Bool.not_eq_true] at hresumed
      by_cases hoveruse : overuse fb = true
      · simp only [hresumed, hoveruse, Bool.false_eq_true, if_false, if_true, Bool.not_false,
          Bool.true_and]
        have hmarked : Enveloped
            { w.governor with lastReportMs := nowMs, lastRaiseFast := false,
                              silenceCut := false } w.lowest w.overshot := h.congr rfl
        exact hmarked.reportOveruse nowMs
      · rw [Bool.not_eq_true] at hoveruse
        simp only [hresumed, hoveruse, Bool.false_eq_true, if_false, Bool.and_false,
          Bool.false_and]
        have hmarked : Enveloped
            { w.governor with lastReportMs := nowMs, lastRaiseFast := false,
                              silenceCut := false } w.lowest w.overshot := h.congr rfl
        exact hmarked.reportClean fb nowMs
  | tick nowMs => exact h.tick nowMs

end Metered

/-- The call is read as overuse, or declares a silence. -/
def cuts (g : Governor) : Event → Bool
  | .report fb _ => !fb.resumed && overuse fb
  | .tick nowMs => declares g nowMs
  | _ => false

/-- A call that cuts leaves the target no higher. -/
def Lowers (w : Metered) (e : Event) (w' : Metered) : Prop :=
  cuts w.governor e = true → w'.governor.target ≤ w.governor.target

/-- A call that cuts finds the floor, or the setting, no higher than the target. -/
def FloorBelow (w : Metered) (e : Event) (_ : Metered) : Prop :=
  cuts w.governor e = true → reach w.governor.setting ≤ w.governor.target

theorem cuts_target {g : Governor} {e : Event} (h : cuts g e = true) :
    (handle g e).target = cutTo g := by
  cases e with
  | start settingKbps nowMs => cases h
  | setSetting settingKbps => cases h
  | report fb nowMs =>
    simp only [cuts, Bool.and_eq_true, Bool.not_eq_true'] at h
    obtain ⟨hresumed, hoveruse⟩ := h
    simp only [handle, report, hresumed, hoveruse, Bool.false_eq_true, if_false, if_true]
    exact cut_target _
  | tick nowMs =>
    simp only [cuts] at h
    simp only [handle, tick, h, Bool.not_true, Bool.false_eq_true, if_false]
    exact cut_target _

end MoonlightWeb.NativeHost.RateGovernor
