import MoonlightWeb.NativeHost.RateEnvelope

/-! # The rate the link has proven

The good rate is meant to be what the link carried through a whole window of clean
reports. A sample taken when a silence was declared can outlast the silence, and a
failed probe can restore a rate above the good one; in every other run the rate is
proven as meant.
-/

namespace MoonlightWeb.NativeHost.RateGovernor

open Lib RateGovernor

/-- The governor with the clock, and since when the reports have been clean: no
overuse, and no declared silence. -/
structure Observed where
  governor : Governor
  clockMs : Int
  cleanSinceMs : Int

open Observed

namespace Observed

def initial (clockMs : Int) : Observed := ⟨Governor.fresh, clockMs, clockMs⟩

variable (w : Observed)

def cleanSinceAfter : Event → Int
  | .start _ nowMs => nowMs
  | .setSetting _ => w.cleanSinceMs
  | .report fb nowMs =>
      if (!fb.resumed && overuse fb) || w.governor.silenceCut then nowMs else w.cleanSinceMs
  | .tick nowMs => if declares w.governor nowMs then nowMs else w.cleanSinceMs

/-- The clock does not go back. -/
def next (e : Event) : Option Observed :=
  let clockMs := e.nowMs.getD w.clockMs
  if clockMs < w.clockMs then none
  else some ⟨handle w.governor e, clockMs, w.cleanSinceAfter e⟩

/-- The rate goes up only at a clean report, outside a silence, when the reports have
been clean for a whole window. -/
def Proven (e : Event) (w' : Observed) : Prop :=
  w.governor.good < w'.governor.good →
    ∃ fb nowMs, e = .report fb nowMs ∧ fb.resumed = false ∧ overuse fb = false ∧
      w.governor.silenceCut = false ∧ w.cleanSinceMs + goodHoldMs ≤ nowMs

/-- No probe fails whose climb started above the good rate, and no window with a better
sample ends that a silence was part of. -/
def Honest (e : Event) (_ : Observed) : Prop :=
  match e with
  | .report fb nowMs => fb.resumed = false →
      (overuse fb = true → probing w.governor nowMs = true →
        w.governor.climbStart ≤ w.governor.good) ∧
      (overuse fb = false → goodHoldMs ≤ nowMs - w.governor.goodSampleMs →
        w.governor.good < w.governor.goodSample →
          w.governor.silenceCut = false ∧ w.cleanSinceMs + goodHoldMs ≤ nowMs)
  | _ => True

end Observed

structure Remembers (g : Governor) : Prop where
  setting : 0 ≤ g.setting
  target : 0 ≤ g.target
  before : 0 ≤ g.targetBeforeSilence
  good : 0 ≤ g.good
  sample : 0 ≤ g.goodSample
  climb : 0 ≤ g.climbStart

section

variable {g : Governor} {fb : LinkFeedback} {nowMs settingKbps : Int}

theorem Remembers.fresh : Remembers Governor.fresh := by
  constructor <;> decide

theorem Remembers.cut (h : Remembers g) : Remembers (cut g) := by
  have hto : 0 ≤ cutTo g := by
    have htarget := h.target
    have hsetting := h.setting
    unfold cutTo cutPercent
    simp only
    split <;> split <;> omega
  obtain ⟨changes, hcut⟩ := cut_cases g
  rw [hcut]
  exact ⟨h.setting, hto, h.before, h.good, h.sample, h.climb⟩

theorem Remembers.rearm (h : Remembers g) (nowMs : Int) : Remembers (rearmGoodSample g nowMs) :=
  ⟨h.setting, h.target, h.before, h.good, h.target, h.climb⟩

theorem Remembers.raise (h : Remembers g) (nowMs : Int) : Remembers (raise g nowMs) := by
  have htarget := h.target
  have hsetting := h.setting
  have hgood := h.good
  have hclimb := h.climb
  unfold RateGovernor.raise fastStep fastRaisePercent raisePercent
  split
  · exact h
  · by_cases hproven : g.target < g.good
    · simp only [if_pos hproven]
      refine ⟨h.setting, ?_, h.before, h.good, h.sample, ?_⟩
      · simp only
        split <;> split <;> split <;> omega
      · simp only
        split <;> omega
    · simp only [if_neg hproven]
      refine ⟨h.setting, ?_, h.before, h.good, h.sample, h.climb⟩
      simp only
      split <;> split <;> omega

theorem Remembers.handle (h : Remembers g) (e : Event) : Remembers (handle g e) := by
  have htarget := h.target
  have hsetting := h.setting
  have hgood := h.good
  have hsample := h.sample
  have hbefore := h.before
  have hclimb := h.climb
  cases e with
  | start settingKbps nowMs =>
    have hpos : 0 ≤ if settingKbps > 0 then settingKbps else 20000 := by
      split <;> omega
    exact ⟨hpos, hpos, h.before, le_refl _, hpos, le_refl _⟩
  | setSetting settingKbps =>
    change Remembers (setSetting g settingKbps)
    unfold setSetting
    split
    · exact h
    · rename_i hpos
      constructor <;> simp only <;> first | assumption | omega
  | report fb nowMs =>
    change Remembers (report g fb nowMs)
    unfold report
    simp only
    split
    · unfold reportResumed
      simp only
      split
      · exact ⟨hsetting, htarget, hbefore, hgood, hsample, hclimb⟩
      · refine ⟨hsetting, ?_, hbefore, hgood, hsample, hclimb⟩
        simp only
        split <;> omega
    · split
      · refine Remembers.rearm (Remembers.cut ?_) nowMs
        refine ⟨hsetting, htarget, hbefore, ?_, hsample, hclimb⟩
        simp only
        split <;> assumption
      · have hwindow : Remembers (closeWindow
            { g with lastReportMs := nowMs, lastRaiseFast := false, silenceCut := false }
            nowMs) := by
          unfold closeWindow
          split
          · refine Remembers.rearm ?_ nowMs
            refine ⟨hsetting, htarget, hbefore, ?_, hsample, hclimb⟩
            simp only
            split <;> assumption
          · exact ⟨hsetting, htarget, hbefore, hgood, hsample, hclimb⟩
        unfold reportClean
        simp only
        split
        · exact ⟨hwindow.setting, hwindow.target, hwindow.before, hwindow.good,
            hwindow.sample, hwindow.climb⟩
        · split
          · exact hwindow
          · split
            · exact hwindow
            · exact hwindow.raise nowMs
  | tick nowMs =>
    change Remembers (tick g nowMs)
    unfold tick
    split
    · exact h
    · refine Remembers.rearm (Remembers.cut ?_) nowMs
      exact ⟨hsetting, htarget, htarget, hgood, hsample, hclimb⟩

@[simp] theorem cut_good (g : Governor) : (cut g).good = g.good := by
  obtain ⟨changes, hcut⟩ := cut_cases g
  rw [hcut]

theorem report_good_resumed (hresumed : fb.resumed = true) :
    (report g fb nowMs).good = g.good := by
  unfold report reportResumed
  simp only [hresumed, if_true]
  split <;> rfl

theorem report_good_overuse (hresumed : fb.resumed = false) (hoveruse : overuse fb = true) :
    (report g fb nowMs).good = if probing g nowMs then g.climbStart else g.good := by
  unfold report
  simp only [hresumed, hoveruse, Bool.false_eq_true, if_false, if_true]
  exact cut_good _

theorem report_good_clean (hresumed : fb.resumed = false) (hoveruse : overuse fb = false) :
    (report g fb nowMs).good =
      if goodHoldMs ≤ nowMs - g.goodSampleMs ∧ g.good < g.goodSample then g.goodSample
      else g.good := by
  have hkept : ∀ (h : Governor), (reportClean h fb nowMs).good = (closeWindow h nowMs).good := by
    intro h
    unfold reportClean
    simp only
    split
    · rfl
    · split
      · rfl
      · split
        · rfl
        · exact (raise_frame _ nowMs).2.1
  unfold report
  simp only [hresumed, hoveruse, Bool.false_eq_true, if_false, hkept]
  unfold closeWindow
  by_cases hends : nowMs - g.goodSampleMs ≥ goodHoldMs
  · simp only [if_pos hends, rearmGoodSample]
    by_cases hbetter : g.goodSample > g.good
    · rw [if_pos hbetter, if_pos ⟨hends, hbetter⟩]
    · rw [if_neg hbetter, if_neg fun h => hbetter h.2]
  · simp only [if_neg hends]
    rw [if_neg fun h => hends h.1]

end

namespace Observed

theorem next_eq {w w' : Observed} {e : Event} (h : w.next e = some w') :
    w' = ⟨handle w.governor e, e.nowMs.getD w.clockMs, w.cleanSinceAfter e⟩ := by
  unfold next at h
  simp only at h
  split at h
  · cases h
  · exact (Option.some.inj h).symm

theorem proven_iff {w w' : Observed} {e : Event} (h : Remembers w.governor)
    (hnext : w.next e = some w') : Proven w e w' ↔ Honest w e w' := by
  have hgood := h.good
  rw [next_eq hnext]
  unfold Proven Honest
  cases e with
  | start settingKbps nowMs =>
    refine iff_of_true (fun hraised => ?_) trivial
    change w.governor.good < 0 at hraised
    omega
  | setSetting settingKbps =>
    refine iff_of_true (fun hraised => ?_) trivial
    simp only [handle, setSetting] at hraised
    split at hraised
    · omega
    · simp only at hraised
      split at hraised <;> omega
  | report fb nowMs =>
    simp only [handle]
    cases hresumed : fb.resumed with
    | true =>
      rw [report_good_resumed hresumed]
      exact iff_of_true (fun hraised => absurd hraised (lt_irrefl _)) (fun hno => by cases hno)
    | false =>
      cases hoveruse : overuse fb with
      | true =>
        rw [report_good_overuse hresumed hoveruse]
        constructor
        · intro hproven _
          refine ⟨fun _ hprobing => ?_, fun hno => by cases hno⟩
          by_contra habove
          rw [if_pos hprobing] at hproven
          obtain ⟨fb', nowMs', heq, _, hclean, _⟩ := hproven (not_le.mp habove)
          obtain ⟨rfl, rfl⟩ := Event.report.inj heq
          rw [hoveruse] at hclean
          cases hclean
        · intro hhonest hraised
          exfalso
          by_cases hprobing : probing w.governor nowMs = true
          · rw [if_pos hprobing] at hraised
            have hbelow := (hhonest rfl).1 rfl hprobing
            omega
          · rw [if_neg hprobing] at hraised
            omega
      | false =>
        rw [report_good_clean hresumed hoveruse]
        constructor
        · intro hproven _
          refine ⟨(fun hno => by cases hno), fun _ hends hbetter => ?_⟩
          rw [if_pos ⟨hends, hbetter⟩] at hproven
          obtain ⟨fb', nowMs', heq, _, _, hsilence, hclean⟩ := hproven hbetter
          obtain ⟨rfl, rfl⟩ := Event.report.inj heq
          exact ⟨hsilence, hclean⟩
        · intro hhonest hraised
          by_cases hends : goodHoldMs ≤ nowMs - w.governor.goodSampleMs ∧
              w.governor.good < w.governor.goodSample
          · obtain ⟨hsilence, hclean⟩ := (hhonest rfl).2 rfl hends.1 hends.2
            exact ⟨fb, nowMs, rfl, hresumed, hoveruse, hsilence, hclean⟩
          · rw [if_neg hends] at hraised
            omega
  | tick nowMs =>
    refine iff_of_true (fun hraised => ?_) trivial
    simp only [handle, tick] at hraised
    split at hraised
    · omega
    · simp only [rearmGoodSample, cut_good] at hraised
      omega

end Observed

end MoonlightWeb.NativeHost.RateGovernor
