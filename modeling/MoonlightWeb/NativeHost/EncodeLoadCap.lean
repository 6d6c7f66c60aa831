import Mathlib.Data.List.Induction
import Mathlib.Data.Int.Basic
import Mathlib.Tactic.Common

/-! # The encode load cap

A ladder of three sizes. The mean encode time of a window steps it down; a run of
comfortable windows steps it up, and a climb that is undone too soon makes the next one
wait longer. Beside the cap a tally keeps what its calls show: the windows closed and the
climbs not undone.
-/

namespace MoonlightWeb.NativeHost.EncodeLoadCap

def kRungs : List Int := [100, 75, 50]
def kLastRung : Nat := kRungs.length - 1
def kDownPercentOfInterval : Int := 80
def kUpPercentOfInterval : Int := 35
def kClimbPredictedPercentOfInterval : Int := 65
def kClimbProbationUs : Int := 10 * 1000 * 1000
def kMaxUpWindows : Nat := 120
def kWindowUs : Int := 1000 * 1000
def kUpWindows : Nat := 4

structure LoadCap where
  rung : Nat := 0
  changes : Nat := 0
  windowStartUs : Int := 0
  lastNoteUs : Int := 0
  encodeSumUs : Int := 0
  frames : Nat := 0
  comfortWindows : Nat := 0
  upWindowsNeeded : Nat := kUpWindows
  climbedAtUs : Int := 0
deriving DecidableEq, Repr

variable (c : LoadCap)

def resetWindow (nowUs : Int) : LoadCap :=
  { c with windowStartUs := nowUs, encodeSumUs := 0, frames := 0 }

def start (nowUs : Int) : LoadCap :=
  resetWindow { c with
    rung := 0
    changes := 0
    comfortWindows := 0
    upWindowsNeeded := kUpWindows
    climbedAtUs := 0
    lastNoteUs := nowUs } nowUs

/-- What a window would have cost at the rung above. -/
def predicted (rung : Nat) (mean : Int) : Int :=
  let here := kRungs.getD rung 0
  let above := kRungs.getD (rung - 1) 0
  (mean * above * above).tdiv (here * here)

def slow (mean intervalUs : Int) : Bool :=
  decide ((intervalUs * kDownPercentOfInterval).tdiv 100 < mean)

/-- Well under the interval here, and predicted to stay under it at the rung above. -/
def comfortable (rung : Nat) (mean intervalUs : Int) : Bool :=
  decide (mean < (intervalUs * kUpPercentOfInterval).tdiv 100) && decide (0 < rung) &&
    decide (predicted rung mean < (intervalUs * kClimbPredictedPercentOfInterval).tdiv 100)

/-- The frame counted, in a window of its own after a gap. -/
def fed (encodeUs nowUs : Int) : LoadCap :=
  let c := if nowUs - c.lastNoteUs > kWindowUs then resetWindow c nowUs else c
  { c with
    lastNoteUs := nowUs
    encodeSumUs := c.encodeSumUs + encodeUs
    frames := c.frames + 1 }

/-- A climb that held through its probation clears the record. -/
def settle (nowUs : Int) : LoadCap :=
  if c.climbedAtUs ≠ 0 ∧ nowUs - c.climbedAtUs ≥ kClimbProbationUs then
    { c with climbedAtUs := 0, upWindowsNeeded := kUpWindows }
  else
    c

def stepDown : LoadCap :=
  let c := if c.climbedAtUs ≠ 0 then
      { c with
        climbedAtUs := 0
        upWindowsNeeded := if c.upWindowsNeeded * 2 > kMaxUpWindows then kMaxUpWindows
          else c.upWindowsNeeded * 2 }
    else
      c
  { c with rung := c.rung + 1, changes := c.changes + 1 }

/-- The window closed on a mean encode time. -/
def judge (mean intervalUs nowUs : Int) : LoadCap × Bool :=
  let c := settle c nowUs
  if slow mean intervalUs then
    let c := { c with comfortWindows := 0 }
    if kLastRung ≤ c.rung then (c, false) else (stepDown c, true)
  else if mean < (intervalUs * kUpPercentOfInterval).tdiv 100 ∧ 0 < c.rung then
    if (intervalUs * kClimbPredictedPercentOfInterval).tdiv 100 ≤ predicted c.rung mean then
      ({ c with comfortWindows := 0 }, false)
    else if c.comfortWindows + 1 < c.upWindowsNeeded then
      ({ c with comfortWindows := c.comfortWindows + 1 }, false)
    else
      ({ c with
          comfortWindows := 0, rung := c.rung - 1, changes := c.changes + 1,
          climbedAtUs := nowUs }, true)
  else if (intervalUs * kUpPercentOfInterval).tdiv 100 ≤ mean then
    ({ c with comfortWindows := 0 }, false)
  else
    (c, false)

/-- The mean encode time of the window's frames. -/
def mean : Int :=
  c.encodeSumUs.tdiv c.frames

def note (encodeUs intervalUs nowUs : Int) : LoadCap × Bool :=
  if intervalUs ≤ 0 then
    (c, false)
  else
    let c := fed c encodeUs nowUs
    if nowUs - c.windowStartUs < kWindowUs then
      (c, false)
    else if c.frames = 0 then
      (resetWindow c nowUs, false)
    else
      judge (resetWindow c nowUs) (mean c) intervalUs nowUs

inductive Call
  | start (nowUs : Int)
  | note (encodeUs intervalUs nowUs : Int)
deriving DecidableEq, Repr

structure Closing where
  frames : Nat
  comfortable : Bool
deriving DecidableEq, Repr

/-- The cap, the windows closed so far and the times of the climbs not undone yet, the
newest first. -/
structure Tally where
  cap : LoadCap := {}
  closings : List Closing := []
  climbs : List Int := []
deriving DecidableEq, Repr

def closes (encodeUs intervalUs nowUs : Int) : List Closing :=
  let fed := fed c encodeUs nowUs
  if intervalUs ≤ 0 ∨ nowUs - fed.windowStartUs < kWindowUs then
    []
  else
    [⟨fed.frames, comfortable fed.rung (mean fed) intervalUs && !slow (mean fed) intervalUs⟩]

def advance (t : Tally) : Call → Tally
  | .start nowUs => { cap := start t.cap nowUs }
  | .note encodeUs intervalUs nowUs =>
      let cap := (note t.cap encodeUs intervalUs nowUs).1
      { cap := cap
        closings := t.closings ++ closes t.cap encodeUs intervalUs nowUs
        climbs := if cap.rung < t.cap.rung then nowUs :: t.climbs
          else if t.cap.rung < cap.rung then t.climbs.tail
          else t.climbs }

variable (calls : List Call)

def run : Tally :=
  calls.foldl advance {}

@[simp] theorem run_snoc (a : Call) :
    run (calls ++ [a]) = advance (run calls) a := by
  simp [run]

/-- Two caps that differ in their windows alone. -/
structure SameLadder (c c' : LoadCap) : Prop where
  rung : c'.rung = c.rung
  comfort : c'.comfortWindows = c.comfortWindows
  needed : c'.upWindowsNeeded = c.upWindowsNeeded
  climbed : c'.climbedAtUs = c.climbedAtUs

theorem fed_ladder (encodeUs nowUs : Int) : SameLadder c (fed c encodeUs nowUs) := by
  unfold fed
  dsimp only
  split <;> exact ⟨rfl, rfl, rfl, rfl⟩

theorem fed_window (encodeUs nowUs : Int) :
    (fed c encodeUs nowUs).lastNoteUs = nowUs ∧ (fed c encodeUs nowUs).frames ≠ 0 ∧
      ((nowUs - c.lastNoteUs > kWindowUs ∧ (fed c encodeUs nowUs).windowStartUs = nowUs) ∨
        (nowUs - c.lastNoteUs ≤ kWindowUs ∧
          (fed c encodeUs nowUs).windowStartUs = c.windowStartUs ∧
          (fed c encodeUs nowUs).frames = c.frames + 1)) := by
  unfold fed
  dsimp only
  split
  case isTrue hgap => exact ⟨rfl, by simp [resetWindow], Or.inl ⟨hgap, rfl⟩⟩
  case isFalse hgap => exact ⟨rfl, by simp, Or.inr ⟨by omega, rfl, rfl⟩⟩

theorem settle_same (nowUs : Int) :
    (settle c nowUs).rung = c.rung ∧ (settle c nowUs).comfortWindows = c.comfortWindows ∧
      (settle c nowUs).windowStartUs = c.windowStartUs ∧
      (settle c nowUs).lastNoteUs = c.lastNoteUs ∧ (settle c nowUs).frames = c.frames := by
  unfold settle
  split <;> exact ⟨rfl, rfl, rfl, rfl, rfl⟩

/-- The record is cleared for a climb that held, and stands otherwise. -/
theorem settle_record (nowUs : Int) :
    ((settle c nowUs).climbedAtUs = 0 ∧ nowUs - c.climbedAtUs ≥ kClimbProbationUs) ∨
      ((settle c nowUs).climbedAtUs = c.climbedAtUs ∧
        (settle c nowUs).upWindowsNeeded = c.upWindowsNeeded ∧
        (c.climbedAtUs ≠ 0 → nowUs - c.climbedAtUs < kClimbProbationUs)) := by
  unfold settle
  split
  case isTrue hheld => exact Or.inl ⟨rfl, hheld.2⟩
  case isFalse hheld => exact Or.inr ⟨rfl, rfl, fun hclimbed => by omega⟩

theorem judge_cases (mean intervalUs nowUs : Int) :
    (∃ k, (judge c mean intervalUs nowUs).1 = { settle c nowUs with comfortWindows := k } ∧
        (k = 0 ∨
          (k = c.comfortWindows + 1 ∧ comfortable c.rung mean intervalUs = true ∧
            slow mean intervalUs = false) ∨
          (k = c.comfortWindows ∧ c.rung = 0))) ∨
      (slow mean intervalUs = true ∧ c.rung < kLastRung ∧
        (judge c mean intervalUs nowUs).1 =
          stepDown { settle c nowUs with comfortWindows := 0 }) ∨
      (comfortable c.rung mean intervalUs = true ∧ slow mean intervalUs = false ∧
        0 < c.rung ∧ (settle c nowUs).upWindowsNeeded ≤ c.comfortWindows + 1 ∧
        (judge c mean intervalUs nowUs).1 = { settle c nowUs with
            comfortWindows := 0, rung := c.rung - 1, changes := (settle c nowUs).changes + 1,
            climbedAtUs := nowUs }) := by
  obtain ⟨hrung, hcomfort, -, -, -⟩ := settle_same c nowUs
  have hkept : settle c nowUs = { settle c nowUs with comfortWindows := c.comfortWindows } := by
    rw [← hcomfort]
  unfold judge
  dsimp only
  cases hslow : slow mean intervalUs with
  | true =>
    rw [if_pos rfl]
    by_cases hlast : kLastRung ≤ (settle c nowUs).rung
    · rw [if_pos hlast]
      exact Or.inl ⟨0, rfl, Or.inl rfl⟩
    · rw [if_neg hlast]
      exact Or.inr (Or.inl ⟨rfl, by omega, rfl⟩)
  | false =>
    rw [if_neg (by simp)]
    by_cases hunder : mean < (intervalUs * kUpPercentOfInterval).tdiv 100 ∧
        0 < (settle c nowUs).rung
    · rw [if_pos hunder]
      by_cases hdear : (intervalUs * kClimbPredictedPercentOfInterval).tdiv 100 ≤
          predicted (settle c nowUs).rung mean
      · rw [if_pos hdear]
        exact Or.inl ⟨0, rfl, Or.inl rfl⟩
      · have hease : comfortable c.rung mean intervalUs = true := by
          simp only [comfortable, Bool.and_eq_true, decide_eq_true_eq]
          rw [hrung] at hunder hdear
          exact ⟨hunder, by omega⟩
        rw [if_neg hdear]
        by_cases hwait : (settle c nowUs).comfortWindows + 1 < (settle c nowUs).upWindowsNeeded
        · rw [if_pos hwait]
          exact Or.inl ⟨_, rfl, Or.inr (Or.inl ⟨by rw [hcomfort], hease, rfl⟩)⟩
        · rw [if_neg hwait]
          exact Or.inr (Or.inr ⟨hease, rfl, hrung ▸ hunder.2, by omega, by rw [hrung]⟩)
    · rw [if_neg hunder]
      by_cases hband : (intervalUs * kUpPercentOfInterval).tdiv 100 ≤ mean
      · rw [if_pos hband]
        exact Or.inl ⟨0, rfl, Or.inl rfl⟩
      · rw [if_neg hband]
        exact Or.inl ⟨c.comfortWindows, hkept, Or.inr (Or.inr ⟨rfl, by omega⟩)⟩

theorem stepDown_spec :
    (stepDown c).rung = c.rung + 1 ∧ (stepDown c).comfortWindows = c.comfortWindows ∧
      (stepDown c).windowStartUs = c.windowStartUs ∧ (stepDown c).lastNoteUs = c.lastNoteUs ∧
      (stepDown c).frames = c.frames ∧ (stepDown c).climbedAtUs = 0 ∧
      (c.climbedAtUs ≠ 0 →
        (stepDown c).upWindowsNeeded = min (2 * c.upWindowsNeeded) kMaxUpWindows) := by
  unfold stepDown
  by_cases hclimbed : c.climbedAtUs ≠ 0
  · rw [if_pos hclimbed]
    refine ⟨rfl, rfl, rfl, rfl, rfl, rfl, fun _ => ?_⟩
    dsimp only
    split <;> omega
  · rw [if_neg hclimbed]
    exact ⟨rfl, rfl, rfl, rfl, rfl, by simpa using hclimbed, fun h => absurd h hclimbed⟩

/-- A frame closes no window and leaves the ladder alone, or closes one and is judged. -/
theorem note_cases (encodeUs intervalUs nowUs : Int) :
    (closes c encodeUs intervalUs nowUs = [] ∧
        ((note c encodeUs intervalUs nowUs).1 = c ∨
          (note c encodeUs intervalUs nowUs).1 = fed c encodeUs nowUs)) ∨
      (kWindowUs ≤ nowUs - (fed c encodeUs nowUs).windowStartUs ∧
        closes c encodeUs intervalUs nowUs =
          [⟨(fed c encodeUs nowUs).frames,
            comfortable c.rung (mean (fed c encodeUs nowUs)) intervalUs &&
              !slow (mean (fed c encodeUs nowUs)) intervalUs⟩] ∧
        (note c encodeUs intervalUs nowUs).1 =
          (judge (resetWindow (fed c encodeUs nowUs) nowUs) (mean (fed c encodeUs nowUs))
            intervalUs nowUs).1) := by
  obtain ⟨-, hframes, -⟩ := fed_window c encodeUs nowUs
  have hrung := (fed_ladder c encodeUs nowUs).rung
  unfold closes note
  dsimp only
  by_cases hoff : intervalUs ≤ 0
  · rw [if_pos hoff, if_pos (Or.inl hoff)]
    exact Or.inl ⟨rfl, Or.inl rfl⟩
  · rw [if_neg hoff]
    by_cases hopen : nowUs - (fed c encodeUs nowUs).windowStartUs < kWindowUs
    · rw [if_pos hopen, if_pos (Or.inr hopen)]
      exact Or.inl ⟨rfl, Or.inr rfl⟩
    · rw [if_neg hopen, if_neg hframes, if_neg (by omega), hrung]
      exact Or.inr ⟨by omega, rfl, rfl⟩

/-- The last `n` windows closed were comfortable. -/
def Comfort (closings : List Closing) (n : Nat) : Prop :=
  ∃ earlier last, closings = earlier ++ last ∧ last.length = n ∧ ∀ w ∈ last, w.comfortable = true

theorem Comfort.zero (closings : List Closing) : Comfort closings 0 :=
  ⟨closings, [], by simp, rfl, by simp⟩

theorem Comfort.more {closings : List Closing} {n : Nat} (h : Comfort closings n) {w : Closing}
    (hw : w.comfortable = true) : Comfort (closings ++ [w]) (n + 1) := by
  obtain ⟨earlier, last, hsplit, hlen, hall⟩ := h
  refine ⟨earlier, last ++ [w], by simp [hsplit], by simp [hlen], ?_⟩
  intro v hv
  rcases List.mem_append.mp hv with hold | hnew
  · exact hall v hold
  · obtain rfl : v = w := by simpa using hnew
    exact hw

structure Sound (t : Tally) : Prop where
  rung : t.cap.rung ≤ kLastRung
  idle : t.cap.frames = 0 → t.cap.lastNoteUs = t.cap.windowStartUs
  ground : t.cap.rung = 0 → t.cap.comfortWindows = 0
  comfort : Comfort t.closings t.cap.comfortWindows
  probation : t.cap.climbedAtUs ≠ 0 → t.climbs.head? = some t.cap.climbedAtUs

def closesSlow (encodeUs intervalUs nowUs : Int) : Prop :=
  closes c encodeUs intervalUs nowUs ≠ [] ∧ slow (mean (fed c encodeUs nowUs)) intervalUs = true

/-- No frame comes exactly a window's length into an empty window, and no window closes
slow over a climb within its probation that is on no record: a later climb took the record,
or the clock read zero. -/
structure Meets (t : Tally) (encodeUs intervalUs nowUs : Int) : Prop where
  apart : t.cap.frames = 0 → nowUs - t.cap.lastNoteUs ≠ kWindowUs
  recorded : t.cap.climbedAtUs = 0 → closesSlow t.cap encodeUs intervalUs nowUs →
    ∀ climbedAtUs ∈ t.climbs.head?, kClimbProbationUs ≤ nowUs - climbedAtUs

/-- One frame: the rung moves with a window of two frames at least, a climb undone within
its probation doubles the windows the next one needs, up to the cap, a climb has had the
windows it needs, and the rung stays on the ladder. -/
structure Lawful (t : Tally) (encodeUs intervalUs nowUs : Int) : Prop where
  ladder : (note t.cap encodeUs intervalUs nowUs).1.rung ≤ kLastRung
  windowed : (note t.cap encodeUs intervalUs nowUs).1.rung ≠ t.cap.rung →
    ∃ w, closes t.cap encodeUs intervalUs nowUs = [w] ∧ 2 ≤ w.frames
  doubled : t.cap.rung < (note t.cap encodeUs intervalUs nowUs).1.rung →
    ∀ climbedAtUs ∈ t.climbs.head?, nowUs - climbedAtUs < kClimbProbationUs →
      (note t.cap encodeUs intervalUs nowUs).1.upWindowsNeeded =
        min (2 * t.cap.upWindowsNeeded) kMaxUpWindows
  earned : (note t.cap encodeUs intervalUs nowUs).1.rung < t.cap.rung →
    ∃ n, (note t.cap encodeUs intervalUs nowUs).1.upWindowsNeeded ≤ n ∧
      Comfort (t.closings ++ closes t.cap encodeUs intervalUs nowUs) n

theorem sound_start (t : Tally) (nowUs : Int) : Sound (advance t (.start nowUs)) where
  rung := Nat.zero_le _
  idle := fun _ => rfl
  ground := fun _ => rfl
  comfort := Comfort.zero _
  probation := fun h => absurd rfl h

variable {t : Tally}

theorem two_frames (h : Sound t) {encodeUs nowUs : Int}
    (hclosed : kWindowUs ≤ nowUs - (fed t.cap encodeUs nowUs).windowStartUs)
    (hapart : t.cap.frames = 0 → nowUs - t.cap.lastNoteUs ≠ kWindowUs) :
    2 ≤ (fed t.cap encodeUs nowUs).frames := by
  obtain ⟨-, -, ⟨-, hstart⟩ | ⟨hgap, hstart, hframes⟩⟩ := fed_window t.cap encodeUs nowUs
  · rw [hstart] at hclosed
    unfold kWindowUs at hclosed
    omega
  · by_contra hfew
    have hempty : t.cap.frames = 0 := by omega
    have hidle := h.idle hempty
    have hexact := hapart hempty
    rw [hstart] at hclosed
    omega

theorem judged_ladder (t : Tally) (encodeUs nowUs : Int) :
    SameLadder t.cap (resetWindow (fed t.cap encodeUs nowUs) nowUs) := by
  obtain ⟨hrung, hcomfort, hneeded, hclimbed⟩ := fed_ladder t.cap encodeUs nowUs
  exact ⟨hrung, hcomfort, hneeded, hclimbed⟩

theorem sound_note (h : Sound t) (encodeUs intervalUs nowUs : Int) :
    Sound (advance t (.note encodeUs intervalUs nowUs)) := by
  rcases note_cases t.cap encodeUs intervalUs nowUs with
    ⟨hnone, hsame | hfed⟩ | ⟨-, hcloses, hjudged⟩
  · unfold advance
    dsimp only
    rw [hsame, hnone, List.append_nil, if_neg (by omega), if_neg (by omega)]
    exact h
  · obtain ⟨hrung, hcomfort, -, hclimbed⟩ := fed_ladder t.cap encodeUs nowUs
    obtain ⟨-, hframes, -⟩ := fed_window t.cap encodeUs nowUs
    unfold advance
    dsimp only
    rw [hfed, hnone, List.append_nil, if_neg (by omega), if_neg (by omega)]
    exact
      { rung := hrung ▸ h.rung
        idle := fun hempty => absurd hempty hframes
        ground := fun hzero => hcomfort.trans (h.ground (hrung ▸ hzero))
        comfort := by
          dsimp only
          rw [hcomfort]
          exact h.comfort
        probation := fun hon => by
          dsimp only at hon ⊢
          rw [hclimbed] at hon ⊢
          exact h.probation hon }
  · have hladder := judged_ladder t encodeUs nowUs
    unfold advance
    dsimp only
    rw [hjudged, hcloses]
    generalize hclosing : resetWindow (fed t.cap encodeUs nowUs) nowUs = closing at hladder
    have hreset : closing.frames = 0 ∧ closing.lastNoteUs = closing.windowStartUs := by
      subst hclosing
      exact ⟨rfl, (fed_window t.cap encodeUs nowUs).1⟩
    obtain ⟨hrung, hcomfort, -, hclimbed⟩ := hladder
    obtain ⟨hsrung, hscomfort, hsstart, hslast, hsframes⟩ := settle_same closing nowUs
    rcases judge_cases closing (mean (fed t.cap encodeUs nowUs)) intervalUs nowUs with
      ⟨k, heq, hk⟩ | ⟨hslow, hroom, heq⟩ | ⟨hease, hfast, hup, hdue, heq⟩
    · rw [heq]
      have hstay : (settle closing nowUs).rung = t.cap.rung := hsrung.trans hrung
      rw [if_neg (by dsimp only; omega), if_neg (by dsimp only; omega)]
      constructor
      case rung => exact Nat.le_trans (Nat.le_of_eq hstay) h.rung
      case idle =>
          intro _
          exact hslast.trans (hreset.2.trans hsstart.symm)
      case ground =>
          intro hzero
          have hground : t.cap.rung = 0 := hstay.symm.trans hzero
          rcases hk with rfl | ⟨-, hease, -⟩ | ⟨rfl, -⟩
          · rfl
          · simp [comfortable, hrung, hground] at hease
          · exact hcomfort.trans (h.ground hground)
      case comfort =>
          dsimp only
          rcases hk with rfl | ⟨rfl, hease, hfast⟩ | ⟨rfl, hzero⟩
          · exact Comfort.zero _
          · rw [hcomfort]
            refine h.comfort.more ?_
            rw [hrung] at hease
            simp [hease, hfast]
          · rw [hcomfort, h.ground (hrung ▸ hzero)]
            exact Comfort.zero _
      case probation =>
          intro hon
          dsimp only at hon ⊢
          rcases settle_record closing nowUs with ⟨hcleared, -⟩ | ⟨hsame, -, -⟩
          · exact absurd hcleared hon
          · rw [hsame, hclimbed] at hon ⊢
            exact h.probation hon
    · generalize hheld : ({ settle closing nowUs with comfortWindows := 0 } : LoadCap) = held at heq
      have hsame : held.rung = (settle closing nowUs).rung ∧ held.comfortWindows = 0 ∧
          held.windowStartUs = (settle closing nowUs).windowStartUs ∧
          held.lastNoteUs = (settle closing nowUs).lastNoteUs := by
        subst hheld
        exact ⟨rfl, rfl, rfl, rfl⟩
      obtain ⟨hhrung, hhcomfort, hhstart, hhlast⟩ := hsame
      obtain ⟨hdrung, hdcomfort, hdstart, hdlast, -, hdclimbed, -⟩ := stepDown_spec held
      rw [hhcomfort] at hdcomfort
      rw [hhstart] at hdstart
      rw [hhlast] at hdlast
      rw [heq, if_neg (by omega), if_pos (by omega)]
      constructor
      case rung =>
          dsimp only
          omega
      case idle =>
          intro _
          exact hdlast.trans (hslast.trans (hreset.2.trans (hsstart.symm.trans hdstart.symm)))
      case ground => exact fun _ => hdcomfort
      case comfort =>
          dsimp only
          rw [hdcomfort]
          exact Comfort.zero _
      case probation => exact fun hon => absurd hdclimbed hon
    · rw [heq, if_pos (by dsimp only; omega)]
      constructor
      case rung =>
          have hsofar := h.rung
          dsimp only
          omega
      case idle =>
          intro _
          exact hslast.trans (hreset.2.trans hsstart.symm)
      case ground => exact fun _ => rfl
      case comfort => exact Comfort.zero _
      case probation => exact fun _ => rfl

theorem sound_advance (h : Sound t) (a : Call) : Sound (advance t a) := by
  cases a with
  | start nowUs => exact sound_start t nowUs
  | note encodeUs intervalUs nowUs => exact sound_note h encodeUs intervalUs nowUs

theorem sound_run : Sound (run calls) := by
  induction calls using List.reverseRecOn with
  | nil => exact sound_start {} 0
  | append_singleton calls a ih =>
    rw [run_snoc]
    exact sound_advance ih a

theorem lawful_note (h : Sound t) {encodeUs intervalUs nowUs : Int}
    (hmeets : Meets t encodeUs intervalUs nowUs) : Lawful t encodeUs intervalUs nowUs := by
  have hladder := (sound_note h encodeUs intervalUs nowUs).rung
  rcases note_cases t.cap encodeUs intervalUs nowUs with
    ⟨hnone, hkept⟩ | ⟨hclosed, hcloses, hjudged⟩
  · have hrung : (note t.cap encodeUs intervalUs nowUs).1.rung = t.cap.rung := by
      rcases hkept with hsame | hfed
      · rw [hsame]
      · rw [hfed]
        exact (fed_ladder t.cap encodeUs nowUs).rung
    exact ⟨hladder, fun hmoved => absurd hrung hmoved, by omega, by omega⟩
  · have htwo := two_frames h hclosed hmeets.apart
    obtain ⟨hrung, hcomfort, hneeded, hclimbed⟩ := judged_ladder t encodeUs nowUs
    refine ⟨hladder, fun _ => ⟨_, hcloses, htwo⟩, ?_, ?_⟩
    · intro hdown climbedAtUs htop hsoon
      rw [hjudged] at hdown ⊢
      rcases judge_cases (resetWindow (fed t.cap encodeUs nowUs) nowUs)
          (mean (fed t.cap encodeUs nowUs)) intervalUs nowUs with
        ⟨k, heq, -⟩ | ⟨hslow, -, heq⟩ | ⟨-, -, -, -, heq⟩
      · have hstay := (settle_same (resetWindow (fed t.cap encodeUs nowUs) nowUs) nowUs).1
        rw [heq] at hdown
        dsimp only at hdown
        omega
      · have hon : t.cap.climbedAtUs ≠ 0 := by
          intro hoff
          have hlate := hmeets.recorded hoff ⟨by simp [hcloses], hslow⟩ climbedAtUs htop
          omega
        have hrecord : t.cap.climbedAtUs = climbedAtUs := by
          have hhead := h.probation hon
          rw [hhead] at htop
          simpa using htop
        rcases settle_record (resetWindow (fed t.cap encodeUs nowUs) nowUs) nowUs with
          ⟨-, hlate⟩ | ⟨hsame, hkept, -⟩
        · rw [hclimbed] at hlate
          omega
        · rw [heq, (stepDown_spec _).2.2.2.2.2.2 (by dsimp only; rw [hsame, hclimbed]; exact hon)]
          dsimp only
          rw [hkept, hneeded]
      · rw [heq] at hdown
        dsimp only at hdown
        omega
    · intro hup
      rw [hjudged] at hup ⊢
      rcases judge_cases (resetWindow (fed t.cap encodeUs nowUs) nowUs)
          (mean (fed t.cap encodeUs nowUs)) intervalUs nowUs with
        ⟨k, heq, -⟩ | ⟨-, -, heq⟩ | ⟨hease, hfast, -, hdue, heq⟩
      · have hstay := (settle_same (resetWindow (fed t.cap encodeUs nowUs) nowUs) nowUs).1
        rw [heq] at hup
        dsimp only at hup
        omega
      · have hstay := (settle_same (resetWindow (fed t.cap encodeUs nowUs) nowUs) nowUs).1
        rw [heq, (stepDown_spec _).1] at hup
        dsimp only at hup
        omega
      · rw [heq, hcloses]
        rw [hcomfort] at hdue
        rw [hrung] at hease
        refine ⟨t.cap.comfortWindows + 1, hdue, h.comfort.more ?_⟩
        simp [hease, hfast]

/-- Along every run of the cap, each frame that meets the condition is lawful. -/
theorem notes_lawful (calls : List Call) (encodeUs intervalUs nowUs : Int)
    (h : Meets (run calls) encodeUs intervalUs nowUs) :
    Lawful (run calls) encodeUs intervalUs nowUs :=
  lawful_note (sound_run calls) h

/-- A session's first slow second, in frames 20 ms dear. -/
theorem notes_lawful_slowSecond :
    Lawful (run [.start 0, .note 20000 16667 500000]) 20000 16667 1000000 := by
  refine notes_lawful _ _ _ _ ⟨by decide, ?_⟩
  intro _ _ climbedAtUs htop
  have hnone : (run [.start 0, .note 20000 16667 500000]).climbs = [] := by decide
  rw [hnone] at htop
  cases htop

/-- Seconds of two frames each, at sixty frames a second's interval. -/
def seconds (encodeUs : List Int) : List Call :=
  encodeUs.zipIdx.flatMap fun e =>
    [.note e.1 16667 (e.2 * 1000000 + 500000), .note e.1 16667 (e.2 * 1000000 + 1000000)]

/-- One late frame, a second after the start, resizes the stream; and of two climbs, both
undone within ten seconds, the second undone costs nothing. -/
theorem single_frame_resizes :
    (closes (run [.start 0]).cap 20000 16667 1000000 = [⟨1, false⟩] ∧
        (note (run [.start 0]).cap 20000 16667 1000000).1.rung = 1) ∧
      ((run (seconds ([20000, 20000] ++ List.replicate 8 1000 ++ [20000]))).climbs = [6000000] ∧
        (run (seconds ([20000, 20000] ++ List.replicate 8 1000 ++ [20000]))).cap.upWindowsNeeded =
          8 ∧
        (run (seconds ([20000, 20000] ++ List.replicate 8 1000 ++ [20000, 20000]))).cap.rung = 2 ∧
        (run (seconds
          ([20000, 20000] ++ List.replicate 8 1000 ++ [20000, 20000]))).cap.upWindowsNeeded =
          8) := by
  decide +kernel

end MoonlightWeb.NativeHost.EncodeLoadCap
