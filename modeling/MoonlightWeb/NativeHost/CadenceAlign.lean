import MoonlightWeb.Lib.MachineInt

/-! # The cadence aligned on the client's refresh

`alignCadence` runs the stream at an integer divisor of the client's refresh where one lies
near the viewer's setting. Its loop has no bound of its own, and its arithmetic mixes `int`
and `int64_t`; both are modelled as such.
-/

namespace MoonlightWeb.NativeHost.CadenceAlign

open Lib MachineInt

structure AlignedCadence where
  aligned : Bool
  intervalNs : Int
  intervalUs : Int
  fps : Int
  divisor : Int
deriving DecidableEq, Repr

def kAlignWindowPercent : Int := 20

structure Best where
  divisor : Int
  milliFps : Int
  distance : Int
deriving DecidableEq, Repr

structure Search where
  settingFps : Int
  clientMilliHz : Int
  maxFps : Int
  low : Int
  high : Int

namespace Search

variable (s : Search)

/-- `if (distance < 0) distance = -distance`. -/
def magnitude (d : Int) : Except Fault Int := if d < 0 then neg 64 d else pure d

/-- Whether a rate is above the maximum, if there is one. -/
def tooFast (milliFps : Int) : Except Fault Bool := do
  if s.maxFps > 0 then
    let half ← add 64 milliFps 500
    let fps ← div 64 half 1000
    return decide (fps > s.maxFps)
  else return false

/-- A divisor within the window: it is over the maximum, or it is compared with the best. -/
def consider (n milliFps : Int) (best : Best) : Except Fault Best := do
  if ← s.tooFast milliFps then return best
  let setting ← mul 64 s.settingFps 1000
  let difference ← sub 64 milliFps setting
  let distance ← magnitude difference
  if best.divisor = 0 ∨ distance < best.distance then return ⟨n, milliFps, distance⟩
  return best

/-- The loop over the divisors, from `n` on. -/
def loop : Nat → Int → Best → Except Fault Best
  | 0, _, _ => .error .outOfFuel
  | fuel + 1, n, best => do
      let milliFps ← div 32 s.clientMilliHz n
      if milliFps < s.low then return best
      let best ← if milliFps > s.high then pure best else s.consider n milliFps best
      let next ← add 32 n 1
      loop fuel next best

end Search

/-- An edge of the window, `percent` of the setting. -/
def edge (settingFps percent : Int) : Except Fault Int := do
  let milli ← mul 64 settingFps 1000
  let scaled ← mul 64 milli percent
  div 64 scaled 100

/-- What is answered once the loop has ended. -/
def settled (clientMilliHz displayHz : Int) (out : AlignedCadence) (best : Best) :
    Except Fault AlignedCadence := do
  if best.divisor = 0 then return out
  let half ← add 64 best.milliFps 500
  let fps ← div 64 half 1000
  if displayHz > 0 ∧ fps > displayHz then return out
  let periods ← mul 64 best.divisor 1000000000000
  let alignedNs ← div 64 periods clientMilliHz
  let alignedUs ← div 64 alignedNs 1000
  return ⟨true, alignedNs, alignedUs, fps, best.divisor⟩

def alignCadence (fuel : Nat) (settingFps clientMilliHz displayHz maxFps : Int32) :
    Except Fault AlignedCadence := do
  if settingFps.toInt ≤ 0 then return ⟨false, 0, 0, 0, 0⟩
  let intervalUs ← div 32 1000000 settingFps.toInt
  let intervalNs ← mul 64 intervalUs 1000
  let out : AlignedCadence := ⟨false, intervalNs, intervalUs, settingFps.toInt, 0⟩
  if clientMilliHz.toInt ≤ 0 then return out
  let low ← edge settingFps.toInt (100 - kAlignWindowPercent)
  let high ← edge settingFps.toInt (100 + kAlignWindowPercent)
  let best ← (Search.mk settingFps.toInt clientMilliHz.toInt maxFps.toInt low high).loop fuel 1
    ⟨0, 0, 0⟩
  settled clientMilliHz.toInt displayHz.toInt out best

example : alignCadence 5 60 144000 165 0 = .ok ⟨true, 13888888, 13888, 72, 2⟩ := by decide +kernel

def rate (clientMilliHz n : Int) : Int := clientMilliHz / n

def wholeFps (milliFps : Int) : Int := (milliFps + 500) / 1000

def distance (settingFps clientMilliHz n : Int) : Int :=
  |rate clientMilliHz n - settingFps * 1000|

/-- A divisor within a fifth of the setting and not above the maximum. -/
structure Qualifies (settingFps clientMilliHz maxFps n : Int) : Prop where
  pos : 1 ≤ n
  low : settingFps * 800 ≤ rate clientMilliHz n
  high : rate clientMilliHz n ≤ settingFps * 1200
  maximum : 0 < maxFps → wholeFps (rate clientMilliHz n) ≤ maxFps

/-- The nearest divisor that qualifies, the faster on a tie. -/
structure Nearest (settingFps clientMilliHz maxFps n : Int) : Prop where
  qualifies : Qualifies settingFps clientMilliHz maxFps n
  nearest : ∀ m, Qualifies settingFps clientMilliHz maxFps m →
    distance settingFps clientMilliHz n ≤ distance settingFps clientMilliHz m
  faster : ∀ m, Qualifies settingFps clientMilliHz maxFps m →
    distance settingFps clientMilliHz m = distance settingFps clientMilliHz n → n ≤ m

namespace Search

variable {s : Search} {n r : Int} {best : Best}

theorem tooFast_ok (h0 : 0 ≤ r) (h1 : r ≤ 2147483647) :
    s.tooFast r = .ok (decide (0 < s.maxFps ∧ s.maxFps < wholeFps r)) := by
  have hadd : add 64 r 500 = .ok (r + 500) := add_ok (fits_64_iff.mpr (by omega))
  have hdiv : div 64 (r + 500) 1000 = .ok (wholeFps r) :=
    div_nonneg (by omega) (by omega) (fits_64_iff.mpr (by omega))
  unfold tooFast
  by_cases hmax : s.maxFps > 0
  · rw [if_pos hmax, hadd, ok_bind, hdiv, ok_bind]
    simp [hmax]
    rfl
  · rw [if_neg hmax]
    simp [hmax]
    rfl

theorem magnitude_ok {d : Int} (h0 : -9223372036854775807 ≤ d) (h1 : d ≤ 9223372036854775807) :
    magnitude d = .ok |d| := by
  unfold magnitude
  by_cases hlt : d < 0
  · have hneg : neg 64 d = .ok (-d) := neg_ok (fits_64_iff.mpr (by omega))
    rw [if_pos hlt, hneg, abs_of_neg hlt]
  · rw [if_neg hlt, abs_of_nonneg (not_lt.mp hlt)]
    rfl

/-- The comparison meets no fault. -/
theorem consider_ok (h0 : 0 ≤ r) (h1 : r ≤ 2147483647) (hs0 : 0 < s.settingFps)
    (hs1 : s.settingFps ≤ 2147483647) :
    s.consider n r best =
      .ok (if 0 < s.maxFps ∧ s.maxFps < wholeFps r then best
        else if best.divisor = 0 ∨ |r - s.settingFps * 1000| < best.distance then
          ⟨n, r, |r - s.settingFps * 1000|⟩
        else best) := by
  have hmul : mul 64 s.settingFps 1000 = .ok (s.settingFps * 1000) :=
    mul_ok (fits_64_iff.mpr (by omega))
  have hsub : sub 64 r (s.settingFps * 1000) = .ok (r - s.settingFps * 1000) :=
    sub_ok (fits_64_iff.mpr (by omega))
  have habs := magnitude_ok (d := r - s.settingFps * 1000) (by omega) (by omega)
  unfold consider
  rw [tooFast_ok h0 h1, ok_bind]
  by_cases hmax : 0 < s.maxFps ∧ s.maxFps < wholeFps r
  · simp only [hmax, and_self, decide_true, if_true]
    rfl
  · simp only [hmax, decide_false, Bool.false_eq_true, if_false]
    rw [hmul, ok_bind, hsub, ok_bind, habs, ok_bind]
    split_ifs
    · rfl
    · rfl

/-- What the loop knows once it has seen every divisor below `n`. -/
structure Seen (s : Search) (n : Int) (best : Best) : Prop where
  none : best.divisor = 0 → ∀ m, m < n → ¬Qualifies s.settingFps s.clientMilliHz s.maxFps m
  some : best.divisor ≠ 0 →
    Qualifies s.settingFps s.clientMilliHz s.maxFps best.divisor ∧
    best.divisor < n ∧
    best.milliFps = rate s.clientMilliHz best.divisor ∧
    best.distance = distance s.settingFps s.clientMilliHz best.divisor ∧
    ∀ m, m < n → Qualifies s.settingFps s.clientMilliHz s.maxFps m →
      best.distance ≤ distance s.settingFps s.clientMilliHz m ∧
      (distance s.settingFps s.clientMilliHz m = best.distance → best.divisor ≤ m)

theorem Seen.skip (h : s.Seen n best)
    (hn : ¬Qualifies s.settingFps s.clientMilliHz s.maxFps n) : s.Seen (n + 1) best where
  none := by
    intro hzero m hm hq
    rcases Int.lt_or_eq_of_le (Int.lt_add_one_iff.mp hm) with hlt | rfl
    · exact h.none hzero m hlt hq
    · exact hn hq
  some := by
    intro hne
    obtain ⟨hq, hlt, hrate, hdist, hall⟩ := h.some hne
    refine ⟨hq, hlt.trans (lt_add_one n), hrate, hdist, ?_⟩
    intro m hm hqm
    rcases Int.lt_or_eq_of_le (Int.lt_add_one_iff.mp hm) with hlt' | rfl
    · exact hall m hlt' hqm
    · exact absurd hqm hn

theorem Seen.worse (h : s.Seen n best) (hne : best.divisor ≠ 0)
    (hd : best.distance ≤ distance s.settingFps s.clientMilliHz n) : s.Seen (n + 1) best where
  none := fun hzero => absurd hzero hne
  some := by
    intro _
    obtain ⟨hq, hlt, hrate, hdist, hall⟩ := h.some hne
    refine ⟨hq, hlt.trans (lt_add_one n), hrate, hdist, ?_⟩
    intro m hm hqm
    rcases Int.lt_or_eq_of_le (Int.lt_add_one_iff.mp hm) with hlt' | rfl
    · exact hall m hlt' hqm
    · exact ⟨hd, fun _ => hlt.le⟩

theorem Seen.better (h : s.Seen n best) (hn : Qualifies s.settingFps s.clientMilliHz s.maxFps n)
    (hd : best.divisor = 0 ∨ distance s.settingFps s.clientMilliHz n < best.distance) :
    s.Seen (n + 1)
      ⟨n, rate s.clientMilliHz n, distance s.settingFps s.clientMilliHz n⟩ where
  none := by
    intro hzero
    have hpos := hn.pos
    have hzero : n = 0 := hzero
    omega
  some := by
    intro _
    refine ⟨hn, lt_add_one n, rfl, rfl, ?_⟩
    intro m hm hqm
    rcases Int.lt_or_eq_of_le (Int.lt_add_one_iff.mp hm) with hlt | rfl
    · by_cases hzero : best.divisor = 0
      · exact absurd hqm (h.none hzero m hlt)
      · have hless := hd.resolve_left hzero
        have hbest := ((h.some hzero).2.2.2.2 m hlt hqm).1
        have hm' : distance s.settingFps s.clientMilliHz n <
            distance s.settingFps s.clientMilliHz m := lt_of_lt_of_le hless hbest
        exact ⟨hm'.le, fun heq => absurd heq hm'.ne'⟩
    · exact ⟨le_rfl, fun _ => le_rfl⟩

structure Bounded (s : Search) : Prop where
  setting : 0 < s.settingFps ∧ s.settingFps ≤ 2147483647
  client : 0 < s.clientMilliHz ∧ s.clientMilliHz ≤ 2147483647
  low : s.low = s.settingFps * 800
  high : s.high = s.settingFps * 1200

variable (hb : s.Bounded)

include hb

theorem rate_nonneg (hn : 1 ≤ n) : 0 ≤ rate s.clientMilliHz n :=
  Int.ediv_nonneg hb.client.1.le (by omega)

theorem rate_le (n : Int) : rate s.clientMilliHz n ≤ s.clientMilliHz :=
  Int.ediv_le_self n hb.client.1.le

/-- One divisor. -/
theorem Seen.step (hn : 1 ≤ n) (h : s.Seen n best)
    (hlow : s.low ≤ rate s.clientMilliHz n) :
    ∃ next, (if rate s.clientMilliHz n > s.high then pure best
        else s.consider n (rate s.clientMilliHz n) best) = Except.ok next ∧
      s.Seen (n + 1) next := by
  have hr0 := rate_nonneg hb hn
  have hr1 := (rate_le hb n).trans hb.client.2
  by_cases hhigh : rate s.clientMilliHz n > s.high
  · refine ⟨best, if_pos hhigh, h.skip fun hq => ?_⟩
    have := hq.high
    have := hb.high
    omega
  · rw [if_neg hhigh, consider_ok hr0 hr1 hb.setting.1 hb.setting.2]
    refine ⟨_, rfl, ?_⟩
    split_ifs with hmax hnear
    · refine h.skip fun hq => ?_
      have := hq.maximum hmax.1
      omega
    · refine h.better ⟨hn, by rw [← hb.low]; exact hlow, ?_, ?_⟩ hnear
      · have := hb.high
        omega
      · intro hpos
        have hnot : ¬s.maxFps < wholeFps (rate s.clientMilliHz n) := fun hlt => hmax ⟨hpos, hlt⟩
        exact not_lt.mp hnot
    · have hne : best.divisor ≠ 0 := fun hzero => hnear (Or.inl hzero)
      exact h.worse hne (not_lt.mp fun hlt => hnear (Or.inr hlt))

theorem rate_antitone {m : Int} (hn : 1 ≤ n) (hle : n ≤ m) :
    rate s.clientMilliHz m ≤ rate s.clientMilliHz n := by
  have hm : (0 : Int) < m := by omega
  unfold rate
  rw [Int.le_ediv_iff_mul_le (by omega)]
  have hpos : 0 ≤ s.clientMilliHz / m := Int.ediv_nonneg hb.client.1.le hm.le
  calc s.clientMilliHz / m * n ≤ s.clientMilliHz / m * m := Int.mul_le_mul_of_nonneg_left hle hpos
    _ ≤ s.clientMilliHz := Int.ediv_mul_le _ hm.ne'

theorem not_qualifies_below {m : Int} (hn : 1 ≤ n)
    (hlow : rate s.clientMilliHz n < s.low) (hle : n ≤ m) :
    ¬Qualifies s.settingFps s.clientMilliHz s.maxFps m := by
  intro hq
  have hanti := rate_antitone hb hn hle
  have hm := hq.low
  have hedge := hb.low
  omega

omit hb

/-- What the loop leaves. -/
structure Chosen (s : Search) (best : Best) : Prop where
  none : best.divisor = 0 → ∀ m, ¬Qualifies s.settingFps s.clientMilliHz s.maxFps m
  some : best.divisor ≠ 0 → Nearest s.settingFps s.clientMilliHz s.maxFps best.divisor ∧
    best.milliFps = rate s.clientMilliHz best.divisor

theorem Seen.chosen (hb : s.Bounded) (hn : 1 ≤ n) (h : s.Seen n best)
    (hlow : rate s.clientMilliHz n < s.low) : s.Chosen best where
  none := by
    intro hzero m hq
    by_cases hm : m < n
    · exact h.none hzero m hm hq
    · exact not_qualifies_below hb hn hlow (not_lt.mp hm) hq
  some := by
    intro hne
    obtain ⟨hq, hlt, hrate, hdist, hall⟩ := h.some hne
    have hbelow : ∀ m, Qualifies s.settingFps s.clientMilliHz s.maxFps m → m < n := by
      intro m hqm
      by_contra hm
      exact not_qualifies_below hb hn hlow (not_lt.mp hm) hqm
    refine ⟨⟨hq, ?_, ?_⟩, hrate⟩
    · intro m hqm
      rw [← hdist]
      exact (hall m (hbelow m hqm) hqm).1
    · intro m hqm heq
      rw [← hdist] at heq
      exact (hall m (hbelow m hqm) hqm).2 heq

theorem loop_ok (hb : s.Bounded) (fuel : Nat) (hn : 1 ≤ n) (hclient : n ≤ s.clientMilliHz + 1)
    (hfuel : s.clientMilliHz + 2 ≤ n + fuel) (h : s.Seen n best) :
    ∃ last, s.loop fuel n best = .ok last ∧ s.Chosen last := by
  induction fuel generalizing n best with
  | zero => omega
  | succ fuel ih =>
    have hclient1 := hb.client.2
    have hset := hb.setting
    have hedge := hb.low
    have hdiv : div 32 s.clientMilliHz n = .ok (rate s.clientMilliHz n) :=
      div_nonneg hb.client.1.le (by omega) (fits_32_iff.mpr (by omega))
    have hunfold : s.loop (fuel + 1) n best = (do
        let milliFps ← div 32 s.clientMilliHz n
        if milliFps < s.low then return best
        let best ← if milliFps > s.high then pure best else s.consider n milliFps best
        let next ← add 32 n 1
        s.loop fuel next best) := rfl
    rw [hunfold, hdiv, ok_bind]
    by_cases hlow : rate s.clientMilliHz n < s.low
    · rw [if_pos hlow]
      exact ⟨best, rfl, h.chosen hb hn hlow⟩
    · rw [if_neg hlow]
      have hlow := not_lt.mp hlow
      -- the rate is at least 800, so that many divisors fit below the client's rate
      have hmul : n * rate s.clientMilliHz n ≤ s.clientMilliHz := by
        unfold rate
        exact Int.mul_ediv_self_le (by omega)
      have hsmall : n * 800 ≤ s.clientMilliHz := by nlinarith
      obtain ⟨next, hnext, hseen⟩ := h.step hb hn hlow
      have hadd : add 32 n 1 = .ok (n + 1) := add_ok (fits_32_iff.mpr (by omega))
      obtain ⟨last, hlast, hchosen⟩ := ih (by omega) (by omega) (by omega) hseen
      refine ⟨last, ?_, hchosen⟩
      split_ifs at hnext ⊢
      · cases hnext
        simp only [pure_bind, hadd, ok_bind, hlast]
      · rw [hnext]
        simp only [hadd, ok_bind, hlast]

end Search

theorem Nearest.unique {settingFps clientMilliHz maxFps n m : Int}
    (hn : Nearest settingFps clientMilliHz maxFps n)
    (hm : Nearest settingFps clientMilliHz maxFps m) : n = m := by
  have hle := hn.nearest m hm.qualifies
  have hge := hm.nearest n hn.qualifies
  have heq : distance settingFps clientMilliHz n = distance settingFps clientMilliHz m := by omega
  exact le_antisymm (hn.faster m hm.qualifies heq.symm) (hm.faster n hn.qualifies heq)

theorem edge_ok {settingFps percent : Int} (h0 : 0 < settingFps) (h1 : settingFps ≤ 2147483647)
    (hp0 : 0 ≤ percent) (hp1 : percent ≤ 120) :
    edge settingFps percent = .ok (settingFps * 1000 * percent / 100) := by
  have hmul : mul 64 settingFps 1000 = .ok (settingFps * 1000) :=
    mul_ok (fits_64_iff.mpr (by omega))
  have hnonneg : 0 ≤ settingFps * 1000 * percent := by positivity
  have hle : settingFps * 1000 * percent ≤ 2147483647 * 1000 * 120 := by nlinarith
  have hfits : Fits 64 (settingFps * 1000 * percent) := fits_64_iff.mpr (by omega)
  unfold edge
  rw [hmul, ok_bind, mul_ok hfits, ok_bind]
  exact div_nonneg hnonneg (by omega) hfits

/-- What a call is to answer: the nearest divisor that qualifies, unless the host's display
cannot show that many frames. -/
structure Answers (settingFps clientMilliHz displayHz maxFps : Int) (out : AlignedCadence) :
    Prop where
  aligned_iff : out.aligned = true ↔ 0 < settingFps ∧ 0 < clientMilliHz ∧
    ∃ n, Nearest settingFps clientMilliHz maxFps n ∧
      (0 < displayHz → wholeFps (rate clientMilliHz n) ≤ displayHz)
  divisor : out.aligned = true → Nearest settingFps clientMilliHz maxFps out.divisor
  intervalNs : out.aligned = true →
    out.intervalNs = out.divisor * 1000000000000 / clientMilliHz
  intervalUs : out.aligned = true → out.intervalUs = out.intervalNs / 1000
  fps : out.aligned = true → out.fps = wholeFps (rate clientMilliHz out.divisor)

/-- An answer that aligns nothing. -/
theorem Answers.plain {settingFps clientMilliHz displayHz maxFps intervalNs intervalUs fps : Int}
    (h : ¬(0 < settingFps ∧ 0 < clientMilliHz ∧ ∃ n, Nearest settingFps clientMilliHz maxFps n ∧
      (0 < displayHz → wholeFps (rate clientMilliHz n) ≤ displayHz))) :
    Answers settingFps clientMilliHz displayHz maxFps ⟨false, intervalNs, intervalUs, fps, 0⟩ where
  aligned_iff := ⟨fun h' => (nomatch h'), fun h' => absurd h' h⟩
  divisor := fun h' => (nomatch h')
  intervalNs := fun h' => (nomatch h')
  intervalUs := fun h' => (nomatch h')
  fps := fun h' => (nomatch h')

theorem settled_answers {s : Search} {best : Best} (hb : s.Bounded) (h : s.Chosen best)
    (displayHz intervalNs intervalUs fps : Int) :
    ∃ out, settled s.clientMilliHz displayHz ⟨false, intervalNs, intervalUs, fps, 0⟩ best =
        .ok out ∧ Answers s.settingFps s.clientMilliHz displayHz s.maxFps out := by
  unfold settled
  by_cases hzero : best.divisor = 0
  · rw [if_pos hzero]
    refine ⟨_, rfl, .plain ?_⟩
    intro hall
    obtain ⟨_, _, n, hn, _⟩ := hall
    exact h.none hzero n hn.qualifies
  · rw [if_neg hzero]
    obtain ⟨hnear, hrate⟩ := h.some hzero
    have hpos := hnear.qualifies.pos
    have hr0 := Search.rate_nonneg hb hpos
    have hr1 := (Search.rate_le hb best.divisor).trans hb.client.2
    have hadd : add 64 best.milliFps 500 = .ok (rate s.clientMilliHz best.divisor + 500) := by
      rw [← hrate]
      exact add_ok (fits_64_iff.mpr (by omega))
    have hdiv : div 64 (rate s.clientMilliHz best.divisor + 500) 1000 =
        .ok (wholeFps (rate s.clientMilliHz best.divisor)) :=
      div_nonneg (by omega) (by omega) (fits_64_iff.mpr (by omega))
    rw [hadd, ok_bind, hdiv, ok_bind]
    by_cases hdisplay : displayHz > 0 ∧ wholeFps (rate s.clientMilliHz best.divisor) > displayHz
    · rw [if_pos hdisplay]
      refine ⟨_, rfl, .plain ?_⟩
      intro hall
      obtain ⟨_, _, n, hn, hfits⟩ := hall
      rw [hn.unique hnear] at hfits
      exact absurd (hfits hdisplay.1) (not_le.mpr hdisplay.2)
    · rw [if_neg hdisplay]
      have hlow := hnear.qualifies.low
      have hset := hb.setting.1
      have hclient := hb.client
      -- the divisor is small because its rate is at least 800
      have hmul : best.divisor * rate s.clientMilliHz best.divisor ≤ s.clientMilliHz := by
        unfold rate
        exact Int.mul_ediv_self_le (by omega)
      have hsmall : best.divisor * 800 ≤ s.clientMilliHz := by nlinarith
      have hperiods : Fits 64 (best.divisor * 1000000000000) := fits_64_iff.mpr (by omega)
      have hns : div 64 (best.divisor * 1000000000000) s.clientMilliHz =
          .ok (best.divisor * 1000000000000 / s.clientMilliHz) :=
        div_nonneg (by omega) hclient.1 hperiods
      have hns0 : 0 ≤ best.divisor * 1000000000000 / s.clientMilliHz :=
        Int.ediv_nonneg (by omega) hclient.1.le
      have hns1 : best.divisor * 1000000000000 / s.clientMilliHz ≤
          best.divisor * 1000000000000 := Int.ediv_le_self _ (by omega)
      have hus : div 64 (best.divisor * 1000000000000 / s.clientMilliHz) 1000 =
          .ok (best.divisor * 1000000000000 / s.clientMilliHz / 1000) :=
        div_nonneg hns0 (by omega) (fits_64_iff.mpr (by omega))
      rw [mul_ok hperiods, ok_bind, hns, ok_bind, hus, ok_bind]
      refine ⟨_, rfl, ⟨?_, fun _ => hnear, fun _ => rfl, fun _ => rfl, fun _ => rfl⟩⟩
      constructor
      · intro _
        refine ⟨hset, hclient.1, best.divisor, hnear, fun hpos' => ?_⟩
        exact not_lt.mp fun hlt => hdisplay ⟨hpos', hlt⟩
      · intro _
        rfl

/-- A call ends, without a fault, in the nearest divisor that qualifies. -/
theorem alignCadence_answers (settingFps clientMilliHz displayHz maxFps : Int32) :
    ∃ steps : Nat, ∀ fuel, steps ≤ fuel →
      ∃ out, alignCadence fuel settingFps clientMilliHz displayHz maxFps = .ok out ∧
        Answers settingFps.toInt clientMilliHz.toInt displayHz.toInt maxFps.toInt out := by
  refine ⟨clientMilliHz.toInt.toNat + 1, fun fuel hfuel => ?_⟩
  have hs1 : settingFps.toInt ≤ 2147483647 := by
    have := settingFps.toInt_lt
    omega
  have hc1 : clientMilliHz.toInt ≤ 2147483647 := by
    have := clientMilliHz.toInt_lt
    omega
  unfold alignCadence
  by_cases hset : settingFps.toInt ≤ 0
  · rw [if_pos hset]
    exact ⟨_, rfl, .plain fun hall => absurd hall.1 (not_lt.mpr hset)⟩
  · rw [if_neg hset]
    have hset : 0 < settingFps.toInt := not_le.mp hset
    have hus : div 32 1000000 settingFps.toInt = .ok (1000000 / settingFps.toInt) :=
      div_nonneg (by omega) hset (fits_32_iff.mpr (by omega))
    have hus0 : 0 ≤ 1000000 / settingFps.toInt := Int.ediv_nonneg (by omega) hset.le
    have hus1 : 1000000 / settingFps.toInt ≤ 1000000 := Int.ediv_le_self _ (by omega)
    rw [hus, ok_bind, mul_ok (fits_64_iff.mpr (by omega)), ok_bind]
    by_cases hclient : clientMilliHz.toInt ≤ 0
    · rw [if_pos hclient]
      exact ⟨_, rfl, .plain fun hall => absurd hall.2.1 (not_lt.mpr hclient)⟩
    · rw [if_neg hclient]
      have hclient : 0 < clientMilliHz.toInt := not_le.mp hclient
      have hlow : edge settingFps.toInt (100 - kAlignWindowPercent) =
          .ok (settingFps.toInt * 800) := by
        rw [edge_ok hset hs1 (by decide) (by decide)]
        congr 1
        unfold kAlignWindowPercent
        omega
      have hhigh : edge settingFps.toInt (100 + kAlignWindowPercent) =
          .ok (settingFps.toInt * 1200) := by
        rw [edge_ok hset hs1 (by decide) (by decide)]
        congr 1
        unfold kAlignWindowPercent
        omega
      rw [hlow, ok_bind, hhigh, ok_bind]
      have hb : Search.Bounded ⟨settingFps.toInt, clientMilliHz.toInt, maxFps.toInt,
          settingFps.toInt * 800, settingFps.toInt * 1200⟩ :=
        ⟨⟨hset, hs1⟩, ⟨hclient, hc1⟩, rfl, rfl⟩
      have hseen : Search.Seen ⟨settingFps.toInt, clientMilliHz.toInt, maxFps.toInt,
          settingFps.toInt * 800, settingFps.toInt * 1200⟩ 1 ⟨0, 0, 0⟩ :=
        { none := fun _ m hm hq => absurd hq.pos (not_le.mpr hm)
          some := fun hne => absurd rfl hne }
      obtain ⟨best, hbest, hchosen⟩ := Search.loop_ok hb fuel le_rfl
        (by change 1 ≤ clientMilliHz.toInt + 1; omega)
        (by change clientMilliHz.toInt + 2 ≤ 1 + (fuel : Int); omega) hseen
      rw [hbest, ok_bind]
      exact settled_answers hb hchosen _ _ _ _

/-- The setting 60 on a client at 144 Hz: both 72 and 48 are within the window, but a host
display at 60 Hz is given neither. At 144.001 Hz every second refresh is taken although its
rate, 72.0005, is out of the window; at 60.4 Hz every refresh is, under a maximum of 60. -/
theorem alignment_beyond_rates :
    (∃ out, alignCadence 5 60 144000 60 0 = .ok out ∧ out.aligned = false) ∧
    Qualifies 60 144000 0 2 ∧ Qualifies 60 144000 60 3 ∧
    (∃ out, alignCadence 5 60 144001 0 0 = .ok out ∧ out.aligned = true ∧ out.divisor = 2) ∧
    ((60 * 1.2 : ℚ) < 144.001 / 2) ∧
    (∃ out, alignCadence 5 60 60400 0 60 = .ok out ∧ out.aligned = true ∧ out.divisor = 1) ∧
    ((60 : ℚ) < 60.4 / 1) := by
  refine ⟨⟨_, rfl, by decide +kernel⟩, ?_, ?_, ⟨_, rfl, ?_⟩, ?_, ⟨_, rfl, ?_⟩, ?_⟩
  · exact ⟨by decide, by decide, by decide, by decide⟩
  · exact ⟨by decide, by decide, by decide, by decide⟩
  · decide +kernel
  · norm_num
  · decide +kernel
  · norm_num

end MoonlightWeb.NativeHost.CadenceAlign
