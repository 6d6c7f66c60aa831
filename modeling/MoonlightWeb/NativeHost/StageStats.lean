import MoonlightWeb.Lib.BinaryRounding
import MoonlightWeb.Lib.Ranks

/-! # Latency histograms

Durations are counted in buckets, eight to the octave, and a percentile is reported as the
upper edge of the bucket its sample lies in, no more than the largest sample. The bounds on
it are against the exact sample of that rank.
-/

namespace MoonlightWeb.NativeHost.StageStats

open Lib.BinaryRounding (toDouble)
open Lib.Ranks Lib.BinaryRounding List

def kOctaves : Nat := 24
def kPerOctave : Nat := 8
def kBuckets : Nat := kOctaves * kPerOctave

/-- `for (v = us; v > 1; v >>= 1) ++exponent`, a 64-bit value's worth of turns at most. -/
def octaveLoop : Nat → Nat → Nat → Nat
  | 0, _, exponent => exponent
  | turns + 1, v, exponent => if v > 1 then octaveLoop turns (v / 2) (exponent + 1) else exponent

def bucketOf (us : Nat) : Nat :=
  if us < 1 then
    0
  else
    let exponent := octaveLoop 63 us 0
    if kOctaves ≤ exponent then
      kBuckets - 1
    else
      let fraction := if 3 ≤ exponent then us / 2 ^ (exponent - 3) % 8
        else us * 2 ^ (3 - exponent) % 8
      exponent * kPerOctave + fraction

def upperEdgeUs (bucket : Nat) : Nat :=
  let bucket := if kBuckets ≤ bucket then kBuckets - 1 else bucket
  let exponent := bucket / kPerOctave
  let fraction := bucket % kPerOctave
  let numerator := (9 + fraction) * 2 ^ exponent
  (numerator + 7) / 8

structure LatencyHistogram where
  buckets : Nat → Nat := fun _ => 0
  count : Nat := 0
  sum : Nat := 0
  max : Nat := 0

/-- The buckets are 32 bits wide. -/
def add (h : LatencyHistogram) (us : Int) : LatencyHistogram :=
  let us := us.toNat
  { buckets := fun b => if b = bucketOf us then (h.buckets b + 1) % 2 ^ 32 else h.buckets b
    count := h.count + 1
    sum := h.sum + us
    max := if us > h.max then us else h.max }

def meanUs (h : LatencyHistogram) : Nat :=
  if 0 < h.count then h.sum / h.count else 0

/-- The 1-based rank of the `p`-th of `count` samples, in doubles. -/
def rankOf (p : ℚ) (count : Nat) : Nat :=
  let target := ⌊toDouble (toDouble (p * toDouble count) + toDouble (999999 / 1000000))⌋
  let target := if target < 1 then 1 else target.toNat
  if target > count then count else target

/-- The loop over the buckets from `bucket` on, `left` of them. -/
def scan (h : LatencyHistogram) (target : Nat) : Nat → Nat → Nat → Nat
  | 0, _, _ => h.max
  | left + 1, bucket, seen =>
      let seen := seen + h.buckets bucket
      if target ≤ seen then
        let edge := upperEdgeUs bucket
        if edge < h.max then edge else h.max
      else
        scan h target left (bucket + 1) seen

def percentileUs (h : LatencyHistogram) (p : ℚ) : Nat :=
  if h.count = 0 then
    0
  else
    let p := if p ≤ 0 then 0 else p
    let p := if p > 1 then 1 else p
    scan h (rankOf p h.count) kBuckets 0 0

structure StageSummary where
  count : Nat
  meanUs : Nat
  p50Us : Nat
  p95Us : Nat
  p99Us : Nat
  maxUs : Nat
deriving DecidableEq, Repr

def summary (h : LatencyHistogram) : StageSummary where
  count := h.count
  meanUs := meanUs h
  p50Us := percentileUs h (toDouble (50 / 100))
  p95Us := percentileUs h (toDouble (95 / 100))
  p99Us := percentileUs h (toDouble (99 / 100))
  maxUs := h.max

/-- `Stage::Count`. -/
def kStages : Nat := 6

structure Stats where
  window : Nat → LatencyHistogram := fun _ => {}
  session : Nat → LatencyHistogram := fun _ => {}

def update (histograms : Nat → LatencyHistogram) (i : Nat) (us : Int) : Nat → LatencyHistogram :=
  fun j => if j = i then add (histograms j) us else histograms j

def record (s : Stats) (stage : Nat) (us : Int) : Stats :=
  if kStages ≤ stage then
    s
  else
    { window := update s.window stage us, session := update s.session stage us }

def takeWindow (s : Stats) : Stats × List StageSummary :=
  ({ s with window := fun _ => {} }, (List.range kStages).map fun i => summary (s.window i))

def session (s : Stats) : List StageSummary :=
  (List.range kStages).map fun i => summary (s.session i)

inductive Call
  | record (stage : Nat) (us : Int)
  | takeWindow
deriving DecidableEq, Repr

def call (s : Stats) : Call → Stats
  | .record stage us => record s stage us
  | .takeWindow => (takeWindow s).1

variable (calls : List Call)

def run : Stats :=
  calls.foldl call {}

def recorded (stage : Nat) (calls : List Call) : List Int :=
  calls.filterMap fun
    | .record i us => if i = stage then some us else none
    | .takeWindow => none

def histogram (durations : List Int) : LatencyHistogram :=
  durations.foldl add {}

theorem octaveLoop_eq (turns v exponent : Nat) (h : v < 2 ^ (turns + 1)) :
    octaveLoop turns v exponent = exponent + Nat.log2 v := by
  induction turns generalizing v exponent with
  | zero =>
    have hsmall : v = 0 ∨ v = 1 := by omega
    rcases hsmall with rfl | rfl <;> rfl
  | succ turns ih =>
    unfold octaveLoop
    by_cases hmore : v > 1
    · have hhalf : v / 2 < 2 ^ (turns + 1) := by
        rw [pow_succ] at h
        omega
      rw [if_pos hmore, ih _ _ hhalf, Nat.log2_def v, if_pos (by omega)]
      omega
    · have hsmall : v = 0 ∨ v = 1 := by omega
      rw [if_neg hmore]
      rcases hsmall with rfl | rfl <;> rfl

theorem bucketOf_spec {us : Nat} (hpos : 1 ≤ us) (hlt : us < 2 ^ 24) :
    ∃ e f, e < 24 ∧ f < 8 ∧ bucketOf us = 8 * e + f ∧ (8 + f) * 2 ^ e ≤ 8 * us ∧
      8 * us < (9 + f) * 2 ^ e := by
  have hlog : octaveLoop 63 us 0 = Nat.log2 us := by
    rw [octaveLoop_eq _ _ _ (hlt.trans (by norm_num)), Nat.zero_add]
  have hle : 2 ^ Nat.log2 us ≤ us := Nat.log2_self_le (by omega)
  have hup : us < 2 ^ (Nat.log2 us + 1) := Nat.lt_log2_self
  have hoctave : Nat.log2 us < 24 := (Nat.log2_lt (by omega)).mpr hlt
  generalize he : Nat.log2 us = e at hlog hle hup hoctave
  unfold bucketOf
  rw [if_neg (by omega), hlog]
  dsimp only
  rw [if_neg (by unfold kOctaves; omega)]
  rw [pow_succ] at hup
  by_cases hbig : 3 ≤ e
  · obtain ⟨d, rfl⟩ : ∃ d, e = d + 3 := ⟨e - 3, by omega⟩
    rw [if_pos hbig, Nat.add_sub_cancel]
    have hpow : 2 ^ (d + 3) = 8 * 2 ^ d := by rw [pow_add]; ring
    have hunit : 0 < 2 ^ d := by positivity
    rw [hpow] at hle hup
    generalize 2 ^ d = w at hle hup hunit hpow ⊢
    have hq : 8 ≤ us / w := (Nat.le_div_iff_mul_le hunit).mpr hle
    have hq' : us / w < 16 := (Nat.div_lt_iff_lt_mul hunit).mpr (by omega)
    have hdown : us / w * w ≤ us := Nat.div_mul_le_self us w
    have hnext : us < (us / w + 1) * w := Nat.lt_mul_of_div_lt (Nat.lt_succ_self _) hunit
    refine ⟨d + 3, us / w % 8, by omega, by omega, by unfold kPerOctave; omega, ?_, ?_⟩
    · have heighth : 8 + us / w % 8 = us / w := by omega
      rw [heighth, hpow]
      nlinarith
    · have heighth : 9 + us / w % 8 = us / w + 1 := by omega
      rw [heighth, hpow]
      nlinarith
  · rw [if_neg hbig]
    have hfew : e = 0 ∨ e = 1 ∨ e = 2 := by omega
    refine ⟨e, us * 2 ^ (3 - e) % 8, by omega, by omega, by unfold kPerOctave; omega, ?_, ?_⟩
    all_goals
      rcases hfew with rfl | rfl | rfl
      all_goals
        norm_num at hle hup ⊢
        omega

theorem bounds_of_lt {e f e' f' : Nat} (hf : f < 8) (hf' : f' < 8)
    (h : 8 * e + f < 8 * e' + f') : (9 + f) * 2 ^ e ≤ (8 + f') * 2 ^ e' := by
  rcases Nat.lt_or_ge e e' with hless | hmore
  · have hpow : 2 ^ (e + 1) ≤ 2 ^ e' := Nat.pow_le_pow_right (by norm_num) hless
    rw [pow_succ] at hpow
    nlinarith [Nat.zero_le (2 ^ e)]
  · obtain rfl : e = e' := by omega
    exact Nat.mul_le_mul_right _ (by omega)

theorem bucketOf_lt {us : Nat} (hlt : us < 2 ^ 24) : bucketOf us < kBuckets := by
  rcases Nat.eq_zero_or_pos us with rfl | hpos
  · decide
  · obtain ⟨e, f, he, hf, hbucket, -, -⟩ := bucketOf_spec hpos hlt
    rw [hbucket]
    unfold kBuckets kOctaves kPerOctave
    omega

theorem bucketOf_mono {us us' : Nat} (h : us ≤ us') (hlt : us' < 2 ^ 24) :
    bucketOf us ≤ bucketOf us' := by
  rcases Nat.eq_zero_or_pos us with rfl | hpos
  · exact Nat.zero_le _
  · obtain ⟨e, f, -, hf, hbucket, hlow, -⟩ := bucketOf_spec hpos (by omega)
    obtain ⟨e', f', -, hf', hbucket', -, hup'⟩ := bucketOf_spec (hpos.trans_le h) hlt
    by_contra hmore
    have hless : 8 * e' + f' < 8 * e + f := by omega
    have hapart := bounds_of_lt hf' hf hless
    omega

theorem upperEdgeUs_eq {e f : Nat} (he : e < 24) (hf : f < 8) :
    upperEdgeUs (8 * e + f) = ((9 + f) * 2 ^ e + 7) / 8 := by
  have hin : ¬ kBuckets ≤ 8 * e + f := by
    unfold kBuckets kOctaves kPerOctave
    omega
  have hdiv : (8 * e + f) / kPerOctave = e := by
    unfold kPerOctave
    omega
  have hmod : (8 * e + f) % kPerOctave = f := by
    unfold kPerOctave
    omega
  unfold upperEdgeUs
  simp only [if_neg hin, hdiv, hmod]

theorem upperEdgeUs_bucketOf {us : Nat} (hlt : us < 2 ^ 24) :
    us < upperEdgeUs (bucketOf us) ∧ 8 * upperEdgeUs (bucketOf us) ≤ 9 * max us 1 + 8 := by
  rcases Nat.eq_zero_or_pos us with rfl | hpos
  · decide
  · obtain ⟨e, f, he, hf, hbucket, hlow, hup⟩ := bucketOf_spec hpos hlt
    have heighth : 8 * ((9 + f) * 2 ^ e) ≤ 9 * ((8 + f) * 2 ^ e) := by
      nlinarith [Nat.zero_le (f * 2 ^ e)]
    rw [hbucket, upperEdgeUs_eq he hf, max_eq_left hpos]
    generalize (9 + f) * 2 ^ e = numerator at *
    omega

theorem upperEdgeUs_mono {us us' : Nat} (h : us ≤ us') (hlt : us' < 2 ^ 24) :
    upperEdgeUs (bucketOf us) ≤ upperEdgeUs (bucketOf us') := by
  rcases Nat.eq_or_lt_of_le (bucketOf_mono h hlt) with hsame | hless
  · rw [hsame]
  · have hpos' : 1 ≤ us' := by
      by_contra hzero
      obtain rfl : us' = 0 := by omega
      obtain rfl : us = 0 := by omega
      omega
    obtain ⟨e', f', he', hf', hbucket', -, -⟩ := bucketOf_spec hpos' hlt
    rcases Nat.eq_zero_or_pos us with rfl | hpos
    · have hedge : upperEdgeUs (bucketOf 0) = 2 := by decide
      have habove := (upperEdgeUs_bucketOf hlt).1
      omega
    · obtain ⟨e, f, he, hf, hbucket, -, -⟩ := bucketOf_spec hpos (by omega)
      rw [hbucket, hbucket'] at hless ⊢
      have hapart := bounds_of_lt hf hf' hless
      rw [upperEdgeUs_eq he hf, upperEdgeUs_eq he' hf']
      have hwider : (8 + f') * 2 ^ e' ≤ (9 + f') * 2 ^ e' := Nat.mul_le_mul_right _ (by omega)
      omega

def below (samples : List Nat) (bucket : Nat) : Nat :=
  samples.countP fun us => decide (bucketOf us < bucket)

structure Counts (h : LatencyHistogram) (samples : List Nat) : Prop where
  buckets : ∀ b, h.buckets b = samples.countP fun us => decide (bucketOf us = b)
  count : h.count = samples.length
  upper : ∀ us ∈ samples, us ≤ h.max
  attained : samples ≠ [] → h.max ∈ samples

theorem counts_histogram (durations : List Int) (hfew : durations.length < 2 ^ 32) :
    Counts (histogram durations) (durations.map Int.toNat) := by
  induction durations using List.reverseRecOn with
  | nil => exact ⟨fun _ => rfl, rfl, by simp, by simp⟩
  | append_singleton durations last ih =>
    rw [length_append, length_singleton] at hfew
    have hsofar := ih (by omega)
    have hadd : histogram (durations ++ [last]) = add (histogram durations) last := by
      simp [histogram]
    rw [hadd, map_append, map_singleton]
    constructor
    case buckets =>
        intro b
        have hle : (durations.map Int.toNat).countP (fun us => decide (bucketOf us = b)) ≤
            durations.length := by
          simpa using countP_le_length (l := durations.map Int.toNat)
            (p := fun us => decide (bucketOf us = b))
        have hb := hsofar.buckets b
        rw [countP_append, countP_singleton]
        unfold add
        dsimp only
        by_cases hsame : b = bucketOf last.toNat
        · rw [if_pos hsame, if_pos (by simp [hsame]), hb, Nat.mod_eq_of_lt (by omega)]
        · rw [if_neg hsame, if_neg (by simpa using fun h => hsame h.symm), hb, Nat.add_zero]
    case count => simp [add, hsofar.count]
    case upper =>
        intro us hus
        have hmax : (add (histogram durations) last).max =
            if last.toNat > (histogram durations).max then last.toNat
            else (histogram durations).max := rfl
        rw [hmax]
        rcases mem_append.mp hus with hold | hnew
        · have := hsofar.upper us hold
          split <;> omega
        · obtain rfl : us = last.toNat := by simpa using hnew
          split <;> omega
    case attained =>
        intro _
        have hmax : (add (histogram durations) last).max =
            if last.toNat > (histogram durations).max then last.toNat
            else (histogram durations).max := rfl
        rw [hmax]
        split
        case isTrue => exact mem_append_right _ (mem_singleton.mpr rfl)
        case isFalse hless =>
            by_cases hnone : durations.map Int.toNat = []
            · have hempty : durations = [] := by simpa using hnone
              subst hempty
              have hzero : last.toNat = 0 := by
                have hinitial : (histogram []).max = 0 := rfl
                omega
              simp [hzero, histogram]
            · exact mem_append_left _ (hsofar.attained hnone)

theorem below_succ {h : LatencyHistogram} {samples : List Nat} (hc : Counts h samples)
    (bucket : Nat) : below samples (bucket + 1) = below samples bucket + h.buckets bucket := by
  rw [hc.buckets, below, below]
  clear hc
  induction samples with
  | nil => rfl
  | cons us samples ih =>
    simp only [countP_cons, decide_eq_true_eq]
    split_ifs <;> omega

/-- The loop stops at the bucket whose count passes the target. -/
theorem scan_eq {h : LatencyHistogram} {samples : List Nat} (hc : Counts h samples)
    {target b : Nat} (hbefore : below samples b < target)
    (hwithin : target ≤ below samples (b + 1)) (left bucket : Nat) (hle : bucket ≤ b)
    (hlt : b < bucket + left) :
    scan h target left bucket (below samples bucket) = min (upperEdgeUs b) h.max := by
  induction left generalizing bucket with
  | zero => omega
  | succ left ih =>
    unfold scan
    dsimp only
    rw [← below_succ hc]
    rcases Nat.eq_or_lt_of_le hle with rfl | hless
    · rw [if_pos hwithin]
      split <;> omega
    · have hmono : below samples (bucket + 1) ≤ below samples b := by
        unfold below
        refine countP_mono_left fun us _ hus => ?_
        simp only [decide_eq_true_eq] at hus ⊢
        omega
      rw [if_neg (by omega)]
      exact ih (bucket + 1) (by omega) (by omega)

variable {a : Nat}

theorem toDouble_fraction_bounds (ha : 0 < a) (ha' : a < 100) :
    0 < toDouble ((a : ℚ) / 100) ∧ toDouble ((a : ℚ) / 100) ≤ 1 := by
  have haq : (1 : ℚ) ≤ a := by exact_mod_cast ha
  have haq' : (a : ℚ) ≤ 99 := by exact_mod_cast Nat.le_of_lt_succ ha'
  have hclose : |toDouble ((a : ℚ) / 100) - a / 100| ≤ 2 ^ (0 - 54 : ℤ) :=
    abs_toDouble_sub_le_of_lt (by positivity) (by rw [zpow_zero]; linarith)
  norm_num at hclose
  rw [abs_le] at hclose
  constructor <;> linarith

/-- The sum of which the rank is the whole part, the rounding errors staying under a
millionth. -/
theorem abs_rank_sub_lt {a n : Nat} (ha : 0 < a) (ha' : a < 100) (hn : 0 < n) (hn' : n < 2 ^ 32) :
    |toDouble (toDouble (toDouble ((a : ℚ) / 100) * n) + toDouble (999999 / 1000000)) -
      ((a : ℚ) * n / 100 + 999999 / 1000000)| < 1 / 1000000 := by
  have hnq : (1 : ℚ) ≤ n := by exact_mod_cast hn
  have hnq' : (n : ℚ) < 2 ^ 32 := by exact_mod_cast hn'
  have haq : (1 : ℚ) ≤ a := by exact_mod_cast ha
  have haq' : (a : ℚ) ≤ 99 := by exact_mod_cast Nat.le_of_lt_succ ha'
  have hfraction : |toDouble ((a : ℚ) / 100) - a / 100| ≤ 2 ^ (0 - 54 : ℤ) :=
    abs_toDouble_sub_le_of_lt (by positivity) (by rw [zpow_zero]; linarith)
  have hliteral : |toDouble (999999 / 1000000) - 999999 / 1000000| ≤ 2 ^ (0 - 54 : ℤ) :=
    abs_toDouble_sub_le_of_lt (by norm_num) (by norm_num)
  norm_num at hfraction hliteral
  rw [abs_le] at hfraction hliteral
  generalize toDouble ((a : ℚ) / 100) = p at hfraction ⊢
  generalize toDouble (999999 / 1000000) = rest at hliteral ⊢
  have hp : 0 < p := by linarith
  have hp' : p < 1 := by linarith
  have hproduct : |toDouble (p * n) - p * n| ≤ 2 ^ (32 - 54 : ℤ) := by
    refine abs_toDouble_sub_le_of_lt (by positivity) ?_
    have hsmall : p * n < 2 ^ 32 := by nlinarith
    exact_mod_cast hsmall
  norm_num at hproduct
  rw [abs_le] at hproduct
  have hexact : |p * n - a / 100 * n| ≤ 1 / 4194304 := by
    rw [← sub_mul, abs_mul, abs_of_nonneg (by linarith : (0 : ℚ) ≤ n)]
    have hclose : |p - (a : ℚ) / 100| ≤ 1 / 18014398509481984 := abs_le.mpr hfraction
    calc |p - (a : ℚ) / 100| * n ≤ 1 / 18014398509481984 * n :=
          mul_le_mul_of_nonneg_right hclose (by linarith)
      _ ≤ 1 / 4194304 := by linarith
  rw [abs_le] at hexact
  have hbelow : p * n < 2 ^ 32 := by nlinarith
  have habove : 0 < p * n := by positivity
  generalize toDouble (p * n) = product at hproduct ⊢
  generalize p * n = whole at *
  have hsum : |toDouble (product + rest) - (product + rest)| ≤ 2 ^ (33 - 54 : ℤ) := by
    refine abs_toDouble_sub_le_of_lt (by linarith) ?_
    have hsmall : product + rest < 2 ^ 33 := by norm_num at hbelow ⊢; linarith
    exact_mod_cast hsmall
  norm_num at hsum
  rw [abs_le] at hsum
  have hsame : (a : ℚ) / 100 * n = a * n / 100 := by ring
  rw [hsame] at hexact
  rw [abs_lt]
  constructor <;> linarith

theorem rankOf_eq {a n : Nat} (ha : 0 < a) (ha' : a < 100) (hn : 0 < n) (hn' : n < 2 ^ 32) :
    rankOf (toDouble ((a : ℚ) / 100)) n = (a * n + 99) / 100 := by
  have hcount : toDouble (n : ℚ) = n :=
    toDouble_natCast hn (hn'.trans (by norm_num))
  have hclose := abs_rank_sub_lt ha ha' hn hn'
  rw [abs_lt] at hclose
  have hpos : 1 ≤ a * n := Nat.mul_pos ha hn
  have hless : a * n ≤ 99 * n := Nat.mul_le_mul_right n (by omega)
  unfold rankOf
  rw [hcount]
  generalize toDouble (toDouble (toDouble ((a : ℚ) / 100) * n) + toDouble (999999 / 1000000)) = x
    at hclose ⊢
  have hceil : ⌊x⌋ = (((a * n + 99) / 100 : ℕ) : ℤ) := by
    rw [Int.floor_eq_iff]
    have hsplit := Nat.div_add_mod (a * n) 100
    have hrest := Nat.mod_lt (a * n) (show 100 > 0 by norm_num)
    generalize hq : a * n / 100 = q at hsplit
    generalize hr : a * n % 100 = r at hsplit hrest
    have hcast : (a : ℚ) * n = 100 * q + r := by exact_mod_cast hsplit.symm
    rw [hcast] at hclose
    rcases Nat.eq_zero_or_pos r with hzero | hsome
    · subst hzero
      have hup : (a * n + 99) / 100 = q := by omega
      rw [hup]
      push_cast at hclose ⊢
      constructor <;> linarith
    · have hup : (a * n + 99) / 100 = q + 1 := by omega
      have hrq : (1 : ℚ) ≤ r := by exact_mod_cast hsome
      have hrq' : (r : ℚ) ≤ 99 := by exact_mod_cast Nat.le_of_lt_succ hrest
      rw [hup]
      push_cast
      constructor <;> linarith
  have hfirst : 1 ≤ (a * n + 99) / 100 := by omega
  have hlast : (a * n + 99) / 100 ≤ n := by omega
  rw [hceil]
  generalize (a * n + 99) / 100 = rank at hfirst hlast ⊢
  have hnot : ¬ (rank : ℤ) < 1 := by omega
  simp only [hnot, if_false, Int.toNat_natCast]
  rw [if_neg (by omega)]

/-- The index of the sample of rank `ceil (a / 100 * n)`. -/
def rankIndex (a n : Nat) : Nat :=
  (a * n + 99) / 100 - 1

variable {durations : List Int}

/-- What a percentile reports is the edge of its sample's bucket, or the maximum. -/
theorem percentileUs_eq {x : Int}
    (hfew : durations.length < 2 ^ 32) (hshort : ∀ us ∈ durations, us < 2 ^ 24) (ha : 0 < a)
    (ha' : a < 100) (hx : ranked durations (rankIndex a durations.length) = some x) :
    percentileUs (histogram durations) (toDouble ((a : ℚ) / 100)) =
      min (upperEdgeUs (bucketOf x.toNat)) (histogram durations).max := by
  have hc := counts_histogram durations hfew
  have hmem : x ∈ durations := mem_of_ranked hx
  have hpos : 0 < durations.length := length_pos_of_mem hmem
  have hcount : (histogram durations).count = durations.length := by
    rw [hc.count, length_map]
  have hrank : rankOf (toDouble ((a : ℚ) / 100)) durations.length =
      (a * durations.length + 99) / 100 := rankOf_eq ha ha' hpos hfew
  have hfirst : 1 ≤ (a * durations.length + 99) / 100 := by
    have : 1 ≤ a * durations.length := Nat.mul_pos ha hpos
    omega
  -- the samples before a bucket are the smallest ones
  have hpart : ∀ b, bucketOf x.toNat < b ↔
      rankIndex a durations.length < below (durations.map Int.toNat) b := by
    intro b
    have hdown : ∀ d ∈ durations, ∀ d' ∈ durations, d ≤ d' →
        decide (bucketOf d'.toNat < b) = true → decide (bucketOf d.toNat < b) = true := by
      intro d _ d' hd' hle hb
      simp only [decide_eq_true_eq] at hb ⊢
      have hshort' := hshort d' hd'
      have hmono : bucketOf d.toNat ≤ bucketOf d'.toNat :=
        bucketOf_mono (by omega) (by omega)
      omega
    have hranked := ranked_iff hdown hx
    rw [decide_eq_true_eq] at hranked
    rw [hranked, below, countP_map]
    rfl
  have hbefore := (hpart (bucketOf x.toNat)).not.mp (by omega)
  have hwithin := (hpart (bucketOf x.toNat + 1)).mp (by omega)
  have hin : bucketOf x.toNat < kBuckets := by
    have := hshort x hmem
    exact bucketOf_lt (by omega)
  have hp := toDouble_fraction_bounds ha ha'
  unfold rankIndex at hbefore hwithin
  have hscan : scan (histogram durations) ((a * durations.length + 99) / 100) kBuckets 0
      (below (durations.map Int.toNat) 0) =
      min (upperEdgeUs (bucketOf x.toNat)) (histogram durations).max :=
    scan_eq hc (by omega) (by omega) kBuckets 0 (Nat.zero_le _) (by omega)
  have hnone : below (durations.map Int.toNat) 0 = 0 := by
    unfold below
    rw [countP_eq_zero]
    simp
  rw [hnone] at hscan
  unfold percentileUs
  rw [if_neg (by omega)]
  dsimp only
  rw [if_neg (not_le.mpr hp.1), if_neg (not_lt.mpr hp.2), hcount, hrank]
  exact hscan

/-- A reported percentile against the sample of its rank and the largest one. -/
structure Overstates (durations : List Int) (a reported : Nat) : Prop where
  sample : durations ≠ [] → ∃ x, ranked durations (rankIndex a durations.length) = some x ∧
    x ≤ reported ∧ 8 * (reported : Int) ≤ 9 * max x 1 + 8
  largest : ∀ most : Int, (∀ us ∈ durations, us ≤ most) → (reported : Int) ≤ max most 0

theorem rankIndex_lt {a n : Nat} (ha' : a < 100) (hn : 0 < n) : rankIndex a n < n := by
  have hless : a * n ≤ 99 * n := Nat.mul_le_mul_right n (by omega)
  unfold rankIndex
  omega

theorem percentileUs_empty (p : ℚ) : percentileUs (histogram []) p = 0 := rfl

variable (hfew : durations.length < 2 ^ 32)

include hfew

theorem max_le_of_upper {most : Int}
    (hmost : ∀ us ∈ durations, us ≤ most) : ((histogram durations).max : Int) ≤ max most 0 := by
  have hc := counts_histogram durations hfew
  by_cases hnone : durations = []
  · subst hnone
    exact le_max_right _ _
  · obtain ⟨us, hmem, hus⟩ := mem_map.mp (hc.attained (by simpa using hnone))
    have := hmost us hmem
    omega

theorem percentileUs_le_max
    (hshort : ∀ us ∈ durations, us < 2 ^ 24) (ha : 0 < a) (ha' : a < 100) :
    percentileUs (histogram durations) (toDouble ((a : ℚ) / 100)) ≤ (histogram durations).max := by
  by_cases hnone : durations = []
  · subst hnone
    rw [percentileUs_empty]
    exact Nat.zero_le _
  · obtain ⟨x, hx⟩ := ranked_isSome (rankIndex_lt ha' (length_pos_of_ne_nil hnone))
    rw [percentileUs_eq hfew hshort ha ha' hx]
    exact min_le_right _ _

theorem overstates
    (hshort : ∀ us ∈ durations, us < 2 ^ 24) (ha : 0 < a) (ha' : a < 100) :
    Overstates durations a (percentileUs (histogram durations) (toDouble ((a : ℚ) / 100))) := by
  constructor
  case sample =>
      intro hsome
      obtain ⟨x, hx⟩ := ranked_isSome (rankIndex_lt ha' (length_pos_of_ne_nil hsome))
      have hmem : x ∈ durations := mem_of_ranked hx
      have hedge := upperEdgeUs_bucketOf (show x.toNat < 2 ^ 24 by have := hshort x hmem; omega)
      have hupper := (counts_histogram durations hfew).upper x.toNat
        (mem_map_of_mem hmem)
      refine ⟨x, hx, ?_, ?_⟩
      all_goals
        rw [percentileUs_eq hfew hshort ha ha' hx]
        omega
  case largest =>
      intro most hmost
      have hle := percentileUs_le_max hfew hshort ha ha'
      have hmax := max_le_of_upper hfew hmost
      omega

/-- A higher percentile is no smaller. -/
theorem percentileUs_mono {a b : Nat}
    (hshort : ∀ us ∈ durations, us < 2 ^ 24) (ha : 0 < a) (h : a ≤ b) (hb : b < 100) :
    percentileUs (histogram durations) (toDouble ((a : ℚ) / 100)) ≤
      percentileUs (histogram durations) (toDouble ((b : ℚ) / 100)) := by
  by_cases hnone : durations = []
  · subst hnone
    rw [percentileUs_empty, percentileUs_empty]
  · have hpos := length_pos_of_ne_nil hnone
    obtain ⟨x, hx⟩ := ranked_isSome (rankIndex_lt (by omega : a < 100) hpos)
    obtain ⟨y, hy⟩ := ranked_isSome (rankIndex_lt hb hpos)
    have hindex : rankIndex a durations.length ≤ rankIndex b durations.length := by
      have := Nat.mul_le_mul_right durations.length h
      unfold rankIndex
      omega
    have hxy : x ≤ y := ranked_mono hx hy hindex
    have hshorty := hshort y (mem_of_ranked hy)
    have hedges : upperEdgeUs (bucketOf x.toNat) ≤ upperEdgeUs (bucketOf y.toNat) :=
      upperEdgeUs_mono (by omega) (by omega)
    rw [percentileUs_eq hfew hshort ha (by omega) hx,
      percentileUs_eq hfew hshort (by omega) hb hy]
    exact min_le_min_right _ hedges

omit hfew

theorem histogram_append (durations : List Int) (us : Int) :
    histogram (durations ++ [us]) = add (histogram durations) us := by
  simp [histogram]

theorem run_session {stage : Nat} (hstage : stage < kStages) :
    (run calls).session stage = histogram (recorded stage calls) := by
  induction calls using List.reverseRecOn with
  | nil => rfl
  | append_singleton calls last ih =>
    have hrun : run (calls ++ [last]) = call (run calls) last := by simp [run]
    have hrecorded : recorded stage (calls ++ [last]) =
        recorded stage calls ++ recorded stage [last] := by simp [recorded]
    rw [hrun, hrecorded]
    cases last with
    | takeWindow => simpa [call, takeWindow, recorded] using ih
    | record i us =>
      unfold call record
      by_cases hi : kStages ≤ i
      · have hother : i ≠ stage := by omega
        simpa [hi, recorded, hother] using ih
      · by_cases hsame : i = stage
        · subst hsame
          have hold := congrArg (fun h => add h us) ih
          simpa [hi, recorded, update, histogram_append] using hold
        · have hother : stage ≠ i := fun h => hsame h.symm
          simpa [hi, recorded, update, hother, hsame] using ih

theorem session_eq :
    session (run calls) =
      (List.range kStages).map fun stage => summary (histogram (recorded stage calls)) := by
  unfold session
  refine map_congr_left fun stage hstage => ?_
  rw [run_session calls (mem_range.mp hstage)]

theorem recorded_filter (stage : Nat) (calls : List Call) :
    recorded stage (calls.filter (· ≠ .takeWindow)) = recorded stage calls := by
  unfold recorded
  rw [filterMap_filter]
  refine filterMap_congr fun c _ => ?_
  cases c <;> simp

/-- Durations under 2 ^ 24 microseconds: a percentile is no less than the sample of its rank,
no more than an eighth and a microsecond above it (above one microsecond, for a sample under
one) nor than the largest sample, and a higher one is no smaller. However the calls that
record them are split by window reports, the session's figures are those of the durations. -/
theorem percentiles_overstate (durations : List Int) (hfew : durations.length < 2 ^ 32)
    (hshort : ∀ us ∈ durations, us < 2 ^ 24) :
    Overstates durations 50 (summary (histogram durations)).p50Us ∧
      Overstates durations 95 (summary (histogram durations)).p95Us ∧
      Overstates durations 99 (summary (histogram durations)).p99Us ∧
      (summary (histogram durations)).p50Us ≤ (summary (histogram durations)).p95Us ∧
      (summary (histogram durations)).p95Us ≤ (summary (histogram durations)).p99Us ∧
      (summary (histogram durations)).p99Us ≤ (summary (histogram durations)).maxUs ∧
      ∀ calls, session (run calls) = session (run (calls.filter (· ≠ .takeWindow))) ∧
        session (run calls) =
          (List.range kStages).map fun stage => summary (histogram (recorded stage calls)) := by
  refine ⟨overstates hfew hshort (a := 50) (by norm_num) (by norm_num),
    overstates hfew hshort (a := 95) (by norm_num) (by norm_num),
    overstates hfew hshort (a := 99) (by norm_num) (by norm_num),
    percentileUs_mono hfew hshort (a := 50) (b := 95) (by norm_num) (by norm_num) (by norm_num),
    percentileUs_mono hfew hshort (a := 95) (b := 99) (by norm_num) (by norm_num) (by norm_num),
    percentileUs_le_max hfew hshort (a := 99) (by norm_num) (by norm_num), fun calls => ?_⟩
  refine ⟨?_, session_eq calls⟩
  rw [session_eq, session_eq]
  refine List.map_congr_left fun stage _ => ?_
  rw [recorded_filter]

/-- The percentiles of three durations, a hundred microseconds and no time twice. -/
theorem percentiles_overstate_zero :
    Overstates [0, 100, 0] 50 (summary (histogram [0, 100, 0])).p50Us ∧
      (summary (histogram [0, 100, 0])).p50Us ≤ (summary (histogram [0, 100, 0])).p95Us :=
  have h := percentiles_overstate [0, 100, 0] (by decide) (by decide)
  ⟨h.1, h.2.2.2.1⟩

/-- A duration of no time is reported as two microseconds. -/
theorem zero_reported_two :
    ranked [0, 100] (rankIndex 50 2) = some (0 : Int) ∧
      ¬ 8 * (summary (histogram [0, 100])).p50Us ≤ 9 * 0 + 8 := by
  have hx : ranked [0, 100] (rankIndex 50 2) = some (0 : Int) := by
    unfold ranked
    rw [List.mergeSort_of_pairwise (by decide)]
    rfl
  have hp := percentileUs_eq (a := 50) (by decide : [(0 : Int), 100].length < 2 ^ 32)
    (by decide) (by norm_num) (by norm_num) hx
  have hedge : min (upperEdgeUs (bucketOf (0 : Int).toNat)) (histogram [0, 100]).max = 2 := by
    decide +kernel
  refine ⟨hx, ?_⟩
  have hsum : (summary (histogram [0, 100])).p50Us = 2 := hp.trans hedge
  omega

end MoonlightWeb.NativeHost.StageStats
