import Mathlib

/-! # The gate on the capture loop's frame rate

`FrameCadence` admits the first present at or after each tick of a grid, a little early
included, and puts the grid anew on a present that is late. The loop replaces its gate when
the client's screen changes. Stamps are whole microseconds and the grid whole nanoseconds, as
unbounded integers.
-/

namespace MoonlightWeb.NativeHost

structure FrameCadence where
  intervalNs : Int
  reanchorNs : Int
  nextDueNs : Int
  skipped : Int
  isCeiling : Bool
deriving DecidableEq, Repr

namespace FrameCadence

def kSlackDivisor : Int := 4

def kCeilingHeadroom : Int := 50

/-- `FrameCadence(fps, displayHz)`. -/
def ofFps (fps displayHz : Int) : FrameCadence :=
  { intervalNs := if fps > 0 then Int.tdiv 1000000 fps * 1000 else 0
    reanchorNs :=
      if displayHz > 0 then Int.tdiv 1000000 displayHz * 1000
      else Int.tdiv (if fps > 0 then Int.tdiv 1000000 fps * 1000 else 0) 2
    nextDueNs := 0
    skipped := 0
    isCeiling := false }

variable (intervalNs displayHz : Int)

def fromIntervalNs : FrameCadence :=
  { ofFps 0 displayHz with
    intervalNs := if intervalNs > 0 then intervalNs else 0
    reanchorNs :=
      if displayHz ≤ 0 then Int.tdiv (if intervalNs > 0 then intervalNs else 0) 2
      else (ofFps 0 displayHz).reanchorNs }

variable (c : FrameCadence)

def enabled : Bool := 0 < c.intervalNs

def ceiling : FrameCadence :=
  { fromIntervalNs (Int.tdiv (intervalNs * kCeilingHeadroom) (kCeilingHeadroom + 1)) displayHz with
    isCeiling :=
      (fromIntervalNs (Int.tdiv (intervalNs * kCeilingHeadroom) (kCeilingHeadroom + 1))
        displayHz).enabled }

def intervalUs : Int := Int.tdiv c.intervalNs 1000

def slackUs : Int := if c.isCeiling then c.intervalUs else Int.tdiv c.intervalUs kSlackDivisor

/-- `admit`: the gate after a present, and whether the present is encoded. -/
def admitAt (nowUs : Int) : FrameCadence × Bool :=
  if !c.enabled then (c, true)
  else if nowUs * 1000 + c.slackUs * 1000 < c.nextDueNs then
    ({ c with skipped := c.skipped + 1 }, false)
  else if nowUs * 1000 - c.nextDueNs > c.reanchorNs then
    ({ c with nextDueNs := nowUs * 1000 + c.intervalNs }, true)
  else ({ c with nextDueNs := c.nextDueNs + c.intervalNs }, true)

/-- A late present keeps the grid where it was, unless it is later than a display period. -/
example : ((ofFps 60 165).admitAt 0).1.nextDueNs = 16666000 ∧
    (((ofFps 60 165).admitAt 0).1.admitAt 23666).1.nextDueNs = 40332000 := by decide

/-- What a gate is chosen from. -/
inductive Rate
  | fps (fps displayHz : Int)
  | interval (intervalNs displayHz : Int)
  | ceiling (intervalNs displayHz : Int)
deriving DecidableEq, Repr

def Rate.gate : Rate → FrameCadence
  | .fps n displayHz => ofFps n displayHz
  | .interval ns displayHz => fromIntervalNs ns displayHz
  | .ceiling ns displayHz => FrameCadence.ceiling ns displayHz

inductive Event
  | chosen (rate : Rate)
  | present (us : Int)
deriving DecidableEq, Repr

/-- The gate in force and its number. -/
structure Loop where
  cadence : FrameCadence
  gate : Nat

/-- What was decided of a present, and by which gate. -/
structure Verdict where
  gate : Nat
  cadence : FrameCadence
  us : Int
  admitted : Bool

def Loop.run (l : Loop) : List Event → List Verdict
  | [] => []
  | .chosen rate :: rest => Loop.run ⟨rate.gate, l.gate + 1⟩ rest
  | .present us :: rest =>
      ⟨l.gate, l.cadence, us, (l.cadence.admitAt us).2⟩ ::
        Loop.run ⟨(l.cadence.admitAt us).1, l.gate⟩ rest

/-- The verdicts of a session, whose first gate is of `rate`. -/
def session (rate : Rate) (events : List Event) : List Verdict :=
  Loop.run ⟨rate.gate, 0⟩ events

/-- Two presents on the same gate are at least its interval apart. -/
def Apart (v w : Verdict) : Prop :=
  v.gate = w.gate → v.us * 1000 + w.cadence.intervalNs ≤ w.us * 1000

instance : DecidableRel Apart := fun _ _ => inferInstanceAs (Decidable (_ → _))

def admittedIn (gate : Nat) (start span : Int) (verdicts : List Verdict) : Nat :=
  verdicts.countP fun v => v.gate = gate && v.admitted && start ≤ v.us && v.us ≤ start + span

variable {c}

/-- The grid a gate is made with. -/
structure Fresh (c : FrameCadence) : Prop where
  interval : 0 ≤ c.intervalNs
  reanchor : 0 ≤ c.reanchorNs
  due : c.nextDueNs = 0

theorem fresh_ofFps (fps displayHz : Int) : (ofFps fps displayHz).Fresh where
  interval := by
    unfold ofFps
    dsimp only
    split_ifs with h
    · have := Int.tdiv_nonneg (a := 1000000) (by omega) h.le
      omega
    · exact le_rfl
  reanchor := by
    unfold ofFps
    dsimp only
    split_ifs with hd hf
    · have := Int.tdiv_nonneg (a := 1000000) (by omega) hd.le
      omega
    · have := Int.tdiv_nonneg (a := 1000000) (by omega) hf.le
      exact Int.tdiv_nonneg (by omega) (by omega)
    · exact le_rfl
  due := rfl

theorem fresh_fromIntervalNs :
    (fromIntervalNs intervalNs displayHz).Fresh where
  interval := by
    unfold fromIntervalNs
    dsimp only
    split_ifs with h
    · exact h.le
    · exact le_rfl
  reanchor := by
    unfold fromIntervalNs
    dsimp only
    split_ifs with hd hi
    · exact Int.tdiv_nonneg hi.le (by omega)
    · exact le_rfl
    · exact (fresh_ofFps 0 displayHz).reanchor
  due := rfl

theorem Rate.fresh (rate : Rate) : rate.gate.Fresh := by
  cases rate with
  | fps n displayHz => exact fresh_ofFps n displayHz
  | interval ns displayHz => exact fresh_fromIntervalNs ns displayHz
  | ceiling ns displayHz =>
    have h := fresh_fromIntervalNs
      (Int.tdiv (ns * kCeilingHeadroom) (kCeilingHeadroom + 1)) displayHz
    exact ⟨h.interval, h.reanchor, h.due⟩

@[simp] theorem admitAt_intervalNs (us : Int) : (c.admitAt us).1.intervalNs = c.intervalNs := by
  unfold admitAt
  split_ifs <;> rfl

@[simp] theorem admitAt_reanchorNs (us : Int) : (c.admitAt us).1.reanchorNs = c.reanchorNs := by
  unfold admitAt
  split_ifs <;> rfl

@[simp] theorem admitAt_isCeiling (us : Int) : (c.admitAt us).1.isCeiling = c.isCeiling := by
  unfold admitAt
  split_ifs <;> rfl

@[simp] theorem admitAt_slackUs (us : Int) : (c.admitAt us).1.slackUs = c.slackUs := by
  unfold slackUs intervalUs
  rw [admitAt_isCeiling, admitAt_intervalNs]

theorem slackUs_nonneg (h : 0 ≤ c.intervalNs) : 0 ≤ c.slackUs := by
  have hus : 0 ≤ c.intervalUs := Int.tdiv_nonneg h (by omega)
  unfold slackUs kSlackDivisor
  split_ifs
  · exact hus
  · exact Int.tdiv_nonneg hus (by omega)

theorem admitted_iff (h : c.enabled = true) (us : Int) :
    (c.admitAt us).2 = true ↔ c.nextDueNs ≤ us * 1000 + c.slackUs * 1000 := by
  unfold admitAt
  rw [h]
  simp only [Bool.not_true, Bool.false_eq_true, if_false]
  split_ifs with hearly hlate
  · simp
    omega
  · simp
    omega
  · simp
    omega

theorem nextDueNs_admitted (h : c.enabled = true) (us : Int) (hadm : (c.admitAt us).2 = true) :
    (c.admitAt us).1.nextDueNs =
      if us * 1000 - c.nextDueNs > c.reanchorNs then us * 1000 + c.intervalNs
      else c.nextDueNs + c.intervalNs := by
  have hdue := (admitted_iff h us).mp hadm
  unfold admitAt
  rw [h]
  simp only [Bool.not_true, Bool.false_eq_true, if_false]
  rw [if_neg (not_lt.mpr hdue)]
  split_ifs <;> rfl

theorem admitAt_disabled (h : c.enabled = false) (us : Int) : c.admitAt us = (c, true) := by
  simp [admitAt, h]

theorem nextDueNs_mono (h0 : 0 ≤ c.intervalNs) (hr : 0 ≤ c.reanchorNs) (us : Int) :
    c.nextDueNs ≤ (c.admitAt us).1.nextDueNs := by
  unfold admitAt
  split_ifs
  · exact le_rfl
  · exact le_rfl
  · change c.nextDueNs ≤ us * 1000 + c.intervalNs
    omega
  · change c.nextDueNs ≤ c.nextDueNs + c.intervalNs
    omega

/-- The grid waits for no present that keeps its distance to the one before. -/
def Open (l : Loop) (last : Option Verdict) : Prop :=
  l.cadence.nextDueNs ≤ 0 ∨ ∃ v, last = some v ∧ v.gate = l.gate ∧
    l.cadence.nextDueNs ≤ v.us * 1000 + l.cadence.slackUs * 1000 + l.cadence.intervalNs

theorem Open.admitted {l : Loop} {last : Option Verdict} {us : Int} (ho : Open l last)
    (h0 : 0 ≤ l.cadence.intervalNs) (hus : 0 ≤ us)
    (hapart : ∀ v ∈ last, v.gate = l.gate → v.us * 1000 + l.cadence.intervalNs ≤ us * 1000) :
    (l.cadence.admitAt us).2 = true := by
  by_cases h : l.cadence.enabled = true
  · have hslack := slackUs_nonneg h0
    rw [admitted_iff h]
    rcases ho with hzero | ⟨v, hlast, hgate, hdue⟩
    · omega
    · have := hapart v hlast hgate
      omega
  · rw [admitAt_disabled (by simpa using h)]

/-- The next tick after an admission is an interval and the slack away at most. -/
theorem Open.next {l : Loop} {last : Option Verdict} {us : Int} (ho : Open l last)
    (h0 : 0 ≤ l.cadence.intervalNs) (hus : 0 ≤ us)
    (hapart : ∀ v ∈ last, v.gate = l.gate → v.us * 1000 + l.cadence.intervalNs ≤ us * 1000) :
    Open ⟨(l.cadence.admitAt us).1, l.gate⟩
      (some ⟨l.gate, l.cadence, us, (l.cadence.admitAt us).2⟩) := by
  have hslack := slackUs_nonneg h0
  have hadm := ho.admitted h0 hus hapart
  right
  refine ⟨_, rfl, rfl, ?_⟩
  change (l.cadence.admitAt us).1.nextDueNs ≤ us * 1000 + (l.cadence.admitAt us).1.slackUs * 1000 +
    (l.cadence.admitAt us).1.intervalNs
  rw [admitAt_slackUs, admitAt_intervalNs]
  by_cases h : l.cadence.enabled = true
  · have hdue := (admitted_iff h us).mp hadm
    rw [nextDueNs_admitted h us hadm]
    split_ifs
    · omega
    · omega
  · -- a gate that is off has no interval, and keeps its tick
    rw [admitAt_disabled (by simpa using h)]
    change l.cadence.nextDueNs ≤ _
    rcases ho with hzero | ⟨v, hlast, hgate, hdue⟩
    · omega
    · have hoff : ¬0 < l.cadence.intervalNs := by simpa [enabled] using h
      have := hapart v hlast hgate
      omega

theorem run_chosen (l : Loop) (rate : Rate) (rest : List Event) :
    l.run (.chosen rate :: rest) = Loop.run ⟨rate.gate, l.gate + 1⟩ rest := rfl

theorem run_present (l : Loop) (us : Int) (rest : List Event) :
    l.run (.present us :: rest) = ⟨l.gate, l.cadence, us, (l.cadence.admitAt us).2⟩ ::
      Loop.run ⟨(l.cadence.admitAt us).1, l.gate⟩ rest := rfl

theorem run_admitted (events : List Event) (l : Loop) (last : Option Verdict)
    (h0 : 0 ≤ l.cadence.intervalNs) (ho : Open l last) (hus : ∀ v ∈ l.run events, 0 ≤ v.us)
    (hapart : List.IsChain Apart (last.toList ++ l.run events)) :
    ∀ v ∈ l.run events, v.admitted = true := by
  induction events generalizing l last with
  | nil =>
    intro v hv
    cases hv
  | cons e rest ih =>
    cases e with
    | chosen rate =>
      have hfresh := rate.fresh
      exact ih ⟨rate.gate, l.gate + 1⟩ last hfresh.interval (Or.inl hfresh.due.le) hus hapart
    | present us =>
      rw [run_present] at hus hapart ⊢
      have hus0 : 0 ≤ us := hus _ List.mem_cons_self
      have hlast : ∀ v ∈ last, v.gate = l.gate →
          v.us * 1000 + l.cadence.intervalNs ≤ us * 1000 := by
        intro v hv hgate
        obtain rfl : last = some v := hv
        exact List.IsChain.rel hapart hgate
      have hrest : List.IsChain Apart
          ((some (⟨l.gate, l.cadence, us, (l.cadence.admitAt us).2⟩ : Verdict)).toList ++
            Loop.run ⟨(l.cadence.admitAt us).1, l.gate⟩ rest) := hapart.right_of_append
      intro v hv
      rcases List.mem_cons.mp hv with rfl | hv
      · exact ho.admitted h0 hus0 hlast
      · exact ih ⟨(l.cadence.admitAt us).1, l.gate⟩ _ (by simpa using h0)
          (ho.next h0 hus0 hlast) (fun v hv => hus v (List.mem_cons_of_mem _ hv)) hrest v hv

section Span

variable (start span : Int)

theorem admittedIn_cons (gate : Nat) (v : Verdict) (rest : List Verdict) :
    admittedIn gate start span (v :: rest) = admittedIn gate start span rest +
      if v.gate = gate ∧ v.admitted = true ∧ start ≤ v.us ∧ v.us ≤ start + span then 1
      else 0 := by
  unfold admittedIn
  rw [List.countP_cons]
  simp [and_assoc]

variable {v : Verdict}

variable (events : List Event)

theorem gate_le_of_mem_run (l : Loop)
    (hv : v ∈ l.run events) : l.gate ≤ v.gate := by
  induction events generalizing l with
  | nil => cases hv
  | cons e rest ih =>
    cases e with
    | chosen rate =>
      have hle : l.gate + 1 ≤ v.gate := ih ⟨rate.gate, l.gate + 1⟩ hv
      omega
    | present us =>
      rw [run_present] at hv
      rcases List.mem_cons.mp hv with rfl | hv
      · exact le_rfl
      · exact ih ⟨(l.cadence.admitAt us).1, l.gate⟩ hv

theorem admittedIn_replaced {events : List Event} {l : Loop} {gate : Nat} (h : gate < l.gate) :
    admittedIn gate start span (l.run events) = 0 := by
  unfold admittedIn
  rw [List.countP_eq_zero]
  intro v hv
  have hle := gate_le_of_mem_run events l hv
  simp only [Bool.and_eq_true, decide_eq_true_eq, not_and]
  omega

/-- Each further admission of the span moves the tick on by an interval, and it stays within
the slack of the span's end. -/
theorem ticks_of_span (l : Loop) (h : l.cadence.enabled = true)
    (hr : 0 ≤ l.cadence.reanchorNs) (hpos : 0 < admittedIn l.gate start span (l.run events)) :
    l.cadence.nextDueNs + (admittedIn l.gate start span (l.run events) - 1) *
      l.cadence.intervalNs ≤ (start + span) * 1000 + l.cadence.slackUs * 1000 := by
  induction events generalizing l with
  | nil => cases hpos
  | cons e rest ih =>
    cases e with
    | chosen rate =>
      rw [run_chosen, admittedIn_replaced start span (Nat.lt_succ_self l.gate)] at hpos
      cases hpos
    | present us =>
      have hinterval : 0 < l.cadence.intervalNs := by simpa [enabled] using h
      have henabled : (l.cadence.admitAt us).1.enabled = true := by simpa [enabled] using h
      have hlater := ih ⟨(l.cadence.admitAt us).1, l.gate⟩ henabled (by simpa using hr)
      simp only [admitAt_slackUs, admitAt_intervalNs] at hlater
      rw [run_present, admittedIn_cons] at hpos ⊢
      dsimp only at hpos ⊢
      generalize admittedIn l.gate start span
        (Loop.run ⟨(l.cadence.admitAt us).1, l.gate⟩ rest) = count at hlater hpos ⊢
      by_cases hin : l.gate = l.gate ∧ (l.cadence.admitAt us).2 = true ∧ start ≤ us ∧
          us ≤ start + span
      · rw [if_pos hin] at hpos ⊢
        have hdue := (admitted_iff h us).mp hin.2.1
        have hnext := nextDueNs_admitted h us hin.2.1
        have hmoved : l.cadence.nextDueNs + l.cadence.intervalNs ≤
            (l.cadence.admitAt us).1.nextDueNs := by
          rw [hnext]
          split_ifs
          · omega
          · omega
        rcases Nat.eq_zero_or_pos count with hzero | hcount
        · rw [hzero]
          push_cast
          omega
        · have hrest := hlater hcount
          have hsplit : ((count + 1 : Nat) - 1 : Int) * l.cadence.intervalNs =
              (count - 1) * l.cadence.intervalNs + l.cadence.intervalNs := by
            push_cast
            ring
          rw [hsplit]
          omega
      · rw [if_neg hin, Nat.add_zero] at hpos ⊢
        have hrest := hlater hpos
        have hmono := nextDueNs_mono hinterval.le hr us
        omega

/-- From the first admission of the span on, the grid starts at most the re-anchoring
threshold before the span. -/
theorem admissions_of_gate (l : Loop) (h : l.cadence.enabled = true)
    (hr : 0 ≤ l.cadence.reanchorNs) (hspan : 0 ≤ span) :
    (admittedIn l.gate start span (l.run events) - 1) * l.cadence.intervalNs ≤
      span * 1000 + l.cadence.slackUs * 1000 + l.cadence.reanchorNs := by
  have hinterval : 0 < l.cadence.intervalNs := by simpa [enabled] using h
  have hslack := slackUs_nonneg hinterval.le
  induction events generalizing l with
  | nil =>
    change (((0 : Nat) : Int) - 1) * l.cadence.intervalNs ≤ _
    push_cast
    omega
  | cons e rest ih =>
    cases e with
    | chosen rate =>
      rw [run_chosen, admittedIn_replaced start span (Nat.lt_succ_self l.gate)]
      push_cast
      omega
    | present us =>
      have henabled : (l.cadence.admitAt us).1.enabled = true := by simpa [enabled] using h
      have hlater := ih ⟨(l.cadence.admitAt us).1, l.gate⟩ henabled (by simpa using hr)
        (by simpa using hinterval) (by simpa using hslack)
      have hticks := ticks_of_span start span rest ⟨(l.cadence.admitAt us).1, l.gate⟩ henabled
        (by simpa using hr)
      simp only [admitAt_slackUs, admitAt_intervalNs, admitAt_reanchorNs] at hlater hticks
      rw [run_present, admittedIn_cons]
      dsimp only
      generalize admittedIn l.gate start span
        (Loop.run ⟨(l.cadence.admitAt us).1, l.gate⟩ rest) = count at hlater hticks ⊢
      by_cases hin : l.gate = l.gate ∧ (l.cadence.admitAt us).2 = true ∧ start ≤ us ∧
          us ≤ start + span
      · rw [if_pos hin]
        have hnext := nextDueNs_admitted h us hin.2.1
        have hmoved : start * 1000 - l.cadence.reanchorNs + l.cadence.intervalNs ≤
            (l.cadence.admitAt us).1.nextDueNs := by
          rw [hnext]
          split_ifs
          · omega
          · omega
        rcases Nat.eq_zero_or_pos count with hzero | hcount
        · rw [hzero]
          push_cast
          omega
        · have hrest := hticks hcount
          have hsplit : ((count + 1 : Nat) - 1 : Int) * l.cadence.intervalNs =
              (count - 1) * l.cadence.intervalNs + l.cadence.intervalNs := by
            push_cast
            ring
          rw [hsplit]
          omega
      · rw [if_neg hin, Nat.add_zero]
        exact hlater

/-- The verdicts of a gate name its interval, its slack and its threshold. -/
theorem params_of_gate (l : Loop) (hv : v ∈ l.run events)
    (hgate : v.gate = l.gate) :
    v.cadence.intervalNs = l.cadence.intervalNs ∧ v.cadence.slackUs = l.cadence.slackUs ∧
      v.cadence.reanchorNs = l.cadence.reanchorNs := by
  induction events generalizing l with
  | nil => cases hv
  | cons e rest ih =>
    cases e with
    | chosen rate =>
      have hle : l.gate + 1 ≤ v.gate := gate_le_of_mem_run rest ⟨rate.gate, l.gate + 1⟩ hv
      omega
    | present us =>
      rw [run_present] at hv
      rcases List.mem_cons.mp hv with rfl | hv
      · exact ⟨rfl, rfl, rfl⟩
      · simpa using ih ⟨(l.cadence.admitAt us).1, l.gate⟩ hv hgate

theorem admissions_of_span (l : Loop) (h0 : 0 ≤ l.cadence.intervalNs)
    (hr : 0 ≤ l.cadence.reanchorNs) (hspan : 0 ≤ span) (hv : v ∈ l.run events)
    (h : v.cadence.enabled = true) :
    (admittedIn v.gate start span (l.run events) - 1) * v.cadence.intervalNs ≤
      span * 1000 + v.cadence.slackUs * 1000 + v.cadence.reanchorNs := by
  by_cases hgate : v.gate = l.gate
  · obtain ⟨hinterval, hslack, hreanchor⟩ := params_of_gate events l hv hgate
    have hon : l.cadence.enabled = true := by simpa [enabled, ← hinterval] using h
    rw [hgate, hinterval, hslack, hreanchor]
    exact admissions_of_gate start span events l hon hr hspan
  · induction events generalizing l with
    | nil => cases hv
    | cons e rest ih =>
      cases e with
      | chosen rate =>
        have hfresh := rate.fresh
        by_cases hnext : v.gate = l.gate + 1
        · obtain ⟨hinterval, hslack, hreanchor⟩ :=
            params_of_gate rest ⟨rate.gate, l.gate + 1⟩ hv hnext
          change v.cadence.intervalNs = rate.gate.intervalNs at hinterval
          have hon : rate.gate.enabled = true := by simpa [enabled, ← hinterval] using h
          rw [run_chosen, hnext, hinterval, hslack, hreanchor]
          exact admissions_of_gate start span rest ⟨rate.gate, l.gate + 1⟩ hon
            hfresh.reanchor hspan
        · exact ih ⟨rate.gate, l.gate + 1⟩ hfresh.interval hfresh.reanchor hv hnext
      | present us =>
        rw [run_present] at hv ⊢
        rcases List.mem_cons.mp hv with rfl | hv
        · exact absurd rfl hgate
        · rw [admittedIn_cons, if_neg (fun hin => hgate hin.1.symm), Nat.add_zero]
          exact ih ⟨(l.cadence.admitAt us).1, l.gate⟩ (by simpa using h0) (by simpa using hr)
            hv hgate

end Span

/-- Presents an interval apart are all admitted, whatever gates are chosen; and of any span a
gate admits no more than the span, its slack and its re-anchoring threshold hold intervals,
and one. -/
theorem admissions (rate : Rate) (events : List Event) :
    ((∀ v ∈ session rate events, 0 ≤ v.us) → List.IsChain Apart (session rate events) →
      ∀ v ∈ session rate events, v.admitted = true) ∧
    ∀ v ∈ session rate events, v.cadence.enabled = true → ∀ start span : Int, 0 ≤ span →
      (admittedIn v.gate start span (session rate events) : Int) ≤
        (span * 1000 + v.cadence.slackUs * 1000 + v.cadence.reanchorNs) / v.cadence.intervalNs +
          1 := by
  have hfresh := rate.fresh
  constructor
  · intro hus hapart
    exact run_admitted events ⟨rate.gate, 0⟩ none hfresh.interval (Or.inl hfresh.due.le) hus hapart
  · intro v hv h start span hspan
    have hinterval : 0 < v.cadence.intervalNs := by simpa [enabled] using h
    have hbound := admissions_of_span start span events ⟨rate.gate, 0⟩ hfresh.interval
      hfresh.reanchor hspan hv h
    have hdiv := (Int.le_ediv_iff_mul_le hinterval).mpr hbound
    change (admittedIn v.gate start span (Loop.run ⟨rate.gate, 0⟩ events) : Int) ≤ _
    omega

/-- Half a second of presents at 20 a second through a gate at 20, which all go. -/
theorem admissions_steady :
    ∀ v ∈ session (.fps 20 60) [.present 0, .present 50000, .chosen (.ceiling 50000000 20),
      .present 60000, .present 110000], v.admitted = true :=
  (admissions (.fps 20 60) [.present 0, .present 50000, .chosen (.ceiling 50000000 20),
    .present 60000, .present 110000]).1 (by decide) (by decide)

/-- A stream at 30 of a display at 60 Hz: a present a display period late and the next one
are both admitted, in half an interval. -/
theorem two_of_one_interval :
    admittedIn 0 1049999 16666
        (session (.fps 30 60) [.present 1000000, .present 1049999, .present 1066665]) = 2 ∧
      (16666 * 1000 + (Rate.fps 30 60).gate.slackUs * 1000) / (Rate.fps 30 60).gate.intervalNs +
        1 = 1 := by
  decide

end FrameCadence

end MoonlightWeb.NativeHost
