import Mathlib
import MoonlightWeb.Lib.Run

/-! # Shy recovery

A control that steps down under pressure and raises again after a wait in the clear. Each
raise is a bet: the wait doubles when a step down undoes it within the time of regret. What
the control did is a log of its readings; what its clocks have to know of that log is here,
and the step that charges one bet twice.
-/

namespace MoonlightWeb.Lib.ShyRecovery

inductive Move where
  | raise
  | down
  deriving DecidableEq

/-- A reading, whether it counts as clear, and the move made on it. -/
structure Reading where
  now : ℚ
  clear : Bool
  move : Option Move
  deriving DecidableEq

structure Bet where
  raisedAt : ℚ
  undone : Bool
  deriving DecidableEq

def placed (bet : Option Bet) (r : Reading) : Option Bet :=
  match r.move with
  | some .raise => some ⟨r.now, false⟩
  | some .down => bet.map (fun b => { b with undone := true })
  | none => bet

variable (log : List Reading)

def lastBet : Option Bet := log.foldl placed none

def cleared (since : Option ℚ) (r : Reading) : Option ℚ :=
  if r.clear = true ∧ r.move = none then some (since.getD r.now) else none

def clearSince : Option ℚ := log.foldl cleared none

@[simp] theorem lastBet_snoc (r : Reading) :
    lastBet (log ++ [r]) = placed (lastBet log) r := by
  rw [lastBet, List.foldl_append]
  rfl

@[simp] theorem clearSince_snoc (r : Reading) :
    clearSince (log ++ [r]) = cleared (clearSince log) r := by
  rw [clearSince, List.foldl_append]
  rfl

structure Tunables where
  settle : ℚ
  regret : ℚ
  max : ℚ

section
variable (k : Tunables)

variable (log : List Reading)

/-- A step down at `now` undoes a raise within the time of regret. -/
def Undoes (now : ℚ) : Prop :=
  ∃ b, lastBet log = some b ∧ b.undone = false ∧ now - b.raisedAt < k.regret

/-- The last raise is still within the time of regret, and undone already. -/
def Spent (now : ℚ) : Prop :=
  ∃ b, lastBet log = some b ∧ b.undone = true ∧ now - b.raisedAt < k.regret

open Classical in
/-- A reading after a log, and the recovery wait before and after it. -/
structure Shy (log : List Reading) (r : Reading) (wait wait' : ℚ) : Prop where
  apart : r.move ≠ none → ∀ e ∈ log, e.move ≠ none → k.settle ≤ r.now - e.now
  waited : r.move = some .raise → r.clear = true ∧ wait ≤ r.now - (clearSince log).getD r.now
  mono : wait ≤ wait'
  le_max : wait' ≤ k.max
  doubled : wait' = if r.move = some .down ∧ Undoes k log r.now then min k.max (2 * wait) else wait

/-- A step down does not come within the time of regret of a raise that is undone already,
unless the wait is as long as it gets. -/
def BetsOnce (r : Reading) (wait : ℚ) : Prop :=
  r.move = some .down → wait < k.max → ¬ Spent k log r.now

structure Timers where
  recoverSince : ℚ
  lastRaise : ℚ
  settleUntil : ℚ
  wait : ℚ

/-- The wait after a step down. -/
def Timers.afterDown (t : Timers) (now : ℚ) : ℚ :=
  if t.lastRaise ≠ 0 ∧ now - t.lastRaise < k.regret then min k.max (t.wait * 2) else t.wait

/-- What one reading may do to the clocks. -/
inductive Tick (t : Timers) (r : Reading) : Timers → Prop
  | lapse : r.move = none → r.clear = false → Tick t r { t with recoverSince := 0 }
  | count : r.move = none → r.clear = true → t.settleUntil ≤ r.now →
      Tick t r { t with recoverSince := if t.recoverSince = 0 then r.now else t.recoverSince }
  | raise : r.move = some .raise → r.clear = true → t.settleUntil ≤ r.now →
      t.wait ≤ r.now - (if t.recoverSince = 0 then r.now else t.recoverSince) →
      Tick t r
        { t with recoverSince := 0, lastRaise := r.now, settleUntil := r.now + k.settle }
  | down : r.move = some .down → r.clear = false → t.settleUntil ≤ r.now →
      Tick t r
        { t with recoverSince := 0, settleUntil := r.now + k.settle, wait := t.afterDown k r.now }

/-- The clocks say of the log what they have to. -/
structure Books (log : List Reading) (t : Timers) : Prop where
  since : clearSince log = if t.recoverSince = 0 then none else some t.recoverSince
  bet : (lastBet log).map Bet.raisedAt = if t.lastRaise = 0 then none else some t.lastRaise
  settled : ∀ e ∈ log, e.move ≠ none → e.now + k.settle ≤ t.settleUntil
  running : t.recoverSince ≠ 0 → t.settleUntil ≤ t.recoverSince ∧ ∃ e ∈ log, t.recoverSince = e.now
  wait_pos : 0 < t.wait
  wait_le : t.wait ≤ k.max

end

section
variable {k : Tunables} {log : List Reading} {t t' : Timers} {r : Reading}

theorem Books.start {wait : ℚ} (hpos : 0 < wait) (hle : wait ≤ k.max) :
    Books k [] ⟨0, 0, 0, wait⟩ where
  since := rfl
  bet := rfl
  settled := fun _ he => absurd he List.not_mem_nil
  running := fun h => absurd rfl h
  wait_pos := hpos
  wait_le := hle

theorem Timers.le_afterDown (hpos : 0 < t.wait) (hle : t.wait ≤ k.max) (now : ℚ) :
    t.wait ≤ t.afterDown k now ∧ t.afterDown k now ≤ k.max := by
  unfold Timers.afterDown
  split_ifs
  · exact ⟨le_min hle (by linarith), min_le_left _ _⟩
  · exact ⟨le_rfl, hle⟩

theorem Books.not_running (hb : Books k log t) (hlast : ∀ e ∈ log, e.now ≤ r.now)
    (hsettling : r.now < t.settleUntil) : t.recoverSince = 0 := by
  by_contra hrunning
  obtain ⟨hle, e, he, heq⟩ := hb.running hrunning
  have hnow := hlast e he
  rw [← heq] at hnow
  linarith

theorem Books.since_getD (hb : Books k log t) :
    (clearSince log).getD r.now = if t.recoverSince = 0 then r.now else t.recoverSince := by
  rw [hb.since]
  split_ifs <;> rfl

/-- The clock of the last raise runs exactly when there is a bet, and shows its time. -/
theorem Books.regret_iff (hb : Books k log t) (now : ℚ) :
    (t.lastRaise ≠ 0 ∧ now - t.lastRaise < k.regret) ↔ Undoes k log now ∨ Spent k log now := by
  have hbet := hb.bet
  constructor
  · rintro ⟨hraised, hregret⟩
    rw [if_neg hraised] at hbet
    obtain ⟨b, hb, hat⟩ := Option.map_eq_some_iff.mp hbet
    rw [← hat] at hregret
    cases hundone : b.undone with
    | false => exact Or.inl ⟨b, hb, hundone, hregret⟩
    | true => exact Or.inr ⟨b, hb, hundone, hregret⟩
  · intro hbets
    obtain ⟨b, hlast, hregret⟩ : ∃ b, lastBet log = some b ∧ now - b.raisedAt < k.regret := by
      rcases hbets with ⟨b, hlast, -, hregret⟩ | ⟨b, hlast, -, hregret⟩
      · exact ⟨b, hlast, hregret⟩
      · exact ⟨b, hlast, hregret⟩
    rw [hlast, Option.map_some] at hbet
    by_cases hraised : t.lastRaise = 0
    · rw [if_pos hraised] at hbet
      cases hbet
    · rw [if_neg hraised] at hbet
      rw [Option.some.inj hbet] at hregret
      exact ⟨hraised, hregret⟩

theorem not_undoes_of_spent {now : ℚ} (h : Spent k log now) : ¬ Undoes k log now := by
  rintro ⟨b, hlast, hopen, -⟩
  obtain ⟨b', hlast', hundone, -⟩ := h
  rw [hlast] at hlast'
  cases hlast'
  rw [hopen] at hundone
  cases hundone

/-- The books are kept from reading to reading. -/
theorem Books.tick (hb : Books k log t) (hpos : 0 < r.now)
    (hlast : ∀ e ∈ log, e.now ≤ r.now) (htick : Tick k t r t') : Books k (log ++ [r]) t' := by
  have hmem : ∀ {P : Reading → Prop}, (∀ e ∈ log, P e) → P r → ∀ e ∈ log ++ [r], P e := by
    intro P hlog hr e he
    rcases List.mem_append.mp he with he | he
    · exact hlog e he
    · rw [List.mem_singleton.mp he]
      exact hr
  have hearlier : t.settleUntil ≤ r.now → ∀ e ∈ log, e.move ≠ none →
      e.now + k.settle ≤ r.now + k.settle := by
    intro _ e he _
    linarith [hlast e he]
  cases htick with
  | lapse hmove hclear =>
    refine ⟨?_, ?_, hmem hb.settled (fun h => absurd hmove h), fun h => absurd rfl h, hb.wait_pos,
      hb.wait_le⟩
    · rw [clearSince_snoc, cleared, if_neg (fun h => by rw [hclear] at h; cases h.1), if_pos rfl]
    · rw [lastBet_snoc, placed, hmove]
      exact hb.bet
  | count hmove hclear hsettled =>
    have hsince : (if t.recoverSince = 0 then r.now else t.recoverSince) ≠ 0 := by
      split_ifs with h
      · exact ne_of_gt hpos
      · exact h
    refine ⟨?_, ?_, hmem hb.settled (fun h => absurd hmove h), fun _ => ?_, hb.wait_pos,
      hb.wait_le⟩
    · rw [clearSince_snoc, cleared, if_pos ⟨hclear, hmove⟩, hb.since_getD, if_neg hsince]
    · rw [lastBet_snoc, placed, hmove]
      exact hb.bet
    · dsimp only
      split_ifs with h
      · exact ⟨hsettled, r, List.mem_append_right _ (List.mem_singleton_self r), rfl⟩
      · obtain ⟨hle, e, he, heq⟩ := hb.running h
        exact ⟨hle, e, List.mem_append_left _ he, heq⟩
  | raise hmove hclear hsettled _ =>
    refine ⟨?_, ?_, hmem (hearlier hsettled) (fun _ => le_rfl), fun h => absurd rfl h, hb.wait_pos,
      hb.wait_le⟩
    · rw [clearSince_snoc, cleared, if_neg (fun h => by rw [hmove] at h; cases h.2), if_pos rfl]
    · rw [lastBet_snoc, placed, hmove, if_neg (ne_of_gt hpos)]
      rfl
  | down hmove hclear hsettled =>
    obtain ⟨hle, hmax⟩ := Timers.le_afterDown hb.wait_pos hb.wait_le r.now
    refine ⟨?_, ?_, hmem (hearlier hsettled) (fun _ => le_rfl), fun h => absurd rfl h,
      hb.wait_pos.trans_le hle, hmax⟩
    · rw [clearSince_snoc, cleared, if_neg (fun h => by rw [hmove] at h; cases h.2), if_pos rfl]
    · rw [lastBet_snoc, placed, hmove, ← hb.bet, Option.map_map]
      rfl

theorem Books.shy_iff (hb : Books k log t) (htick : Tick k t r t') :
    Shy k log r t.wait t'.wait ↔ BetsOnce k log r t.wait := by
  have hapart : t.settleUntil ≤ r.now → r.move ≠ none →
      ∀ e ∈ log, e.move ≠ none → k.settle ≤ r.now - e.now := by
    intro hsettled _ e he hmoved
    linarith [hb.settled e he hmoved]
  have hquiet : ∀ {m : Option Move}, r.move = m → m ≠ some .down →
      (r.move ≠ none → ∀ e ∈ log, e.move ≠ none → k.settle ≤ r.now - e.now) →
      (r.move = some .raise →
        r.clear = true ∧ t.wait ≤ r.now - (clearSince log).getD r.now) →
      (Shy k log r t.wait t.wait ↔ BetsOnce k log r t.wait) := by
    rintro m rfl hdown hmoves hraises
    refine ⟨fun _ hmove => absurd hmove hdown, fun _ => ⟨hmoves, hraises, le_rfl, hb.wait_le, ?_⟩⟩
    rw [if_neg (fun h => hdown h.1)]
  cases htick with
  | lapse hmove hclear =>
    exact hquiet hmove (nomatch ·) (fun h => absurd hmove h)
      (fun h => absurd (hmove.symm.trans h) (nomatch ·))
  | count hmove hclear hsettled =>
    exact hquiet hmove (nomatch ·) (fun h => absurd hmove h)
      (fun h => absurd (hmove.symm.trans h) (nomatch ·))
  | raise hmove hclear hsettled hwaited =>
    refine hquiet hmove (nomatch ·) (hapart hsettled) (fun _ => ⟨hclear, ?_⟩)
    rw [hb.since_getD]
    exact hwaited
  | down hmove hclear hsettled =>
    obtain ⟨hle, hmax⟩ := Timers.le_afterDown hb.wait_pos hb.wait_le r.now
    have hregret := hb.regret_iff r.now
    constructor
    · -- a second charge lengthens a wait that is not at its maximum
      intro hshy _ hshort hspent
      have hsame := hshy.doubled
      rw [if_neg (fun h => not_undoes_of_spent hspent h.2)] at hsame
      dsimp only [Timers.afterDown] at hsame
      rw [if_pos (hregret.mpr (Or.inr hspent))] at hsame
      have hlonger : t.wait < min k.max (t.wait * 2) := lt_min hshort (by linarith [hb.wait_pos])
      exact absurd hsame (ne_of_gt hlonger)
    · intro honce
      refine ⟨hapart hsettled, fun h => absurd (hmove.symm.trans h) (nomatch ·), hle, hmax, ?_⟩
      dsimp only [Timers.afterDown]
      by_cases hcharged : t.lastRaise ≠ 0 ∧ r.now - t.lastRaise < k.regret
      · rw [if_pos hcharged]
        by_cases hundoes : Undoes k log r.now
        · rw [if_pos ⟨hmove, hundoes⟩, mul_comm]
        · have hspent := (hregret.mp hcharged).resolve_left hundoes
          have hlong := not_lt.mp (fun hshort => honce hmove hshort hspent)
          rw [if_neg (fun h => hundoes h.2), min_eq_left (by linarith [hb.wait_pos])]
          exact le_antisymm hlong hb.wait_le
      · rw [if_neg hcharged, if_neg (fun h => hcharged (hregret.mpr (Or.inl h.2)))]

end

/-- A control with what it makes of a reading and the clocks it has. -/
structure Control (γ ω : Type*) where
  update : γ → ω → γ
  reading : γ → ω → Reading
  timers : γ → Timers

structure Watched (γ : Type*) where
  control : γ
  log : List Reading

section
variable {γ ω : Type*} (c : Control γ ω)

/-- A reading at a positive time that is no earlier than those before it. -/
def Control.observe (w : Watched γ) (o : ω) : Option (Watched γ) :=
  if 0 < (c.reading w.control o).now ∧ ∀ e ∈ w.log, e.now ≤ (c.reading w.control o).now then
    some ⟨c.update w.control o, w.log ++ [c.reading w.control o]⟩
  else none

/-- A step of the control is as promised, and its state within bounds after it. -/
def Control.Promised (k : Tunables) (Bounds : γ → Prop) (w : Watched γ) (o : ω) (w' : Watched γ) :
    Prop :=
  Bounds w'.control ∧
    Shy k w.log (c.reading w.control o) (c.timers w.control).wait (c.timers w'.control).wait

/-- A step down that is due does not come within the time of regret of a raise that is undone
already, unless the wait is as long as it gets. -/
def Control.BetsOnce (k : Tunables) (due : γ → ω → Prop) (w : Watched γ) (o : ω)
    (_ : Watched γ) : Prop :=
  due w.control o → (c.timers w.control).wait < k.max →
    ¬ Spent k w.log (c.reading w.control o).now

/-- Along a run every step is as promised exactly when none charges a bet twice. -/
theorem Control.promised_iff {k : Tunables} {Bounds Sane : γ → Prop} {due : γ → ω → Prop}
    (hbounds : ∀ g, Sane g → Bounds g)
    (htick : ∀ g o log, Sane g → Books k log (c.timers g) → 0 < (c.reading g o).now →
      (∀ e ∈ log, e.now ≤ (c.reading g o).now) →
      Tick k (c.timers g) (c.reading g o) (c.timers (c.update g o)) ∧
        ((c.reading g o).move = some .down ↔ due g o) ∧ Sane (c.update g o))
    {g : γ} (hsane : Sane g) (hbooks : Books k [] (c.timers g)) (readings : List ω) :
    EachStep (moves c.observe) (c.Promised k Bounds) ⟨g, []⟩ readings ↔
      EachStep (moves c.observe) (c.BetsOnce k due) ⟨g, []⟩ readings := by
  have hstep : ∀ w o w', Sane w.control ∧ Books k w.log (c.timers w.control) →
      moves c.observe w o w' →
      Tick k (c.timers w.control) (c.reading w.control o) (c.timers w'.control) ∧
        ((c.reading w.control o).move = some .down ↔ due w.control o) ∧
        Sane w'.control ∧ Books k w'.log (c.timers w'.control) := by
    rintro w o w' ⟨hw, hb⟩ hmove
    have hmove : c.observe w o = some w' := hmove
    unfold Control.observe at hmove
    split_ifs at hmove with htimes
    cases hmove
    obtain ⟨ht, hdue, hs⟩ := htick w.control o w.log hw hb htimes.1 htimes.2
    exact ⟨ht, hdue, hs, hb.tick htimes.1 htimes.2 ht⟩
  refine @eachStep_iff _ _ (moves c.observe) _
    (fun w => Sane w.control ∧ Books k w.log (c.timers w.control)) (fun _ => True) _ _
    (fun w o w' hw hmove => (hstep w o w' hw hmove).2.2) (fun _ _ _ _ _ => trivial) ?_
    ⟨hsane, hbooks⟩ trivial readings
  intro w o w' hw _ hmove
  obtain ⟨ht, hdue, hs, -⟩ := hstep w o w' hw hmove
  have hshy := hw.2.shy_iff ht
  constructor
  · intro hpromised hd
    exact hshy.mp hpromised.2 (hdue.mpr hd)
  · intro honce
    exact ⟨hbounds w'.control hs, hshy.mpr (fun hdown => honce (hdue.mp hdown))⟩

end

end MoonlightWeb.Lib.ShyRecovery
