import MoonlightWeb.Lib.MachineInt

/-! # Wheel travel

A wheel amount is a signed 16-bit number of 120ths of a notch. The shim holds back what is
not a whole notch while it quantizes, and sends a held amount with the next exact one; the
native Linux sink divides each amount by itself. Travel is conserved when what was sent and
what is held add up to what was received, at every moment of a run.
-/

namespace MoonlightWeb.Streaming.WheelTravel

open Lib (Fault)
open Lib.MachineInt

def kWheelDelta : Int := 120
def kMaxNotches : Int := (32767 : Int).tdiv kWheelDelta

/-- A `short`. -/
abbrev Short := { x : Int // Fits 16 x }

def qBound (lo x hi : Int) : Int :=
  max lo (min x hi)

def quantizeScroll (amount carry : Int) : Except Fault (Int × Int) := do
  let carry ← add 32 carry amount
  let notches := carry.tdiv kWheelDelta
  if notches = 0 then
    return (0, carry)
  else
    let notches := qBound (-kMaxNotches) notches kMaxNotches
    let carry ← sub 32 carry (notches * kWheelDelta)
    return (notches * kWheelDelta, carry)

def exactScroll (amount carry : Int) : Except Fault (Int × Int) := do
  let total ← add 32 carry amount
  return (qBound (-32768) total 32767, 0)

inductive Axis
  | vertical
  | horizontal
deriving DecidableEq, Repr

structure Shim where
  connected : Bool := false
  quantizeScroll : Bool := true
  vScrollCarry : Int := 0
  hScrollCarry : Int := 0
deriving DecidableEq, Repr

variable (s : Shim)

def Shim.carry : Axis → Int
  | .vertical => s.vScrollCarry
  | .horizontal => s.hScrollCarry

def Shim.setCarry (carry : Int) : Axis → Shim
  | .vertical => { s with vScrollCarry := carry }
  | .horizontal => { s with hScrollCarry := carry }

/-- What a connected shim makes of an amount: what to send, and the carry left. -/
def scroll (axis : Axis) (amount : Int) : Except Fault (Int × Int) :=
  if s.quantizeScroll then quantizeScroll amount (s.carry axis)
  else exactScroll amount (s.carry axis)

/-- The event handed to the connection, if one is. -/
def sendScroll (axis : Axis) (amount : Int) : Except Fault (Shim × Option Int) :=
  if !s.connected then
    return (s, none)
  else do
    let (amount, carry) ← scroll s axis amount
    return (s.setCarry carry axis, if amount = 0 then none else some amount)

def sendMouseScroll (amount : Int) : Except Fault (Shim × Option Int) :=
  sendScroll s .vertical amount

def sendMouseHScroll (amount : Int) : Except Fault (Shim × Option Int) :=
  sendScroll s .horizontal amount

inductive Op
  | connected (on : Bool)
  | setScrollQuantization (enabled : Bool)
  | scroll (axis : Axis) (amount : Short)

/-- The shim beside the travel it received while connected and the travel it sent. -/
structure Travel where
  shim : Shim := {}
  received : Axis → Int := fun _ => 0
  sent : Axis → Int := fun _ => 0

def credit (totals : Axis → Int) (axis : Axis) (amount : Int) : Axis → Int :=
  fun a => if a = axis then totals a + amount else totals a

variable (t : Travel)

def step : Op → Except Fault Travel
  | .connected on => return { t with shim := { t.shim with connected := on } }
  | .setScrollQuantization enabled =>
      return { t with shim := { t.shim with quantizeScroll := enabled } }
  | .scroll axis amount => do
      let (shim, event) ← match axis with
        | .vertical => sendMouseScroll t.shim amount.val
        | .horizontal => sendMouseHScroll t.shim amount.val
      return {
        shim := shim
        received := if t.shim.connected then credit t.received axis amount.val else t.received
        sent := credit t.sent axis (event.getD 0) }

/-- What was sent and what is held add up to what was received. -/
def Conserved : Prop :=
  ∀ axis, t.sent axis + t.shim.carry axis = t.received axis

/-- A scroll while quantization is on sends whole notches, and holds back less than one
unless the packet took as many as it can. -/
def Notched : Op → Travel → Prop
  | .scroll axis _, u =>
      t.shim.connected = true → t.shim.quantizeScroll = true →
        kWheelDelta ∣ u.sent axis - t.sent axis ∧
          ((u.shim.carry axis).natAbs < 120 ∨ (u.sent axis - t.sent axis).natAbs = 32760)
  | _, _ => True

/-- Every operation is defined, conserves travel and sends whole notches where it must. -/
def Lawful (t : Travel) : List Op → Prop
  | [] => True
  | op :: rest => ∃ u, step t op = .ok u ∧ Conserved u ∧ Notched t op u ∧ Lawful u rest

/-- An amount sent exactly fits the packet together with the carry; a quantized one the
carry itself. -/
def Fitting : Op → Prop
  | .scroll axis amount =>
      t.shim.connected = true →
        if t.shim.quantizeScroll then Fits 32 (t.shim.carry axis + amount.val)
        else Fits 16 (t.shim.carry axis + amount.val)
  | _ => True

/-- Every operation of the run fits. -/
def AllFitting (t : Travel) : List Op → Prop
  | [] => True
  | op :: rest => Fitting t op ∧ ∀ u, step t op = .ok u → AllFitting u rest

theorem fits_16_iff {x : Int} : Fits 16 x ↔ -32768 ≤ x ∧ x ≤ 32767 := by
  have hpow : (2 : Int) ^ (16 - 1) = 32768 := by norm_num
  unfold Fits
  rw [hpow]
  omega

theorem tdiv_notch (x : Int) :
    ∃ r, x = x.tdiv kWheelDelta * 120 + r ∧ r.natAbs < 120 ∧ (0 ≤ x → 0 ≤ r) ∧ (x ≤ 0 → r ≤ 0) := by
  have hsum := Int.mul_tdiv_add_tmod x kWheelDelta
  have hlt := Int.tmod_lt_of_pos x (show (0 : Int) < kWheelDelta by decide)
  have hgt := Int.lt_tmod_of_pos x (show (0 : Int) < kWheelDelta by decide)
  have hdelta : kWheelDelta = 120 := rfl
  refine ⟨x.tmod kWheelDelta, ?_, ?_, ?_, ?_⟩
  · rw [hdelta] at hsum ⊢
    omega
  · omega
  · exact fun h => Int.tmod_nonneg _ h
  · intro h
    have hneg := Int.tmod_nonneg kWheelDelta (show 0 ≤ -x by omega)
    rw [Int.neg_tmod] at hneg
    omega

variable {amount carry : Int}

theorem quantizeScroll_ok (h : Fits 32 (carry + amount)) :
    ∃ sent left, quantizeScroll amount carry = .ok (sent, left) ∧
      sent + left = carry + amount ∧ kWheelDelta ∣ sent ∧
      (left.natAbs < 120 ∨ sent.natAbs = 32760) := by
  obtain ⟨r, hsplit, hsmall, hpos, hneg⟩ := tdiv_notch (carry + amount)
  have hfits := fits_32_iff.mp h
  have hmax : kMaxNotches = 273 := by decide
  have hdelta : kWheelDelta = 120 := rfl
  unfold quantizeScroll
  rw [add_ok h, ok_bind]
  generalize hnotches : (carry + amount).tdiv kWheelDelta = notches at hsplit
  dsimp only
  by_cases hzero : notches = 0
  · rw [if_pos hzero]
    exact ⟨0, carry + amount, rfl, by omega, Int.dvd_zero _, Or.inl (by omega)⟩
  · rw [if_neg hzero]
    have hbound : (notches ≤ 273 ∧ -273 ≤ notches ∧
        qBound (-kMaxNotches) notches kMaxNotches = notches) ∨
        (273 < notches ∧ qBound (-kMaxNotches) notches kMaxNotches = 273) ∨
        (notches < -273 ∧ qBound (-kMaxNotches) notches kMaxNotches = -273) := by
      unfold qBound
      rw [hmax]
      omega
    generalize qBound (-kMaxNotches) notches kMaxNotches = bounded at hbound
    have hleft : Fits 32 (carry + amount - bounded * kWheelDelta) := by
      rw [hdelta, fits_32_iff]
      omega
    rw [sub_ok hleft, ok_bind]
    refine ⟨bounded * kWheelDelta, _, rfl, by omega, Int.dvd_mul_left _ _, ?_⟩
    rw [hdelta]
    omega

theorem quantizeScroll_error (h : ¬ Fits 32 (carry + amount)) :
    quantizeScroll amount carry = .error .overflow := by
  unfold quantizeScroll add
  rw [fit_error h]
  rfl

theorem exactScroll_ok (h : Fits 32 (carry + amount)) :
    exactScroll amount carry = .ok (qBound (-32768) (carry + amount) 32767, 0) := by
  unfold exactScroll
  rw [add_ok h, ok_bind]
  rfl

theorem exactScroll_error (h : ¬ Fits 32 (carry + amount)) :
    exactScroll amount carry = .error .overflow := by
  unfold exactScroll add
  rw [fit_error h]
  rfl

/-- The travel after a connected shim sent `sent` and kept `left` of an amount. -/
def settle (axis : Axis) (amount sent left : Int) : Travel where
  shim := t.shim.setCarry left axis
  received := credit t.received axis amount
  sent := credit t.sent axis sent

variable {t : Travel}

theorem step_scroll_off (h : t.shim.connected = false) (axis : Axis)
    (amount : Short) : ∃ u, step t (.scroll axis amount) = .ok u ∧ u.shim = t.shim ∧
      u.received = t.received ∧ ∀ a, u.sent a = t.sent a := by
  have hsend : sendScroll t.shim axis amount.val = .ok (t.shim, none) := by
    unfold sendScroll
    rw [h]
    rfl
  refine ⟨⟨t.shim, t.received, credit t.sent axis 0⟩, ?_, rfl, rfl, ?_⟩
  · unfold step sendMouseScroll sendMouseHScroll
    cases axis <;> simp [hsend, h]
  · intro a
    unfold credit
    dsimp only
    split <;> simp

theorem step_scroll_ok (h : t.shim.connected = true) {axis : Axis} {amount : Short}
    {sent left : Int} (hscroll : scroll t.shim axis amount.val = .ok (sent, left)) :
    step t (.scroll axis amount) = .ok (settle t axis amount.val sent left) := by
  have hsend : sendScroll t.shim axis amount.val =
      .ok (t.shim.setCarry left axis, if sent = 0 then none else some sent) := by
    unfold sendScroll
    rw [h, hscroll]
    rfl
  have hevent : (if sent = 0 then none else some sent : Option Int).getD 0 = sent := by
    split
    case isTrue hzero => exact hzero.symm
    case isFalse => rfl
  unfold step sendMouseScroll sendMouseHScroll settle
  cases axis <;> simp only [hsend, ok_bind, hevent, h, if_true] <;> rfl

theorem step_scroll_error (h : t.shim.connected = true) {axis : Axis}
    {amount : Short} {fault : Fault} (hscroll : scroll t.shim axis amount.val = .error fault) :
    step t (.scroll axis amount) = .error fault := by
  have hsend : sendScroll t.shim axis amount.val = .error fault := by
    unfold sendScroll
    rw [h, hscroll]
    rfl
  unfold step sendMouseScroll sendMouseHScroll
  cases axis <;> simp only [hsend, error_bind]

theorem carry_settle (t : Travel) (axis : Axis) (amount sent left : Int) (a : Axis) :
    (settle t axis amount sent left).shim.carry a = if a = axis then left else t.shim.carry a := by
  cases axis <;> cases a <;> rfl

/-- Travel is conserved by a scroll exactly when what it sends and leaves is all there was. -/
theorem conserved_settle_iff (h : Conserved t) (axis : Axis) (amount sent left : Int) :
    Conserved (settle t axis amount sent left) ↔ sent + left = t.shim.carry axis + amount := by
  have haxis := h axis
  constructor
  · intro hnext
    have hat := hnext axis
    rw [carry_settle, if_pos rfl] at hat
    simp only [settle, credit, if_true] at hat
    omega
  · intro hsum a
    have ha := h a
    rw [carry_settle]
    simp only [settle, credit]
    by_cases hsame : a = axis
    · subst hsame
      simp only [if_true]
      omega
    · simp only [if_neg hsame]
      exact ha

theorem step_lawful_iff (h : Conserved t) (op : Op) :
    (∃ u, step t op = .ok u ∧ Conserved u ∧ Notched t op u) ↔ Fitting t op := by
  cases op with
  | connected on => exact ⟨fun _ => trivial, fun _ => ⟨_, rfl, h, trivial⟩⟩
  | setScrollQuantization enabled => exact ⟨fun _ => trivial, fun _ => ⟨_, rfl, h, trivial⟩⟩
  | scroll axis amount =>
    cases hon : t.shim.connected with
    | false =>
      obtain ⟨u, hstep, hshim, hreceived, hsent⟩ := step_scroll_off hon axis amount
      constructor
      · intro _ hfalse
        exact absurd (hon.symm.trans hfalse) (by simp)
      · intro _
        refine ⟨u, hstep, ?_, fun htrue => absurd (hon.symm.trans htrue) (by simp)⟩
        intro a
        rw [hshim, hreceived, hsent]
        exact h a
    | true =>
      cases hquantize : t.shim.quantizeScroll with
      | true =>
        have hscroll : scroll t.shim axis amount.val =
            quantizeScroll amount.val (t.shim.carry axis) := if_pos hquantize
        by_cases hfits : Fits 32 (t.shim.carry axis + amount.val)
        · obtain ⟨sent, left, hok, hsum, hdvd, hleft⟩ := quantizeScroll_ok hfits
          refine ⟨fun _ _ => by rw [if_pos hquantize]; exact hfits, fun _ => ?_⟩
          refine ⟨_, step_scroll_ok hon (hscroll.trans hok),
            (conserved_settle_iff h axis _ _ _).mpr hsum, ?_⟩
          intro _ _
          rw [carry_settle, if_pos rfl]
          have hdelta : (settle t axis amount.val sent left).sent axis - t.sent axis =
              sent := by
            simp only [settle, credit, if_true]
            omega
          rw [hdelta]
          exact ⟨hdvd, hleft⟩
        · have herror := step_scroll_error hon (hscroll.trans (quantizeScroll_error hfits))
          constructor
          · rintro ⟨u, hstep, -⟩
            cases herror.symm.trans hstep
          · intro hfitting
            have := hfitting hon
            rw [if_pos hquantize] at this
            exact absurd this hfits
      | false =>
        have hscroll : scroll t.shim axis amount.val =
            exactScroll amount.val (t.shim.carry axis) := if_neg (by simp [hquantize])
        have hmode : Fitting t (.scroll axis amount) ↔
            Fits 16 (t.shim.carry axis + amount.val) := by
          unfold Fitting
          simp [hon, hquantize]
        rw [hmode]
        by_cases hwide : Fits 32 (t.shim.carry axis + amount.val)
        · have hok := step_scroll_ok hon (hscroll.trans (exactScroll_ok hwide))
          have hsum := conserved_settle_iff h axis amount.val
            (qBound (-32768) (t.shim.carry axis + amount.val) 32767) 0
          have hbound : qBound (-32768) (t.shim.carry axis + amount.val) 32767 + 0 =
              t.shim.carry axis + amount.val ↔
                Fits 16 (t.shim.carry axis + amount.val) := by
            rw [fits_16_iff]
            unfold qBound
            omega
          rw [← hbound, ← hsum]
          constructor
          · rintro ⟨u, hstep, hconserved, -⟩
            obtain rfl := Except.ok.inj (hok.symm.trans hstep)
            exact hconserved
          · intro hconserved
            refine ⟨_, hok, hconserved, fun _ htrue => ?_⟩
            exact absurd (hquantize.symm.trans htrue) (by simp)
        · have herror := step_scroll_error hon (hscroll.trans (exactScroll_error hwide))
          constructor
          · rintro ⟨u, hstep, -⟩
            cases herror.symm.trans hstep
          · intro hfits
            have := fits_16_iff.mp hfits
            exact absurd (fits_32_iff.mpr (by omega)) hwide

theorem lawful_iff (h : Conserved t) (ops : List Op) :
    Lawful t ops ↔ AllFitting t ops := by
  induction ops generalizing t with
  | nil => exact Iff.rfl
  | cons op rest ih =>
    have hone := step_lawful_iff h op
    constructor
    · rintro ⟨u, hstep, hconserved, hnotched, hrest⟩
      refine ⟨hone.mp ⟨u, hstep, hconserved, hnotched⟩, fun v hv => ?_⟩
      obtain rfl := Except.ok.inj (hstep.symm.trans hv)
      exact (ih hconserved).mp hrest
    · rintro ⟨hfitting, hrest⟩
      obtain ⟨u, hstep, hconserved, hnotched⟩ := hone.mpr hfitting
      exact ⟨u, hstep, hconserved, hnotched, (ih hconserved).mpr (hrest u hstep)⟩

variable (axis : Axis)

/-- The relative events `inject` emits for a wheel amount. -/
def inject (scrollAmount : Int) : List (Axis × Int) :=
  if scrollAmount ≠ 0 then [(axis, scrollAmount.tdiv 120)] else []

def total (events : List (Axis × Int)) : Int :=
  (events.map fun e => if e.1 = axis then e.2 else 0).sum

variable (events : List (Axis × Short))

def amounts : List (Axis × Int) :=
  events.map fun e => (e.1, e.2.val)

def emitted : List (Axis × Int) :=
  events.flatMap fun e => inject e.1 e.2.val

/-- What is left of each amount on division by a notch. -/
def remainders : List (Axis × Int) :=
  events.map fun e => (e.1, (e.2.val).tmod 120)

/-- The units emitted stay within a notch of the travel received, at every moment. -/
def SinkLawful : Prop :=
  ∀ before later, events = before ++ later → ∀ axis,
    (120 * total axis (emitted before) - total axis (amounts before)).natAbs < 120

/-- The remainders add up to less than a notch, at every moment. -/
def SinkFitting : Prop :=
  ∀ before later, events = before ++ later → ∀ axis,
    (total axis (remainders before)).natAbs < 120

theorem total_append (events more : List (Axis × Int)) :
    total axis (events ++ more) = total axis events + total axis more := by
  simp [total]

/-- What the sink never emits is what the divisions leave. -/
theorem total_amounts (events : List (Axis × Short)) :
    total axis (amounts events) =
      120 * total axis (emitted events) + total axis (remainders events) := by
  induction events with
  | nil => rfl
  | cons e rest ih =>
    have hsplit := Int.mul_tdiv_add_tmod e.2.val 120
    have hemitted : total axis (emitted (e :: rest)) =
        (if e.1 = axis then (e.2.val).tdiv 120 else 0) + total axis (emitted rest) := by
      unfold emitted inject
      rw [List.flatMap_cons, total_append]
      by_cases hzero : e.2.val = 0
      · simp [hzero, total]
      · simp [hzero, total]
    have hamounts : total axis (amounts (e :: rest)) =
        (if e.1 = axis then e.2.val else 0) + total axis (amounts rest) := rfl
    have hremainders : total axis (remainders (e :: rest)) =
        (if e.1 = axis then (e.2.val).tmod 120 else 0) + total axis (remainders rest) := rfl
    rw [hemitted, hamounts, hremainders, ih]
    split <;> omega

theorem sinkLawful_iff :
    SinkLawful events ↔ SinkFitting events := by
  have hsame : ∀ axis before,
      (120 * total axis (emitted before) - total axis (amounts before)).natAbs =
        (total axis (remainders before)).natAbs := by
    intro axis before
    rw [total_amounts]
    omega
  unfold SinkLawful SinkFitting
  simp only [hsame]

/-- Wheel travel is conserved by the shim exactly in the runs whose every scroll fits, and by
the Linux sink exactly in those whose remainders stay under a notch. -/
theorem wheel_lawful_iff (ops : List Op) (events : List (Axis × Short)) :
    (Lawful {} ops ↔ AllFitting {} ops) ∧ (SinkLawful events ↔ SinkFitting events) := by
  refine ⟨lawful_iff ?_ ops, sinkLawful_iff events⟩
  intro axis
  cases axis <;> rfl

/-- A hundred held back, then the most a packet takes sent exactly: the hundred is lost. And
two half notches reach no desktop. -/
theorem travel_lost :
    ¬ Lawful {} [.connected true, .scroll .vertical ⟨100, by decide⟩,
        .setScrollQuantization false, .scroll .vertical ⟨32767, by decide⟩] ∧
      ¬ SinkLawful [(.vertical, ⟨60, by decide⟩), (.vertical, ⟨60, by decide⟩)] := by
  constructor
  · rw [lawful_iff (by intro axis; cases axis <;> rfl)]
    intro hfitting
    have hlast := (((hfitting.2 _ rfl).2 _ rfl).2 _ rfl).1 rfl
    exact absurd hlast (by decide)
  · intro hlawful
    have hboth := hlawful _ [] (List.append_nil _).symm .vertical
    exact absurd hboth (by decide)

end MoonlightWeb.Streaming.WheelTravel
