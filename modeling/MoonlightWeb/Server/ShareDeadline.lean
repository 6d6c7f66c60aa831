import MoonlightWeb.Server.SharePersistence
import Mathlib

/-! # The deadline of an invitation

Whatever happens to a slot short of a new activation, the activation in it is
the one that was there before, with a deadline that is not later, or none.
-/

namespace MoonlightWeb.Server.ShareManager

open Lib Qt

def Activation.deadline (a : Activation) : WithTop Int :=
  if 0 < a.expiresAtSecs then (a.expiresAtSecs : WithTop Int) else ⊤

theorem deadline_le_iff {a b : Activation} :
    a.deadline ≤ b.deadline ↔
      (0 < b.expiresAtSecs → 0 < a.expiresAtSecs ∧ a.expiresAtSecs ≤ b.expiresAtSecs) := by
  unfold Activation.deadline
  by_cases ha : 0 < a.expiresAtSecs
  · by_cases hb : 0 < b.expiresAtSecs
    · simp [ha, hb]
    · simp [ha, hb]
  · by_cases hb : 0 < b.expiresAtSecs
    · simp [ha, hb]
    · simp [ha, hb]

theorem cappedDeadline_le (a : Activation) (now ttlSecs ttl : Int) :
    Activation.deadline { a with
      expiresAtSecs := cappedDeadline a.expiresAtSecs now ttlSecs
      ttlSecs := ttl } ≤ a.deadline := by
  rw [deadline_le_iff]
  intro hdated
  simp only [cappedDeadline]
  split_ifs <;> omega

/-- The activation of `s'` is the one of `s`, with no later deadline. -/
structure Continues (s s' : Slot) : Prop where
  live : s.activation.live = true
  token : s'.activation.tokenHash = s.activation.tokenHash
  pin : s'.activation.pinHash = s.activation.pinHash
  host : s'.activation.hostUuid = s.activation.hostUuid
  started : s'.activation.activatedAt = s.activation.activatedAt
  deadline : s'.activation.deadline ≤ s.activation.deadline

def Outlives (s s' : Slot) : Prop := s'.activation.live = true → Continues s s'

theorem Outlives.refl (s : Slot) : Outlives s s :=
  fun hlive => ⟨hlive, rfl, rfl, rfl, rfl, le_refl _⟩

theorem Outlives.trans {s s' s'' : Slot} (h : Outlives s s') (h' : Outlives s' s'') :
    Outlives s s'' := by
  intro hlive
  have hlast := h' hlive
  have hfirst := h hlast.live
  exact {
    live := hfirst.live
    token := hlast.token.trans hfirst.token
    pin := hlast.pin.trans hfirst.pin
    host := hlast.host.trans hfirst.host
    started := hlast.started.trans hfirst.started
    deadline := hlast.deadline.trans hfirst.deadline }

theorem Outlives.of_off {s s' : Slot} (h : s'.activation.live = false) : Outlives s s' := by
  intro hlive
  rw [h] at hlive
  cases hlive

def Activates (slot : Int) (e : Event) : Prop :=
  ∃ hostUuid appId ttlSecs token pin id,
    e.op = .activate slot hostUuid appId ttlSecs token pin id

section

variable {d : Digest} {e : Event} {slot : Int} {s s' : Slot}

/-- The activation of `s'` is one the event mints. -/
def MintedBy (d : Digest) (e : Event) (slot : Int) (s' : Slot) : Prop :=
  ∃ (first : Slot) (hostUuid : QString) (appId : Int32) (ttlSecs : Int) (token pin id : QString),
    e.op = .activate slot hostUuid appId ttlSecs token pin id ∧ hostUuid ≠ [] ∧
      isValidTtl ttlSecs = true ∧
      s'.activation = mint d first e.later hostUuid appId ttlSecs token pin id

theorem Change.outlives_or (h : Change d e slot s s') : Outlives s s' ∨ MintedBy d e slot s' := by
  cases h with
  | revoked => exact Or.inl (Outlives.of_off rfl)
  | minted hop hhost httl => exact Or.inr ⟨s, _, _, _, _, _, _, hop, hhost, httl, rfl⟩
  | remembered _ => exact Or.inl fun hlive => ⟨hlive, rfl, rfl, rfl, rfl, le_refl _⟩
  | permitted _ hlive => exact Or.inl fun _ => ⟨hlive, rfl, rfl, rfl, rfl, le_refl _⟩
  | chosen _ _ => exact Or.inl fun hlive => ⟨hlive, rfl, rfl, rfl, rfl, le_refl _⟩
  | retimed ttlSecs _ hlive =>
    have hcut := cappedDeadline_le s.activation e.later ttlSecs ttlSecs
    exact Or.inl fun _ => ⟨hlive, rfl, rfl, rfl, rfl, hcut⟩
  | renamed _ => exact Or.inl fun hlive => ⟨hlive, rfl, rfl, rfl, rfl, le_refl _⟩
  | failed hlive _ => exact Or.inl fun _ => ⟨hlive, rfl, rfl, rfl, rfl, le_refl _⟩
  | refused _ hlive => exact Or.inl fun _ => ⟨hlive, rfl, rfl, rfl, rfl, le_refl _⟩
  | bound _ _ hlive _ => exact Or.inl fun _ => ⟨hlive, rfl, rfl, rfl, rfl, le_refl _⟩
  | streamed _ hlive => exact Or.inl fun _ => ⟨hlive, rfl, rfl, rfl, rfl, le_refl _⟩

theorem Effect.outlives_or (h : Effect d e slot s s') : Outlives s s' ∨ MintedBy d e slot s' := by
  obtain ⟨first, hfirst, hlast⟩ := h
  have hswept : Outlives s first := by
    rcases hfirst with rfl | rfl
    · exact Outlives.refl first
    · exact Outlives.of_off rfl
  rcases hlast with rfl | hchange
  · exact Or.inl hswept
  · rcases hchange.outlives_or with hkept | hminted
    · exact Or.inl (hswept.trans hkept)
    · exact Or.inr hminted

theorem activate_minted {m : Manager} {hostUuid : QString} {appId : Int32} {ttlSecs : Int}
    {token pin id : QString} (hop : e.op = .activate slot hostUuid appId ttlSecs token pin id)
    (hplayer : isPlayerSlot slot = true) (hhost : hostUuid ≠ [])
    (httl : isValidTtl ttlSecs = true) : MintedBy d e slot ((apply d m e).slots slot) := by
  have hgiven : hostUuid.isEmpty = false := by simpa using hhost
  -- the slot as the sweep and the clearing leave it
  refine ⟨(if ((pruneExpired m e.now).slots slot).activation.live = true then
    clearActivation (pruneExpired m e.now) slot else pruneExpired m e.now).slots slot,
    hostUuid, appId, ttlSecs, token, pin, id, hop, hhost, httl, ?_⟩
  simp only [apply, hop, activate, hplayer, hgiven, httl, Bool.true_eq_false,
    Bool.false_eq_true, if_false, save, setSlot_self]

theorem Continues.running {now later : Int} (h : Continues s s') (hle : now ≤ later)
    (hrun : s'.activation.expired later = false) : s.activation.expired now = false := by
  cases hexp : s.activation.expired now with
  | false => rfl
  | true =>
    have hdue := Activation.expired_iff.mp hexp
    have hcut := deadline_le_iff.mp h.deadline hdue.1
    have hover : s'.activation.expired later = true := by
      rw [Activation.expired_iff]
      omega
    rw [hover] at hrun
    cases hrun

end

theorem restart_revives {t : System} (h : Consistent t) {now : Int} (hnow : t.clock ≤ now)
    {slot : Int} (hlive : ((restart t.manager now).slots slot).activation.live = true) :
    (t.manager.slots slot).activation.live = true ∧
      ((restart t.manager now).slots slot).activation =
        (t.manager.slots slot).activation.persisted := by
  obtain ⟨_, saved, hfiled, hmirror⟩ := h
  rw [restart_slots hfiled] at hlive ⊢
  by_cases hplayer : isPlayerSlot slot = true
  · rw [if_pos hplayer] at hlive ⊢
    have hsame := hmirror slot hplayer now hnow hlive
    have hwas : (t.manager.slots slot).activation.live = true := by
      rw [← live_persisted, ← hsame, hlive]
    exact ⟨hwas, hsame⟩
  · rw [if_neg hplayer] at hlive
    simp at hlive

theorem restart_outlives {t : System} (h : Consistent t) {now : Int} (hnow : t.clock ≤ now)
    (slot : Int) : Outlives (t.manager.slots slot) ((restart t.manager now).slots slot) := by
  intro hlive
  obtain ⟨hwas, hsame⟩ := restart_revives h hnow hlive
  exact {
    live := hwas
    token := by rw [hsame]; rfl
    pin := by rw [hsame]; rfl
    host := by rw [hsame]; rfl
    started := by rw [hsame]; rfl
    deadline := by rw [hsame]; exact le_refl _ }

theorem step_outlives_or {d : Digest} {t u : System} {e : Event} (slot : Int) (h : Consistent t)
    (hstep : step d t e = some u) :
    Outlives (t.manager.slots slot) (u.manager.slots slot) ∨
      MintedBy d e slot (u.manager.slots slot) := by
  unfold step at hstep
  split_ifs at hstep with hclock
  obtain rfl : _ = u := by simpa using hstep
  by_cases hop : e.op = .restart
  · have hrestart : apply d t.manager e = restart t.manager e.now := by simp [apply, hop]
    simp only [hrestart]
    exact Or.inl (restart_outlives h hclock.1 slot)
  · exact (apply_effect d t.manager e slot hop).outlives_or

theorem step_outlives {d : Digest} {t u : System} {e : Event} {slot : Int} (h : Consistent t)
    (hstep : step d t e = some u) (hnot : ¬ Activates slot e) :
    Outlives (t.manager.slots slot) (u.manager.slots slot) := by
  rcases step_outlives_or slot h hstep with hkept | ⟨_, _, _, _, _, _, _, hop, _⟩
  · exact hkept
  · exact absurd ⟨_, _, _, _, _, _, hop⟩ hnot

theorem reachable_consistent {d : Digest} {clock : Int} {t : System}
    (h : Reachable (· = installed clock) (moves (step d)) t) : Consistent t := by
  refine h.invariant (I := Consistent) ?_ ?_
  · exact fun s hs => hs ▸ installed_consistent clock
  · exact fun s e u hs hstep => step_consistent hs hstep

def inviting : Event :=
  ⟨.activate 2 (qs "host") 1 (8 * 3600) (qs "token") (qs "123456") (qs "id"), 1000, 1000⟩

/-- The guest and the owner after it: a PIN spent, a choice of one hour, a restart. -/
def cutting : List Event :=
  [⟨.redeemPin (qs "token") (qs "123456") (qs "key") (qs "agent") (qs "cookie"), 1010, 1010⟩,
    ⟨.setTtl 2 3600, 1020, 1021⟩, ⟨.restart, 2000, 2000⟩]

def invited : System where
  manager := apply padded {} inviting
  clock := 1000
  mints := record padded (installed 1000) inviting

end MoonlightWeb.Server.ShareManager
