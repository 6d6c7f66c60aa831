import MoonlightWeb.Network.RouterPortAllocator
import MoonlightWeb.Network.RouterPortBooks

/-! # What the port policy answers

Whatever the router says, a claim adds one port of the request's own purpose and slot or
changes nothing, a renewal drops what it reports lost, and a release drops its claim.
-/

namespace MoonlightWeb.Network.RouterPortAllocator

open Lib RouterPortCore Interaction.Ends

section Core

variable {core : Core}

theorem ends_addWithLatch (core : Core) (external internal : UInt16) (description : String)
    (protocol : Protocol) :
    (core.addWithLatch external internal description protocol).Ends
      fun r => r.2.held = core.held := by
  unfold Core.addWithLatch
  split
  · refine (any _).bind fun accepted _ => ?_
    split
    · exact rfl
    · refine (any _).bind fun retried _ => ?_
      split <;> exact rfl
  · exact (any _).bind fun _ _ => rfl

/-- A claim is refused, or a port of the request's own purpose and slot is held from now on. -/
def Granted (core : Core) (request : Request) (r : Core × Result) : Prop :=
  (r.2.claim = none ∧ r.1.held = core.held) ∨
    ∃ c, r.2.claim = some c ∧ r.1.held = core.held ++ [c] ∧ c.purpose = request.purpose ∧
      c.slot = request.slot ∧ c.external ≠ 0

variable {result : Result} {external : UInt16}

theorem ends_takeEntry (core : Core) (hport : external ≠ 0)
    (request : Request) (lan : String) (hresult : result.claim = none) :
    (core.takeEntry external request lan result).Ends (Granted core request) := by
  unfold Core.takeEntry
  refine (ends_addWithLatch core external _ _ _).bind ?_
  rintro ⟨added, core₁⟩ (hcore : core₁.held = core.held)
  dsimp only
  split
  · exact Or.inl ⟨hresult, hcore⟩
  · refine (any _).bind fun after _ => ?_
    split
    · exact Or.inl ⟨hresult, hcore⟩
    · refine (ends_addWithLatch core₁ external _ _ _).bind ?_
      rintro ⟨tcp, core₂⟩ (hcore₂ : core₂.held = core₁.held)
      refine Or.inr ⟨_, rfl, ?_, rfl, rfl, hport⟩
      rw [← hcore, ← hcore₂]

theorem ends_tryOwned (core : Core) (hport : external ≠ 0)
    (request : Request) (hresult : result.claim = none) :
    (core.tryOwned external request result).Ends (Granted core request) := by
  unfold Core.tryOwned
  refine (any _).bind fun lan _ => ?_
  refine (any _).bind fun before _ => ?_
  split
  · split
    · exact ends_takeEntry core hport request lan hresult
    · exact Or.inl ⟨hresult, rfl⟩
  · exact ends_takeEntry core hport request lan hresult

theorem ends_tryOne (core : Core) (hport : external ≠ 0)
    (request : Request) (hresult : result.claim = none) :
    (core.tryOne external request result).Ends (Granted core request) := by
  unfold Core.tryOne
  split
  · refine (any _).bind fun free _ => ?_
    split
    · exact ends_tryOwned core hport request hresult
    · exact Or.inl ⟨hresult, rfl⟩
  · exact ends_tryOwned core hport request hresult

theorem ends_tryAll (core : Core) (request : Request)
    (hresult : result.claim = none) (ports : List UInt16) (hports : ∀ port ∈ ports, port ≠ 0) :
    (core.tryAll request result ports).Ends (Granted core request) := by
  induction ports generalizing core result with
  | nil => exact Or.inl ⟨hresult, rfl⟩
  | cons external rest ih =>
    have hport := hports external List.mem_cons_self
    refine (ends_tryOne core hport request hresult).bind ?_
    rintro ⟨core₁, result₁⟩ hgranted
    dsimp only
    rcases hgranted with ⟨hnone, hheld⟩ | ⟨c, hsome, hheld, hrest⟩
    · rw [if_neg (by rw [hnone]; exact Bool.false_ne_true)]
      refine (ih core₁ hnone fun port h => hports port (List.mem_cons_of_mem _ h)).mono ?_
      intro r hr
      unfold Granted at hr ⊢
      rw [← hheld]
      exact hr
    · rw [if_pos (by rw [hsome]; rfl)]
      exact Or.inr ⟨c, hsome, hheld, hrest⟩

theorem candidates_ne_zero (core : Core) (request : Request) :
    ∀ port ∈ core.candidates request, port ≠ 0 := by
  have hstep : ∀ ports candidates : List UInt16, (∀ port ∈ candidates, port ≠ 0) →
      ∀ port ∈ ports.foldl core.consider candidates, port ≠ 0 := by
    intro ports
    induction ports with
    | nil => exact fun candidates h => h
    | cons considered rest ih =>
      intro candidates h
      refine ih _ fun port hmem => ?_
      unfold Core.consider at hmem
      by_cases hskip : considered = 0 ∨ core.holds considered = true ∨ considered ∈ candidates
      · rw [if_pos hskip] at hmem
        exact h port hmem
      · rw [if_neg hskip] at hmem
        rcases List.mem_append.mp hmem with hmem | hmem
        · exact h port hmem
        · rw [List.mem_singleton.mp hmem]
          exact fun hzero => hskip (Or.inl hzero)
  exact hstep _ [] fun _ h => absurd h List.not_mem_nil

theorem ends_claim (core : Core) (request : Request) :
    (core.claim request).Ends (Granted core request) :=
  ends_tryAll core request rfl _ (candidates_ne_zero core request)

theorem ends_renewOne (core : Core) (lan : String) (ok : Bool) (lost : List Lost) (c : Claim) :
    (core.renewOne lan ok lost c).Ends fun r =>
      r.1.held = core.held ∧ ∀ l ∈ r.2.2, l ∈ lost ∨ l.claim = c := by
  unfold Core.renewOne
  refine (ends_addWithLatch core _ _ _ _).bind ?_
  rintro ⟨added, core₁⟩ (hcore : core₁.held = core.held)
  have htail : ∀ core₂ : Core, core₂.held = core.held →
      (do
        let owner ← Core.ownerOf c.external
        let lost := if owner ≠ "" ∧ owner ≠ lan then lost ++ [⟨c, owner⟩] else lost
        return (core₂, ok && added, lost) : GatewayM (Core × Bool × List Lost)).Ends fun r =>
          r.1.held = core.held ∧ ∀ l ∈ r.2.2, l ∈ lost ∨ l.claim = c := by
    intro core₂ hcore₂
    refine (any _).bind fun owner _ => ?_
    refine ⟨hcore₂, fun l hl => ?_⟩
    dsimp only at hl
    split at hl
    · rcases List.mem_append.mp hl with hl | hl
      · exact Or.inl hl
      · rw [List.mem_singleton.mp hl]
        exact Or.inr rfl
    · exact Or.inl hl
  dsimp only
  split
  · refine (ends_addWithLatch core₁ _ _ _ _).bind ?_
    rintro ⟨_, core₂⟩ (hcore₂ : core₂.held = core₁.held)
    exact htail core₂ (hcore₂.trans hcore)
  · exact htail core₁ hcore

theorem ends_renewAll (core : Core) (lan : String) (ok : Bool) (lost : List Lost)
    (claims : List Claim) : (core.renewAll lan ok lost claims).Ends fun r =>
      r.1.held = core.held ∧ ∀ l ∈ r.2.2, l ∈ lost ∨ l.claim ∈ claims := by
  induction claims generalizing core ok lost with
  | nil => exact ⟨rfl, fun l hl => Or.inl hl⟩
  | cons c rest ih =>
    refine (ends_renewOne core lan ok lost c).bind ?_
    rintro ⟨core₁, ok₁, lost₁⟩ ⟨hcore, hlost⟩
    refine (ih core₁ ok₁ lost₁).mono fun r hr => ⟨hr.1.trans hcore, fun l hl => ?_⟩
    rcases hr.2 l hl with hmem | hmem
    · rcases hlost l hmem with hold | hc
      · exact Or.inl hold
      · rw [hc]
        exact Or.inr List.mem_cons_self
    · exact Or.inr (List.mem_cons_of_mem c hmem)

def without (held : List Claim) (lost : List Lost) : List Claim :=
  held.filter fun c => lost.all fun l => !c.same l.claim

theorem ends_renewSettle (core : Core) (ok : Bool) (lost : List Lost) :
    (core.renewSettle ok lost).Ends fun r => r.1.held = without core.held lost ∧ r.2 = lost := by
  unfold Core.renewSettle
  rw [removeAll_lost]
  dsimp only
  split
  · exact ⟨rfl, rfl⟩
  · split
    · exact (any _).bind fun _ _ => ⟨rfl, rfl⟩
    · exact ⟨rfl, rfl⟩

/-- A renewal drops what it found lost, of what was held. -/
theorem ends_renew (core : Core) : core.renew.Ends fun r =>
    r.1.held = without core.held r.2 ∧ ∀ l ∈ r.2, l.claim ∈ core.held := by
  unfold Core.renew
  refine (any _).bind fun lan _ => ?_
  refine (ends_renewAll core lan true [] core.held).bind ?_
  rintro ⟨core₁, ok, lost⟩ ⟨hcore, hlost⟩
  refine (ends_renewSettle core₁ ok lost).mono fun r hr => ?_
  rw [hr.2]
  refine ⟨hr.1.trans (by rw [hcore]), fun l hl => ?_⟩
  exact (hlost l hl).resolve_left List.not_mem_nil

theorem ends_release (core : Core) (claim : Claim) : (core.release claim).Ends fun core' =>
    core'.held = Allocator.removeAll core.held claim := by
  unfold Core.release
  split
  · next hnone =>
    have hall : ∀ c ∈ core.held, (!c.same claim) = true := by
      intro c hc
      have hany : core.held.any (·.same claim) = false := by simpa using hnone
      simpa using List.any_eq_false.mp hany c hc
    exact (List.filter_eq_self.mpr hall).symm
  · refine (any _).bind fun _ _ => ?_
    split
    · exact (any _).bind fun _ _ => rfl
    · exact rfl

end Core

end MoonlightWeb.Network.RouterPortAllocator
