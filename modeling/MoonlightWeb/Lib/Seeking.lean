import MoonlightWeb.Lib.Fuel

/-! # Searching along a counter

A counted loop that tries what its counter names and stops at the first success. The bound
of the loop is a test on the counter, and the counter may come back below it.
-/

namespace MoonlightWeb.Lib.Seeking
open Lib.Turns

universe u

structure Sought (κ : Type u) where
  tried : List κ
  found : Option κ
  deriving DecidableEq

section
variable {κ : Type u} (goes hit : κ → Bool) (next : κ → κ)

def seek : Nat → κ → Option (Sought κ)
  | 0, _ => none
  | turns + 1, c =>
      if goes c then
        if hit c then some ⟨[c], some c⟩
        else (seek turns (next c)).map (fun rest => { rest with tried := c :: rest.tried })
      else some ⟨[], none⟩

/-- The first `n` places of the counter are tried without success. -/
def Missed (n : Nat) (c : κ) : Prop :=
  ∀ k < n, goes (next^[k] c) = true ∧ hit (next^[k] c) = false

end

section
variable {κ : Type u} {goes hit : κ → Bool} {next : κ → κ}

variable {c : κ} {n : Nat}

theorem Missed.tail (h : Missed goes hit next (n + 1) c) :
    Missed goes hit next n (next c) := by
  intro k hk
  have hplace := h (k + 1) (Nat.succ_lt_succ hk)
  rwa [Function.iterate_succ_apply] at hplace

theorem seek_of_goes (hgoes : goes c = true) (hhit : hit c = false) (turns : Nat) :
    seek goes hit next (turns + 1) c = (seek goes hit next turns (next c)).map
        (fun rest => { rest with tried := c :: rest.tried }) := by
  rw [seek, if_pos hgoes, hhit, if_neg Bool.false_ne_true]

/-- A search that succeeds at its `n`-th place has tried the places up to it. -/
theorem seek_returns (hmissed : Missed goes hit next n c)
    (hgoes : goes (next^[n] c) = true) (hhit : hit (next^[n] c) = true) :
    Returns (fun turns => seek goes hit next turns c)
      ⟨List.iterate next c (n + 1), some (next^[n] c)⟩ := by
  induction n generalizing c with
  | zero =>
    refine Returns.of_last (fun turns => ?_)
    rw [Function.iterate_zero_apply] at hgoes hhit
    rw [seek, if_pos hgoes, if_pos hhit]
    rfl
  | succ n ih =>
    have hhere := hmissed 0 (Nat.succ_pos n)
    rw [Function.iterate_succ_apply] at hgoes hhit
    have hrest := (ih hmissed.tail hgoes hhit).map
      (fun rest => { rest with tried := c :: rest.tried })
    exact Returns.of_step (fun turns => seek_of_goes hhere.1 hhere.2 turns) hrest

/-- The place after a stretch without success is tried too. -/
theorem tried_of_missed (hmissed : Missed goes hit next n c)
    (hgoes : goes (next^[n] c) = true) {turns : Nat} {sought : Sought κ}
    (hsought : seek goes hit next turns c = some sought) : next^[n] c ∈ sought.tried := by
  induction n generalizing c turns sought with
  | zero =>
    rw [Function.iterate_zero_apply] at hgoes ⊢
    cases turns with
    | zero => cases hsought
    | succ turns =>
      rw [seek, if_pos hgoes] at hsought
      by_cases hhit : hit c = true
      · rw [if_pos hhit] at hsought
        cases hsought
        exact List.mem_singleton_self c
      · rw [if_neg hhit] at hsought
        obtain ⟨rest, -, rfl⟩ := Option.map_eq_some_iff.mp hsought
        exact List.mem_cons_self
  | succ n ih =>
    have hhere := hmissed 0 (Nat.succ_pos n)
    cases turns with
    | zero => cases hsought
    | succ turns =>
      rw [Function.iterate_zero_apply] at hhere
      rw [seek_of_goes hhere.1 hhere.2] at hsought
      obtain ⟨rest, hrest, rfl⟩ := Option.map_eq_some_iff.mp hsought
      rw [Function.iterate_succ_apply] at hgoes ⊢
      exact List.mem_cons_of_mem c (ih hmissed.tail hgoes hrest)

theorem seek_eq_none (hgoes : ∀ c, goes c = true) (hhit : ∀ c, hit c = false) (turns : Nat)
    (c : κ) : seek goes hit next turns c = none := by
  induction turns generalizing c with
  | zero => rfl
  | succ turns ih => rw [seek_of_goes (hgoes c) (hhit c), ih, Option.map_none]

theorem missed_or_first (hgoes : ∀ k < n, goes (next^[k] c) = true) :
    Missed goes hit next n c ∨
      ∃ k < n, Missed goes hit next k c ∧ hit (next^[k] c) = true := by
  induction n with
  | zero => exact Or.inl (fun k hk => absurd hk (Nat.not_lt_zero k))
  | succ n ih =>
    rcases ih (fun k hk => hgoes k (Nat.lt_succ_of_lt hk)) with hmissed | ⟨k, hk, hfirst⟩
    · by_cases hhit : hit (next^[n] c) = true
      · exact Or.inr ⟨n, Nat.lt_succ_self n, hmissed, hhit⟩
      · refine Or.inl (fun k hk => ?_)
        rcases Nat.lt_succ_iff_lt_or_eq.mp hk with hlt | rfl
        · exact hmissed k hlt
        · exact ⟨hgoes k hk, by simpa using hhit⟩
    · exact Or.inr ⟨k, Nat.lt_succ_of_lt hk, hfirst⟩

theorem nodup_iterate (hinj : ∀ i j, i < j → j < n → next^[i] c ≠ next^[j] c) :
    (List.iterate next c n).Nodup := by
  rw [List.Nodup, List.pairwise_iff_getElem]
  intro i j hi hj hij
  rw [List.length_iterate] at hi hj
  rw [List.getElem_iterate, List.getElem_iterate]
  exact hinj i j hij hj

end

end MoonlightWeb.Lib.Seeking
