import Mathlib

/-! # Loops with fuel

A loop that may go on for ever is a function of the turns it is given, which is `none` when
they do not suffice. It comes to a result when enough turns give it and fewer give nothing,
and never ends when no number of turns is enough.
-/

namespace MoonlightWeb.Lib

universe u v

variable {α : Type u} {β : Type v} {g g' : Nat → Option α}

structure Comes (g : Nat → Option α) (a : α) : Prop where
  only : ∀ fuel, g fuel = none ∨ g fuel = some a
  enough : ∃ n, ∀ fuel ≥ n, g fuel = some a

/-- No fuel is enough. -/
def Never (g : Nat → Option α) : Prop := ∀ fuel, g fuel = none

variable {a : α}

theorem Comes.isSome (h : Comes g a) : ∃ fuel, g fuel = some a := by
  obtain ⟨n, hn⟩ := h.enough
  exact ⟨n, hn n le_rfl⟩

theorem Never.not_some {fuel : Nat} (h : Never g) : g fuel ≠ some a := by
  rw [h fuel]
  exact Option.some_ne_none a ∘ Eq.symm

/-- One turn, after which the loop is another. -/
theorem Comes.of_turn (hzero : g 0 = none) (hturn : ∀ fuel, g (fuel + 1) = g' fuel)
    (h : Comes g' a) : Comes g a := by
  obtain ⟨n, hn⟩ := h.enough
  constructor
  · intro fuel
    cases fuel with
    | zero => exact Or.inl hzero
    | succ fuel =>
      rw [hturn]
      exact h.only fuel
  · refine ⟨n + 1, fun fuel hfuel => ?_⟩
    obtain ⟨k, rfl⟩ : ∃ k, fuel = k + 1 := ⟨fuel - 1, by omega⟩
    rw [hturn]
    exact hn k (by omega)

theorem Never.of_turn (hzero : g 0 = none) (hturn : ∀ fuel, g (fuel + 1) = g' fuel)
    (h : Never g') : Never g := by
  intro fuel
  cases fuel with
  | zero => exact hzero
  | succ fuel =>
    rw [hturn]
    exact h fuel

theorem Comes.of_last (hzero : g 0 = none) (hturn : ∀ fuel, g (fuel + 1) = some a) :
    Comes g a :=
  Comes.of_turn hzero hturn ⟨fun _ => Or.inr rfl, 0, fun _ _ => rfl⟩

variable {k : α → Nat → Option β}

/-- A loop in a loop, on the same fuel. -/
theorem Comes.bind {b : β} (h : Comes g a)
    (hk : Comes (k a) b) : Comes (fun fuel => (g fuel).bind fun a => k a fuel) b := by
  obtain ⟨n, hn⟩ := h.enough
  obtain ⟨m, hm⟩ := hk.enough
  constructor
  · intro fuel
    rcases h.only fuel with hnone | hsome
    · exact Or.inl (by rw [hnone]; rfl)
    · rw [hsome]
      exact hk.only fuel
  · refine ⟨n + m, fun fuel hfuel => ?_⟩
    rw [hn fuel (by omega)]
    exact hm fuel (by omega)

theorem Comes.bind_never (h : Comes g a) (hk : Never (k a)) :
    Never fun fuel => (g fuel).bind fun a => k a fuel := by
  intro fuel
  change (g fuel).bind (fun a => k a fuel) = none
  rcases h.only fuel with hnone | hsome
  · rw [hnone]
    rfl
  · rw [hsome]
    exact hk fuel

theorem Never.bind (h : Never g) :
    Never fun fuel => (g fuel).bind fun a => k a fuel := by
  intro fuel
  change (g fuel).bind (fun a => k a fuel) = none
  rw [h fuel]
  rfl

end MoonlightWeb.Lib

/-! ## Loops of bounded turns

A loop is computed with a bound on its turns, and says nothing when they run out. It
returns a value when every bound from some point on gives that value.
-/

namespace MoonlightWeb.Lib.Turns

universe u v

variable {α : Type u} {β : Type v}

def Returns (f : Nat → Option α) (a : α) : Prop :=
  ∃ enough, ∀ turns, enough ≤ turns → f turns = some a

variable {f : Nat → Option α} {a : α}

theorem Returns.of_eq (h : ∀ turns, f turns = some a) :
    Returns f a :=
  ⟨0, fun turns _ => h turns⟩

/-- The last turn of a loop. -/
theorem Returns.of_last (h : ∀ turns, f (turns + 1) = some a) :
    Returns f a := by
  refine ⟨1, fun turns hturns => ?_⟩
  cases turns with
  | zero => cases hturns
  | succ turns => exact h turns

/-- A turn of a loop, and the turns after it. -/
theorem Returns.of_step {f g : Nat → Option α} (h : ∀ turns, f (turns + 1) = g turns)
    (hg : Returns g a) : Returns f a := by
  obtain ⟨enough, hret⟩ := hg
  refine ⟨enough + 1, fun turns hturns => ?_⟩
  cases turns with
  | zero => cases hturns
  | succ turns => rw [h, hret turns (Nat.le_of_succ_le_succ hturns)]

theorem Returns.unique {a b : α} (ha : Returns f a) (hb : Returns f b) :
    a = b := by
  obtain ⟨n, hn⟩ := ha
  obtain ⟨m, hm⟩ := hb
  have hboth := (hn (max n m) (Nat.le_max_left ..)).symm.trans (hm (max n m) (Nat.le_max_right ..))
  exact Option.some.inj hboth

theorem Returns.bind {g : Nat → α → Option β} {b : β}
    (hf : Returns f a) (hg : Returns (fun turns => g turns a) b) :
    Returns (fun turns => (f turns).bind (g turns)) b := by
  obtain ⟨n, hn⟩ := hf
  obtain ⟨m, hm⟩ := hg
  refine ⟨max n m, fun turns hturns => ?_⟩
  have hfirst := hn turns (Nat.le_trans (Nat.le_max_left ..) hturns)
  have hthen := hm turns (Nat.le_trans (Nat.le_max_right ..) hturns)
  show (f turns).bind (g turns) = some b
  rw [hfirst]
  exact hthen

theorem Returns.map (hf : Returns f a) (g : α → β) :
    Returns (fun turns => (f turns).map g) (g a) := by
  obtain ⟨n, hn⟩ := hf
  refine ⟨n, fun turns hturns => ?_⟩
  show (f turns).map g = some (g a)
  rw [hn turns hturns]
  rfl

end MoonlightWeb.Lib.Turns
