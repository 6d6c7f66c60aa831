import Mathlib.Data.List.Basic
import Mathlib.Logic.Function.Basic
import Mathlib.Tactic.Common

/-! # Painting parts of a picture

Steps that each give some cells of a canvas the value a picture has there. Composed in any
order they paint the cells of all, and two ways of painting the same cells are the same.
-/

namespace MoonlightWeb.Lib.Painting

universe u v w

variable {ι : Type u} {β : Type v} {κ : Type w} {picture : ι → β}

/-- The step gives the cells the picture's values, and changes no other. -/
def Paints (picture : ι → β) (cells : ι → Prop) (step : (ι → β) → ι → β) : Prop :=
  ∀ canvas a, (cells a → step canvas a = picture a) ∧ (¬ cells a → step canvas a = canvas a)

theorem Paints.congr {cells cells' : ι → Prop} {step : (ι → β) → ι → β}
    (h : Paints picture cells step) (hiff : ∀ a, cells a ↔ cells' a) :
    Paints picture cells' step := by
  intro canvas a
  rw [← hiff a]
  exact h canvas a

theorem Paints.cell [DecidableEq ι] {a : ι} {b : β} (h : b = picture a) :
    Paints picture (fun c => c = a) fun canvas => Function.update canvas a b := by
  intro canvas c
  constructor
  · rintro rfl
    show Function.update canvas c b c = picture c
    rw [Function.update_self, h]
  · intro hne
    exact Function.update_of_ne hne _ _

theorem Paints.comp {cells cells' : ι → Prop} {first second : (ι → β) → ι → β}
    (h : Paints picture cells first) (h' : Paints picture cells' second) :
    Paints picture (fun a => cells a ∨ cells' a) fun canvas => second (first canvas) := by
  intro canvas a
  have hfirst := h canvas a
  have hsecond := h' (first canvas) a
  by_cases hlater : cells' a
  · exact ⟨fun _ => hsecond.1 hlater, fun hnone => absurd (Or.inr hlater) hnone⟩
  · have hkept : second (first canvas) a = first canvas a := hsecond.2 hlater
    constructor
    · rintro (hearlier | hlater')
      · show second (first canvas) a = picture a
        rw [hkept, hfirst.1 hearlier]
      · exact absurd hlater' hlater
    · intro hnone
      show second (first canvas) a = canvas a
      rw [hkept, hfirst.2 fun hearlier => hnone (Or.inl hearlier)]

theorem Paints.foldl {cells : κ → ι → Prop} {step : (ι → β) → κ → ι → β} {l : List κ}
    (h : ∀ x ∈ l, Paints picture (cells x) fun canvas => step canvas x) :
    Paints picture (fun a => ∃ x ∈ l, cells x a) fun canvas => l.foldl step canvas := by
  induction l with
  | nil =>
    intro canvas a
    exact ⟨fun ⟨_, hx, _⟩ => absurd hx List.not_mem_nil, fun _ => rfl⟩
  | cons x l ih =>
    have hfirst := h x (List.mem_cons_self ..)
    have hrest := ih fun y hy => h y (List.mem_cons_of_mem _ hy)
    refine (hfirst.comp hrest).congr fun a => ?_
    simp only [List.mem_cons, exists_eq_or_imp]

/-- Steps that paint the same cells of one picture are the same. -/
theorem Paints.eq {cells : ι → Prop} {step step' : (ι → β) → ι → β}
    (h : Paints picture cells step) (h' : Paints picture cells step') : step = step' := by
  funext canvas a
  by_cases hcell : cells a
  · rw [(h canvas a).1 hcell, (h' canvas a).1 hcell]
  · rw [(h canvas a).2 hcell, (h' canvas a).2 hcell]

/-- A fold of steps that never fail. -/
theorem foldlM_eq_some {σ : Type u} {f : σ → κ → Option σ} {g : σ → κ → σ} {l : List κ}
    (h : ∀ x ∈ l, ∀ s, f s x = some (g s x)) (s : σ) : l.foldlM f s = some (l.foldl g s) := by
  induction l generalizing s with
  | nil => rfl
  | cons x l ih =>
    rw [List.foldlM_cons, h x (List.mem_cons_self ..) s]
    exact ih (fun y hy => h y (List.mem_cons_of_mem _ hy)) _

end MoonlightWeb.Lib.Painting
