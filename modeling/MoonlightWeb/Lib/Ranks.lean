import Mathlib.Data.List.Sort
import Mathlib.Data.List.Count

/-! # Order statistics

The entry of a given rank in a sorted list, counted from zero, and the counts it is found
by: a property that small entries have first holds of as many entries as there are ranks
that have it.
-/

namespace MoonlightWeb.Lib.Ranks

open List

universe u

variable {α : Type u} [LinearOrder α]

/-- The entry of rank `k` in ascending order. -/
def ranked (l : List α) (k : Nat) : Option α :=
  (l.mergeSort (· ≤ ·))[k]?

variable {l : List α} {k : Nat}

theorem mem_of_ranked {x : α} (h : ranked l k = some x) : x ∈ l :=
  mem_mergeSort.mp (mem_of_getElem? h)

theorem ranked_isSome (h : k < l.length) : ∃ x, ranked l k = some x := by
  have hlen : k < (l.mergeSort (· ≤ ·)).length := by
    rwa [length_mergeSort]
  exact ⟨_, List.getElem?_eq_getElem hlen⟩

theorem countP_sorted (hsorted : l.Pairwise (· ≤ ·)) {p : α → Bool}
    (hdown : ∀ x ∈ l, ∀ y ∈ l, x ≤ y → p y = true → p x = true) {x : α} (hx : l[k]? = some x) :
    p x = true ↔ k < l.countP p := by
  induction l generalizing k with
  | nil => simp at hx
  | cons a l ih =>
    obtain ⟨hleast, hrest⟩ := pairwise_cons.mp hsorted
    cases ha : p a with
    | false =>
      have hnone : ∀ y ∈ l, p y = false := by
        intro y hy
        by_contra hp
        have := hdown a (mem_cons_self ..) y (mem_cons_of_mem _ hy) (hleast y hy)
          (by simpa using hp)
        simp [ha] at this
      have hzero : (a :: l).countP p = 0 := by
        rw [countP_eq_zero]
        intro y hy
        rcases mem_cons.mp hy with rfl | hold
        · simp [ha]
        · simp [hnone y hold]
      have hfalse : p x = false := by
        rcases mem_cons.mp (mem_of_getElem? hx) with rfl | hold
        · exact ha
        · exact hnone x hold
      simp [hzero, hfalse]
    | true =>
      have hcount : (a :: l).countP p = l.countP p + 1 := countP_cons_of_pos ha
      cases k with
      | zero =>
        obtain rfl : a = x := by simpa using hx
        simp [ha, hcount]
      | succ k =>
        have hnext : l[k]? = some x := by simpa using hx
        have hsub : ∀ x ∈ l, ∀ y ∈ l, x ≤ y → p y = true → p x = true := fun x hx y hy =>
          hdown x (mem_cons_of_mem _ hx) y (mem_cons_of_mem _ hy)
        rw [ih hrest hsub hnext, hcount]
        omega

/-- The entry of rank `k` has a property that small entries have first exactly when more
than `k` entries have it. -/
theorem ranked_iff {p : α → Bool}
    (hdown : ∀ x ∈ l, ∀ y ∈ l, x ≤ y → p y = true → p x = true) {x : α}
    (hx : ranked l k = some x) : p x = true ↔ k < l.countP p := by
  have hsorted : (l.mergeSort (· ≤ ·)).Pairwise (· ≤ ·) := by
    have htrans : ∀ a b c : α, decide (a ≤ b) = true → decide (b ≤ c) = true →
        decide (a ≤ c) = true := by
      intro a b c
      simpa using le_trans
    have htotal : ∀ a b : α, (decide (a ≤ b) || decide (b ≤ a)) = true := by
      intro a b
      simpa using le_total a b
    simpa using pairwise_mergeSort htrans htotal l
  have hperm : (l.mergeSort (· ≤ ·)).countP p = l.countP p := (mergeSort_perm l _).countP_eq p
  have hmem : ∀ x ∈ l.mergeSort (· ≤ ·), ∀ y ∈ l.mergeSort (· ≤ ·), x ≤ y → p y = true →
      p x = true := fun x hx y hy => hdown x (mem_mergeSort.mp hx) y (mem_mergeSort.mp hy)
  rw [countP_sorted hsorted hmem hx, hperm]

theorem ranked_mono {k k' : Nat} {x y : α} (hx : ranked l k = some x)
    (hy : ranked l k' = some y) (h : k ≤ k') : x ≤ y := by
  have hdown : ∀ a ∈ l, ∀ b ∈ l, a ≤ b → decide (b ≤ y) = true → decide (a ≤ y) = true := by
    intro a _ b _ hab hb
    simp only [decide_eq_true_eq] at hb ⊢
    exact hab.trans hb
  have hyy := (ranked_iff hdown hy).mp (by simp)
  simpa using (ranked_iff hdown hx).mpr (by omega)

end MoonlightWeb.Lib.Ranks
