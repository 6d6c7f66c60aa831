import Mathlib

/-! # First and last occurrences

The index of the last occurrence in a list, beside that of the first, and the cuts they
make: a list is cut at the one or at the other in one way.
-/

namespace MoonlightWeb.Lib

open List

universe u

variable {α : Type u} [DecidableEq α]

def lastIdxOf? (a : α) (l : List α) : Option Nat :=
  (l.reverse.idxOf? a).map fun i => l.length - 1 - i

variable {a : α} {before after l : List α}

theorem idxOf?_cut (after : List α) (h : a ∉ before) :
    (before ++ a :: after).idxOf? a = some before.length := by
  induction before with
  | nil => simp [List.idxOf?_cons]
  | cons b before ih =>
    obtain ⟨hb, hbefore⟩ := not_or.mp (mem_cons.not.mp h)
    have hne : ¬ b = a := fun heq => hb heq.symm
    simp [List.idxOf?_cons, hne, ih hbefore]

theorem lastIdxOf?_cut (before : List α) (h : a ∉ after) :
    lastIdxOf? a (before ++ a :: after) = some before.length := by
  have hreverse : (before ++ a :: after).reverse = after.reverse ++ a :: before.reverse := by
    simp
  have hfirst := idxOf?_cut before.reverse (mt mem_reverse.mp h)
  unfold lastIdxOf?
  rw [hreverse, hfirst, Option.map_some, length_reverse, length_append, length_cons]
  congr 1
  omega

theorem lastIdxOf?_eq_none (h : a ∉ l) : lastIdxOf? a l = none := by
  unfold lastIdxOf?
  rw [List.idxOf?_eq_none_iff.mpr (mt mem_reverse.mp h)]
  rfl

omit [DecidableEq α] in
theorem exists_last_cut (h : a ∈ l) : ∃ before after, l = before ++ a :: after ∧ a ∉ after := by
  obtain ⟨after, before, hcut, hafter⟩ := eq_append_cons_of_mem (mem_reverse.mpr h)
  refine ⟨before.reverse, after.reverse, ?_, mt mem_reverse.mp hafter⟩
  rw [← reverse_reverse l, hcut]
  simp

omit [DecidableEq α] in
theorem last_cut_unique {before' after' : List α}
    (h : before ++ a :: after = before' ++ a :: after') (hafter : a ∉ after)
    (hafter' : a ∉ after') : before = before' ∧ after = after' := by
  classical
  have hlast := lastIdxOf?_cut before hafter
  rw [h, lastIdxOf?_cut before' hafter'] at hlast
  obtain ⟨hbefore, hrest⟩ := append_inj h (Option.some.inj hlast).symm
  exact ⟨hbefore, by simpa using hrest⟩

/-- The first and the last of several occurrences are apart. -/
theorem lastIdxOf?_ne_idxOf? (h : 2 ≤ l.count a) :
    ∃ i j, l.idxOf? a = some i ∧ lastIdxOf? a l = some j ∧ i ≠ j := by
  have hmem : a ∈ l := count_pos_iff.mp (by omega)
  obtain ⟨before, rest, rfl, hbefore⟩ := eq_append_cons_of_mem hmem
  have hcount : rest.count a + 1 = (before ++ a :: rest).count a := by
    rw [count_append, count_eq_zero_of_not_mem hbefore, count_cons_self]
    omega
  have hrest : a ∈ rest := count_pos_iff.mp (by omega)
  obtain ⟨middle, after, rfl, hafter⟩ := exists_last_cut hrest
  refine ⟨before.length, (before ++ a :: middle).length, idxOf?_cut _ hbefore, ?_, ?_⟩
  · have hshift :
        before ++ a :: (middle ++ a :: after) = (before ++ a :: middle) ++ a :: after := by
      simp
    rw [hshift]
    exact lastIdxOf?_cut _ hafter
  · rw [length_append, length_cons]
    omega

end MoonlightWeb.Lib
