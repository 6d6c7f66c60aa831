import Mathlib

/-! # Taking the oldest victims out of a list

A bounded queue makes room by throwing out, oldest first, entries of one kind.
`oldest victim n l` are the first `n` such entries of `l`, `spared victim n l`
what is left of `l` without them.
-/

namespace MoonlightWeb.Lib

open List

universe u

variable {α : Type u} {κ : Type}

/-- The first `n` victims of a list. -/
def oldest (victim : α → Bool) (n : Nat) (l : List α) : List α :=
  (l.filter victim).take n

/-- A list without its first `n` victims. -/
def spared (victim : α → Bool) : Nat → List α → List α
  | 0, l => l
  | _ + 1, [] => []
  | n + 1, a :: l => if victim a then spared victim n l else a :: spared victim (n + 1) l

section

variable {victim : α → Bool}

@[simp] theorem oldest_zero (l : List α) : oldest victim 0 l = [] := rfl

@[simp] theorem spared_zero (l : List α) : spared victim 0 l = l := by
  cases l <;> rfl

variable (n : Nat)

@[simp] theorem spared_nil : spared victim n [] = [] := by
  cases n <;> rfl

variable {a : α}

theorem spared_cons_of_pos (l : List α) (h : victim a = true) :
    spared victim (n + 1) (a :: l) = spared victim n l := by
  rw [spared, if_pos h]

theorem spared_cons_of_neg (l : List α) (h : ¬ victim a = true) :
    spared victim n (a :: l) = a :: spared victim n l := by
  cases n with
  | zero => rw [spared_zero, spared_zero]
  | succ n => rw [spared, if_neg h]

theorem oldest_cons_of_pos (l : List α) (h : victim a = true) :
    oldest victim (n + 1) (a :: l) = a :: oldest victim n l := by
  rw [oldest, filter_cons_of_pos h, take_succ_cons]
  rfl

theorem oldest_cons_of_neg (l : List α) (h : ¬ victim a = true) :
    oldest victim n (a :: l) = oldest victim n l := by
  rw [oldest, filter_cons_of_neg h]
  rfl

theorem oldest_victim {n : Nat} {l : List α} (h : a ∈ oldest victim n l) :
    victim a = true :=
  (mem_filter.mp (mem_of_mem_take h)).2

/-- What is spared keeps its order. -/
theorem spared_sublist (l : List α) : (spared victim n l).Sublist l := by
  induction l generalizing n with
  | nil => rw [spared_nil]
  | cons a l ih =>
    cases n with
    | zero => rw [spared_zero]
    | succ n =>
      by_cases ha : victim a = true
      · rw [spared_cons_of_pos n l ha]
        exact (ih n).cons a
      · rw [spared_cons_of_neg (n + 1) l ha]
        exact (ih (n + 1)).cons_cons a

theorem filter_spared (l : List α) :
    (spared victim n l).filter victim = (l.filter victim).drop n := by
  induction l generalizing n with
  | nil => simp
  | cons a l ih =>
    cases n with
    | zero => simp
    | succ n =>
      by_cases ha : victim a = true
      · rw [spared_cons_of_pos n l ha, filter_cons_of_pos ha, drop_succ_cons, ih]
      · rw [spared_cons_of_neg (n + 1) l ha, filter_cons_of_neg ha,
          filter_cons_of_neg ha, ih]

/-- The oldest victims and the spared are the whole list. -/
theorem oldest_append_spared (l : List α) :
    (oldest victim n l ++ spared victim n l).Perm l := by
  induction l generalizing n with
  | nil => simp [oldest]
  | cons a l ih =>
    cases n with
    | zero => simp
    | succ n =>
      by_cases ha : victim a = true
      · rw [oldest_cons_of_pos n l ha, spared_cons_of_pos n l ha, cons_append]
        exact (ih n).cons a
      · rw [oldest_cons_of_neg (n + 1) l ha, spared_cons_of_neg (n + 1) l ha]
        exact perm_middle.trans ((ih (n + 1)).cons a)

/-- Taking out `n` and then `m` takes out `n + m`. -/
theorem spared_spared (n m : Nat) (l : List α) :
    spared victim m (spared victim n l) = spared victim (n + m) l := by
  induction l generalizing n with
  | nil => simp
  | cons a l ih =>
    cases n with
    | zero => rw [spared_zero, Nat.zero_add]
    | succ n =>
      by_cases ha : victim a = true
      · rw [spared_cons_of_pos n l ha, ih, Nat.add_right_comm,
          spared_cons_of_pos (n + m) l ha]
      · rw [spared_cons_of_neg (n + 1) l ha, spared_cons_of_neg m _ ha, ih,
          spared_cons_of_neg (n + 1 + m) l ha]

theorem oldest_append_oldest (n m : Nat) (l : List α) :
    oldest victim n l ++ oldest victim m (spared victim n l) = oldest victim (n + m) l := by
  rw [oldest, oldest, oldest, filter_spared, take_add]

/-- With keys that tell the entries apart, the victims are those that are gone. -/
theorem filter_not_mem_spared [DecidableEq κ] (key : α → κ) (n : Nat) {l : List α}
    (h : (l.map key).Nodup) :
    l.filter (fun a => key a ∉ (spared victim n l).map key) = oldest victim n l := by
  induction l generalizing n with
  | nil => simp [oldest]
  | cons a l ih =>
    obtain ⟨hfresh, hrest⟩ := nodup_cons.mp h
    have hsub : ∀ m, ∀ k ∈ (spared victim m l).map key, k ∈ l.map key := fun m k hk =>
      ((spared_sublist m l).map key).subset hk
    cases n with
    | zero =>
      rw [spared_zero, oldest_zero, filter_eq_nil_iff]
      intro b hb
      exact fun hgone => of_decide_eq_true hgone (mem_map_of_mem hb)
    | succ n =>
      by_cases ha : victim a = true
      · rw [spared_cons_of_pos n l ha, oldest_cons_of_pos n l ha, ← ih n hrest]
        rw [filter_cons_of_pos]
        exact decide_eq_true fun hin => hfresh (hsub n _ hin)
      · rw [spared_cons_of_neg (n + 1) l ha, oldest_cons_of_neg (n + 1) l ha,
          ← ih (n + 1) hrest, filter_cons_of_neg (by simp)]
        refine filter_congr fun b hb => ?_
        have hne : key b ≠ key a := fun heq => hfresh (heq ▸ mem_map_of_mem hb)
        simp [hne]

end

end MoonlightWeb.Lib
