import Mathlib.Data.List.TakeWhile
import Mathlib.Data.List.Basic
import Mathlib.Order.Basic
import Mathlib.Tactic.Common

/-! # Recent times

A queue of times is a log's end: what no longer counts has been dropped from the front. The
queue then tells how many of all the times are recent.
-/

namespace MoonlightWeb.Lib.RecentTimes

open List

def trim (cutoff : Int) (times : List Int) : List Int :=
  times.dropWhile fun x => decide (x < cutoff)

variable {cutoff : Int}

theorem trim_append_old {old : List Int} (h : ∀ x ∈ old, x < cutoff)
    (times : List Int) : trim cutoff (old ++ times) = trim cutoff times := by
  unfold trim
  exact dropWhile_append_of_pos fun x hx => decide_eq_true (h x hx)

theorem exists_trim (cutoff : Int) (times : List Int) :
    ∃ old, times = old ++ trim cutoff times ∧ ∀ x ∈ old, x < cutoff := by
  refine ⟨times.takeWhile fun x => decide (x < cutoff), ?_, fun x hx => ?_⟩
  · exact takeWhile_append_dropWhile.symm
  · simpa using mem_takeWhile_imp hx

/-- In order, no time before the cutoff is left. -/
theorem le_of_mem_trim {times : List Int} (h : times.Pairwise (· ≤ ·)) {x : Int}
    (hx : x ∈ trim cutoff times) : cutoff ≤ x := by
  induction times with
  | nil => cases hx
  | cons a rest ih =>
    unfold trim at hx
    by_cases ha : a < cutoff
    · rw [dropWhile_cons_of_pos (by simpa using ha)] at hx
      exact ih h.of_cons hx
    · rw [dropWhile_cons_of_neg (by simpa using ha)] at hx
      rcases mem_cons.mp hx with rfl | hx
      · omega
      · have hle : a ≤ x := rel_of_pairwise_cons h hx
        omega

/-- The queue is the end of all the times, and those before it are gone. -/
structure Log (gone : Int → Prop) (all kept : List Int) : Prop where
  sorted : all.Pairwise (· ≤ ·)
  suffix : ∃ old, all = old ++ kept ∧ ∀ x ∈ old, gone x

variable {gone gone' : Int → Prop} {all kept : List Int}

theorem Log.nil : Log gone [] [] :=
  ⟨List.Pairwise.nil, [], rfl, fun _ hx => absurd hx not_mem_nil⟩

variable (h : Log gone all kept)

include h

theorem Log.mono (hgone : ∀ x ∈ all, gone x → gone' x) :
    Log gone' all kept := by
  obtain ⟨old, hall, hold⟩ := h.suffix
  refine ⟨h.sorted, old, hall, fun x hx => hgone x ?_ (hold x hx)⟩
  rw [hall]
  exact mem_append_left _ hx

theorem Log.mem {x : Int} (hx : x ∈ kept) : x ∈ all := by
  obtain ⟨old, hall, -⟩ := h.suffix
  rw [hall]
  exact mem_append_right _ hx

theorem Log.sorted_kept : kept.Pairwise (· ≤ ·) := by
  obtain ⟨old, hall, -⟩ := h.suffix
  have hsorted := h.sorted
  rw [hall, pairwise_append] at hsorted
  exact hsorted.2.1

theorem Log.add {now : Int} (hnow : ∀ x ∈ all, x ≤ now) :
    Log gone (all ++ [now]) (kept ++ [now]) := by
  obtain ⟨old, hall, hold⟩ := h.suffix
  refine ⟨?_, old, by rw [hall, append_assoc], hold⟩
  rw [pairwise_append]
  refine ⟨h.sorted, pairwise_singleton _ _, fun x hx y hy => ?_⟩
  obtain rfl := mem_singleton.mp hy
  exact hnow x hx

theorem Log.trim (hcut : ∀ x < cutoff, gone x) :
    Log gone all (trim cutoff kept) := by
  obtain ⟨old, hall, hold⟩ := h.suffix
  obtain ⟨dropped, hkept, hdropped⟩ := exists_trim cutoff kept
  refine ⟨h.sorted, old ++ dropped, ?_, fun x hx => ?_⟩
  · rw [append_assoc, ← hkept, hall]
  · rcases mem_append.mp hx with hx | hx
    · exact hold x hx
    · exact hcut x (hdropped x hx)

theorem Log.clear (hkept : ∀ x ∈ kept, gone x) : Log gone all [] := by
  obtain ⟨old, hall, hold⟩ := h.suffix
  refine ⟨h.sorted, all, (append_nil _).symm, fun x hx => ?_⟩
  rw [hall] at hx
  rcases mem_append.mp hx with hx | hx
  · exact hold x hx
  · exact hkept x hx

/-- Where what is gone does not count, the queue holds all that does. -/
theorem Log.recent_le {p : Int → Bool} (hp : ∀ x, p x = true → ¬ gone x) :
    (all.filter p).length ≤ kept.length := by
  obtain ⟨old, hall, hold⟩ := h.suffix
  have hnone : old.filter p = [] :=
    filter_eq_nil_iff.mpr fun x hx hcounts => hp x hcounts (hold x hx)
  rw [hall, filter_append, hnone, nil_append]
  exact length_filter_le p kept

/-- Where the whole queue counts, there are at least as many in all. -/
theorem Log.length_le {p : Int → Bool} (hp : ∀ x ∈ kept, p x = true) :
    kept.length ≤ (all.filter p).length := by
  obtain ⟨old, hall, -⟩ := h.suffix
  rw [hall, filter_append, filter_eq_self.mpr hp, length_append]
  exact Nat.le_add_left _ _

omit h

end MoonlightWeb.Lib.RecentTimes
