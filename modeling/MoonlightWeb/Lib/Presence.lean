import Mathlib.Data.Finset.Basic
import Mathlib.Data.List.Chain
import Mathlib.Tactic.Common

/-! # Announcing who is there

A stream of notices about members that join, report and leave, each carrying a summary of
who is there once it is heard. What the stream says is a set, and members join and leave by
turns. A stream may close: everyone there leaves at once, and the summaries of the closing
notices say that nobody is left.
-/

namespace MoonlightWeb.Lib.Presence

open List

universe u v

variable {ι : Type u} {μ : Type v} [DecidableEq ι]

inductive Notice (ι : Type u) (μ : Type v)
  | joins (i : ι) (summary : μ)
  | reports (i : ι) (summary : μ)
  | leaves (i : ι) (summary : μ)

/-- The streams of notices, and the set each leaves there: `shows` says which summaries are
those of a set, and `nobody` is the summary of the closing notices. -/
inductive Stream (may : ι → Prop) (shows : μ → Finset ι → Prop) (nobody : μ) :
    List (Notice ι μ) → Finset ι → Prop
  | nil : Stream may shows nobody [] ∅
  | joins {sent : List (Notice ι μ)} {there : Finset ι} {i : ι} {summary : μ}
      (before : Stream may shows nobody sent there) (allowed : may i) (absent : i ∉ there)
      (exact : shows summary (insert i there)) :
      Stream may shows nobody (sent ++ [.joins i summary]) (insert i there)
  | reports {sent : List (Notice ι μ)} {there : Finset ι} {i : ι} {summary : μ}
      (before : Stream may shows nobody sent there) (present : i ∈ there)
      (exact : shows summary there) :
      Stream may shows nobody (sent ++ [.reports i summary]) there
  | leaves {sent : List (Notice ι μ)} {there : Finset ι} {i : ι} {summary : μ}
      (before : Stream may shows nobody sent there) (present : i ∈ there)
      (exact : shows summary (there.erase i)) :
      Stream may shows nobody (sent ++ [.leaves i summary]) (there.erase i)
  | closes {sent : List (Notice ι μ)} {there : Finset ι} (members : List ι)
      (before : Stream may shows nobody sent there) (once : members.Nodup)
      (all : members.toFinset = there) :
      Stream may shows nobody (sent ++ members.map fun i => .leaves i nobody) ∅

/-- The turns of one member: whether it joins, notice after notice. -/
def turn (i : ι) : Notice ι μ → Option Bool
  | .joins j _ => if j = i then some true else none
  | .reports _ _ => none
  | .leaves j _ => if j = i then some false else none

def turns (i : ι) (sent : List (Notice ι μ)) : List Bool :=
  sent.filterMap (turn i)

theorem turns_append (i : ι) (sent more : List (Notice ι μ)) :
    turns i (sent ++ more) = turns i sent ++ turns i more :=
  filterMap_append

theorem turns_closing (i : ι) (nobody : μ) {members : List ι} (h : members.Nodup) :
    turns i (members.map fun j => Notice.leaves j nobody) =
      if i ∈ members then [false] else [] := by
  induction members with
  | nil => rfl
  | cons j members ih =>
    obtain ⟨hfirst, hrest⟩ := nodup_cons.mp h
    have htail := ih hrest
    unfold turns at htail ⊢
    rw [map_cons, filterMap_cons]
    by_cases hj : j = i
    · subst hj
      rw [if_neg hfirst] at htail
      simp [turn, htail]
    · have hi : i ≠ j := fun h => hj h.symm
      simp [turn, htail, hj, hi]

variable {may : ι → Prop} {shows : μ → Finset ι → Prop} {nobody : μ}

theorem chain_snoc {turns : List Bool} {b : Bool}
    (h : turns.IsChain (· ≠ ·) ∧ turns.getLast? = some b) :
    (turns ++ [!b]).IsChain (· ≠ ·) ∧ (turns ++ [!b]).getLast? = some !b := by
  refine ⟨?_, List.getLast?_concat⟩
  rw [isChain_append]
  refine ⟨h.1, isChain_singleton _, ?_⟩
  intro x hx y hy
  rw [h.2, Option.mem_some_iff] at hx
  have hy' : (!b) = y := Option.some.inj hy
  rw [← hx, ← hy']
  cases b <;> decide

/-- A member joins and leaves by turns, joining first, and is there after it joined. -/
theorem Stream.alternates {sent : List (Notice ι μ)} {there : Finset ι}
    (h : Stream may shows nobody sent there) (i : ι) :
    (false :: turns i sent).IsChain (· ≠ ·) ∧
      (false :: turns i sent).getLast? = some (decide (i ∈ there)) := by
  induction h with
  | nil => exact ⟨isChain_singleton _, by simp [turns]⟩
  | @joins sent there j summary _ _ habsent _ ih =>
    rw [turns_append, ← cons_append]
    by_cases hj : j = i
    · subst hj
      have hone : turns j [Notice.joins j summary] = [!decide (j ∈ there)] := by
        simp [turns, turn, habsent]
      rw [hone]
      exact ⟨(chain_snoc ih).1, (chain_snoc ih).2.trans (by simp [habsent])⟩
    · have hnone : turns i [Notice.joins j summary] = [] := by simp [turns, turn, hj]
      have hi : i ≠ j := fun h => hj h.symm
      rw [hnone, append_nil]
      exact ⟨ih.1, by simpa [hi] using ih.2⟩
  | @reports sent there j summary _ _ _ ih =>
    have hnone : turns i [Notice.reports j summary] = [] := rfl
    rw [turns_append, hnone, append_nil]
    exact ih
  | @leaves sent there j summary _ hpresent _ ih =>
    rw [turns_append, ← cons_append]
    by_cases hj : j = i
    · subst hj
      have hone : turns j [Notice.leaves j summary] = [!decide (j ∈ there)] := by
        simp [turns, turn, hpresent]
      rw [hone]
      exact ⟨(chain_snoc ih).1, (chain_snoc ih).2.trans (by simp [hpresent])⟩
    · have hnone : turns i [Notice.leaves j summary] = [] := by simp [turns, turn, hj]
      have hi : i ≠ j := fun h => hj h.symm
      rw [hnone, append_nil]
      exact ⟨ih.1, by simpa [hi] using ih.2⟩
  | @closes sent there members _ honce hall ih =>
    rw [turns_append, ← cons_append, turns_closing i nobody honce]
    by_cases hi : i ∈ members
    · have hthere : i ∈ there := hall ▸ mem_toFinset.mpr hi
      have hone : [false] = [!decide (i ∈ there)] := by simp [hthere]
      rw [if_pos hi, hone]
      exact ⟨(chain_snoc ih).1, (chain_snoc ih).2.trans (by simp [hthere])⟩
    · have hthere : i ∉ there := fun h => hi (mem_toFinset.mp (hall ▸ h))
      rw [if_neg hi, append_nil]
      exact ⟨ih.1, by simpa [hthere] using ih.2⟩

theorem Stream.may_of_mem {sent : List (Notice ι μ)} {there : Finset ι}
    (h : Stream may shows nobody sent there) : ∀ i ∈ there, may i := by
  induction h with
  | nil => simp
  | joins _ hallowed _ _ ih =>
    intro j hj
    rcases Finset.mem_insert.mp hj with rfl | hold
    · exact hallowed
    · exact ih j hold
  | reports _ _ _ ih => exact ih
  | leaves _ _ _ ih => exact fun j hj => ih j (Finset.mem_of_mem_erase hj)
  | closes _ _ _ _ _ => simp

end MoonlightWeb.Lib.Presence
