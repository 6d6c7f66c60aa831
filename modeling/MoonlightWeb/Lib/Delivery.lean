import Mathlib.Data.List.Induction

/-! # Delivery behind barriers

Items are gathered in epochs and sent over one channel, which also carries the
barriers that open the epochs. Delivery is in order when the items go out as they
were gathered, and none before the barrier of its epoch. An epoch may be passed over:
its items then wait for a later barrier. What was gathered in epoch zero waits for none.
-/

namespace MoonlightWeb.Lib

open List

universe u

variable {α : Type u}

inductive Sent (α : Type u)
  | barrier (epoch : Nat)
  | item (a : α)
deriving DecidableEq

def Sent.items (sent : List (Sent α)) : List α :=
  sent.filterMap fun
    | .item a => some a
    | .barrier _ => none

namespace Sent

@[simp] theorem items_nil : items ([] : List (Sent α)) = [] := rfl

@[simp] theorem items_append (sent more : List (Sent α)) :
    items (sent ++ more) = items sent ++ items more :=
  filterMap_append

@[simp] theorem items_item (a : α) (rest : List (Sent α)) :
    items (.item a :: rest) = a :: items rest := rfl

@[simp] theorem items_barrier (epoch : Nat) (rest : List (Sent α)) :
    items (.barrier epoch :: rest) = items rest := rfl

theorem items_map_item (as : List α) : items (as.map .item) = as := by
  induction as with
  | nil => rfl
  | cons a rest ih => rw [map_cons, items_item, ih]

end Sent

/-- An entry of a list one longer is the new one or stood there before. -/
theorem split_snoc {β : Type u} {log before after : List β} {x y : β}
    (h : log ++ [x] = before ++ y :: after) :
    (before = log ∧ y = x) ∨ ∃ rest, log = before ++ y :: rest := by
  induction after using List.reverseRecOn with
  | nil =>
    obtain ⟨rfl, hlast⟩ := append_inj' h rfl
    exact Or.inl ⟨rfl, (List.cons.inj hlast).1.symm⟩
  | append_singleton after z _ =>
    have h : log ++ [x] = (before ++ y :: after) ++ [z] := by
      simpa using h
    exact Or.inr ⟨after, (append_inj' h rfl).1⟩

/-- Each item sent is the next one gathered; the barrier of its epoch or of a later one
stands before it, and the barrier of its epoch never behind it. -/
def Behind (gathered : List (Nat × α)) (sent : List (Sent α)) : Prop :=
  ∀ before a after, sent = before ++ .item a :: after →
    ∃ epoch, gathered[(Sent.items before).length]? = some (epoch, a) ∧
      .barrier epoch ∉ after ∧ (epoch = 0 ∨ ∃ k, epoch ≤ k ∧ .barrier k ∈ before)

namespace Behind

variable {gathered : List (Nat × α)} {sent : List (Sent α)}

theorem nil : Behind gathered [] := by
  intro before a after h
  cases before <;> cases h

variable (h : Behind gathered sent)

include h

theorem gather (more : List (Nat × α)) :
    Behind (gathered ++ more) sent := by
  intro before a after hsent
  obtain ⟨epoch, hget, hopen⟩ := h before a after hsent
  have hlt : (Sent.items before).length < gathered.length := by
    by_contra hle
    rw [List.getElem?_eq_none (by omega)] at hget
    cases hget
  exact ⟨epoch, by rw [List.getElem?_append_left hlt, hget], hopen⟩

theorem barrier {epoch : Nat} (hpos : 0 < epoch)
    (hnew : ∀ k, .barrier k ∈ sent → k < epoch) : Behind gathered (sent ++ [.barrier epoch]) := by
  intro before a after hsent
  cases split_snoc hsent with
  | inl hlast => cases hlast.2
  | inr hbefore =>
    obtain ⟨rest, hrest⟩ := hbefore
    obtain ⟨j, hget, hlater, hopen⟩ := h before a rest hrest
    have hafter : after = rest ++ [.barrier epoch] := by
      rw [hrest, append_assoc] at hsent
      exact (List.cons.inj (append_cancel_left hsent)).2.symm
    have hlt : j < epoch := by
      cases hopen with
      | inl hzero => omega
      | inr hbarrier =>
        obtain ⟨k, hle, hk⟩ := hbarrier
        have hless := hnew k (by rw [hrest]; exact mem_append_left _ hk)
        omega
    refine ⟨j, hget, ?_, hopen⟩
    rw [hafter]
    intro hmem
    cases mem_append.mp hmem with
    | inl hmem => exact hlater hmem
    | inr hmem =>
      obtain rfl : j = epoch := by simpa using hmem
      omega

theorem item {a : α} {epoch : Nat}
    (hget : gathered[(Sent.items sent).length]? = some (epoch, a))
    (hopen : epoch = 0 ∨ ∃ k, epoch ≤ k ∧ .barrier k ∈ sent) :
    Behind gathered (sent ++ [.item a]) := by
  intro before b after hsent
  cases split_snoc hsent with
  | inl hlast =>
    obtain ⟨rfl, hb⟩ := hlast
    obtain rfl : b = a := by simpa using hb
    obtain rfl : [] = after := by simpa using hsent
    exact ⟨epoch, hget, by simp, hopen⟩
  | inr hbefore =>
    obtain ⟨rest, hrest⟩ := hbefore
    obtain ⟨j, hget, hlater, hopen⟩ := h before b rest hrest
    have hafter : after = rest ++ [.item a] := by
      rw [hrest, append_assoc] at hsent
      exact (List.cons.inj (append_cancel_left hsent)).2.symm
    refine ⟨j, hget, ?_, hopen⟩
    rw [hafter]
    simpa using hlater

/-- What is still to go may go at once when a barrier stands before all of it. -/
theorem items {waiting : List (Nat × α)}
    (hwaiting : gathered.drop (Sent.items sent).length = waiting)
    (hopen : ∀ g ∈ waiting, g.1 = 0 ∨ ∃ k, g.1 ≤ k ∧ .barrier k ∈ sent) :
    Behind gathered (sent ++ (waiting.map Prod.snd).map .item) := by
  induction waiting generalizing sent with
  | nil => simpa using h
  | cons g waiting ih =>
    have hget : gathered[(Sent.items sent).length]? = some g := by
      have hhead := congrArg (fun l : List (Nat × α) => l[0]?) hwaiting
      simpa using hhead
    have hnext : gathered.drop (Sent.items (sent ++ [.item g.2])).length = waiting := by
      have htail := congrArg (List.drop 1) hwaiting
      simpa [Nat.add_comm] using htail
    have hstill : ∀ g' ∈ waiting, g'.1 = 0 ∨
        ∃ k, g'.1 ≤ k ∧ .barrier k ∈ sent ++ [.item g.2] := by
      intro g' hg'
      refine (hopen g' (mem_cons_of_mem _ hg')).imp_right fun hbarrier => ?_
      obtain ⟨k, hle, hk⟩ := hbarrier
      exact ⟨k, hle, mem_append_left _ hk⟩
    simpa using ih (h.item hget (hopen g mem_cons_self)) hnext hstill

theorem isPrefix : Sent.items sent <+: gathered.map Prod.snd := by
  induction sent using List.reverseRecOn with
  | nil => exact nil_prefix
  | append_singleton sent x ih =>
    have hsent : Behind gathered sent := by
      intro before a after hb
      obtain ⟨epoch, hget, hlater, hopen⟩ := h before a (after ++ [x]) (by simp [hb])
      exact ⟨epoch, hget, fun hmem => hlater (mem_append_left _ hmem), hopen⟩
    obtain ⟨tail, htail⟩ := ih hsent
    cases x with
    | barrier epoch => exact ⟨tail, by simpa using htail⟩
    | item a =>
      obtain ⟨epoch, hget, _⟩ := h sent a [] rfl
      have hnext : (gathered.map Prod.snd)[(Sent.items sent).length]? = some a := by
        rw [List.getElem?_map, hget]
        rfl
      rw [← htail, List.getElem?_append_right (Nat.le_refl _), Nat.sub_self] at hnext
      cases tail with
      | nil => cases hnext
      | cons b tail =>
        obtain rfl : b = a := by simpa using hnext
        exact ⟨tail, by simpa using htail⟩

/-- What has gone out and what is still to go is all that was gathered. -/
theorem items_append_rest {rest : List α}
    (hrest : (gathered.drop (Sent.items sent).length).map Prod.snd = rest) :
    Sent.items sent ++ rest = gathered.map Prod.snd := by
  obtain ⟨tail, htail⟩ := h.isPrefix
  have hdrop := congrArg (List.drop (Sent.items sent).length) htail
  rw [drop_left, ← map_drop, hrest] at hdrop
  rw [← htail, hdrop]

omit h

end Behind

end MoonlightWeb.Lib
