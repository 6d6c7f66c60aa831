import Mathlib

/-! # Lineages of coded pictures

A picture is a keyframe or predicts from an earlier one, so what a decoder needs to show it
is its lineage. A stream keeps which pictures a receiver named as lost: a picture is safe
while those named since the last one leave it out of the damage.
-/

namespace MoonlightWeb.Lib

inductive Picture
  | key (number : Nat)
  | delta (number : Nat) (reference : Picture)
deriving DecidableEq

namespace Picture

def number : Picture → Nat
  | key n => n
  | delta n _ => n

def lineage : Picture → List Nat
  | key n => [n]
  | delta n reference => n :: reference.lineage

/-- Every picture of the lineage is numbered after the one it predicts from. -/
def Ascending : Picture → Prop
  | key _ => True
  | delta n reference => reference.number < n ∧ reference.Ascending

/-- None of the lineage is lost. -/
def Clean (lost : List Nat) (p : Picture) : Prop := ∀ n ∈ p.lineage, n ∉ lost

@[simp] theorem number_key (n : Nat) : (key n).number = n := rfl

@[simp] theorem number_delta (n : Nat) (p : Picture) : (delta n p).number = n := rfl

variable {p : Picture}

theorem Ascending.lineage_le (h : p.Ascending) : ∀ n ∈ p.lineage, n ≤ p.number := by
  induction p with
  | key n => simp [lineage]
  | delta n reference ih =>
    obtain ⟨hlater, hreference⟩ := h
    intro m hm
    rcases List.mem_cons.mp hm with rfl | hm
    · exact le_rfl
    · have hle := ih hreference m hm
      exact (hle.trans_lt hlater).le

variable {lost : List Nat}

/-- A loss after a picture is none of its lineage. -/
theorem Clean.lose (h : p.Clean lost) (hp : p.Ascending) {n : Nat}
    (hn : p.number < n) : p.Clean (n :: lost) := by
  intro m hm hlost
  rcases List.mem_cons.mp hlost with rfl | hold
  · have hle := hp.lineage_le m hm
    omega
  · exact h m hm hold

theorem Clean.key {n : Nat} (hn : n ∉ lost) : (Picture.key n).Clean lost := by
  intro m hm
  rwa [List.mem_singleton.mp hm]

theorem Clean.delta {n : Nat} (h : p.Clean lost) (hn : n ∉ lost) :
    (Picture.delta n p).Clean lost := by
  intro m hm
  rcases List.mem_cons.mp hm with rfl | hold
  · exact hn
  · exact h m hold

end Picture

/-- The newest picture, the numbers named since it and whether one of them was refused, and
every picture named lost so far. A number no picture has yet names none. -/
structure Stream where
  newest : Option Picture
  named : List Nat
  refused : Bool
  lost : List Nat

namespace Stream

def start : Stream := ⟨none, [], false, []⟩

/-- The receiver names a loss. -/
def name (v : Stream) (number : Nat) (accepted : Bool) : Stream :=
  { v with
    named := number :: v.named
    refused := v.refused || !accepted
    lost := if v.newest.any fun p => number ≤ p.number then number :: v.lost else v.lost }

def emit (v : Stream) (p : Picture) : Stream :=
  { v with newest := some p, named := [], refused := false }

/-- The picture is before every loss named since the last one, and none of its lineage is
lost. -/
structure Repaired (v : Stream) (p : Picture) : Prop where
  before : ∀ n ∈ v.named, p.number < n
  clean : p.Clean v.lost

structure Safe (v : Stream) (p : Picture) : Prop where
  ascending : p.Ascending
  old : ∃ q, v.newest = some q ∧ p.number ≤ q.number
  clean : (∀ n ∈ v.named, p.number < n) → p.Clean v.lost

/-- The numbering goes on: the pictures lost so far are no newer than the newest. -/
def Bounded (v : Stream) : Prop := ∀ n ∈ v.lost, ∃ q, v.newest = some q ∧ n ≤ q.number

variable {v : Stream} {p q : Picture} {n : Nat}

theorem Safe.repaired (h : v.Safe p) (hbefore : ∀ n ∈ v.named, p.number < n) : v.Repaired p :=
  ⟨hbefore, h.clean hbefore⟩

theorem bounded_start : start.Bounded := fun _ hn => absurd hn List.not_mem_nil

theorem Bounded.name (h : v.Bounded) (accepted : Bool) : (v.name n accepted).Bounded := by
  intro m hm
  unfold Stream.name at hm
  by_cases hknown : (v.newest.any fun p => decide (n ≤ p.number)) = true
  · simp only [hknown, if_true] at hm
    rcases List.mem_cons.mp hm with rfl | hold
    · obtain ⟨q, hq, hle⟩ := (Option.any_eq_true _ _).mp hknown
      exact ⟨q, hq, of_decide_eq_true hle⟩
    · exact h m hold
  · simp only [hknown] at hm
    exact h m hm

theorem Safe.name (h : v.Safe p) (accepted : Bool) : (v.name n accepted).Safe p := by
  refine ⟨h.ascending, h.old, ?_⟩
  intro hbefore
  have hclean := h.clean fun m hm => hbefore m (List.mem_cons_of_mem _ hm)
  have hn : p.number < n := hbefore n List.mem_cons_self
  unfold Stream.name
  by_cases hknown : (v.newest.any fun p => decide (n ≤ p.number)) = true
  · simp only [hknown, if_true]
    exact hclean.lose h.ascending hn
  · simp only [hknown]
    exact hclean

section

variable (hnew : ∀ q, v.newest = some q → q.number < p.number)
include hnew

theorem Bounded.emit (h : v.Bounded) : (v.emit p).Bounded := by
  intro m hm
  obtain ⟨q, hq, hle⟩ := h m hm
  exact ⟨p, rfl, hle.trans (hnew q hq).le⟩

/-- A picture before the losses named stays safe. -/
theorem Safe.emit {r : Picture} (h : v.Safe r) (hbefore : ∀ n ∈ v.named, r.number < n) :
    (v.emit p).Safe r := by
  obtain ⟨q, hq, hle⟩ := h.old
  exact ⟨h.ascending, ⟨p, rfl, hle.trans (hnew q hq).le⟩, fun _ => h.clean hbefore⟩

/-- The number of a new picture is not lost yet. -/
theorem Bounded.fresh (h : v.Bounded) : p.number ∉ v.lost := by
  intro hlost
  obtain ⟨q, hq, hle⟩ := h _ hlost
  have hless := hnew q hq
  omega

end

theorem safe_emit_key (h : v.Bounded) (hnew : ∀ q, v.newest = some q → q.number < n) :
    (v.emit (.key n)).Safe (.key n) :=
  ⟨trivial, ⟨_, rfl, le_rfl⟩,
    fun _ => Picture.Clean.key (@Bounded.fresh v (.key n) hnew h)⟩

theorem safe_emit_delta (h : v.Bounded) (hnew : ∀ q, v.newest = some q → q.number < n)
    (hp : v.Safe p) (hbefore : ∀ n ∈ v.named, p.number < n) :
    (v.emit (.delta n p)).Safe (.delta n p) := by
  obtain ⟨q, hq, hle⟩ := hp.old
  refine ⟨⟨hle.trans_lt (hnew q hq), hp.ascending⟩, ⟨_, rfl, le_rfl⟩, ?_⟩
  exact fun _ => (hp.clean hbefore).delta (@Bounded.fresh v (.delta n p) hnew h)

end Stream

end MoonlightWeb.Lib
