import Mathlib.Data.List.Infix
import Mathlib.Tactic.Common

/-! # Lines, and the blank line after them

A text is cut at every line break, a pair of two different units. What stands before
the first blank line is found by searching two breaks in a row; a text that goes on
finds the same place.
-/

namespace MoonlightWeb.Lib

open List

universe u

variable {α : Type u} [DecidableEq α]

/-- Where a pattern first stands. -/
def indexOf (pattern : List α) : List α → Option Nat
  | [] => if pattern = [] then some 0 else none
  | a :: rest =>
      if pattern.isPrefixOf (a :: rest) then some 0
      else (indexOf pattern rest).map (· + 1)

theorem indexOf_eq_some {pattern s : List α} {i : Nat} (h : indexOf pattern s = some i) :
    pattern <+: s.drop i ∧ ∀ j < i, ¬ pattern <+: s.drop j := by
  induction s generalizing i with
  | nil =>
    by_cases hp : pattern = []
    · obtain rfl : 0 = i := by simpa [indexOf, hp] using h
      exact ⟨by simp [hp], fun j hj => absurd hj (Nat.not_lt_zero j)⟩
    · simp [indexOf, hp] at h
  | cons a rest ih =>
    by_cases hp : pattern.isPrefixOf (a :: rest) = true
    · obtain rfl : 0 = i := by simpa [indexOf, hp] using h
      exact ⟨List.isPrefixOf_iff_prefix.mp hp, fun j hj => absurd hj (Nat.not_lt_zero j)⟩
    · rw [indexOf, if_neg hp, Option.map_eq_some_iff] at h
      obtain ⟨k, hk, rfl⟩ := h
      obtain ⟨hfound, hfirst⟩ := ih hk
      refine ⟨hfound, fun j hj => ?_⟩
      cases j with
      | zero => exact fun hzero => hp (List.isPrefixOf_iff_prefix.mpr hzero)
      | succ j => exact hfirst j (by omega)

theorem indexOf_isSome {pattern s : List α} {i : Nat} (hp : pattern ≠ [])
    (h : pattern <+: s.drop i) : ∃ j, indexOf pattern s = some j := by
  induction s generalizing i with
  | nil =>
    rw [drop_nil, prefix_nil] at h
    exact absurd h hp
  | cons a rest ih =>
    by_cases hhere : pattern.isPrefixOf (a :: rest) = true
    · exact ⟨0, by rw [indexOf, if_pos hhere]⟩
    · cases i with
      | zero => exact absurd (List.isPrefixOf_iff_prefix.mpr h) hhere
      | succ i =>
        obtain ⟨j, hj⟩ := ih h
        exact ⟨j + 1, by rw [indexOf, if_neg hhere, hj]; rfl⟩

/-- The first place is determined by what stands there and nowhere before. -/
theorem indexOf_eq_some_iff {pattern s : List α} {i : Nat} (hp : pattern ≠ []) :
    indexOf pattern s = some i ↔ pattern <+: s.drop i ∧ ∀ j < i, ¬ pattern <+: s.drop j := by
  constructor
  · exact indexOf_eq_some
  · intro h
    obtain ⟨j, hj⟩ := indexOf_isSome hp h.1
    obtain ⟨hfound, hfirst⟩ := indexOf_eq_some hj
    have hle : ¬ j < i := fun hlt => h.2 j hlt hfound
    have hge : ¬ i < j := fun hlt => hfirst i hlt h.1
    obtain rfl : j = i := by omega
    exact hj

omit [DecidableEq α] in
/-- What stands in the front part of a text stands there in the whole. -/
theorem prefix_drop_iff {pattern s t : List α} (hp : pattern ≠ []) (hst : s <+: t) (i : Nat) :
    pattern <+: s.drop i ↔ pattern <+: t.drop i ∧ i + pattern.length ≤ s.length := by
  obtain ⟨more, rfl⟩ := hst
  have hpos := length_pos_iff.mpr hp
  constructor
  · intro h
    have hlength := h.length_le
    rw [length_drop] at hlength
    refine ⟨?_, by omega⟩
    rw [drop_append_of_le_length (by omega)]
    exact h.trans (prefix_append _ _)
  · intro h
    have hpattern := h.1
    rw [drop_append_of_le_length (by omega)] at hpattern
    exact prefix_of_prefix_length_le hpattern (prefix_append _ _)
      (by rw [length_drop]; omega)

theorem indexOf_of_prefix {pattern s t : List α} (hp : pattern ≠ []) (hst : s <+: t) {i : Nat}
    (h : indexOf pattern s = some i) : indexOf pattern t = some i := by
  obtain ⟨hfound, hfirst⟩ := indexOf_eq_some h
  obtain ⟨hfound, hfits⟩ := (prefix_drop_iff hp hst i).mp hfound
  refine (indexOf_eq_some_iff hp).mpr ⟨hfound, fun j hj hbefore => ?_⟩
  exact hfirst j hj ((prefix_drop_iff hp hst j).mpr ⟨hbefore, by omega⟩)

/-- The front part of a text has the pattern when it reaches past it. -/
theorem indexOf_of_reaches {pattern s t : List α} (hp : pattern ≠ []) (hst : s <+: t) {i : Nat}
    (h : indexOf pattern t = some i) (hreach : i + pattern.length ≤ s.length) :
    indexOf pattern s = some i := by
  obtain ⟨hfound, hfirst⟩ := indexOf_eq_some h
  refine (indexOf_eq_some_iff hp).mpr
    ⟨(prefix_drop_iff hp hst i).mpr ⟨hfound, hreach⟩, fun j hj hbefore => ?_⟩
  exact hfirst j hj ((prefix_drop_iff hp hst j).mp hbefore).1

section

variable (cr lf : α)

/-- A text cut at every break, empty lines included. -/
def splitLines : List α → List (List α)
  | [] => [[]]
  | [a] => [[a]]
  | a :: b :: rest =>
      if a = cr ∧ b = lf then [] :: splitLines rest
      else (splitLines (b :: rest)).modifyHead (a :: ·)

theorem splitLines_ne_nil (s : List α) : splitLines cr lf s ≠ [] := by
  fun_induction splitLines cr lf s with
  | case1 => simp
  | case2 a => simp
  | case3 a b rest hyes ih => simp
  | case4 a b rest hno ih => simpa using ih

variable {cr lf}

theorem splitLines_break (rest : List α) :
    splitLines cr lf (cr :: lf :: rest) = [] :: splitLines cr lf rest := by
  rw [splitLines, if_pos ⟨rfl, rfl⟩]

theorem splitLines_cons {a : α} {s : List α} (h : ¬ [cr, lf] <+: a :: s) :
    splitLines cr lf (a :: s) = (splitLines cr lf s).modifyHead (a :: ·) := by
  cases s with
  | nil => rfl
  | cons b rest =>
    rw [splitLines, if_neg]
    rintro ⟨rfl, rfl⟩
    exact h (by simp)

/-- Units that start no break belong to the first line. -/
theorem splitLines_front {front : List α} (h : ∀ a ∈ front, a ≠ cr) (s : List α) :
    splitLines cr lf (front ++ s) = (splitLines cr lf s).modifyHead (front ++ ·) := by
  induction front with
  | nil =>
    cases hlines : splitLines cr lf s with
    | nil => exact absurd hlines (splitLines_ne_nil cr lf s)
    | cons l lines => simp [hlines]
  | cons a front ih =>
    have hno : ¬ [cr, lf] <+: a :: (front ++ s) := by
      intro hbreak
      exact h a mem_cons_self (cons_prefix_cons.mp hbreak).1.symm
    rw [cons_append, splitLines_cons hno, ih fun b hb => h b (mem_cons_of_mem a hb),
      modifyHead_modifyHead]
    rfl

theorem modifyHead_append {β : Type u} {f : β → β} {l : List β} (h : l ≠ []) (more : List β) :
    (l ++ more).modifyHead f = l.modifyHead f ++ more := by
  cases l with
  | nil => exact absurd rfl h
  | cons x l => rfl

theorem splitLines_append (hne : cr ≠ lf) (s t : List α) :
    splitLines cr lf (s ++ cr :: lf :: t) = splitLines cr lf s ++ splitLines cr lf t := by
  fun_induction splitLines cr lf s with
  | case1 => exact splitLines_break t
  | case2 a =>
    have hno : ¬ [cr, lf] <+: a :: cr :: lf :: t := by
      intro h
      have hlf : lf = cr := by simpa using (cons_prefix_cons.mp h).2
      exact hne hlf.symm
    rw [singleton_append, splitLines_cons hno, splitLines_break]
    rfl
  | case3 a b rest hyes ih =>
    rw [hyes.1, hyes.2]
    rw [cons_append, cons_append, splitLines_break, ih]
    rfl
  | case4 a b rest hno ih =>
    have hno : ¬ [cr, lf] <+: a :: (b :: rest ++ cr :: lf :: t) := by
      intro h
      obtain ⟨rfl, hrest⟩ := cons_prefix_cons.mp h
      obtain ⟨rfl, _⟩ := cons_prefix_cons.mp hrest
      exact hno ⟨rfl, rfl⟩
    rw [cons_append, splitLines_cons hno, ih,
      modifyHead_append (splitLines_ne_nil cr lf _)]

theorem intercalate_splitLines (s : List α) :
    [cr, lf].intercalate (splitLines cr lf s) = s := by
  have hhead : ∀ (a : α) (lines : List (List α)), lines ≠ [] →
      [cr, lf].intercalate (lines.modifyHead (a :: ·)) = a :: [cr, lf].intercalate lines := by
    intro a lines hlines
    cases lines with
    | nil => exact absurd rfl hlines
    | cons l lines => cases lines <;> simp [List.intercalate, List.intersperse]
  fun_induction splitLines cr lf s with
  | case1 => rfl
  | case2 a => rfl
  | case3 a b rest hyes ih =>
    rw [hyes.1, hyes.2]
    have hne := splitLines_ne_nil cr lf rest
    cases hlines : splitLines cr lf rest with
    | nil => exact absurd hlines hne
    | cons l lines =>
      rw [hlines] at ih
      rw [← ih]
      simp [List.intercalate, List.intersperse]
  | case4 a b rest hno ih => rw [hhead a _ (splitLines_ne_nil cr lf _), ih]

theorem splitLines_head {s l : List α} (h : (splitLines cr lf s).head? = some l) :
    ∃ t, s = l ++ t ∧ (t = [] ∨ [cr, lf] <+: t) := by
  fun_induction splitLines cr lf s generalizing l with
  | case1 =>
    obtain rfl : [] = l := by simpa using h
    exact ⟨[], rfl, Or.inl rfl⟩
  | case2 a =>
    obtain rfl : [a] = l := by simpa using h
    exact ⟨[], by simp, Or.inl rfl⟩
  | case3 a b rest hyes ih =>
    rw [hyes.1, hyes.2]
    obtain rfl : [] = l := by simpa using h
    exact ⟨cr :: lf :: rest, rfl, Or.inr (by simp)⟩
  | case4 a b rest hno ih =>
    cases hlines : splitLines cr lf (b :: rest) with
    | nil => exact absurd hlines (splitLines_ne_nil cr lf _)
    | cons l' lines =>
      rw [hlines] at h
      obtain rfl : a :: l' = l := by simpa using h
      obtain ⟨t, ht, hend⟩ := ih (by rw [hlines]; rfl)
      exact ⟨t, by rw [ht]; rfl, hend⟩

theorem blank_of_mem_tail {s : List α} (h : [] ∈ (splitLines cr lf s).tail) :
    ∃ i < s.length, [cr, lf, cr, lf] <+: (s ++ [cr, lf]).drop i := by
  fun_induction splitLines cr lf s with
  | case1 => simp at h
  | case2 a => simp at h
  | case3 a b rest hyes ih =>
    rw [hyes.1, hyes.2]
    have hfirst : (splitLines cr lf rest).head? = some [] →
        [cr, lf, cr, lf] <+: cr :: lf :: (rest ++ [cr, lf]) := by
      intro hhead
      obtain ⟨t, ht, hend⟩ := splitLines_head hhead
      cases hend with
      | inl hnil =>
        obtain rfl : rest = [] := by rw [ht, hnil]; rfl
        simp
      | inr hbreak =>
        obtain ⟨u, rfl⟩ := hbreak
        rw [ht]
        simp
    cases hlines : splitLines cr lf rest with
    | nil => exact absurd hlines (splitLines_ne_nil cr lf _)
    | cons l lines =>
      rw [hlines] at h ih hfirst
      cases mem_cons.mp h with
      | inl hl =>
        subst hl
        exact ⟨0, by simp, hfirst rfl⟩
      | inr hl =>
        obtain ⟨i, hi, hblank⟩ := ih hl
        exact ⟨i + 2, by simpa using hi, hblank⟩
  | case4 a b rest hno ih =>
    have htail : ((splitLines cr lf (b :: rest)).modifyHead (a :: ·)).tail =
        (splitLines cr lf (b :: rest)).tail := by
      cases splitLines cr lf (b :: rest) <;> rfl
    rw [htail] at h
    obtain ⟨i, hi, hblank⟩ := ih h
    exact ⟨i + 1, by simpa using hi, hblank⟩

theorem not_mem_tail_of_indexOf {s : List α} {i : Nat} (h : indexOf [cr, lf, cr, lf] s = some i) :
    [] ∉ (splitLines cr lf (s.take i)).tail := by
  intro hmem
  obtain ⟨hfound, hfirst⟩ := indexOf_eq_some h
  obtain ⟨j, hj, hblank⟩ := blank_of_mem_tail hmem
  rw [length_take] at hj
  obtain ⟨after, hafter⟩ := hfound
  have hfront : s.take i ++ [cr, lf] <+: s := by
    refine ⟨[cr, lf] ++ after, ?_⟩
    rw [append_assoc]
    have hsplit := take_append_drop i s
    rw [← hafter] at hsplit
    simpa using hsplit
  exact hfirst j (by omega) ((prefix_drop_iff (by simp) hfront j).mp hblank).1

end

end MoonlightWeb.Lib
