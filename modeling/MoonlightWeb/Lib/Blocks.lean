import Mathlib
import MoonlightWeb.Lib.Lines

/-! # Blocks between two tags

What the lazy pattern `opening .*? closing` matches in a text, each match after the one
before it. A block that stands on lines of its own is within some match, whatever text
is around it.
-/

namespace MoonlightWeb.Lib

open List

universe u

variable {α : Type u} [DecidableEq α]

/-- The match that begins where the text does: up to the first closing tag. -/
def matchAt (opening closing s : List α) : Option (List α) :=
  if opening.isPrefixOf s then
    (indexOf closing (s.drop opening.length)).map fun i =>
      s.take (opening.length + i + closing.length)
  else none

/-- The matches in a text past its first `skip` units. -/
def blocksFrom (opening closing : List α) : Nat → List α → List (List α)
  | _, [] => []
  | skip + 1, _ :: rest => blocksFrom opening closing skip rest
  | 0, a :: rest =>
      match matchAt opening closing (a :: rest) with
      | some block => block :: blocksFrom opening closing (block.length - 1) rest
      | none => blocksFrom opening closing 0 rest

def blocks (opening closing s : List α) : List (List α) := blocksFrom opening closing 0 s

/-- No occurrence of the pattern begins in the text, whatever follows it. -/
def Avoids (pattern s : List α) : Prop :=
  ∀ i < s.length, ¬ pattern.take (s.length - i) <+: s.drop i

instance (pattern s : List α) : Decidable (Avoids pattern s) :=
  inferInstanceAs (Decidable (∀ i < s.length, _))

omit [DecidableEq α] in
variable {pattern s : List α}

theorem Avoids.not_prefix (h : Avoids pattern s) (t : List α) {i : Nat}
    (hi : i < s.length) : ¬ pattern <+: (s ++ t).drop i := by
  intro hpattern
  apply h i hi
  have htake := hpattern.take (s.length - i)
  rw [drop_append_of_le_length hi.le] at htake
  refine htake.trans ?_
  rw [take_append_of_le_length (by rw [length_drop])]
  exact take_prefix _ _

omit [DecidableEq α] in
theorem Avoids.append {pattern s t : List α} (hs : Avoids pattern s) (ht : Avoids pattern t) :
    Avoids pattern (s ++ t) := by
  intro i hi hpattern
  rw [length_append] at hi hpattern
  by_cases hlt : i < s.length
  · have htake := hpattern.take (s.length - i)
    rw [take_take, Nat.min_eq_left (by omega), drop_append_of_le_length hlt.le,
      take_append_of_le_length (by rw [length_drop])] at htake
    exact hs i hlt (htake.trans (List.take_prefix _ _))
  · rw [drop_append, drop_eq_nil_of_le (by omega), nil_append] at hpattern
    refine ht (i - s.length) (by omega) ?_
    rwa [show t.length - (i - s.length) = s.length + t.length - i by omega]

omit [DecidableEq α] in
theorem Avoids.right {pattern s t : List α} (h : Avoids pattern (s ++ t)) : Avoids pattern t := by
  intro i hi hpattern
  refine h (s.length + i) (by rw [length_append]; omega) ?_
  rwa [length_append, Nat.add_sub_add_left, drop_append,
    drop_eq_nil_of_le (by omega), nil_append, Nat.add_sub_cancel_left]

omit [DecidableEq α] in
theorem avoids_of_not_mem {p : α} (h : p ∉ s) : Avoids (p :: pattern) s := by
  intro i hi hpattern
  obtain ⟨n, hn⟩ : ∃ n, s.length - i = n + 1 := ⟨s.length - i - 1, by omega⟩
  rw [hn, take_succ_cons] at hpattern
  have hmem : p ∈ s.drop i := hpattern.subset (mem_cons_self ..)
  exact h (mem_of_mem_drop hmem)

theorem indexOf_of_avoids (hp : pattern ≠ []) (h : Avoids pattern s)
    (t : List α) : indexOf pattern (s ++ (pattern ++ t)) = some s.length := by
  refine (indexOf_eq_some_iff hp).mpr ⟨?_, fun j hj => h.not_prefix _ hj⟩
  rw [drop_left]
  exact prefix_append _ _

omit [DecidableEq α] in
/-- Of two texts a unit apart that is not in the pattern, an occurrence is in one. -/
theorem prefix_drop_cons {pattern u w : List α} {sep : α} (hsep : sep ∉ pattern)
    (hp : pattern ≠ []) {j : Nat} (h : pattern <+: (u ++ sep :: w).drop j) :
    j + pattern.length ≤ u.length ∨ ∃ k, j = u.length + 1 + k ∧ pattern <+: w.drop k := by
  have hpos := length_pos_iff.mpr hp
  by_cases hbefore : j ≤ u.length
  · left
    by_contra hlong
    apply hsep
    rw [drop_append_of_le_length hbefore] at h
    have hget := prefix_iff_getElem?.mp h (u.length - j) (by omega)
    rw [List.getElem?_append_right (by rw [length_drop]), length_drop, Nat.sub_self,
      List.getElem?_cons_zero] at hget
    rw [Option.some.inj hget]
    exact getElem_mem _
  · right
    refine ⟨j - u.length - 1, by omega, ?_⟩
    rw [drop_append, drop_eq_nil_of_le (by omega), nil_append] at h
    rwa [show j - u.length = j - u.length - 1 + 1 by omega, drop_succ_cons] at h

/-- Past a text the opening tag does not begin in, the matches are those of the rest. -/
theorem blocksFrom_of_avoids {opening closing s : List α} (h : Avoids opening s) (t : List α) :
    blocksFrom opening closing 0 (s ++ t) = blocksFrom opening closing 0 t := by
  induction s with
  | nil => rfl
  | cons a s ih =>
    have hnot : opening.isPrefixOf (a :: (s ++ t)) = false := by
      rw [Bool.eq_false_iff, ne_eq, isPrefixOf_iff_prefix]
      exact h.not_prefix t (Nat.zero_lt_succ _)
    have hrest : Avoids opening s := by
      intro i hi
      have hnext := h (i + 1) (by simpa using hi)
      rwa [length_cons, Nat.add_sub_add_right, drop_succ_cons] at hnext
    rw [cons_append, blocksFrom, matchAt, hnot, if_neg Bool.false_ne_true]
    exact ih hrest

section

variable {opening closing lead inner : List α} {sep : α} (hopen : opening ≠ [])
  (hclose : closing ≠ []) (hsepOpen : sep ∉ opening) (hsepClose : sep ∉ closing)
  (hlead : Avoids opening lead) (hinner : Avoids closing (lead ++ opening ++ inner))

include hclose hinner in
theorem matchAt_block (v : List α) :
    matchAt opening closing (opening ++ (inner ++ (closing ++ v))) =
      some (opening ++ inner ++ closing) := by
  have hafter : Avoids closing inner := hinner.right
  have hprefix : opening.isPrefixOf (opening ++ (inner ++ (closing ++ v))) = true :=
    List.isPrefixOf_iff_prefix.mpr (prefix_append _ _)
  rw [matchAt, if_pos hprefix, drop_left, indexOf_of_avoids hclose hafter, Option.map_some]
  congr 1
  rw [← append_assoc, ← append_assoc]
  exact take_left' (by simp [Nat.add_assoc])

include hopen hclose hsepOpen hsepClose hlead hinner in
/-- A block of its own lines is within some match of any text it stands in. The induction is
on the text in front of it, of which the first `skip` units are already matched. -/
theorem exists_mem_blocksFrom (u v : List α) {skip : Nat} (hskip : skip ≤ u.length) :
    ∃ b ∈ blocksFrom opening closing skip
        (u ++ sep :: (lead ++ opening ++ inner ++ (closing ++ v))), inner <:+: b := by
  induction u generalizing skip with
  | nil =>
    obtain rfl : skip = 0 := by simpa using hskip
    obtain ⟨o, more, rfl⟩ := exists_cons_of_ne_nil hopen
    have hone : Avoids (o :: more) [sep] := by
      refine avoids_of_not_mem fun h => hsepOpen ?_
      rw [mem_singleton] at h
      rw [← h]
      exact mem_cons_self ..
    have hsplit : ([] ++ sep :: (lead ++ (o :: more) ++ inner ++ (closing ++ v)) : List α) =
        ([sep] ++ lead) ++ ((o :: more) ++ (inner ++ (closing ++ v))) := by simp
    have hmatch := matchAt_block hclose hinner v
    rw [hsplit, blocksFrom_of_avoids (hone.append hlead)]
    rw [cons_append] at hmatch ⊢
    refine ⟨(o :: more) ++ inner ++ closing, ?_, ⟨o :: more, closing, rfl⟩⟩
    rw [blocksFrom, hmatch]
    exact mem_cons_self ..
  | cons a u ih =>
    cases skip with
    | succ skip => exact ih (Nat.le_of_succ_le_succ hskip)
    | zero =>
      rw [cons_append, blocksFrom]
      cases hmatch : matchAt opening closing
          (a :: (u ++ sep :: (lead ++ opening ++ inner ++ (closing ++ v)))) with
      | none => exact ih (Nat.zero_le _)
      | some block =>
        -- Where the first closing tag is decides whether the match holds the block.
        unfold matchAt at hmatch
        split_ifs at hmatch with hfront
        rw [Option.map_eq_some_iff] at hmatch
        obtain ⟨j, hj, rfl⟩ := hmatch
        have hfits := prefix_drop_cons (u := a :: u) hsepOpen hopen
          (j := 0) (List.isPrefixOf_iff_prefix.mp hfront)
        have hopened : opening.length ≤ (a :: u).length := by omega
        rw [← cons_append, drop_append_of_le_length hopened] at hj
        have hclosed := prefix_drop_cons hsepClose hclose (indexOf_eq_some hj).1
        have hleft : ((a :: u).drop opening.length).length =
          (a :: u).length - opening.length := length_drop
        cases hclosed with
        | inl hearly =>
          have hnext : opening.length + j + closing.length - 1 ≤ u.length := by
            rw [length_cons] at hleft hopened
            omega
          obtain ⟨b, hb, hin⟩ := ih hnext
          refine ⟨b, mem_cons_of_mem _ ?_, hin⟩
          rwa [length_take_of_le (by
            simp only [length_cons, length_append] at hleft hopened ⊢
            omega)]
        | inr hlate =>
          obtain ⟨k, rfl, hk⟩ := hlate
          have hpast : (lead ++ opening ++ inner).length ≤ k := by
            by_contra hlt
            exact hinner.not_prefix (closing ++ v) (by omega) hk
          refine ⟨_, mem_cons_self .., ?_⟩
          have hheld : (a :: u ++ sep :: (lead ++ opening)) ++ inner <+:
              (a :: (u ++ sep :: (lead ++ opening ++ inner ++ (closing ++ v)))).take
                (opening.length + (((a :: u).drop opening.length).length + 1 + k) +
                  closing.length) := by
            refine prefix_take_iff.mpr ⟨⟨closing ++ v, by simp⟩, ?_⟩
            simp only [length_cons, length_append] at hleft hpast hopened ⊢
            omega
          exact List.IsInfix.trans ⟨a :: u ++ sep :: (lead ++ opening), [], by simp⟩
            hheld.isInfix

include hopen hclose hsepOpen hsepClose hlead hinner in
theorem exists_mem_blocks (u v : List α) :
    ∃ b ∈ blocks opening closing (u ++ sep :: (lead ++ opening ++ inner ++ (closing ++ v))),
      inner <:+: b :=
  exists_mem_blocksFrom hopen hclose hsepOpen hsepClose hlead hinner u v (Nat.zero_le _)

end

end MoonlightWeb.Lib
