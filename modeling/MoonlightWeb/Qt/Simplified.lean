import MoonlightWeb.Qt.QString
import Mathlib

/-! # When `simplified` changes nothing

`simplified` joins the words of a text by single spaces. A text whose only
spaces are U+0020 is left alone exactly when it is tidy.
-/

namespace MoonlightWeb.Qt.QString

open List

/-- Cut at its spaces the text falls into nonempty pieces: it neither starts nor
ends with a space and has no two in a row. -/
def Tidy (s : QString) : Prop := s = [] ∨ [] ∉ s.splitOnP isSpace

instance : DecidablePred Tidy := fun s => by
  unfold Tidy
  infer_instance

theorem splitOnP_mem (p : UInt16 → Bool) (s : QString) :
    ∀ piece ∈ s.splitOnP p, ∀ u ∈ piece, u ∈ s ∧ p u = false := by
  induction s with
  | nil => simp
  | cons v s ih =>
    have hlift : ∀ piece ∈ s.splitOnP p, ∀ u ∈ piece, u ∈ v :: s ∧ p u = false :=
      fun piece hpiece u hu => ⟨mem_cons_of_mem v (ih piece hpiece u hu).1,
        (ih piece hpiece u hu).2⟩
    rw [splitOnP_cons_eq_if_modifyHead]
    by_cases hv : p v = true
    · rw [if_pos hv]
      intro piece hpiece u hu
      rcases mem_cons.mp hpiece with rfl | hpiece
      · simp at hu
      · exact hlift piece hpiece u hu
    · rw [if_neg hv]
      cases hpieces : s.splitOnP p with
      | nil => exact absurd hpieces (splitOnP_ne_nil p s)
      | cons first others =>
        rw [modifyHead_cons]
        intro piece hpiece u hu
        rcases mem_cons.mp hpiece with rfl | hpiece
        · rcases mem_cons.mp hu with rfl | hu
          · exact ⟨by simp, by simpa using hv⟩
          · exact hlift first (by simp [hpieces]) u hu
        · exact hlift piece (by simp [hpieces, hpiece]) u hu

theorem intercalate_mem {u x : UInt16} {pieces : List QString} (h : u ∈ [x].intercalate pieces) :
    (∃ piece ∈ pieces, u ∈ piece) ∨ u = x := by
  induction pieces with
  | nil => simp at h
  | cons piece pieces ih =>
    by_cases hempty : pieces = []
    · subst hempty
      rw [intercalate_singleton] at h
      exact Or.inl ⟨piece, by simp, h⟩
    · rw [intercalate_cons_of_ne_nil hempty] at h
      rcases mem_append.mp h with h | h
      · rcases mem_append.mp h with h | h
        · exact Or.inl ⟨piece, by simp, h⟩
        · exact Or.inr (by simpa using h)
      · rcases ih h with ⟨piece', hpiece', hu⟩ | hu
        · exact Or.inl ⟨piece', mem_cons_of_mem piece hpiece', hu⟩
        · exact Or.inr hu

variable {s : QString}

theorem simplified_mem {u : UInt16} (h : u ∈ simplified s) :
    (u ∈ s ∧ isSpace u = false) ∨ u = 0x20 := by
  rcases intercalate_mem h with ⟨piece, hpiece, hu⟩ | hu
  · exact Or.inl (splitOnP_mem isSpace s piece (mem_of_mem_filter hpiece) u hu)
  · exact Or.inr hu

theorem intercalate_length (x : UInt16) (pieces : List QString) :
    ([x].intercalate pieces).length = (pieces.map List.length).sum + (pieces.length - 1) := by
  induction pieces with
  | nil => simp
  | cons piece pieces ih =>
    cases pieces with
    | nil => simp
    | cons next others =>
      rw [intercalate_cons_cons, length_append, ih]
      simp only [length_append, length_cons, length_nil, map_cons,
        sum_cons]
      omega

/-- Leaving out the empty pieces leaves out no letter. -/
theorem sum_nonempty (pieces : List QString) :
    ((pieces.filter fun piece => !piece.isEmpty).map List.length).sum =
      (pieces.map List.length).sum := by
  induction pieces with
  | nil => rfl
  | cons piece pieces ih =>
    cases piece with
    | nil => simpa using ih
    | cons u rest => simp [ih]

variable (hspaces : ∀ u ∈ s, isSpace u = true → u = 0x20)

include hspaces

theorem splitOnP_eq_splitOn :
    s.splitOnP isSpace = s.splitOn 0x20 := by
  induction s with
  | nil => rfl
  | cons u s ih =>
    have hrest := ih fun v hv => hspaces v (mem_cons_of_mem u hv)
    rw [splitOnP_cons_eq_if_modifyHead, splitOn_cons_eq_if_modifyHead, hrest]
    by_cases hu : u = 0x20
    · have hspace : isSpace u = true := by
        rw [hu]
        decide
      rw [if_pos hspace, if_pos (by simp [hu])]
    · have hspace : ¬ isSpace u = true := fun h => hu (hspaces u (by simp) h)
      rw [if_neg hspace, if_neg (by simpa using hu)]

/-- A simplified text is joined of the same letters with no more spaces. -/
theorem simplified_length :
    (simplified s).length ≤ s.length := by
  have hjoined : ([0x20].intercalate (s.splitOn 0x20)).length = s.length := by
    rw [intercalate_splitOn]
  rw [← splitOnP_eq_splitOn hspaces, intercalate_length] at hjoined
  have hfewer := length_filter_le (fun piece : QString => !piece.isEmpty)
    (s.splitOnP isSpace)
  rw [simplified, splitSkipEmpty, intercalate_length, sum_nonempty]
  omega

theorem simplified_eq_self_iff :
    simplified s = s ↔ Tidy s := by
  have hjoined : [0x20].intercalate (s.splitOn 0x20) = s := intercalate_splitOn 0x20
  rw [← splitOnP_eq_splitOn hspaces] at hjoined
  constructor
  · intro heq
    by_contra huntidy
    have hne : s ≠ [] ∧ [] ∈ s.splitOnP isSpace := by simpa [Tidy] using huntidy
    have hfewer : (splitSkipEmpty isSpace s).length < (s.splitOnP isSpace).length := by
      rw [splitSkipEmpty, length_filter_lt_length_iff_exists]
      exact ⟨[], hne.2, by simp⟩
    have hmany : 2 ≤ (s.splitOnP isSpace).length := by
      by_contra hfew
      cases hpieces : s.splitOnP isSpace with
      | nil => exact splitOnP_ne_nil _ _ hpieces
      | cons piece others =>
        rw [hpieces, length_cons] at hfew
        have hothers : others = [] := length_eq_zero_iff.mp (by omega)
        rw [hpieces, hothers, mem_singleton] at hne
        rw [hpieces, hothers, intercalate_singleton, ← hne.2] at hjoined
        exact hne.1 hjoined.symm
    have hlength := congrArg List.length (heq.trans hjoined.symm)
    rw [simplified, intercalate_length, intercalate_length, splitSkipEmpty, sum_nonempty] at hlength
    rw [splitSkipEmpty] at hfewer
    omega
  · rintro (hnil | hpieces)
    · rw [hnil]
      rfl
    · have hall : splitSkipEmpty isSpace s = s.splitOnP isSpace := by
        apply filter_eq_self.mpr
        intro piece hpiece
        cases piece with
        | nil => exact absurd hpiece hpieces
        | cons u rest => rfl
      rw [simplified, hall, hjoined]

omit hspaces

end MoonlightWeb.Qt.QString
