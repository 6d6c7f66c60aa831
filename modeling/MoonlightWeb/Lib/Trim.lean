import Mathlib

/-! # Blanks around a text

Cutting the letters a predicate holds of from both ends of a list, and the
first occurrence of a separator.
-/

namespace MoonlightWeb.Lib

open List

variable {α : Type*}

/-- The list without what `blank` holds of at its two ends. -/
def trim (blank : α → Bool) (s : List α) : List α :=
  ((s.dropWhile blank).reverse.dropWhile blank).reverse

structure Trimmed (blank : α → Bool) (s : List α) : Prop where
  head : ∀ u ∈ s.head?, blank u = false
  last : ∀ u ∈ s.getLast?, blank u = false

variable {blank : α → Bool}

theorem dropWhile_blank {lead rest : List α} (hlead : ∀ u ∈ lead, blank u = true)
    (hrest : ∀ u ∈ rest.head?, blank u = false) : (lead ++ rest).dropWhile blank = rest := by
  induction lead with
  | nil =>
    cases rest with
    | nil => rfl
    | cons u rest => simp [hrest u (by simp)]
  | cons v lead ih =>
    rw [cons_append, dropWhile_cons, if_pos (hlead v (by simp))]
    exact ih fun u hu => hlead u (mem_cons_of_mem v hu)

theorem dropWhile_head (blank : α → Bool) (s : List α) :
    ∀ u ∈ (s.dropWhile blank).head?, blank u = false := by
  intro u hu
  have hfails := List.head?_dropWhile_not blank s
  rw [Option.mem_def.mp hu] at hfails
  simpa using hfails

theorem trim_eq {lead core tail : List α} (hlead : ∀ u ∈ lead, blank u = true)
    (htail : ∀ u ∈ tail, blank u = true) (hcore : Trimmed blank core) :
    trim blank (lead ++ core ++ tail) = core := by
  cases hnil : core with
  | nil =>
    have hall : ∀ u ∈ lead ++ tail, blank u = true := fun u hu =>
      (mem_append.mp hu).elim (hlead u) (htail u)
    have hnone : (lead ++ tail ++ []).dropWhile blank = [] := dropWhile_blank hall (by simp)
    rw [append_nil] at hnone
    simp [trim, hnone]
  | cons u rest =>
    have hfront : (lead ++ core ++ tail).dropWhile blank = core ++ tail := by
      rw [append_assoc]
      apply dropWhile_blank hlead
      intro v hv
      exact hcore.head v (by simpa [hnil] using hv)
    have hback : (tail.reverse ++ core.reverse).dropWhile blank = core.reverse := by
      apply dropWhile_blank (fun v hv => htail v (mem_reverse.mp hv))
      intro v hv
      exact hcore.last v (by simpa using hv)
    rw [← hnil, trim, hfront, reverse_append, hback, reverse_reverse]

theorem trim_spec (blank : α → Bool) (s : List α) :
    ∃ lead tail, s = lead ++ trim blank s ++ tail ∧ (∀ u ∈ lead, blank u = true) ∧
      ∀ u ∈ tail, blank u = true := by
  refine ⟨s.takeWhile blank, ((s.dropWhile blank).reverse.takeWhile blank).reverse, ?_,
    fun u hu => mem_takeWhile_imp hu,
    fun u hu => mem_takeWhile_imp (mem_reverse.mp hu)⟩
  have hback : trim blank s ++ ((s.dropWhile blank).reverse.takeWhile blank).reverse =
      s.dropWhile blank := by
    rw [trim, ← reverse_append, takeWhile_append_dropWhile, reverse_reverse]
  rw [append_assoc, hback, takeWhile_append_dropWhile]

theorem trim_trimmed (blank : α → Bool) (s : List α) : Trimmed blank (trim blank s) := by
  obtain ⟨back, hback⟩ : ∃ back, s.dropWhile blank = trim blank s ++ back :=
    ⟨((s.dropWhile blank).reverse.takeWhile blank).reverse, by
      rw [trim, ← reverse_append, takeWhile_append_dropWhile, reverse_reverse]⟩
  constructor
  · intro u hu
    apply dropWhile_head blank s u
    rw [hback]
    cases htrim : trim blank s with
    | nil => simp [htrim] at hu
    | cons v rest => simpa [htrim] using hu
  · intro u hu
    apply dropWhile_head blank (s.dropWhile blank).reverse u
    simpa [trim] using hu

/-- Two ways to put blanks around a text that starts and ends with none are one. -/
theorem trim_unique {lead core tail lead' core' tail' : List α}
    (h : lead ++ core ++ tail = lead' ++ core' ++ tail')
    (hlead : ∀ u ∈ lead, blank u = true) (htail : ∀ u ∈ tail, blank u = true)
    (hlead' : ∀ u ∈ lead', blank u = true) (htail' : ∀ u ∈ tail', blank u = true)
    (hcore : Trimmed blank core) (hcore' : Trimmed blank core') (hne : core ≠ []) :
    lead = lead' ∧ core = core' ∧ tail = tail' := by
  have hsame : core = core' := by
    rw [← trim_eq hlead htail hcore, h, trim_eq hlead' htail' hcore']
  subst hsame
  have hhead : ∀ u ∈ (core ++ tail).head?, blank u = false := by
    cases core with
    | nil => exact absurd rfl hne
    | cons v rest => exact fun u hu => hcore.head u (by simpa using hu)
  have hhead' : ∀ u ∈ (core ++ tail').head?, blank u = false := by
    cases core with
    | nil => exact absurd rfl hne
    | cons v rest => exact fun u hu => hcore.head u (by simpa using hu)
  rw [append_assoc, append_assoc] at h
  have hrest : core ++ tail = core ++ tail' := by
    rw [← dropWhile_blank hlead hhead, h, dropWhile_blank hlead' hhead']
  have htails : tail = tail' := append_cancel_left hrest
  subst htails
  exact ⟨append_cancel_right h, rfl, rfl⟩

theorem idxOf_first [DecidableEq α] {sep : α} {before : List α} (after : List α)
    (h : sep ∉ before) : (before ++ sep :: after).idxOf sep = before.length := by
  rw [idxOf_append_of_notMem h, idxOf_cons_self, Nat.add_zero]

/-- Cutting at the first separator. -/
theorem exists_first [DecidableEq α] {sep : α} {s : List α} (h : s.idxOf sep < s.length) :
    ∃ before after, s = before ++ sep :: after ∧ sep ∉ before ∧ before.length = s.idxOf sep := by
  induction s with
  | nil => simp at h
  | cons u s ih =>
    by_cases hu : u = sep
    · subst hu
      exact ⟨[], s, rfl, by simp, by simp⟩
    · rw [idxOf_cons_ne s hu, length_cons] at h
      obtain ⟨before, after, hs, hfirst, hlength⟩ := ih (by omega)
      refine ⟨u :: before, after, by rw [hs, cons_append], ?_, ?_⟩
      · intro hmem
        rcases mem_cons.mp hmem with hsep | hmem
        · exact hu hsep.symm
        · exact hfirst hmem
      · rw [length_cons, idxOf_cons_ne s hu, hlength]

theorem first_unique {sep : α} {before after before' after' : List α}
    (h : before ++ sep :: after = before' ++ sep :: after') (hb : sep ∉ before)
    (hb' : sep ∉ before') : before = before' ∧ after = after' := by
  classical
  have hlength : before.length = before'.length := by
    rw [← idxOf_first after hb, h, idxOf_first after' hb']
  obtain ⟨hbefore, hafter⟩ := append_inj h hlength
  exact ⟨hbefore, by simpa using hafter⟩

end MoonlightWeb.Lib
