import Mathlib.Data.List.Basic
import Mathlib.Tactic.Common
import Mathlib.Tactic.Ring

/-! # Patches of memory

A memory of cells, rectangles of it given by rows a stride apart, their contents saved and
put back. Whatever is written inside a rectangle meanwhile is undone; how the rows lie, and
whether rectangles overlap, does not matter.
-/

namespace MoonlightWeb.Lib.Patches

open List

universe u

abbrev Memory (β : Type u) := Nat → β

variable {β : Type u}

variable (m : Memory β)

def memcpy (dst : Nat) (data : List β) : Memory β :=
  fun a => if dst ≤ a then (data[a - dst]?).getD (m a) else m a

/-- Rows of as many cells, a stride apart. -/
structure Block where
  base : Nat
  stride : Nat
  cells : Nat
  rows : Nat

def Block.cell (b : Block) (row i : Nat) : Nat :=
  b.base + row * b.stride + i

def Block.Has (b : Block) (a : Nat) : Prop :=
  ∃ row < b.rows, ∃ i < b.cells, a = b.cell row i

/-- The contents of a block, row after row. -/
def save (b : Block) : List β :=
  (List.range b.rows).flatMap fun row => (List.range b.cells).map fun i => m (b.cell row i)

/-- Contents put into a block, row after row. -/
def restore (b : Block) (data : List β) : Memory β :=
  (List.range b.rows).foldl
    (fun m row => memcpy m (b.cell row 0) ((data.drop (row * b.cells)).take b.cells)) m

/-- Nothing outside the cells is changed. -/
def Within (cells : Nat → Prop) (m m' : Memory β) : Prop :=
  ∀ a, ¬ cells a → m' a = m a

theorem Within.refl (cells : Nat → Prop) (m : Memory β) : Within cells m m :=
  fun _ _ => rfl

variable {cells : Nat → Prop}

theorem Within.trans {m m' m'' : Memory β} (h : Within cells m m')
    (h' : Within cells m' m'') : Within cells m m'' :=
  fun a ha => (h' a ha).trans (h a ha)

theorem Within.memcpy (m : Memory β) {dst : Nat} {data : List β}
    (h : ∀ i < data.length, cells (dst + i)) : Within cells m (memcpy m dst data) := by
  intro a ha
  unfold Patches.memcpy
  by_cases hle : dst ≤ a
  · have hout : data.length ≤ a - dst := by
      by_contra hin
      have := h (a - dst) (by omega)
      rw [Nat.add_sub_cancel' hle] at this
      exact ha this
    rw [if_pos hle, List.getElem?_eq_none hout]
    rfl
  · rw [if_neg hle]

theorem Within.foldl {ι : Type} {f : Memory β → ι → Memory β} {l : List ι}
    (h : ∀ x ∈ l, ∀ m, Within cells m (f m x)) (m : Memory β) :
    Within cells m (l.foldl f m) := by
  induction l generalizing m with
  | nil => exact Within.refl cells m
  | cons x l ih =>
    have hfirst := h x (mem_cons_self ..) m
    exact hfirst.trans (ih (fun y hy => h y (mem_cons_of_mem _ hy)) _)

theorem drop_flatMap_range (f : Nat → List β) {n : Nat} (hf : ∀ row, (f row).length = n)
    {row rows : Nat} (h : row < rows) :
    (((List.range rows).flatMap f).drop (row * n)).take n = f row := by
  induction rows with
  | zero => omega
  | succ rows ih =>
    have hlen : ((List.range rows).flatMap f).length = rows * n := by
      rw [length_flatMap]
      simp [hf]
    rw [range_succ, flatMap_append, flatMap_singleton]
    rcases Nat.lt_succ_iff_lt_or_eq.mp h with hless | rfl
    · have hroom : row * n + n ≤ rows * n := by
        calc row * n + n = (row + 1) * n := by ring
          _ ≤ rows * n := Nat.mul_le_mul_right n hless
      rw [drop_append_of_le_length (by omega), take_append_of_le_length
        (by rw [length_drop]; omega)]
      exact ih hless
    · rw [drop_left' hlen, take_of_length_le (by rw [hf])]

theorem length_save (b : Block) : (save m b).length = b.rows * b.cells := by
  unfold save
  simp [length_flatMap]

theorem row_save (b : Block) {row : Nat} (h : row < b.rows) :
    ((save m b).drop (row * b.cells)).take b.cells =
      (List.range b.cells).map fun i => m (b.cell row i) :=
  drop_flatMap_range _ (fun row => by simp) h

/-- A row put back. -/
theorem memcpy_row (m m' : Memory β) (b : Block) (row a : Nat) :
    memcpy m' (b.cell row 0) ((List.range b.cells).map fun i => m (b.cell row i)) a =
      if b.cell row 0 ≤ a ∧ a < b.cell row 0 + b.cells then m a else m' a := by
  unfold memcpy
  by_cases hle : b.cell row 0 ≤ a
  · rw [if_pos hle]
    by_cases hin : a < b.cell row 0 + b.cells
    · have hcell : b.cell row (a - b.cell row 0) = a := by
        unfold Block.cell at hle ⊢
        omega
      rw [if_pos ⟨hle, hin⟩, List.getElem?_map, List.getElem?_range (by omega)]
      simp [hcell]
    · rw [if_neg (by omega), List.getElem?_eq_none (by simp; omega)]
      rfl
  · rw [if_neg hle, if_neg (by omega)]

/-- A block put back holds what was saved, and the other cells what they held. -/
theorem restore_save (m m' : Memory β) (b : Block) (a : Nat) :
    (b.Has a → restore m' b (save m b) a = m a) ∧
      (¬ b.Has a → restore m' b (save m b) a = m' a) := by
  have hrows : ∀ rows ≤ b.rows,
      ((∃ row < rows, ∃ i < b.cells, a = b.cell row i) →
        (List.range rows).foldl (fun m' row => memcpy m' (b.cell row 0)
          (((save m b).drop (row * b.cells)).take b.cells)) m' a = m a) ∧
      ((¬ ∃ row < rows, ∃ i < b.cells, a = b.cell row i) →
        (List.range rows).foldl (fun m' row => memcpy m' (b.cell row 0)
          (((save m b).drop (row * b.cells)).take b.cells)) m' a = m' a) := by
    intro rows
    induction rows with
    | zero => simp
    | succ rows ih =>
      intro hle
      obtain ⟨hin, hout⟩ := ih (by omega)
      rw [range_succ, foldl_append, foldl_cons, foldl_nil,
        row_save m b (by omega), memcpy_row]
      have hrow : (∃ i < b.cells, a = b.cell rows i) ↔
          b.cell rows 0 ≤ a ∧ a < b.cell rows 0 + b.cells := by
        unfold Block.cell
        constructor
        · rintro ⟨i, hi, rfl⟩
          omega
        · rintro ⟨hlow, hup⟩
          exact ⟨a - (b.base + rows * b.stride), by omega, by omega⟩
      constructor
      · rintro ⟨row, hrow', i, hi, ha⟩
        split
        case isTrue => rfl
        case isFalse hnot =>
            rcases Nat.lt_succ_iff_lt_or_eq.mp hrow' with hless | rfl
            · exact hin ⟨row, hless, i, hi, ha⟩
            · exact absurd (hrow.mp ⟨i, hi, ha⟩) hnot
      · intro hnone
        have hnot : ¬ (b.cell rows 0 ≤ a ∧ a < b.cell rows 0 + b.cells) := fun hyes => by
          obtain ⟨i, hi, ha⟩ := hrow.mpr hyes
          exact hnone ⟨rows, by omega, i, hi, ha⟩
        rw [if_neg hnot]
        refine hout fun hsome => hnone ?_
        obtain ⟨row, hless, hrest⟩ := hsome
        exact ⟨row, by omega, hrest⟩
  exact hrows b.rows (Nat.le_refl _)

/-- What was written inside a block is undone by putting it back. -/
theorem Within.restore {m m' : Memory β} (h : Within cells m m')
    (b : Block) : Within (fun a => cells a ∧ ¬ b.Has a) m (restore m' b (save m b)) := by
  intro a ha
  by_cases hb : b.Has a
  · exact (restore_save m m' b a).1 hb
  · rw [(restore_save m m' b a).2 hb]
    exact h a fun hcell => ha ⟨hcell, hb⟩

theorem Within.eq {m m' : Memory β} (h : Within cells m m') (hnone : ∀ a, ¬ cells a) : m' = m :=
  funext fun a => h a (hnone a)

end MoonlightWeb.Lib.Patches
