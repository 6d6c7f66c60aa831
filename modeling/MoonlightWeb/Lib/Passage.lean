import Mathlib.Data.List.Basic
import Mathlib.Tactic.Common

/-! # What becomes of what enters a queue

An account of a queue from which entries leave at the front for different reasons, and into
which entries may be put that never entered. Whatever is done, those that left and those
still held are, in order and each once, the ones that entered.
-/

namespace MoonlightWeb.Lib.Passage

universe u

variable {α : Type u}

/-- An entry of the queue: one that entered, or one made on the way. -/
inductive Piece (α : Type u)
  | entered (a : α)
  | made (a : α)
deriving DecidableEq, Repr

def Piece.value : Piece α → α
  | .entered a => a
  | .made a => a

def Piece.original? : Piece α → Option α
  | .entered a => some a
  | .made _ => none

/-- Why an entry left. -/
inductive Fate
  | served
  | dropped
  | merged
deriving DecidableEq, Repr

structure Ledger (α : Type u) where
  gone : List (Fate × Piece α) := []
  held : List (Piece α) := []

def values (pieces : List (Piece α)) : List α :=
  pieces.map Piece.value

/-- The entries that entered, among some. -/
def originals (pieces : List (Piece α)) : List α :=
  pieces.filterMap Piece.original?

namespace Ledger

variable (L : Ledger α)

/-- All the entries, those that left first. -/
def pieces : List (Piece α) :=
  L.gone.map Prod.snd ++ L.held

/-- What left for one reason. -/
def left (fate : Fate) : List (Piece α) :=
  (L.gone.filter fun g => decide (g.1 = fate)).map Prod.snd

def enter (entries : List α) : Ledger α :=
  { L with held := L.held ++ entries.map .entered }

/-- The first `n` entries leave. -/
def leave (fate : Fate) (n : Nat) : Ledger α where
  gone := L.gone ++ (L.held.take n).map fun p => (fate, p)
  held := L.held.drop n

/-- Entries are made and put in behind the first `n`. -/
def put (n : Nat) (entries : List α) : Ledger α :=
  { L with held := L.held.take n ++ entries.map .made ++ L.held.drop n }

end Ledger

variable (entries : List α)

@[simp] theorem values_entered :
    values (entries.map Piece.entered) = entries := by
  simp [values, Function.comp_def, Piece.value]

@[simp] theorem values_made : values (entries.map Piece.made) = entries := by
  simp [values, Function.comp_def, Piece.value]

@[simp] theorem values_append (ps qs : List (Piece α)) :
    values (ps ++ qs) = values ps ++ values qs :=
  List.map_append

variable (ps : List (Piece α))

@[simp] theorem length_values : (values ps).length = ps.length :=
  List.length_map _

theorem values_take (n : Nat) :
    values (ps.take n) = (values ps).take n :=
  List.map_take

theorem values_drop (n : Nat) :
    values (ps.drop n) = (values ps).drop n :=
  List.map_drop

@[simp] theorem originals_append (ps qs : List (Piece α)) :
    originals (ps ++ qs) = originals ps ++ originals qs :=
  List.filterMap_append

@[simp] theorem originals_entered :
    originals (entries.map Piece.entered) = entries := by
  induction entries with
  | nil => rfl
  | cons a entries ih => simpa [originals, Piece.original?] using ih

@[simp] theorem originals_made :
    originals (entries.map Piece.made) = [] := by
  induction entries with
  | nil => rfl
  | cons a entries ih => exact ih

namespace Ledger

variable (L : Ledger α)

theorem originals_enter (entries : List α) :
    originals (L.enter entries).pieces = originals L.pieces ++ entries := by
  simp [pieces, enter]

theorem pieces_leave (fate : Fate) (n : Nat) :
    (L.leave fate n).pieces = L.pieces := by
  simp [pieces, leave, Function.comp_def, List.append_assoc]

theorem originals_put (n : Nat) (entries : List α) :
    originals (L.put n entries).pieces = originals L.pieces := by
  have hheld : originals (L.held.take n) ++ originals (L.held.drop n) = originals L.held := by
    rw [← originals_append, List.take_append_drop]
  simp [pieces, put, hheld]

@[simp] theorem left_enter (entries : List α) (fate : Fate) :
    (L.enter entries).left fate = L.left fate := rfl

@[simp] theorem left_put (n : Nat) (entries : List α) (fate : Fate) :
    (L.put n entries).left fate = L.left fate := rfl

theorem tagged_self (fate : Fate) (ps : List (Piece α)) :
    ((ps.map fun p => (fate, p)).filter fun g => decide (g.1 = fate)).map Prod.snd = ps := by
  induction ps with
  | nil => rfl
  | cons p ps ih => simpa using ih

theorem tagged_of_ne {fate fate' : Fate} (h : fate ≠ fate') (ps : List (Piece α)) :
    (ps.map fun p => (fate, p)).filter (fun g => decide (g.1 = fate')) = [] := by
  rw [List.filter_eq_nil_iff]
  simp [h]

theorem left_leave_self (fate : Fate) (n : Nat) :
    (L.leave fate n).left fate = L.left fate ++ L.held.take n := by
  unfold left leave
  rw [List.filter_append, List.map_append, tagged_self]

theorem left_leave_of_ne {fate fate' : Fate} (h : fate ≠ fate') (n : Nat) :
    (L.leave fate n).left fate' = L.left fate' := by
  unfold left leave
  rw [List.filter_append, tagged_of_ne h, List.append_nil]

theorem values_held_leave (fate : Fate) (n : Nat) :
    values (L.leave fate n).held = (values L.held).drop n :=
  values_drop L.held n

theorem values_held_put (n : Nat) (entries : List α) :
    values (L.put n entries).held =
      (values L.held).take n ++ entries ++ (values L.held).drop n := by
  simp [put, values_take, values_drop]

end Ledger

end MoonlightWeb.Lib.Passage
