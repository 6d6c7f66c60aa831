import Mathlib.Data.Finset.Basic

/-! # Switches

The set of the switches that are down, and what a batch of presses and releases makes of
it: the presses of a batch leave their switches down, the releases leave them up, and
what a batch does not name stays as it was.
-/

namespace MoonlightWeb.Lib

variable {κ : Type*} [DecidableEq κ]

/-- A switch is pressed or let go. -/
def flip (down : Finset κ) (event : κ × Bool) : Finset κ :=
  if event.2 then insert event.1 down else down.erase event.1

def flips (down : Finset κ) (events : List (κ × Bool)) : Finset κ := events.foldl flip down

def presses (switches : List κ) : List (κ × Bool) := switches.map fun switch => (switch, true)

def releases (switches : List κ) : List (κ × Bool) := switches.map fun switch => (switch, false)

/-- Each press is of a switch that is up, each release of one that is down. -/
def Alternates : Finset κ → List (κ × Bool) → Prop
  | _, [] => True
  | down, event :: rest => (event.2 = true ↔ event.1 ∉ down) ∧ Alternates (flip down event) rest

variable (down : Finset κ) (switches : List κ) (switch : κ)

@[simp] theorem flips_nil : flips down [] = down := rfl

@[simp] theorem flips_cons (event : κ × Bool) (rest : List (κ × Bool)) :
    flips down (event :: rest) = flips (flip down event) rest := rfl

theorem flips_append (first second : List (κ × Bool)) :
    flips down (first ++ second) = flips (flips down first) second :=
  List.foldl_append

theorem alternates_append (first second : List (κ × Bool)) :
    Alternates down (first ++ second) ↔
      Alternates down first ∧ Alternates (flips down first) second := by
  induction first generalizing down with
  | nil => simp [Alternates]
  | cons event rest ih => simp only [List.cons_append, Alternates, flips_cons, ih, and_assoc]

theorem mem_flips_presses :
    switch ∈ flips down (presses switches) ↔ switch ∈ down ∨ switch ∈ switches := by
  induction switches generalizing down with
  | nil => simp [presses]
  | cons head rest ih =>
    change switch ∈ flips (insert head down) (presses rest) ↔ _
    rw [ih, Finset.mem_insert, List.mem_cons]
    tauto

theorem mem_flips_releases :
    switch ∈ flips down (releases switches) ↔ switch ∈ down ∧ switch ∉ switches := by
  induction switches generalizing down with
  | nil => simp [releases]
  | cons head rest ih =>
    change switch ∈ flips (down.erase head) (releases rest) ↔ _
    rw [ih, Finset.mem_erase, List.mem_cons]
    tauto

end MoonlightWeb.Lib
