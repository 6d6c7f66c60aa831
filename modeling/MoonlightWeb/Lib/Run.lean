import Mathlib.Data.List.Induction

/-! # Labelled runs and their invariants

A system is an initial predicate and a labelled step relation; a run is the
list of labels taken so far together with the state they lead to. Safety is
reduced once to one obligation per step. A condition on steps restricts the
relation, so that a property of every run whose steps all meet the condition
is an invariant of the restricted system.
-/

namespace MoonlightWeb.Lib

universe u v

variable {σ : Type u} {α : Type v}

/-- `Run step s labels t`: the labels, oldest first, lead from `s` to `t`. -/
inductive Run (step : σ → α → σ → Prop) (s : σ) : List α → σ → Prop
  | nil : Run step s [] s
  | snoc {t u : σ} {labels : List α} {a : α} :
      Run step s labels t → step t a u → Run step s (labels ++ [a]) u

variable {step : σ → α → σ → Prop}

namespace Run

theorem single {s t : σ} {a : α} (h : step s a t) : Run step s [a] t := by
  simpa using Run.snoc Run.nil h

theorem append {s t u : σ} {as bs : List α} (h₁ : Run step s as t) (h₂ : Run step t bs u) :
    Run step s (as ++ bs) u := by
  induction h₂ with
  | nil => simpa using h₁
  | snoc _ hstep ih => simpa [List.append_assoc] using Run.snoc ih hstep

variable {labels : List α}

theorem cons {s t u : σ} {a : α} (h : step s a t) (rest : Run step t labels u) :
    Run step s (a :: labels) u :=
  (single h).append rest

theorem eq_of_nil {s t : σ} (h : Run step s [] t) : t = s := by
  generalize hl : ([] : List α) = labels at h
  cases h with
  | nil => rfl
  | snoc _ _ => simp at hl

theorem snoc_inv {s u : σ} {a : α} (h : Run step s (labels ++ [a]) u) :
    ∃ t, Run step s labels t ∧ step t a u := by
  generalize hl : labels ++ [a] = all at h
  cases h with
  | nil => simp at hl
  | snoc rest hstep =>
    obtain ⟨rfl, hlast⟩ := List.append_inj' hl rfl
    obtain rfl : a = _ := by simpa using hlast
    exact ⟨_, rest, hstep⟩

theorem split {s u : σ} {as bs : List α} (h : Run step s (as ++ bs) u) :
    ∃ t, Run step s as t ∧ Run step t bs u := by
  induction bs using List.reverseRecOn generalizing u with
  | nil => exact ⟨u, by simpa using h, Run.nil⟩
  | append_singleton bs b ih =>
    rw [← List.append_assoc] at h
    obtain ⟨m, hm, hstep⟩ := snoc_inv h
    obtain ⟨t, hfirst, hrest⟩ := ih hm
    exact ⟨t, hfirst, Run.snoc hrest hstep⟩

theorem invariant {I : σ → Prop} (keeps : ∀ s a t, I s → step s a t → I t)
    {s t : σ} (h : Run step s labels t) (hs : I s) : I t := by
  induction h with
  | nil => exact hs
  | snoc _ hstep ih => exact keeps _ _ _ ih hstep

end Run

/-- A state some run reaches from an initial state. -/
def Reachable (init : σ → Prop) (step : σ → α → σ → Prop) (t : σ) : Prop :=
  ∃ s labels, init s ∧ Run step s labels t

namespace Reachable

variable {init : σ → Prop}

theorem start {s : σ} (h : init s) : Reachable init step s := ⟨s, [], h, Run.nil⟩

theorem next {s t : σ} {a : α} (h : Reachable init step s) (hstep : step s a t) :
    Reachable init step t := by
  obtain ⟨s₀, labels, hinit, hrun⟩ := h
  exact ⟨s₀, labels ++ [a], hinit, Run.snoc hrun hstep⟩

theorem invariant {I : σ → Prop} (hinit : ∀ s, init s → I s)
    (keeps : ∀ s a t, I s → step s a t → I t) {t : σ} (h : Reachable init step t) : I t := by
  obtain ⟨s, labels, hs, hrun⟩ := h
  exact hrun.invariant keeps (hinit s hs)

end Reachable

/-- The steps of `step` that meet `cond` in the state they start from. -/
def guarded (cond : σ → α → Prop) (step : σ → α → σ → Prop) : σ → α → σ → Prop :=
  fun s a t => cond s a ∧ step s a t

variable {labels : List α}

/-- A run whose labels all meet a condition is a run of the restricted system. -/
theorem Run.guard {P : α → Prop} {s t : σ} (h : Run step s labels t)
    (hall : ∀ a ∈ labels, P a) : Run (guarded (fun _ a => P a) step) s labels t := by
  induction h with
  | nil => exact Run.nil
  | snoc _ hstep ih =>
    have hlast := hall _ (List.mem_append_right _ (List.mem_singleton.mpr rfl))
    exact Run.snoc (ih fun a ha => hall a (List.mem_append_left _ ha)) ⟨hlast, hstep⟩

/-- `P` holds of every state the labels visit from `s`, the last one included. -/
def AllAlong (step : σ → α → σ → Prop) (P : σ → Prop) (s : σ) (labels : List α) : Prop :=
  ∀ visited rest t, labels = visited ++ rest → Run step s visited t → P t

variable {s : σ}

/-- Two properties that agree on reachable states hold along the same runs. -/
theorem allAlong_congr {init : σ → Prop} {P Q : σ → Prop}
    (h : ∀ t, Reachable init step t → (P t ↔ Q t)) (hs : init s) (labels : List α) :
    AllAlong step P s labels ↔ AllAlong step Q s labels := by
  have hreach : ∀ {visited t}, Run step s visited t → Reachable init step t :=
    fun {visited} _ hrun => ⟨s, visited, hs, hrun⟩
  constructor
  · intro hP visited rest t hl hrun
    exact (h t (hreach hrun)).mp (hP visited rest t hl hrun)
  · intro hQ visited rest t hl hrun
    exact (h t (hreach hrun)).mpr (hQ visited rest t hl hrun)

theorem AllAlong.last {P : σ → Prop} {s t : σ}
    (h : AllAlong step P s labels) (hrun : Run step s labels t) : P t :=
  h labels [] t (by simp) hrun

/-- `P` holds of every step the labels take from `s`. -/
def EachStep (step : σ → α → σ → Prop) (P : σ → α → σ → Prop) (s : σ) (labels : List α) : Prop :=
  ∀ visited a rest t u, labels = visited ++ a :: rest → Run step s visited t → step t a u → P t a u

variable {P : σ → α → σ → Prop}

theorem EachStep.take {labels visited rest : List α}
    (h : EachStep step P s labels) (hl : labels = visited ++ rest) :
    EachStep step P s visited := by
  intro visited' b rest' v w hl' hv hvw
  exact h visited' b (rest' ++ rest) v w (by simp [hl, hl']) hv hvw

theorem EachStep.drop {s t : σ} {visited labels : List α}
    (h : EachStep step P s (visited ++ labels)) (hrun : Run step s visited t) :
    EachStep step P t labels := by
  intro visited' a rest u v hl hu huv
  exact h (visited ++ visited') a rest u v (by simp [hl]) (hrun.append hu) huv

theorem EachStep.nil : EachStep step P s [] := by
  intro visited a rest t u hl
  cases visited <;> cases hl

theorem EachStep.cons {a : α} (h : ∀ t, step s a t → P s a t ∧ EachStep step P t labels) :
    EachStep step P s (a :: labels) := by
  intro visited b rest t u hl hrun hstep
  cases visited with
  | nil =>
    obtain ⟨rfl, rfl⟩ := List.cons.inj hl
    obtain rfl := hrun.eq_of_nil
    exact (h u hstep).1
  | cons c visited =>
    obtain ⟨rfl, rfl⟩ := List.cons.inj hl
    have hrun : Run step s ([a] ++ visited) t := hrun
    obtain ⟨m, hfirst, hrest⟩ := hrun.split
    have hfirst : Run step s ([] ++ [a]) m := hfirst
    obtain ⟨t', hnil, hm⟩ := hfirst.snoc_inv
    obtain rfl := hnil.eq_of_nil
    exact (h m hm).2 visited b rest t u rfl hrest hstep

/-- An invariant kept by the steps that meet `C` holds along a run whose steps all do. -/
theorem EachStep.invariant {C : σ → α → σ → Prop} {I : σ → Prop}
    (keeps : ∀ t a u, I t → step t a u → C t a u → I u) {s t : σ}
    (hC : EachStep step C s labels) (hs : I s) (hrun : Run step s labels t) : I t := by
  induction hrun with
  | nil => exact hs
  | @snoc m u labels a hpre hstep ih =>
    exact keeps m a u (ih (hC.take rfl)) hstep (hC labels a [] m u rfl hpre hstep)

theorem allAlong_iff_eachStep {P : σ → Prop} (hs : P s) (labels : List α) :
    AllAlong step P s labels ↔ EachStep step (fun _ _ u => P u) s labels := by
  constructor
  · intro h visited a rest t u hl hrun hstep
    exact h (visited ++ [a]) rest u (by simp [hl]) (Run.snoc hrun hstep)
  · intro h visited rest t hl hrun
    induction visited using List.reverseRecOn generalizing t rest with
    | nil => exact hrun.eq_of_nil ▸ hs
    | append_singleton visited a _ =>
      obtain ⟨m, hm, hstep⟩ := hrun.snoc_inv
      exact h visited a rest m t (by simp [hl]) hm hstep

/-- A condition on steps is exact for `P` along every run when it is exact for
`P` at every step taken from a state with the invariant the steps with `P` keep. -/
theorem eachStep_iff_of_kept {S I : σ → Prop} {P C : σ → α → σ → Prop}
    (frame : ∀ t a u, S t → step t a u → S u)
    (kept : ∀ t a u, S t → I t → step t a u → P t a u → I u)
    (exact : ∀ t a u, S t → I t → step t a u → (P t a u ↔ C t a u))
    (hS : S s) (hI : I s) (labels : List α) :
    EachStep step P s labels ↔ EachStep step C s labels := by
  constructor
  · intro hP visited a rest t u hl hrun hstep
    have hvisited : EachStep step P s visited := hP.take hl
    have hboth : S t ∧ I t := by
      refine hvisited.invariant (I := fun t => S t ∧ I t) ?_ ⟨hS, hI⟩ hrun
      intro v b w hv hvw hPv
      exact ⟨frame v b w hv.1 hvw, kept v b w hv.1 hv.2 hvw hPv⟩
    exact (exact t a u hboth.1 hboth.2 hstep).mp (hP visited a rest t u hl hrun hstep)
  · intro hC visited a rest t u hl hrun hstep
    have hvisited : EachStep step C s visited := hC.take hl
    have hboth : S t ∧ I t := by
      refine hvisited.invariant (I := fun t => S t ∧ I t) ?_ ⟨hS, hI⟩ hrun
      intro v b w hv hvw hcond
      have hPv := (exact v b w hv.1 hv.2 hvw).mpr hcond
      exact ⟨frame v b w hv.1 hvw, kept v b w hv.1 hv.2 hvw hPv⟩
    exact (exact t a u hboth.1 hboth.2 hstep).mpr (hC visited a rest t u hl hrun hstep)

/-- The same when `P` itself maintains the invariant. -/
theorem eachStep_iff {S I : σ → Prop} {P C : σ → α → σ → Prop}
    (frame : ∀ t a u, S t → step t a u → S u) (kept : ∀ t a u, step t a u → P t a u → I u)
    (exact : ∀ t a u, S t → I t → step t a u → (P t a u ↔ C t a u))
    (hS : S s) (hI : I s) (labels : List α) :
    EachStep step P s labels ↔ EachStep step C s labels :=
  eachStep_iff_of_kept frame (fun t a u _ _ => kept t a u) exact hS hI labels

/-- The step relation of a total handler. -/
def handles (handle : σ → α → σ) : σ → α → σ → Prop :=
  fun s a t => handle s a = t

theorem run_handles_iff (handle : σ → α → σ) (s t : σ) (labels : List α) :
    Run (handles handle) s labels t ↔ labels.foldl handle s = t := by
  induction labels using List.reverseRecOn generalizing t with
  | nil => exact ⟨fun h => h.eq_of_nil.symm, fun h => by subst h; exact Run.nil⟩
  | append_singleton labels a ih =>
    rw [List.foldl_append]
    constructor
    · intro h
      obtain ⟨m, hm, hstep⟩ := h.snoc_inv
      rw [(ih m).mp hm]
      exact hstep
    · intro h
      exact Run.snoc ((ih _).mpr rfl) h

/-- A property of each step of a handler is one of its first, and of each step after it. -/
theorem eachStep_handles_cons {handle : σ → α → σ} {a : α} :
    EachStep (handles handle) P s (a :: labels) ↔
      P s a (handle s a) ∧ EachStep (handles handle) P (handle s a) labels := by
  constructor
  · intro h
    have hsplit : EachStep (handles handle) P s ([a] ++ labels) := h
    exact ⟨h [] a labels s _ rfl Run.nil rfl, hsplit.drop (Run.single rfl)⟩
  · rintro ⟨hfirst, hrest⟩
    refine EachStep.cons fun t hstep => ?_
    obtain rfl : handle s a = t := hstep
    exact ⟨hfirst, hrest⟩

variable (move : σ → α → Option σ)

/-- The step relation of a handler that refuses the labels not enabled. -/
def moves : σ → α → σ → Prop :=
  fun s a t => move s a = some t

/-- A handler leads to one state. -/
theorem run_moves_unique {s t t' : σ}
    (h : Run (moves move) s labels t) (h' : Run (moves move) s labels t') : t = t' := by
  induction labels using List.reverseRecOn generalizing t t' with
  | nil => rw [h.eq_of_nil, h'.eq_of_nil]
  | append_singleton labels a ih =>
    obtain ⟨m, hm, hstep⟩ := h.snoc_inv
    obtain ⟨m', hm', hstep'⟩ := h'.snoc_inv
    obtain rfl := ih hm hm'
    exact Option.some.inj (hstep.symm.trans hstep')

/-- The state a list of labels leads to, when every label is enabled in turn. -/
def runMoves (move : σ → α → Option σ) (s : σ) : List α → Option σ
  | [] => some s
  | a :: rest =>
      match move s a with
      | none => none
      | some t => runMoves move t rest

theorem run_of_runMoves {s t : σ}
    (h : runMoves move s labels = some t) : Run (moves move) s labels t := by
  induction labels generalizing s with
  | nil =>
    obtain rfl : s = t := by simpa [runMoves] using h
    exact Run.nil
  | cons a rest ih =>
    cases hstep : move s a with
    | none => simp [runMoves, hstep] at h
    | some m =>
      simp only [runMoves, hstep] at h
      exact Run.cons hstep (ih h)

/-- A decidable condition on steps, checked along the labels. -/
def checkMoves (move : σ → α → Option σ) (C : σ → α → Prop) [∀ s a, Decidable (C s a)] (s : σ) :
    List α → Bool
  | [] => true
  | a :: rest =>
      decide (C s a) &&
        match move s a with
        | none => true
        | some t => checkMoves move C t rest

theorem eachStep_of_checkMoves {move : σ → α → Option σ} {C : σ → α → Prop}
    [∀ s a, Decidable (C s a)] (h : checkMoves move C s labels = true) :
    EachStep (moves move) (fun s a _ => C s a) s labels := by
  induction labels generalizing s with
  | nil => exact EachStep.nil
  | cons a rest ih =>
    unfold checkMoves at h
    rw [Bool.and_eq_true] at h
    refine EachStep.cons fun t hstep => ⟨of_decide_eq_true h.1, ih ?_⟩
    have hstep : move s a = some t := hstep
    simpa only [hstep] using h.2

end MoonlightWeb.Lib
