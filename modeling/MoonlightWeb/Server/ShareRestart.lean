import MoonlightWeb.Server.ShareDeadline
import MoonlightWeb.Qt.Simplified

/-! # A restart at any point

What a restart makes of the file is what a sweep makes of the memory, down to
every persisted field, exactly as long as the names stored are ones the
sanitiser leaves alone and the clock reads a positive time when a slot is
shared.
-/

namespace MoonlightWeb.Server.ShareManager

open Lib Qt

/-- The name, with its outer spaces trimmed, its inner runs of spaces made one
and its control characters removed, is tidy in its first 32 characters. -/
def StableName (name : QString) : Prop :=
  QString.Tidy ((removeControls name.simplified).left maxNameLength)

theorem sanitizeName_mem {name : QString} {u : UInt16} (h : u ∈ sanitizeName name) :
    (QString.isSpace u = true → u = 0x20) ∧ isControl u = false := by
  have hkept : u ∈ removeControls name.simplified := List.mem_of_mem_take h
  have hboth := List.mem_filter.mp hkept
  refine ⟨fun hspace => ?_, by simpa using hboth.2⟩
  rcases QString.simplified_mem hboth.1 with ⟨_, hletter⟩ | heq
  · rw [hspace] at hletter
    cases hletter
  · exact heq

/-- The second time the sanitiser only simplifies. -/
theorem sanitizeName_again (name : QString) :
    sanitizeName (sanitizeName name) = (sanitizeName name).simplified := by
  have hclean : removeControls (sanitizeName name).simplified = (sanitizeName name).simplified := by
    apply List.filter_eq_self.mpr
    intro u hu
    rcases QString.simplified_mem hu with ⟨hmem, _⟩ | heq
    · simp [(sanitizeName_mem hmem).2]
    · rw [heq]
      decide
  have hlength : (sanitizeName name).simplified.length ≤ maxNameLength := by
    have hshort : (sanitizeName name).length ≤ maxNameLength := by
      simp [sanitizeName, QString.left]
    have hsimple := QString.simplified_length (s := sanitizeName name) fun u hu =>
      (sanitizeName_mem hu).1
    exact hsimple.trans hshort
  rw [sanitizeName, hclean]
  exact List.take_of_length_le hlength

theorem sanitizeName_stable_iff (name : QString) :
    sanitizeName (sanitizeName name) = sanitizeName name ↔ StableName name := by
  rw [sanitizeName_again]
  exact QString.simplified_eq_self_iff fun u hu => (sanitizeName_mem hu).1

/-- At any later time, saving and loading yields the slots in memory, and so
does loading what is on disk, apart from what is not persisted and what has run
out by then. -/
structure Persisted (t : System) : Prop where
  resaved : ∀ now, t.clock ≤ now → ∀ slot, isPlayerSlot slot = true →
    (restart (save t.manager) now).slots slot =
      ((pruneExpired t.manager now).slots slot).persisted
  restored : ∀ now, t.clock ≤ now → ∀ slot, isPlayerSlot slot = true →
    (restart t.manager now).slots slot = ((pruneExpired t.manager now).slots slot).persisted

/-- A name given is a stable one, and a slot is shared at a positive time. -/
def Careful (e : Event) : Prop :=
  match e.op with
  | .setName slot name => isPlayerSlot slot = true → StableName name
  | .activate slot hostUuid _ ttlSecs _ _ _ =>
      isPlayerSlot slot = true → hostUuid ≠ [] → isValidTtl ttlSecs = true → 0 < e.later
  | _ => True

/-- Names are stable, and what is alive was shared at a positive time. -/
def Stable (t : System) : Prop :=
  ∀ slot, isPlayerSlot slot = true →
    sanitizeName (t.manager.slots slot).name = (t.manager.slots slot).name ∧
    ((t.manager.slots slot).activation.live = true →
      (t.manager.slots slot).activation.expired t.clock = false →
      0 < (t.manager.slots slot).activation.activatedAt)

theorem reload_eq_iff (s : Slot) (h : s.Sound) (now : Int) :
    reload now s = (s.prunedAt now).persisted ↔
      sanitizeName s.name = s.name ∧
        (s.activation.live = true → s.activation.expired now = false →
          0 < s.activation.activatedAt) := by
  have hname : ((s.prunedAt now).persisted).name = s.name := by
    rcases prunedAt_or s now with hsame | hsame <;> rw [hsame] <;> rfl
  constructor
  · intro heq
    refine ⟨(congrArg Slot.name heq).trans hname, fun hlive hrun => ?_⟩
    have hkept : s.prunedAt now = s := by simp [Slot.prunedAt, hrun]
    by_contra hearly
    have hact := congrArg Slot.activation heq
    rw [hkept] at hact
    simp only [reload, hearly, decide_false, Bool.and_false, Bool.false_and, Bool.false_eq_true,
      if_false, Slot.persisted] at hact
    have hdead : s.activation.persisted.live = false := by
      rw [← hact]
      rfl
    rw [live_persisted, hlive] at hdead
    cases hdead
  · rintro ⟨hstable, hstarted⟩
    unfold reload Slot.prunedAt
    rw [hstable]
    by_cases hlive : s.activation.live = true
    · by_cases hrun : s.activation.expired now = true
      · simp only [hlive, hrun, Bool.not_true, Bool.and_false, Bool.false_eq_true, if_false,
          Bool.and_self, if_true]
        rfl
      · have hrun : s.activation.expired now = false := by simpa using hrun
        simp only [hlive, hrun, hstarted hlive hrun, decide_true, Bool.and_self, Bool.not_false,
          if_true, Bool.and_false, Bool.false_eq_true, if_false]
        rfl
    · have hlive : s.activation.live = false := by simpa using hlive
      have hempty := h.off hlive
      simp [hempty, Slot.persisted, Activation.persisted]

theorem filed_save {m : Manager} (h : ∀ slot, (m.slots slot).Sound) : Filed (save m) m.slots :=
  ⟨h, Or.inr rfl⟩

/-- Saving and loading is the identity exactly on a stable memory. -/
theorem resaved_iff {t : System} (h : ∀ slot, (t.manager.slots slot).Sound) :
    (∀ now, t.clock ≤ now → ∀ slot, isPlayerSlot slot = true →
      (restart (save t.manager) now).slots slot =
        ((pruneExpired t.manager now).slots slot).persisted) ↔ Stable t := by
  have hslot : ∀ now slot, isPlayerSlot slot = true →
      ((restart (save t.manager) now).slots slot =
        ((pruneExpired t.manager now).slots slot).persisted ↔
      sanitizeName (t.manager.slots slot).name = (t.manager.slots slot).name ∧
        ((t.manager.slots slot).activation.live = true →
          (t.manager.slots slot).activation.expired now = false →
          0 < (t.manager.slots slot).activation.activatedAt)) := by
    intro now slot hplayer
    rw [restart_slots (filed_save h), pruneExpired_slots, if_pos hplayer, if_pos hplayer]
    exact reload_eq_iff _ (h slot) now
  constructor
  · intro hall slot hplayer
    exact (hslot t.clock slot hplayer).mp (hall t.clock (Int.le_refl _) slot hplayer)
  · intro hstable now hnow slot hplayer
    obtain ⟨hname, hstarted⟩ := hstable slot hplayer
    refine (hslot now slot hplayer).mpr ⟨hname, fun hlive hrun => hstarted hlive ?_⟩
    cases hexp : (t.manager.slots slot).activation.expired t.clock with
    | false => rfl
    | true =>
      rw [Activation.expired_mono hnow hexp] at hrun
      cases hrun

section

variable {d : Digest} {e : Event} {slot : Int} {s s' : Slot} {t u : System}

theorem Effect.renamed (h : Effect d e slot s s') :
    s'.name = s.name ∨ ∃ name, e.op = .setName slot name ∧ s'.name = sanitizeName name := by
  obtain ⟨first, hfirst, hlast⟩ := h
  have hswept : first.name = s.name := by
    rcases hfirst with rfl | rfl <;> rfl
  rcases hlast with rfl | hchange
  · exact Or.inl hswept
  · rw [← hswept]
    cases hchange with
    | renamed hop => exact Or.inr ⟨_, hop, rfl⟩
    | _ => exact Or.inl rfl

theorem MintedBy.fields (h : MintedBy d e slot s') :
    s'.activation.live = true ∧ s'.activation.activatedAt = e.later ∧
      s'.activation.expired e.later = false := by
  obtain ⟨first, hostUuid, appId, ttlSecs, token, pin, id, _, _, httl, hact⟩ := h
  have hlive : (mint d first e.later hostUuid appId ttlSecs token pin id).live = true :=
    Activation.live_iff.mpr (hash_ne_nil d token)
  have hrun : (mint d first e.later hostUuid appId ttlSecs token pin id).expired e.later = false := by
    rw [Bool.eq_false_iff, Ne, Activation.expired_iff]
    simp only [mint]
    split_ifs <;> omega
  rw [hact]
  exact ⟨hlive, rfl, hrun⟩

theorem Effect.stable {now later : Int} (h : Effect d e slot s s') (hle : now ≤ later)
    (hcareful : Careful e) (hplayer : isPlayerSlot slot = true)
    (hname : sanitizeName s.name = s.name)
    (hstarted : s.activation.live = true → s.activation.expired now = false →
      0 < s.activation.activatedAt) :
    sanitizeName s'.name = s'.name ∧
      (s'.activation.live = true → s'.activation.expired later = false →
        0 < s'.activation.activatedAt) := by
  constructor
  · rcases h.renamed with hsame | ⟨name, hop, hclean⟩
    · rw [hsame, hname]
    · unfold Careful at hcareful
      simp only [hop] at hcareful
      rw [hclean]
      exact (sanitizeName_stable_iff name).mpr (hcareful hplayer)
  · intro hlive hrun
    rcases h.outlives_or with hkept | hminted
    · have hcontinues := hkept hlive
      rw [hcontinues.started]
      exact hstarted hcontinues.live (hcontinues.running hle hrun)
    · have hat := hminted.fields.2.1
      obtain ⟨_, _, _, _, _, _, _, hop, hhost, httl, _⟩ := hminted
      unfold Careful at hcareful
      simp only [hop] at hcareful
      rw [hat]
      exact hcareful hplayer hhost httl

theorem setName_renamed {m : Manager} {name : QString} (hop : e.op = .setName slot name)
    (hplayer : isPlayerSlot slot = true) :
    ((apply d m e).slots slot).name = sanitizeName name := by
  simp only [apply, hop, setName, Manager.slotFor, hplayer, if_true]
  split_ifs with hsame
  · exact hsame
  · simp only [save, setSlot_self]

end

theorem restart_congr {m m' : Manager} (h : m.file = m'.file) (now : Int) :
    restart m now = restart m' now := by
  unfold restart
  rw [h]

theorem Slot.prunedAt_persisted (s : Slot) (now : Int) :
    (s.persisted.prunedAt now).persisted = (s.prunedAt now).persisted := by
  unfold Slot.prunedAt
  by_cases hcond : (s.activation.live && s.activation.expired now) = true
  · have hcond' : (s.persisted.activation.live && s.persisted.activation.expired now) = true :=
      hcond
    rw [if_pos hcond, if_pos hcond']
    rfl
  · have hcond' : ¬ (s.persisted.activation.live && s.persisted.activation.expired now) = true :=
      hcond
    rw [if_neg hcond, if_neg hcond']
    rfl

theorem persisted_iff {t : System} :
    Persisted t ↔ ∀ now, t.clock ≤ now → ∀ slot, isPlayerSlot slot = true →
      (restart (save t.manager) now).slots slot = ((t.manager.slots slot).prunedAt now).persisted ∧
      (restart t.manager now).slots slot = ((t.manager.slots slot).prunedAt now).persisted := by
  constructor
  · intro h now hnow slot hplayer
    have hboth := And.intro (h.resaved now hnow slot hplayer) (h.restored now hnow slot hplayer)
    rw [pruneExpired_slots, if_pos hplayer] at hboth
    exact hboth
  · intro h
    constructor
    · intro now hnow slot hplayer
      rw [pruneExpired_slots, if_pos hplayer]
      exact (h now hnow slot hplayer).1
    · intro now hnow slot hplayer
      rw [pruneExpired_slots, if_pos hplayer]
      exact (h now hnow slot hplayer).2

/-- What the disk yields follows the memory through every event. -/
theorem step_restored {d : Digest} {t u : System} {e : Event} (ht : Persisted t)
    (hstep : step d t e = some u) (hstable : Stable u) (hu : Consistent u) : Persisted u := by
  have hresaved := (resaved_iff hu.1).mpr hstable
  refine ⟨hresaved, fun now hnow slot hplayer => ?_⟩
  have hbefore := persisted_iff.mp ht
  have hrestored := hresaved now hnow slot hplayer
  rw [pruneExpired_slots, if_pos hplayer] at hrestored ⊢
  unfold step at hstep
  split_ifs at hstep with hclock
  obtain rfl : _ = u := by simpa using hstep
  simp only at hnow hrestored ⊢
  have hlast := (hbefore now (by omega) slot hplayer).2
  by_cases hop : e.op = .restart
  · have hrestart : apply d t.manager e = restart t.manager e.now := by simp [apply, hop]
    have hfirst := (hbefore e.now hclock.1 slot hplayer).2
    rw [hrestart, restart_congr (restart_file t.manager e.now), hlast, hfirst,
      Slot.prunedAt_later]
    omega
  · rcases apply_written d t.manager e hop with hsaved | ⟨hfile, hslots⟩
    · rw [← hrestored]
      exact congrFun (congrArg Manager.slots (restart_congr hsaved now)) slot
    · rw [restart_congr hfile, hlast, ← Slot.prunedAt_persisted (t.manager.slots slot),
        ← hslots slot, Slot.prunedAt_persisted]

/-- The step lemma: an event keeps the disk and the memory alike exactly when
it is careful. -/
theorem step_persisted_iff {d : Digest} {t u : System} {e : Event} (h : Consistent t)
    (ht : Persisted t) (hstep : step d t e = some u) : Persisted u ↔ Careful e := by
  have hu := step_consistent h hstep
  have hstableBefore := (resaved_iff h.1).mp ht.resaved
  have hmoved := hstep
  unfold step at hstep
  split_ifs at hstep with hclock
  obtain rfl : _ = u := by simpa using hstep
  constructor
  · intro hpersisted
    have hstable := (resaved_iff hu.1).mp hpersisted.resaved
    unfold Careful
    cases hop : e.op with
    | setName slot name =>
      intro hplayer
      have hname := (hstable slot hplayer).1
      rw [setName_renamed hop hplayer] at hname
      exact (sanitizeName_stable_iff name).mp hname
    | activate slot hostUuid appId ttlSecs token pin id =>
      intro hplayer hhost httl
      have hminted := activate_minted (d := d) (m := t.manager) hop hplayer hhost httl
      obtain ⟨hlive, hat, hrun⟩ := hminted.fields
      have hstarted := (hstable slot hplayer).2 hlive hrun
      rw [← hat]
      exact hstarted
    | _ => trivial
  · intro hcareful
    refine step_restored ht hmoved (fun slot hplayer => ?_) hu
    obtain ⟨hname, hstarted⟩ := hstableBefore slot hplayer
    by_cases hop : e.op = .restart
    · have hrestart : apply d t.manager e = restart t.manager e.now := by simp [apply, hop]
      have hslot := ((persisted_iff.mp ht) e.now hclock.1 slot hplayer).2
      simp only [hrestart, hslot]
      rcases prunedAt_or (t.manager.slots slot) e.now with hkept | hcleared
      · rw [hkept]
        refine ⟨hname, fun hlive hrun => hstarted hlive ?_⟩
        have hcontinues := Outlives.refl (t.manager.slots slot) hlive
        exact hcontinues.running (by omega) hrun
      · rw [hcleared]
        exact ⟨hname, fun hlive => by cases hlive⟩
    · have hlater : t.clock ≤ e.later := by omega
      exact (apply_effect d t.manager e slot hop).stable hlater hcareful hplayer hname hstarted

theorem installed_persisted (clock : Int) : Persisted (installed clock) := by
  have hstable : Stable (installed clock) := fun slot _ => ⟨rfl, fun hlive => by cases hlive⟩
  have hresaved := (resaved_iff (installed_consistent clock).1).mpr hstable
  refine ⟨hresaved, fun now _ slot hplayer => ?_⟩
  rw [pruneExpired_slots, if_pos hplayer]
  rfl

/-- A restart at any point of a run shows nothing, and neither does a save and
a load, exactly when every event is careful. -/
theorem restart_invisible_iff (d : Digest) (clock : Int) (events : List Event) :
    AllAlong (moves (step d)) Persisted (installed clock) events ↔
      EachStep (moves (step d)) (fun _ e _ => Careful e) (installed clock) events := by
  rw [allAlong_iff_eachStep (installed_persisted clock)]
  refine eachStep_iff (S := Consistent) (I := Persisted) ?_ ?_ ?_
    (installed_consistent clock) (installed_persisted clock) events
  · exact fun t e u ht hstep => step_consistent ht hstep
  · exact fun t e u _ hu => hu
  · exact fun t e u ht hpersisted hstep => step_persisted_iff ht hpersisted hstep

def longName : QString := List.replicate 31 (unit 'a') ++ qs " b"

theorem clampedName_drifts : ¬ ∀ (d : Digest) (clock : Int) (events : List Event),
    AllAlong (moves (step d)) Persisted (installed clock) events := by
  intro hall
  have halong := hall padded 1000 [⟨.setName 2 longName, 1000, 1000⟩]
  have hpersisted := halong [⟨.setName 2 longName, 1000, 1000⟩] [] _ rfl
    (Run.single (a := Event.mk (.setName 2 longName) 1000 1000) rfl)
  have hslot := hpersisted.restored 1000 (Int.le_refl _) 2 rfl
  have hname := congrArg Slot.name hslot
  revert hname
  decide +kernel

end MoonlightWeb.Server.ShareManager
