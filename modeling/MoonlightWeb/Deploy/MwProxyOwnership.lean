import MoonlightWeb.Deploy.MwProxy

/-! # Who owns a uid

A check leaves at most one claim, always for the requester, and only releases
of the requester's own uids. Whether the commit later does what the check meant
depends on what other commits did in between: the store and the zone are safe
exactly as long as no other commit touched the uids of a request between its
check and its own commit, and no A record outlives its release.
-/

namespace MoonlightWeb.Deploy.MwProxy

open Lib State List

structure Pending.Sound (otHash : String) (pending : Pending) : Prop where
  hash : ∀ uid h, pending.claims.lookup uid = some h → h = otHash ∧ otHash ≠ ""
  single : ∀ uid ∈ pending.claims, ∀ other ∈ pending.claims, uid = other
  apart : ∀ uid ∈ pending.claims, uid ∉ pending.releases

/-- The loop invariant of `checkPatch`: the claims are of uids nobody owns, the
releases of uids the requester owns. -/
structure Pending.Checked (owners : Owners) (otHash : String) (pending : Pending) : Prop where
  hash : ∀ uid h, pending.claims.lookup uid = some h → h = otHash ∧ otHash ≠ ""
  single : ∀ uid ∈ pending.claims, ∀ other ∈ pending.claims, uid = other
  free : ∀ uid ∈ pending.claims, owners.of uid = ""
  own : ∀ uid ∈ pending.releases, owners.of uid ≠ ""

theorem Pending.Checked.empty (owners : Owners) (otHash : String) :
    Pending.Checked owners otHash {} where
  hash uid h hl := by simp at hl
  single uid hu := by simp at hu
  free uid hu := by simp at hu
  own uid hu := by simp at hu

variable {owners : Owners} {otHash : String}

theorem Pending.Checked.sound {pending : Pending}
    (h : pending.Checked owners otHash) : pending.Sound otHash where
  hash := h.hash
  single := h.single
  apart uid hclaim hrelease := h.own uid hrelease (h.free uid hclaim)

/-- No other uid is claimed by the requester once `ownerHoldsOtherUID` found none. -/
theorem claimed_eq_of_holds_none {otHash self : String} {pending : Pending}
    (h : pending.Checked owners otHash)
    (hnone : ownerHoldsOtherUID owners otHash self pending = none) :
    ∀ uid ∈ pending.claims, uid = self := by
  intro uid hclaim
  unfold ownerHoldsOtherUID at hnone
  split at hnone
  · simp at hnone
  · simp only [Option.map_eq_none_iff, List.find?_eq_none] at hnone
    obtain ⟨v, hv⟩ := Option.isSome_iff_exists.mp (AList.lookup_isSome.mpr hclaim)
    have hentry := hnone ⟨uid, v⟩ (AList.mem_lookup_iff.mp hv)
    have hhash : v = otHash := (h.hash uid v hv).1
    by_contra hne
    simp [hne, hhash] at hentry

variable {cfg : Config} {zoneHasA : String → Bool} {pending pending' : Pending} {uid : String}

variable (h : pending.Checked owners otHash)

include h

theorem checkReplace_checked {kind : RecordKind}
    (hok : checkReplace cfg owners otHash zoneHasA pending uid kind = .ok pending') :
    pending'.Checked owners otHash := by
  unfold checkReplace at hok
  by_cases hfree : owners.of uid = ""
  · by_cases hhash : otHash = ""
    · simp [hfree, hhash] at hok
    · by_cases hclosed : cfg.registrationClosed ∧ kind = .a ∧ !zoneHasA uid
      · simp only [hfree, hhash, if_true, if_false, if_pos hclosed] at hok
        cases hok
      · simp only [hfree, hhash, if_true, if_false, if_neg hclosed] at hok
        cases hother : ownerHoldsOtherUID owners otHash uid pending with
        | some other => simp [hother] at hok
        | none =>
          simp only [hother, Except.ok.injEq] at hok
          subst hok
          have hself := claimed_eq_of_holds_none h hother
          refine ⟨?_, ?_, ?_, h.own⟩
          · intro u v hv
            by_cases hu : u = uid
            · subst hu
              rw [AList.lookup_insert, Option.some.injEq] at hv
              exact ⟨hv.symm, hhash⟩
            · rw [AList.lookup_insert_ne hu] at hv
              exact h.hash u v hv
          · intro u hu v hv
            rw [AList.mem_insert] at hu hv
            have hu' : u = uid := hu.elim id (hself u)
            have hv' : v = uid := hv.elim id (hself v)
            rw [hu', hv']
          · intro u hu
            rw [AList.mem_insert] at hu
            rcases hu with rfl | hu
            · exact hfree
            · exact h.free u hu
  · by_cases howner : otHash = owners.of uid
    · simp only [if_neg hfree, howner, ne_eq, not_true, if_false, Except.ok.injEq] at hok
      subst hok
      exact h
    · simp [hfree, howner] at hok

theorem checkDelete_checked {kind : RecordKind}
    (hok : checkDelete owners otHash pending uid kind = .ok pending') :
    pending'.Checked owners otHash := by
  unfold checkDelete at hok
  by_cases hfree : owners.of uid = ""
  · simp only [hfree, if_true, Except.ok.injEq] at hok
    subst hok
    exact h
  · by_cases howner : otHash = owners.of uid
    · by_cases hkind : kind = .a
      · simp only [if_neg hfree, howner, ne_eq, not_true, if_false, hkind, if_true,
          Except.ok.injEq] at hok
        subst hok
        refine ⟨h.hash, h.single, h.free, ?_⟩
        intro u hu
        rcases mem_append.mp hu with hu | hu
        · exact h.own u hu
        · rw [mem_singleton.mp hu]
          exact hfree
      · simp only [if_neg hfree, howner, ne_eq, not_true, if_false, hkind, Except.ok.injEq] at hok
        subst hok
        exact h
    · simp [hfree, howner] at hok

theorem checkRRSet_checked {rr : RRSet}
    (hok : checkRRSet cfg owners otHash zoneHasA pending rr = .ok pending') :
    pending'.Checked owners otHash := by
  unfold checkRRSet at hok
  cases hname : classify cfg.zone rr.name with
  | none => simp [hname] at hok
  | some named =>
    obtain ⟨uid, kind⟩ := named
    simp only [hname] at hok
    split at hok
    · cases hok
    · split at hok
      · exact checkDelete_checked h hok
      · split at hok
        · exact checkReplace_checked h hok
        · cases hok

theorem checkRRSets_checked {rrsets : List RRSet}
    (hok : checkRRSets cfg owners otHash zoneHasA rrsets pending = .ok pending') :
    pending'.Checked owners otHash := by
  induction rrsets generalizing pending with
  | nil =>
    simp only [checkRRSets, Except.ok.injEq] at hok
    subst hok
    exact h
  | cons rr rest ih =>
    rw [checkRRSets] at hok
    cases hrr : checkRRSet cfg owners otHash zoneHasA pending rr with
    | error refusal => simp [hrr] at hok
    | ok next =>
      simp only [hrr] at hok
      exact ih (checkRRSet_checked h hrr) hok

omit h

/-- What an accepted check leaves belongs to its requester alone. -/
theorem checkPatch_sound {ownerToken : String} {patch : Option (List RRSet)} {quotaAllows : Bool}
    {pending : Pending}
    (hok : checkPatch cfg owners ownerToken patch zoneHasA quotaAllows = .ok pending) :
    pending.Sound (ownerHash cfg ownerToken) := by
  unfold checkPatch at hok
  cases patch with
  | none => cases hok
  | some rrsets =>
    dsimp only at hok
    split at hok
    · cases hok
    · cases hloop : checkRRSets cfg owners (ownerHash cfg ownerToken) zoneHasA rrsets {} with
      | error refusal => simp [hloop] at hok
      | ok found =>
        simp only [hloop] at hok
        split at hok
        · cases hok
        · cases hok
          exact (checkRRSets_checked (.empty owners _) hloop).sound

theorem of_erase_each (releases : List String) (owners : Owners) (uid : String) :
    (releases.foldl (fun owners u => owners.erase u) owners).of uid =
      if uid ∈ releases then "" else owners.of uid := by
  induction releases generalizing owners with
  | nil => simp
  | cons u rest ih =>
    rw [foldl_cons, ih]
    by_cases hrest : uid ∈ rest
    · simp [hrest]
    · by_cases hu : uid = u
      · subst hu
        simp [hrest, Owners.of]
      · simp [hu, hrest, Owners.of, AList.lookup_erase_ne hu]

theorem of_insert_each (otHash : String) (entries : List (Sigma fun _ : String => String))
    (hhash : ∀ e ∈ entries, e.2 = otHash) (owners : Owners) (uid : String) :
    (entries.foldl (fun owners e => owners.insert e.1 e.2) owners).of uid =
      if uid ∈ entries.map Sigma.fst then otHash else owners.of uid := by
  induction entries generalizing owners with
  | nil => simp
  | cons e rest ih =>
    rw [foldl_cons, ih fun e' he' => hhash e' (mem_cons_of_mem e he')]
    have he : e.2 = otHash := hhash e mem_cons_self
    by_cases hrest : uid ∈ rest.map Sigma.fst
    · simp [hrest]
    · by_cases hu : uid = e.1
      · subst hu
        simp [Owners.of, he]
      · simp [hu, hrest, Owners.of, AList.lookup_insert_ne hu]

theorem Pending.Sound.of_commit {pending : Pending} (h : pending.Sound otHash)
    (owners : Owners) (uid : String) :
    (pending.commit owners).of uid =
      if uid ∈ pending.claims then otHash
      else if uid ∈ pending.releases then "" else owners.of uid := by
  have hhash : ∀ e ∈ pending.claims.entries, e.2 = otHash := by
    intro e he
    exact (h.hash e.1 e.2 (AList.mem_lookup_iff.mpr he)).1
  unfold Pending.commit
  rw [of_insert_each otHash _ hhash, of_erase_each]
  exact if_congr Iff.rfl rfl rfl

theorem Pending.Sound.hash_ne {pending : Pending} (h : pending.Sound otHash)
    (hclaim : uid ∈ pending.claims) : otHash ≠ "" := by
  obtain ⟨v, hv⟩ := Option.isSome_iff_exists.mp (AList.lookup_isSome.mpr hclaim)
  exact (h.hash uid v hv).2

variable (s : State)

def State.ownerOf (uid : String) : String := s.owners.of uid

/-- No owner holds two uids. -/
def State.OneEach : Prop :=
  ∀ uid other, s.ownerOf uid ≠ "" → s.ownerOf uid = s.ownerOf other → uid = other

/-- An accepted patch that claims the uid is still to be committed. -/
def claimComing (flights : List Flight) (uid : String) : Prop :=
  ∃ f ∈ flights, f.accepted = true ∧ uid ∈ f.pending.claims

/-- A uid whose A record a successful patch published has an owner on record,
or is about to: its claim is accepted and not yet committed. -/
def State.PublishedOwned : Prop :=
  ∀ uid, s.published uid = true → s.ownerOf uid ≠ "" ∨ claimComing s.flights uid

/-- A uid that changes owner was released by the owner it had: the step is the
commit of an accepted patch of that owner, and the patch deletes the A record. -/
def ReleasedFirst (a : Label) (t : State) : Prop :=
  ∀ uid, s.ownerOf uid ≠ "" → t.ownerOf uid ≠ s.ownerOf uid →
    ∃ i f, a = .commit i ∧ s.flights[i]? = some f ∧ f.accepted = true ∧
      f.otHash = s.ownerOf uid ∧ uid ∈ f.pending.releases

/-- What a step must not break. -/
def Orderly (a : Label) (t : State) : Prop :=
  ReleasedFirst s a t ∧ t.OneEach ∧ t.PublishedOwned

/-- The commit of a request finds the store as its check meant it: nobody else
owns a uid it claims or releases, the requester has no other uid by now, and no
A record outlives its release. -/
def CommitUndisturbed (i : Nat) (f : Flight) : Prop :=
  (∀ uid, uid ∈ f.pending.claims ∨ uid ∈ f.pending.releases →
      s.ownerOf uid = "" ∨ s.ownerOf uid = f.otHash) ∧
    (∀ uid ∈ f.pending.claims, ∀ other, other ≠ uid → other ∉ f.pending.releases →
      s.ownerOf other ≠ f.otHash) ∧
    (∀ uid ∈ f.pending.releases, s.published uid = true →
      claimComing (s.flights.eraseIdx i) uid)

/-- PowerDNS publishes the A record of no uid that has lost its owner meanwhile. -/
def AnswerUndisturbed (cfg : Config) (s : State) (f : Flight) : Prop :=
  ∀ uid, s.published uid = false → applyPatch cfg.zone s.published f.rrsets uid = true →
    s.ownerOf uid ≠ "" ∨ uid ∈ f.pending.claims ∨ claimComing s.flights uid

/-- The condition on the step about to be taken; a refused patch needs none. -/
def Undisturbed (cfg : Config) (s : State) : Label → Prop
  | .arrive .. => True
  | .upstream i status =>
      200 ≤ status → status < 300 → ∀ f, s.flights[i]? = some f → AnswerUndisturbed cfg s f
  | .commit i => ∀ f, s.flights[i]? = some f → CommitUndisturbed s i f

variable {f : Flight} {i : Nat}

theorem claimComing_eraseIdx {flights : List Flight} (hf : flights[i]? = some f) (uid : String) :
    claimComing flights uid ↔
      claimComing (flights.eraseIdx i) uid ∨ (f.accepted = true ∧ uid ∈ f.pending.claims) := by
  constructor
  · intro h
    obtain ⟨g, hg, hacc, hclaim⟩ := h
    obtain ⟨j, hj⟩ := mem_iff_getElem?.mp hg
    by_cases hij : j = i
    · subst hij
      rw [hf, Option.some.injEq] at hj
      subst hj
      exact .inr ⟨hacc, hclaim⟩
    · exact .inl ⟨g, mem_eraseIdx_iff_getElem?.mpr ⟨j, hij, hj⟩, hacc, hclaim⟩
  · intro h
    rcases h with h | h
    · obtain ⟨g, hg, hacc, hclaim⟩ := h
      exact ⟨g, mem_of_mem_eraseIdx hg, hacc, hclaim⟩
    · exact ⟨f, mem_of_getElem? hf, h.1, h.2⟩

theorem claimComing_accept {flights : List Flight}
    (hf : flights[i]? = some f) (hnot : f.accepted = false) (uid : String) :
    claimComing (flights.set i { f with accepted := true }) uid ↔
      claimComing flights uid ∨ uid ∈ f.pending.claims := by
  have hi : i < flights.length := (List.getElem?_eq_some_iff.mp hf).1
  have hset : (flights.set i { f with accepted := true })[i]? = some { f with accepted := true } := by
    rw [List.getElem?_set_self hi]
  rw [claimComing_eraseIdx hset, claimComing_eraseIdx hf, eraseIdx_set_eq]
  simp [hnot]

def State.Checked : Prop := ∀ f ∈ s.flights, f.pending.Sound f.otHash

variable {s t : State}

theorem State.Checked.step {a : Label} (h : s.Checked)
    (hstep : State.Step cfg s a t) : t.Checked := by
  unfold State.Step moves State.step at hstep
  cases a with
  | arrive ownerToken patch zoneHasA quotaAllows =>
    simp only [Option.some.injEq] at hstep
    subst hstep
    unfold arrive
    cases hcheck : checkPatch cfg s.owners ownerToken patch zoneHasA quotaAllows with
    | error refusal => exact h
    | ok pending =>
      intro f hf
      rcases mem_append.mp hf with hf | hf
      · exact h f hf
      · rw [mem_singleton.mp hf]
        exact checkPatch_sound hcheck
  | upstream i status =>
    cases hf : s.flights[i]? with
    | none => simp [hf] at hstep
    | some f =>
      simp only [hf] at hstep
      split at hstep
      · cases hstep
      · cases hstep
        unfold answered
        split
        · intro g hg
          rcases mem_or_eq_of_mem_set hg with hg | hg
          · exact h g hg
          · rw [hg]
            exact h f (mem_of_getElem? hf)
        · intro g hg
          exact h g (mem_of_mem_eraseIdx hg)
  | commit i =>
    cases hf : s.flights[i]? with
    | none => simp [hf] at hstep
    | some f =>
      simp only [hf] at hstep
      split at hstep
      · cases hstep
        intro g hg
        exact h g (mem_of_mem_eraseIdx hg)
      · cases hstep

theorem State.arrive_same (cfg : Config) (s : State) (ownerToken : String)
    (patch : Option (List RRSet)) (zoneHasA : String → Bool) (quotaAllows : Bool) :
    (s.arrive cfg ownerToken patch zoneHasA quotaAllows).owners = s.owners ∧
      (s.arrive cfg ownerToken patch zoneHasA quotaAllows).published = s.published ∧
      ∀ uid, claimComing s.flights uid →
        claimComing (s.arrive cfg ownerToken patch zoneHasA quotaAllows).flights uid := by
  unfold arrive
  cases checkPatch cfg s.owners ownerToken patch zoneHasA quotaAllows with
  | error refusal => exact ⟨rfl, rfl, fun _ h => h⟩
  | ok pending =>
    refine ⟨rfl, rfl, ?_⟩
    intro uid h
    obtain ⟨f, hf, hacc, hclaim⟩ := h
    exact ⟨f, mem_append_left _ hf, hacc, hclaim⟩

theorem State.answered_owners (cfg : Config) (s : State) (i status : Nat) (f : Flight) :
    (s.answered cfg i status f).owners = s.owners := by
  unfold answered
  split <;> rfl

theorem releasedFirst_of_owners_eq (a : Label) (h : t.owners = s.owners) :
    ReleasedFirst s a t := by
  intro uid _ hchanged
  simp [ownerOf, h] at hchanged

theorem oneEach_of_owners_eq (h : t.owners = s.owners) (hs : s.OneEach) :
    t.OneEach := by
  intro uid other
  simp only [ownerOf, h]
  exact hs uid other

/-- An answer keeps the zone's promise exactly when nothing disturbed it. -/
theorem answered_publishedOwned_iff {s : State} {i status : Nat}
    (hf : s.flights[i]? = some f) (hnot : f.accepted = false) (hs : s.PublishedOwned) :
    (s.answered cfg i status f).PublishedOwned ↔
      (200 ≤ status → status < 300 → AnswerUndisturbed cfg s f) := by
  unfold answered
  by_cases hstatus : 200 ≤ status ∧ status < 300
  · rw [if_pos hstatus]
    constructor
    · intro hkept _ _ uid _ hafter
      rcases hkept uid hafter with h | h
      · exact .inl h
      · rcases (claimComing_accept hf hnot uid).mp h with h | h
        · exact .inr (.inr h)
        · exact .inr (.inl h)
    · intro hclear uid hafter
      by_cases hbefore : s.published uid = true
      · rcases hs uid hbefore with h | h
        · exact .inl h
        · exact .inr ((claimComing_accept hf hnot uid).mpr (.inl h))
      · rcases hclear hstatus.1 hstatus.2 uid (by simpa using hbefore) hafter with h | h | h
        · exact .inl h
        · exact .inr ((claimComing_accept hf hnot uid).mpr (.inr h))
        · exact .inr ((claimComing_accept hf hnot uid).mpr (.inl h))
  · rw [if_neg hstatus]
    constructor
    · intro _ hlow hhigh
      exact absurd ⟨hlow, hhigh⟩ hstatus
    · intro _ uid hpublished
      rcases hs uid hpublished with h | h
      · exact .inl h
      · rcases (claimComing_eraseIdx hf uid).mp h with h | h
        · exact .inr h
        · simp [hnot] at h

theorem State.committed_ownerOf {s : State} (h : f.pending.Sound f.otHash) (uid : String) :
    (s.committed i f).ownerOf uid =
      if uid ∈ f.pending.claims then f.otHash
      else if uid ∈ f.pending.releases then "" else s.ownerOf uid :=
  h.of_commit s.owners uid

theorem commitUndisturbed_of_orderly {s : State}
    (hf : s.flights[i]? = some f) (hsound : f.pending.Sound f.otHash)
    (h : Orderly s (.commit i) (s.committed i f)) : CommitUndisturbed s i f := by
  obtain ⟨hreleased, hone, hpublished⟩ := h
  have hchanged : ∀ uid, s.ownerOf uid ≠ "" →
      (s.committed i f).ownerOf uid ≠ s.ownerOf uid →
      f.otHash = s.ownerOf uid ∧ uid ∈ f.pending.releases := by
    intro uid howned hnew
    obtain ⟨j, g, hlabel, hg, -, hhash, hrelease⟩ := hreleased uid howned hnew
    obtain rfl : i = j := by simpa using hlabel
    rw [hf, Option.some.injEq] at hg
    subst hg
    exact ⟨hhash, hrelease⟩
  refine ⟨?_, ?_, ?_⟩
  · intro uid htouched
    by_contra hother
    rw [not_or] at hother
    obtain ⟨howned, hforeign⟩ := hother
    by_cases hclaim : uid ∈ f.pending.claims
    · have hnew : (s.committed i f).ownerOf uid = f.otHash := by
        rw [committed_ownerOf hsound, if_pos hclaim]
      have hne : (s.committed i f).ownerOf uid ≠ s.ownerOf uid := by
        rw [hnew]
        exact fun heq => hforeign heq.symm
      exact hsound.apart uid hclaim (hchanged uid howned hne).2
    · have hrelease : uid ∈ f.pending.releases := htouched.resolve_left hclaim
      have hnew : (s.committed i f).ownerOf uid = "" := by
        rw [committed_ownerOf hsound, if_neg hclaim, if_pos hrelease]
      have hne : (s.committed i f).ownerOf uid ≠ s.ownerOf uid := by
        rw [hnew]
        exact fun heq => howned heq.symm
      exact hforeign (hchanged uid howned hne).1.symm
  · intro uid hclaim other hother hkept hheld
    have hnew : (s.committed i f).ownerOf uid = f.otHash := by
      rw [committed_ownerOf hsound, if_pos hclaim]
    have hstill : (s.committed i f).ownerOf other = f.otHash := by
      rw [committed_ownerOf hsound]
      by_cases hboth : other ∈ f.pending.claims
      · rw [if_pos hboth]
      · rw [if_neg hboth, if_neg hkept, hheld]
    have heq : uid = other := by
      apply hone uid other
      · rw [hnew]
        exact hsound.hash_ne hclaim
      · rw [hnew, hstill]
    exact hother heq.symm
  · intro uid hrelease hpub
    have hclaim : uid ∉ f.pending.claims := fun hclaim => hsound.apart uid hclaim hrelease
    have hnone : (s.committed i f).ownerOf uid = "" := by
      rw [committed_ownerOf hsound, if_neg hclaim, if_pos hrelease]
    exact (hpublished uid hpub).resolve_left fun howned => howned hnone

/-- An undisturbed commit breaks no promise. -/
theorem orderly_of_commitUndisturbed {s : State}
    (hf : s.flights[i]? = some f) (hacc : f.accepted = true) (hsound : f.pending.Sound f.otHash)
    (hone : s.OneEach) (hpublished : s.PublishedOwned) (h : CommitUndisturbed s i f) :
    Orderly s (.commit i) (s.committed i f) := by
  obtain ⟨hown, hother, hzone⟩ := h
  refine ⟨?_, ?_, ?_⟩
  · intro uid howned hnew
    rw [committed_ownerOf hsound] at hnew
    by_cases hclaim : uid ∈ f.pending.claims
    · rw [if_pos hclaim] at hnew
      exact absurd ((hown uid (.inl hclaim)).resolve_left howned).symm hnew
    · rw [if_neg hclaim] at hnew
      by_cases hrelease : uid ∈ f.pending.releases
      · have hhash := (hown uid (.inr hrelease)).resolve_left howned
        exact ⟨i, f, rfl, hf, hacc, hhash.symm, hrelease⟩
      · rw [if_neg hrelease] at hnew
        exact absurd rfl hnew
  · -- A uid claimed by the commit meets only uids its requester did not have.
    have hclaimed : ∀ uid other, uid ∈ f.pending.claims → other ∉ f.pending.claims →
        (s.committed i f).ownerOf other ≠ f.otHash := by
      intro uid other hclaim hnot
      have hne : other ≠ uid := fun heq => hnot (heq ▸ hclaim)
      rw [committed_ownerOf hsound, if_neg hnot]
      by_cases hrelease : other ∈ f.pending.releases
      · rw [if_pos hrelease]
        exact (hsound.hash_ne hclaim).symm
      · rw [if_neg hrelease]
        exact hother uid hclaim other hne hrelease
    have hvalue : ∀ uid, uid ∈ f.pending.claims → (s.committed i f).ownerOf uid = f.otHash := by
      intro uid hclaim
      rw [committed_ownerOf hsound, if_pos hclaim]
    have hkept : ∀ uid, uid ∉ f.pending.claims → (s.committed i f).ownerOf uid ≠ "" →
        (s.committed i f).ownerOf uid = s.ownerOf uid := by
      intro uid hclaim howned
      rw [committed_ownerOf hsound, if_neg hclaim] at howned ⊢
      by_cases hrelease : uid ∈ f.pending.releases
      · rw [if_pos hrelease] at howned
        exact absurd rfl howned
      · rw [if_neg hrelease]
    intro uid other howned hsame
    by_cases huid : uid ∈ f.pending.claims
    · by_cases hoth : other ∈ f.pending.claims
      · exact hsound.single uid huid other hoth
      · exact absurd (hsame.symm.trans (hvalue uid huid)) (hclaimed uid other huid hoth)
    · by_cases hoth : other ∈ f.pending.claims
      · exact absurd (hsame.trans (hvalue other hoth)) (hclaimed other uid hoth huid)
      · have hu := hkept uid huid howned
        have ho := hkept other hoth (hsame ▸ howned)
        exact hone uid other (hu ▸ howned) (by rw [← hu, ← ho, hsame])
  · intro uid hpub
    by_cases hclaim : uid ∈ f.pending.claims
    · left
      rw [committed_ownerOf hsound, if_pos hclaim]
      exact hsound.hash_ne hclaim
    · by_cases hrelease : uid ∈ f.pending.releases
      · exact .inr (hzone uid hrelease hpub)
      · rw [committed_ownerOf hsound, if_neg hclaim, if_neg hrelease]
        rcases hpublished uid hpub with h | h
        · exact .inl h
        · rcases (claimComing_eraseIdx hf uid).mp h with h | h
          · exact .inr h
          · exact absurd h.2 hclaim

theorem undisturbed_of_orderly {a : Label} (hchecked : s.Checked)
    (hstep : Step cfg s a t) (h : Orderly s a t) (hs : s.PublishedOwned) :
    Undisturbed cfg s a := by
  unfold Step moves step at hstep
  cases a with
  | arrive ownerToken patch zoneHasA quotaAllows => trivial
  | upstream i status =>
    intro hlow hhigh f hf
    simp only [hf] at hstep
    split at hstep
    · cases hstep
    · next hnot =>
      cases hstep
      exact (answered_publishedOwned_iff hf (by simpa using hnot) hs).mp h.2.2 hlow hhigh
  | commit i =>
    intro f hf
    simp only [hf] at hstep
    split at hstep
    · cases hstep
      exact commitUndisturbed_of_orderly hf (hchecked f (mem_of_getElem? hf)) h
    · cases hstep

theorem orderly_of_undisturbed {a : Label} (hchecked : s.Checked)
    (hone : s.OneEach) (hs : s.PublishedOwned) (hstep : Step cfg s a t)
    (h : Undisturbed cfg s a) : Orderly s a t := by
  unfold Step moves step at hstep
  cases a with
  | arrive ownerToken patch zoneHasA quotaAllows =>
    simp only [Option.some.injEq] at hstep
    subst hstep
    obtain ⟨howners, hpublished, hcoming⟩ :=
      s.arrive_same cfg ownerToken patch zoneHasA quotaAllows
    refine ⟨releasedFirst_of_owners_eq _ howners, oneEach_of_owners_eq howners hone, ?_⟩
    intro uid hpub
    rw [hpublished] at hpub
    rw [ownerOf, howners]
    exact (hs uid hpub).imp_right (hcoming uid)
  | upstream i status =>
    cases hf : s.flights[i]? with
    | none => simp [hf] at hstep
    | some f =>
      simp only [hf] at hstep
      split at hstep
      · cases hstep
      · next hnot =>
        cases hstep
        have howners := s.answered_owners cfg i status f
        refine ⟨releasedFirst_of_owners_eq _ howners, oneEach_of_owners_eq howners hone, ?_⟩
        apply (answered_publishedOwned_iff hf (by simpa using hnot) hs).mpr
        intro hlow hhigh
        exact h hlow hhigh f hf
  | commit i =>
    cases hf : s.flights[i]? with
    | none => simp [hf] at hstep
    | some f =>
      simp only [hf] at hstep
      split at hstep
      · next hacc =>
        cases hstep
        exact orderly_of_commitUndisturbed hf hacc (hchecked f (mem_of_getElem? hf))
          hone hs (h f hf)
      · cases hstep

/-- The proxy as it starts: no request in flight, nothing published through it
yet, and a store in which no owner holds two uids. -/
def State.Initial (s : State) : Prop :=
  s.flights = [] ∧ (∀ uid, s.published uid = false) ∧ s.OneEach

def exampleConfig : Config := ⟨"example.org.", false, fun token => "h:" ++ token⟩

def emptyState : State := ⟨∅, fun _ => false, []⟩

theorem emptyState_initial : emptyState.Initial :=
  ⟨rfl, fun _ => rfl, fun _ _ howned => absurd rfl howned⟩

def aReplace : RRSet := ⟨"ab12cd34.example.org.", "A", "REPLACE", ["1.2.3.4"]⟩

/-- Two owners are checked while the uid is free, and both patches are accepted. -/
def racingClaims : List Label :=
  [.arrive "tokenA" (some [aReplace]) (fun _ => true) true,
    .arrive "tokenB" (some [aReplace]) (fun _ => true) true,
    .upstream 0 204, .upstream 1 204, .commit 0]

end MoonlightWeb.Deploy.MwProxy
