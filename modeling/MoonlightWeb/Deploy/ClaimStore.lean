import MoonlightWeb.Lib.Run
import Mathlib.Data.List.AList
import Mathlib.Logic.Function.Basic

/-! # The claim store of the rendezvous

Trust on first use: the first to claim an identifier owns it until it releases it, and
an owner holds one identifier at a time. Each call runs under the store's lock, so a run
is a sequence of calls; the file is written by a flush, which may fail, and read when the
service starts. Owners are kept as the keyed hash of their token.
-/

namespace MoonlightWeb.Deploy.ClaimStore

open Lib

/-- `claim`: the hash of the owner's token, and when the claim was made. -/
structure Claim where
  owner : String
  created : Int
deriving DecidableEq, Repr

abbrev Claims := AList fun _ : String => Claim

structure Store where
  claims : Claims
  file : Option Claims

/-- `newClaimStore` where there is no file yet. -/
def Store.initial : Store := ⟨∅, none⟩

inductive ClaimResult
  | claimCreated
  | claimExisting
  | claimTaken
  | claimHasOther
deriving DecidableEq, Repr

variable (fingerprint : String → String)

/-- Whether the owner of this hash holds an identifier other than `id`. -/
def hasOther (claims : Claims) (id fp : String) : Bool :=
  claims.entries.any fun other => other.1 ≠ id && other.2.owner = fp

variable (s : Store)

def claim (id token : String) (now : Int) : Store × ClaimResult :=
  let fp := fingerprint token
  match s.claims.lookup id with
  | some existing => if existing.owner = fp then (s, .claimExisting) else (s, .claimTaken)
  | none =>
      if hasOther s.claims id fp then (s, .claimHasOther)
      else ({ s with claims := s.claims.insert id ⟨fp, now⟩ }, .claimCreated)

def owns (id token : String) : Bool :=
  match s.claims.lookup id with
  | some existing => existing.owner = fingerprint token
  | none => false

def release (id token : String) : Store × Bool :=
  match s.claims.lookup id with
  | some existing =>
      if existing.owner = fingerprint token then ({ s with claims := s.claims.erase id }, true)
      else (s, false)
  | none => (s, false)

/-- `flush`, which replaces the whole file or leaves it. -/
def flush (written : Bool) : Store :=
  if written then { s with file := some s.claims } else s

/-- `newClaimStore` at the next start. -/
def reload : Store := { s with claims := s.file.getD ∅ }

inductive Event
  | claim (id token : String) (now : Int)
  | release (id token : String)
  | flush (written : Bool)
  | reload
deriving DecidableEq, Repr

def next : Event → Store
  | .claim id token now => (claim fingerprint s id token now).1
  | .release id token => (release fingerprint s id token).1
  | .flush written => flush s written
  | .reload => reload s

structure Exclusive (s : Store) : Prop where
  owner : ∀ id token token', owns fingerprint s id token = true →
    owns fingerprint s id token' = true → token = token'
  id : ∀ token id id', owns fingerprint s id token = true →
    owns fingerprint s id' token = true → id = id'

def RefusesTaken (e : Event) (s' : Store) : Prop :=
  ∀ id token now owner, e = .claim id token now → owns fingerprint s id owner = true →
    token ≠ owner → (claim fingerprint s id token now).2 = .claimTaken ∧ s' = s

/-- An identifier leaves its owner only when its owner releases it. -/
def LeavesByRelease (e : Event) (s' : Store) : Prop :=
  ∀ id owner, owns fingerprint s id owner = true →
    owns fingerprint s' id owner = true ∨
      (e = .release id owner ∧ (release fingerprint s id owner).2 = true)

/-- A restart finds every claim of the memory in the file, with its owner. -/
def Persisted (e : Event) (_ : Store) : Prop :=
  e = .reload → ∀ id c, s.claims.lookup id = some c →
    ∃ c', (s.file.getD ∅).lookup id = some c' ∧ c'.owner = c.owner

structure Sound (claims : Claims) : Prop where
  single : ∀ id id' c c', claims.lookup id = some c → claims.lookup id' = some c' →
    c.owner = c'.owner → id = id'
  token : ∀ id c, claims.lookup id = some c → ∃ token, c.owner = fingerprint token

structure WellOwned (s : Store) : Prop where
  claims : Sound fingerprint s.claims
  file : Sound fingerprint (s.file.getD ∅)

theorem sound_empty : Sound fingerprint ∅ := by
  constructor
  · intro id id' c c' h
    simp at h
  · intro id c h
    simp at h

theorem wellOwned_initial : WellOwned fingerprint .initial :=
  ⟨sound_empty fingerprint, sound_empty fingerprint⟩

variable {fingerprint}

theorem owns_iff (id token : String) :
    owns fingerprint s id token = true ↔
      ∃ c, s.claims.lookup id = some c ∧ c.owner = fingerprint token := by
  unfold owns
  cases s.claims.lookup id with
  | none => simp
  | some existing => simp

variable {claims : Claims} {c : Claim}

theorem hasOther_eq_false {id fp : String} (h : hasOther claims id fp = false)
    {other : String} (hlookup : claims.lookup other = some c) (hfp : c.owner = fp) :
    other = id := by
  by_contra hne
  have hmem : (⟨other, c⟩ : Sigma fun _ : String => Claim) ∈ claims.entries :=
    AList.mem_lookup_iff.mp hlookup
  have hnot := (List.any_eq_false.mp h) _ hmem
  simp [hne, hfp] at hnot

theorem Sound.insert (h : Sound fingerprint claims) {id token : String}
    (hc : c.owner = fingerprint token)
    (hnew : ∀ other c', claims.lookup other = some c' → c'.owner = c.owner → other = id) :
    Sound fingerprint (claims.insert id c) := by
  have hlookup : ∀ {i a}, (claims.insert id c).lookup i = some a →
      (i = id ∧ a = c) ∨ (i ≠ id ∧ claims.lookup i = some a) := by
    intro i a hi
    by_cases hid : i = id
    · subst hid
      rw [AList.lookup_insert] at hi
      exact Or.inl ⟨rfl, (Option.some.inj hi).symm⟩
    · rw [AList.lookup_insert_ne hid] at hi
      exact Or.inr ⟨hid, hi⟩
  constructor
  · intro i j a b hi hj howner
    rcases hlookup hi with ⟨rfl, rfl⟩ | ⟨_, hiOld⟩
    · rcases hlookup hj with ⟨rfl, _⟩ | ⟨_, hjOld⟩
      · rfl
      · exact (hnew j b hjOld howner.symm).symm
    · rcases hlookup hj with ⟨rfl, rfl⟩ | ⟨_, hjOld⟩
      · exact hnew i a hiOld howner
      · exact h.single i j a b hiOld hjOld howner
  · intro i a hi
    rcases hlookup hi with ⟨_, rfl⟩ | ⟨_, hiOld⟩
    · exact ⟨token, hc⟩
    · exact h.token i a hiOld

theorem lookup_of_erase {id other : String}
    (h : (claims.erase id).lookup other = some c) : claims.lookup other = some c := by
  by_cases hother : other = id
  · subst hother
    simp at h
  · rwa [AList.lookup_erase_ne hother] at h

theorem Sound.erase (h : Sound fingerprint claims) (id : String) :
    Sound fingerprint (claims.erase id) := by
  constructor
  · intro i j a b hi hj howner
    exact h.single i j a b (lookup_of_erase hi) (lookup_of_erase hj) howner
  · intro i a hi
    exact h.token i a (lookup_of_erase hi)

variable {s : Store}

theorem WellOwned.next (h : WellOwned fingerprint s) (e : Event) :
    WellOwned fingerprint (next fingerprint s e) := by
  cases e with
  | claim id token now =>
    simp only [ClaimStore.next, claim]
    cases hid : s.claims.lookup id with
    | some existing =>
      simp only
      split <;> exact h
    | none =>
      simp only
      cases hother : hasOther s.claims id (fingerprint token) with
      | true => exact h
      | false =>
        have hnew : ∀ other c', s.claims.lookup other = some c' →
            c'.owner = fingerprint token → other = id :=
          fun other c' hlookup hfp => hasOther_eq_false hother hlookup hfp
        exact ⟨h.claims.insert (c := ⟨fingerprint token, now⟩) rfl hnew, h.file⟩
  | release id token =>
    simp only [ClaimStore.next, release]
    cases hid : s.claims.lookup id with
    | none => exact h
    | some existing =>
      simp only
      split
      · exact ⟨h.claims.erase id, h.file⟩
      · exact h
  | flush written =>
    cases written with
    | true => exact ⟨h.claims, h.claims⟩
    | false => exact h
  | reload => exact ⟨h.file, h.file⟩

theorem WellOwned.exclusive (hinj : Function.Injective fingerprint)
    (h : WellOwned fingerprint s) : Exclusive fingerprint s := by
  constructor
  · intro id token token' hfirst hsecond
    obtain ⟨c, hc, hown⟩ := (owns_iff s id token).mp hfirst
    obtain ⟨c', hc', hown'⟩ := (owns_iff s id token').mp hsecond
    rw [hc] at hc'
    obtain rfl := Option.some.inj hc'
    exact hinj (hown.symm.trans hown')
  · intro token id id' hfirst hsecond
    obtain ⟨c, hc, hown⟩ := (owns_iff s id token).mp hfirst
    obtain ⟨c', hc', hown'⟩ := (owns_iff s id' token).mp hsecond
    exact h.claims.single id id' c c' hc hc' (hown.trans hown'.symm)

theorem refusesTaken_next (hinj : Function.Injective fingerprint) (s : Store) (e : Event) :
    RefusesTaken fingerprint s e (next fingerprint s e) := by
  rintro id token now owner rfl howns hne
  obtain ⟨c, hc, hown⟩ := (owns_iff s id owner).mp howns
  have hother : c.owner ≠ fingerprint token := fun h => hne (hinj (h.symm.trans hown))
  simp [next, claim, hc, hother]

theorem lookup_claim {id token other : String} {now : Int} (h : s.claims.lookup other = some c) :
    (claim fingerprint s id token now).1.claims.lookup other = some c := by
  unfold claim
  cases hid : s.claims.lookup id with
  | some existing =>
    simp only
    split <;> exact h
  | none =>
    have hne : other ≠ id := by
      rintro rfl
      rw [h] at hid
      cases hid
    simp only
    split
    · exact h
    · simpa only [AList.lookup_insert_ne hne] using h

theorem lookup_release {id token other : String} (h : s.claims.lookup other = some c) :
    (release fingerprint s id token).1.claims.lookup other = some c ∨
      (other = id ∧ c.owner = fingerprint token ∧ (release fingerprint s id token).2 = true) := by
  unfold release
  cases hid : s.claims.lookup id with
  | none => exact Or.inl h
  | some existing =>
    simp only
    by_cases howner : existing.owner = fingerprint token
    · rw [if_pos howner]
      by_cases hother : other = id
      · subst hother
        rw [h] at hid
        obtain rfl := Option.some.inj hid
        exact Or.inr ⟨rfl, howner, rfl⟩
      · exact Or.inl (by simpa only [AList.lookup_erase_ne hother] using h)
    · rw [if_neg howner]
      exact Or.inl h

/-- A step takes an identifier from its owner by release only, exactly when a restart
finds what the memory held. -/
theorem leavesByRelease_iff (hinj : Function.Injective fingerprint)
    (h : WellOwned fingerprint s) (e : Event) :
    LeavesByRelease fingerprint s e (next fingerprint s e) ↔
      Persisted s e (next fingerprint s e) := by
  cases e with
  | claim id token now =>
    refine iff_of_true ?_ (fun hno => by cases hno)
    intro other owner howns
    obtain ⟨c, hc, hown⟩ := (owns_iff s other owner).mp howns
    exact Or.inl ((owns_iff _ other owner).mpr ⟨c, lookup_claim hc, hown⟩)
  | release id token =>
    refine iff_of_true ?_ (fun hno => by cases hno)
    intro other owner howns
    obtain ⟨c, hc, hown⟩ := (owns_iff s other owner).mp howns
    rcases @lookup_release fingerprint c s id token other hc with
      hkept | ⟨rfl, htoken, hreleased⟩
    · exact Or.inl ((owns_iff _ other owner).mpr ⟨c, hkept, hown⟩)
    · obtain rfl := hinj (hown.symm.trans htoken)
      exact Or.inr ⟨rfl, hreleased⟩
  | flush written =>
    refine iff_of_true ?_ (fun hno => by cases hno)
    intro other owner howns
    cases written <;> exact Or.inl howns
  | reload =>
    constructor
    · intro hleaves _ id c hc
      obtain ⟨token, htoken⟩ := h.claims.token id c hc
      have howns := (owns_iff s id token).mpr ⟨c, hc, htoken⟩
      rcases hleaves id token howns with hkept | ⟨hno, _⟩
      · obtain ⟨c', hc', htoken'⟩ := (owns_iff _ id token).mp hkept
        exact ⟨c', hc', htoken'.trans htoken.symm⟩
      · cases hno
    · intro hpersisted id owner howns
      obtain ⟨c, hc, hown⟩ := (owns_iff s id owner).mp howns
      obtain ⟨c', hc', hsame⟩ := hpersisted rfl id c hc
      exact Or.inl ((owns_iff _ id owner).mpr ⟨c', hc', hsame.trans hown⟩)

/-- In every run owners and identifiers stay apart and nobody is given what another owns;
an identifier leaves its owner by release only in exactly the runs whose restarts find
every claim in the file. -/
theorem claims_kept_iff (fingerprint : String → String) (hinj : Function.Injective fingerprint)
    (labels : List Event) :
    AllAlong (handles (next fingerprint)) (Exclusive fingerprint) .initial labels ∧
      EachStep (handles (next fingerprint)) (RefusesTaken fingerprint) .initial labels ∧
      (EachStep (handles (next fingerprint)) (LeavesByRelease fingerprint) .initial labels ↔
        EachStep (handles (next fingerprint)) Persisted .initial labels) := by
  have hkeeps : ∀ s e s', WellOwned fingerprint s → handles (next fingerprint) s e s' →
      WellOwned fingerprint s' := by
    rintro s e _ h rfl
    exact h.next e
  refine ⟨?_, ?_, ?_⟩
  · intro visited rest s _ hrun
    exact (hrun.invariant hkeeps (wellOwned_initial fingerprint)).exclusive hinj
  · rintro visited e rest s _ _ _ rfl
    exact refusesTaken_next hinj s e
  · refine eachStep_iff_of_kept (S := WellOwned fingerprint) (I := fun _ => True) hkeeps ?_ ?_
      (wellOwned_initial fingerprint) trivial labels
    · intro s e s' _ _ _ _
      trivial
    · rintro s e _ h _ rfl
      exact leavesByRelease_iff hinj h e

/-- The first owner's claim, a stranger's attempt, a flush and a restart. -/
theorem claims_kept_iff_restart :
    EachStep (handles (next id)) (LeavesByRelease id) .initial
        [.claim "rdv" "first" 0, .claim "rdv" "second" 1, .flush true, .reload] ↔
      EachStep (handles (next id)) Persisted .initial
        [.claim "rdv" "first" 0, .claim "rdv" "second" 1, .flush true, .reload] :=
  (claims_kept_iff id (fun _ _ h => h) _).2.2

/-- After a flush that failed, a restart hands the identifier to the next who claims it. -/
theorem failed_flush_hands_over :
    ¬ ∀ fingerprint : String → String, Function.Injective fingerprint →
      ∀ (visited rest : List Event) (s t : Store) (name owner other : String),
        Run (handles (next fingerprint)) .initial visited s →
        Run (handles (next fingerprint)) s rest t →
        owns fingerprint s name owner = true → owns fingerprint t name other = true →
        owner ≠ other → .release name owner ∈ rest := by
  intro hall
  have hrun := fun s labels t => (run_handles_iff (next id) s t labels).mpr
  have hreleased := hall id (fun _ _ h => h) [.claim "rdv" "first" 0]
    [.flush false, .reload, .claim "rdv" "second" 1] _ _ "rdv" "first" "second"
    (hrun _ _ _ rfl) (hrun _ _ _ rfl) (by decide) (by decide) (by decide)
  exact absurd hreleased (by decide)

end MoonlightWeb.Deploy.ClaimStore
