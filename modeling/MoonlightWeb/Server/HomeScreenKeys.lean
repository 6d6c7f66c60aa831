import MoonlightWeb.Server.AuthInvariants
import MoonlightWeb.Server.AuthTables

/-! # Home-screen keys

A key lives in a table of its own, apart from the session that minted it. It is
spent by the redemption that finds it, replaced by the next one minted for the
same session, and worth nothing once the session is gone: ids are never drawn
twice, so a session that ended stays ended.
-/

namespace MoonlightWeb.Server.AuthManager

open Qt
open Js (JsMap)
open Lib

/-- The answer is the key minted from `random`, not one handed out before. -/
def World.Mints (p : Primitives) (w : World) (token : QString) (random : QByteArray) : Prop :=
  (homeScreenKey p w.manager w.now token random).1 = mintedKey random

/-- The text presented redeems `key`. -/
def World.Redeems (w : World) (text key : QString) : Prop :=
  (redeemHomeScreenKey w.manager w.now text).1.isSome = true ∧
    ∃ found, w.manager.homeScreenKeys.get (homeScreenSession w.manager text) = some found ∧
      found.key = key

/-- The session is there and has not expired. -/
def World.Live (w : World) (id : QString) : Prop :=
  ∃ s, w.session id = some s ∧ s.expired w.now = false

def Event.touchesKeys : Event → Bool
  | .destroySession _ => true
  | .logoutSession _ => true
  | .restart => true
  | .homeScreenKey _ _ => true
  | .redeemHomeScreenKey _ => true
  | _ => false

section

variable {p : Primitives} {now : Int} {e : Event} {m : Manager}

theorem handle_keys (h : e.touchesKeys = false) :
    (handle p m now e).homeScreenKeys = m.homeScreenKeys := by
  by_cases htabled : e.tabled = true
  · cases e with
    | validatePin ip pin =>
      obtain ⟨rateLimits, hframe⟩ := validatePin_frame p m now ip pin
      simp only [handle, hframe]
    | validateAdminPassword ip password =>
      obtain ⟨rateLimits, hframe⟩ := validateAdminPassword_frame p m now ip password
      simp only [handle, hframe]
    | regeneratePin => rfl
    | destroySession => cases h
    | logoutSession => cases h
    | restart => cases h
    | homeScreenKey => cases h
    | redeemHomeScreenKey => cases h
    | _ => cases htabled
  · exact congrArg Prod.fst (handle_tables (by simpa using htabled))

theorem destroySession_keys (m : Manager) (id : QString) :
    (destroySession m id).homeScreenKeys = m.homeScreenKeys.delete id := by
  unfold destroySession
  dsimp only
  split_ifs <;> rfl

variable {found : HomeScreenKey}

theorem get_of_delete {t : QHash QString HomeScreenKey} {gone id : QString}
    (h : (t.delete gone).get id = some found) : id ≠ gone ∧ t.get id = some found := by
  by_cases hid : id = gone
  · rw [hid, JsMap.get_delete_self] at h
    cases h
  · rw [JsMap.get_delete_of_ne t hid] at h
    exact ⟨hid, h⟩

/-- A call of `homeScreenKey` mints, or leaves the manager alone and answers with
nothing new. -/
theorem homeScreenKey_cases (m : Manager) (now : Int) (token : QString) (random : QByteArray) :
    (∃ answer, homeScreenKey p m now token random = (answer, m) ∧
      (answer = [] ∨
        ∃ found, m.homeScreenKeys.get (p.hashToken token) = some found ∧ found.key = answer)) ∨
      homeScreenKey p m now token random = (mintedKey random, { m with
          homeScreenKeys := m.homeScreenKeys.set (p.hashToken token)
            { key := mintedKey random, issuedAt := now } }) := by
  unfold homeScreenKey
  split_ifs
  · exact Or.inl ⟨[], rfl, Or.inl rfl⟩
  · dsimp only
    cases hget : m.homeScreenKeys.get (p.hashToken token) with
    | none => exact Or.inr rfl
    | some found =>
      dsimp only
      split_ifs
      · exact Or.inl ⟨found.key, rfl, Or.inr ⟨found, rfl, rfl⟩⟩
      · exact Or.inr rfl

theorem redeemHomeScreenKey_keys {m : Manager} {now : Int} {text id : QString}
    (h : (redeemHomeScreenKey m now text).2.homeScreenKeys.get id = some found) :
    m.homeScreenKeys.get id = some found := by
  unfold redeemHomeScreenKey at h
  split_ifs at h
  · exact h
  · dsimp only at h
    split_ifs at h
    · exact h
    · cases hget : m.homeScreenKeys.get (homeScreenSession m text) with
      | none => simpa [hget] using h
      | some entry =>
        rw [hget] at h
        dsimp only at h
        split_ifs at h
        · exact (get_of_delete h).2
        · cases hsession : m.sessions.get (homeScreenSession m text) with
          | none =>
            rw [hsession] at h
            exact (get_of_delete h).2
          | some session =>
            rw [hsession] at h
            dsimp only at h
            split_ifs at h
            · exact (get_of_delete h).2
            · exact (get_of_delete h).2

/-- A redemption answers with the entry it takes out, in time and of a session alive. -/
theorem redeemHomeScreenKey_isSome {m : Manager} {now : Int} {text : QString}
    (h : (redeemHomeScreenKey m now text).1.isSome = true) :
    ∃ found session,
      m.homeScreenKeys.get (homeScreenSession m text) = some found ∧
      now ≤ found.issuedAt + homeScreenKeyTtlSecs ∧
      m.sessions.get (homeScreenSession m text) = some session ∧
      session.expired now = false ∧
      (redeemHomeScreenKey m now text).2.homeScreenKeys =
        m.homeScreenKeys.delete (homeScreenSession m text) := by
  unfold redeemHomeScreenKey at h ⊢
  split_ifs at h ⊢ with hmark
  · cases h
  · dsimp only at h ⊢
    split_ifs at h ⊢ with hempty
    · cases h
    · cases hget : m.homeScreenKeys.get (homeScreenSession m text) with
      | none => simp [hget] at h
      | some found =>
        simp only [hget] at h ⊢
        split_ifs at h ⊢ with hold
        · cases h
        · cases hsession : m.sessions.get (homeScreenSession m text) with
          | none => simp [hsession] at h
          | some session =>
            simp only [hsession] at h ⊢
            split_ifs at h ⊢ with hexpired
            · cases h
            · exact ⟨found, session, rfl, by omega, rfl,
                by simpa [SessionInfo.expired] using hexpired, rfl⟩

/-- Where an entry of the table comes from. -/
theorem step_keys {w v : World} {id : QString} (h : step p w e = some v)
    (hget : v.manager.homeScreenKeys.get id = some found) :
    w.manager.homeScreenKeys.get id = some found ∨
      ∃ token random, e = .homeScreenKey token random ∧ p.hashToken token = id ∧
        found = { key := mintedKey random, issuedAt := w.now } := by
  obtain ⟨-, -, hmanager, -, -⟩ := step_eq_some p h
  rw [hmanager] at hget
  cases htouches : e.touchesKeys with
  | false =>
    rw [handle_keys htouches] at hget
    exact Or.inl hget
  | true =>
    cases e with
    | destroySession gone =>
      rw [handle, destroySession_keys] at hget
      exact Or.inl (get_of_delete hget).2
    | logoutSession token =>
      simp only [handle, logoutSession] at hget
      split_ifs at hget
      · exact Or.inl hget
      · exact Or.inl hget
      · rw [destroySession_keys] at hget
        exact Or.inl (get_of_delete hget).2
    | restart =>
      rw [handle, restart, (loadSessions_frame p _ w.now).2.2.2] at hget
      cases hget
    | homeScreenKey token random =>
      rcases homeScreenKey_cases (p := p) w.manager w.now token random with
        ⟨answer, hsame, -⟩ | hminted
      · rw [handle, hsame] at hget
        exact Or.inl hget
      · rw [handle, hminted] at hget
        by_cases hid : id = p.hashToken token
        · rw [hid, JsMap.get_set_self] at hget
          exact Or.inr ⟨token, random, rfl, hid.symm, (Option.some.inj hget).symm⟩
        · rw [JsMap.get_set_of_ne _ _ hid] at hget
          exact Or.inl hget
    | redeemHomeScreenKey text => exact Or.inl (redeemHomeScreenKey_keys hget)
    | _ => cases htouches

def Drawn (w : World) : Prop :=
  ∀ id found, w.manager.homeScreenKeys.get id = some found → found.key ∈ w.keys

structure Placed (w : World) (key id : QString) (issuedAt : Int) : Prop where
  drawn : Drawn w
  known : key ∈ w.keys
  place : ∀ id' found, w.manager.homeScreenKeys.get id' = some found → found.key = key →
    id' = id ∧ found.issuedAt = issuedAt

structure Spent (w : World) (key : QString) : Prop where
  known : key ∈ w.keys
  gone : ∀ id found, w.manager.homeScreenKeys.get id = some found → found.key ≠ key

variable {w v : World} {key id : QString} {issuedAt : Int}

theorem mem_drawnKeys (h : key ∈ w.keys) : key ∈ w.drawnKeys e := by
  cases e with
  | homeScreenKey => exact List.mem_cons_of_mem _ h
  | _ => exact h

theorem keys_step (h : step p w e = some v) (hkey : key ∈ w.keys) : key ∈ v.keys := by
  obtain ⟨-, -, -, -, hkeys⟩ := step_eq_some p h
  rw [hkeys]
  exact mem_drawnKeys hkey

variable {random : QByteArray} {token : QString}

/-- A key that is minted was never drawn before. -/
theorem minted_fresh (h : step p w (.homeScreenKey token random) = some v) :
    mintedKey random ∉ w.keys ∧ mintedKey random ∈ v.keys := by
  obtain ⟨hallowed, -, -, -, hkeys⟩ := step_eq_some p h
  rw [hkeys]
  exact ⟨by simpa [World.allows] using hallowed, List.mem_cons_self⟩

theorem Drawn.next (hdrawn : Drawn w) (h : step p w e = some v) : Drawn v := by
  intro id found hget
  rcases step_keys h hget with hold | ⟨token, random, rfl, -, rfl⟩
  · exact keys_step h (hdrawn id found hold)
  · exact (minted_fresh h).2

theorem Placed.next (hplaced : Placed w key id issuedAt) (h : step p w e = some v) :
    Placed v key id issuedAt where
  drawn := hplaced.drawn.next h
  known := keys_step h hplaced.known
  place := by
    intro id' found hget hkey
    rcases step_keys h hget with hold | ⟨token, random, rfl, -, rfl⟩
    · exact hplaced.place id' found hold hkey
    · obtain rfl : mintedKey random = key := hkey
      exact absurd hplaced.known (minted_fresh h).1

theorem Spent.next (hspent : Spent w key) (h : step p w e = some v) : Spent v key where
  known := keys_step h hspent.known
  gone := by
    intro id found hget hkey
    rcases step_keys h hget with hold | ⟨token, random, rfl, -, rfl⟩
    · exact hspent.gone id found hold hkey
    · obtain rfl : mintedKey random = key := hkey
      exact (minted_fresh h).1 hspent.known

theorem Spent.not_redeems (hspent : Spent w key) (text : QString) : ¬ w.Redeems text key := by
  rintro ⟨-, found, hget, hkey⟩
  exact hspent.gone _ found hget hkey

theorem Placed.redeemed {text : QString} (hplaced : Placed w key id issuedAt)
    (hredeems : w.Redeems text key) (h : step p w (.redeemHomeScreenKey text) = some v) :
    Spent v key where
  known := keys_step h hplaced.known
  gone := by
    obtain ⟨hsome, found, hfound, hkey⟩ := hredeems
    obtain ⟨-, -, hmanager, -, -⟩ := step_eq_some p h
    obtain ⟨-, -, -, -, -, -, htable⟩ := redeemHomeScreenKey_isSome hsome
    intro id' found' hget hkey'
    rw [hmanager, handle, htable] at hget
    obtain ⟨hne, hold⟩ := get_of_delete hget
    have hplace := (hplaced.place id' found' hold hkey').1
    have hplace' := (hplaced.place _ found hfound hkey).1
    exact hne (hplace.trans hplace'.symm)

theorem mintedKey_ne_nil (random : QByteArray) : mintedKey random ≠ [] := by
  have hmark : homeScreenKeyMark ≠ [] := by decide
  simp [mintedKey, hmark]

theorem mints_table (hdrawn : Drawn w) (hmints : w.Mints p token random)
    (h : step p w (.homeScreenKey token random) = some v) :
    v.manager.homeScreenKeys = w.manager.homeScreenKeys.set (p.hashToken token)
      { key := mintedKey random, issuedAt := w.now } := by
  obtain ⟨-, -, hmanager, -, -⟩ := step_eq_some p h
  rcases homeScreenKey_cases (p := p) w.manager w.now token random with
    ⟨answer, hsame, hanswer⟩ | hminted
  · unfold World.Mints at hmints
    rw [hsame] at hmints
    obtain rfl : answer = mintedKey random := hmints
    rcases hanswer with hnil | ⟨found, hfound, hkey⟩
    · exact absurd hnil (mintedKey_ne_nil random)
    · exact absurd (hkey ▸ hdrawn _ found hfound) (minted_fresh h).1
  · rw [hmanager, handle, hminted]

theorem Placed.minted (hdrawn : Drawn w)
    (hmints : w.Mints p token random) (h : step p w (.homeScreenKey token random) = some v) :
    Placed v (mintedKey random) (p.hashToken token) w.now where
  drawn := hdrawn.next h
  known := (minted_fresh h).2
  place := by
    intro id found hget hkey
    rw [mints_table hdrawn hmints h] at hget
    by_cases hid : id = p.hashToken token
    · rw [hid, JsMap.get_set_self] at hget
      obtain rfl := Option.some.inj hget
      exact ⟨hid, rfl⟩
    · rw [JsMap.get_set_of_ne _ _ hid] at hget
      exact absurd (hkey ▸ hdrawn id found hget) (minted_fresh h).1

/-- A newer key for the same session takes the place of this one. -/
theorem Placed.replaced
    (hplaced : Placed w key (p.hashToken token) issuedAt) (hmints : w.Mints p token random)
    (h : step p w (.homeScreenKey token random) = some v) : Spent v key where
  known := keys_step h hplaced.known
  gone := by
    intro id found hget hkey
    rw [mints_table hplaced.drawn hmints h] at hget
    by_cases hid : id = p.hashToken token
    · rw [hid, JsMap.get_set_self] at hget
      obtain rfl := Option.some.inj hget
      obtain rfl : mintedKey random = key := hkey
      exact (minted_fresh h).1 hplaced.known
    · rw [JsMap.get_set_of_ne _ _ hid] at hget
      exact hid (hplaced.place id found hget hkey).1

theorem dead_step (hinv : Inv p w) (h : step p w e = some v) (hused : id ∈ w.used)
    (hdead : ¬ w.Live id) : ¬ v.Live id := by
  rintro ⟨s', hget, halive⟩
  obtain ⟨hallowed, hnow, -, -, -⟩ := step_eq_some p h
  rcases (step_heirs hinv h).1 id s' hget with ⟨s, hs, hheir⟩ | hnew
  · have hbefore : s'.expired w.now = false := by
      by_contra hexpired
      have hlater := expired_mono (hnow ▸ clock_le w e) (by simpa using hexpired)
      rw [halive] at hlater
      cases hlater
    exact hdead ⟨s, hs, hheir.alive hbefore⟩
  · exact creates_fresh hallowed hnew hused

theorem mints_live (hmints : w.Mints p token random) :
    w.Live (p.hashToken token) := by
  unfold World.Mints homeScreenKey at hmints
  split_ifs at hmints with hvalid
  · exact absurd hmints.symm (mintedKey_ne_nil random)
  · have hsession : validateSession p w.manager w.now token = true := by
      by_contra hinvalid
      exact hvalid (Or.inl (by simpa using hinvalid))
    obtain ⟨-, s, hget, halive⟩ := validateSession_iff.mp hsession
    exact ⟨s, hget, halive⟩

theorem Live.known (hinv : Inv p w) (hlive : w.Live id) : id ∈ w.used := by
  obtain ⟨s, hget, -⟩ := hlive
  exact hinv.1.known id s hget

end

/-- What is known of the run from the minting of `key` at `issuedAt` for the session
`id` to a redemption of it in `v`: it was in time, the session was alive all along,
nothing redeemed the key before, and no newer one was minted for the session. -/
structure SpentOnce (p : Primitives) (key id : QString) (issuedAt : Int) (minted v : World)
    (labels : List Event) : Prop where
  inTime : v.now ≤ issuedAt + homeScreenKeyTtlSecs
  alive : AllAlong (moves (step p)) (fun x => x.Live id) minted labels
  once : EachStep (moves (step p))
    (fun x e _ => ∀ text, e = .redeemHomeScreenKey text → ¬ x.Redeems text key) minted labels
  newest : EachStep (moves (step p))
    (fun x e _ => ∀ token random, e = .homeScreenKey token random → p.hashToken token = id →
      ¬ x.Mints p token random) minted labels

/-- Every key minted in this state is spent as it should be, however the run goes on. -/
def KeysSpent (p : Primitives) (w : World) : Prop :=
  ∀ token random minted labels v text, step p w (.homeScreenKey token random) = some minted →
    w.Mints p token random → Run (moves (step p)) minted labels v →
    v.Redeems text (mintedKey random) →
    SpentOnce p (mintedKey random) (p.hashToken token) w.now minted v labels

section

variable {p : Primitives} {w v x y : World} {e : Event} {key id : QString} {issuedAt : Int}
variable {labels : List Event}

theorem Placed.run (hplaced : Placed w key id issuedAt) (hrun : Run (moves (step p)) w labels v) :
    Placed v key id issuedAt :=
  hrun.invariant (I := fun v => Placed v key id issuedAt) (fun _ _ _ h hstep => h.next hstep) hplaced

theorem Spent.run (hspent : Spent w key) (hrun : Run (moves (step p)) w labels v) : Spent v key :=
  hrun.invariant (I := fun v => Spent v key) (fun _ _ _ h hstep => h.next hstep) hspent

theorem dead_run (hinv : Inv p w) (hused : id ∈ w.used) (hdead : ¬ w.Live id)
    (hrun : Run (moves (step p)) w labels v) : ¬ v.Live id := by
  have hkept : Inv p v ∧ id ∈ v.used ∧ ¬ v.Live id := by
    refine hrun.invariant (I := fun v => Inv p v ∧ id ∈ v.used ∧ ¬ v.Live id) ?_
      ⟨hinv, hused, hdead⟩
    rintro x a y ⟨hx, hknown, hgone⟩ hstep
    exact ⟨hx.step hstep, used_step hstep hknown, dead_step hx hstep hknown hgone⟩
  exact hkept.2.2

theorem used_run (hused : id ∈ w.used) (hrun : Run (moves (step p)) w labels v) : id ∈ v.used :=
  hrun.invariant (fun _ _ _ h hstep => used_step hstep h) hused

variable {text : QString}

theorem Placed.redeems (hplaced : Placed v key id issuedAt) (hredeems : v.Redeems text key) :
    v.now ≤ issuedAt + homeScreenKeyTtlSecs ∧ v.Live id := by
  obtain ⟨hsome, found, hfound, hkey⟩ := hredeems
  obtain ⟨entry, session, hentry, htime, hsession, halive, -⟩ := redeemHomeScreenKey_isSome hsome
  rw [hfound] at hentry
  obtain rfl := Option.some.inj hentry
  obtain ⟨hid, hissued⟩ := hplaced.place _ found hfound hkey
  rw [hissued] at htime
  exact ⟨htime, session, hid ▸ hsession, halive⟩

theorem run_rest {visited rest : List Event} (hrun : Run (moves (step p)) w (visited ++ rest) v)
    (hvisited : Run (moves (step p)) w visited x) : Run (moves (step p)) x rest v := by
  obtain ⟨x', hvisited', hrest⟩ := hrun.split
  obtain rfl := run_moves_unique (step p) hvisited' hvisited
  exact hrest

/-- A step that spends the key leaves nothing to redeem. -/
theorem not_spent_before {visited rest : List Event}
    (hrun : Run (moves (step p)) w (visited ++ e :: rest) v) (hredeems : v.Redeems text key)
    (hvisited : Run (moves (step p)) w visited x) (hstep : step p x e = some y) :
    ¬ Spent y key := by
  intro hspent
  have hwhole : Run (moves (step p)) w ((visited ++ [e]) ++ rest) v := by
    rwa [List.append_assoc]
  have hrest := run_rest hwhole (hvisited.snoc hstep)
  exact (hspent.run hrest).not_redeems text hredeems

theorem spentOnce_of_redeems (hinv : Inv p w) (hplaced : Placed w key id issuedAt)
    (hused : id ∈ w.used) (hrun : Run (moves (step p)) w labels v)
    (hredeems : v.Redeems text key) : SpentOnce p key id issuedAt w v labels where
  inTime := ((hplaced.run hrun).redeems hredeems).1
  alive := by
    intro visited rest x hl hvisited
    subst hl
    by_contra hdead
    exact dead_run (hinv.run hvisited) (used_run hused hvisited) hdead (run_rest hrun hvisited)
      ((hplaced.run hrun).redeems hredeems).2
  once := by
    intro visited e rest x y hl hvisited hstep earlier he hearlier
    subst hl he
    exact not_spent_before hrun hredeems hvisited hstep
      ((hplaced.run hvisited).redeemed hearlier hstep)
  newest := by
    intro visited e rest x y hl hvisited hstep token random he htoken hmints
    subst hl he htoken
    exact not_spent_before hrun hredeems hvisited hstep
      ((hplaced.run hvisited).replaced hmints hstep)

theorem drawn_initial (now : Int) (remoteAdminEnabled : Bool) (adminPasswordDigest : QString) :
    Drawn (World.initial now remoteAdminEnabled adminPasswordDigest) := by
  intro id found hget
  cases hget

theorem keysSpent_of_inv (hinv : Inv p w) (hdrawn : Drawn w) : KeysSpent p w := by
  intro token random minted labels v text hstep hmints hrun hredeems
  have hused := used_step hstep (Live.known hinv (mints_live hmints))
  exact spentOnce_of_redeems (hinv.step hstep) (Placed.minted hdrawn hmints hstep) hused hrun
    hredeems

end

theorem homeScreenKeys_spent_along (p : Primitives) (now : Int) (remoteAdminEnabled : Bool)
    (adminPasswordDigest : QString) (labels : List Event) :
    AllAlong (moves (step p)) (KeysSpent p)
      (World.initial now remoteAdminEnabled adminPasswordDigest) labels := by
  intro visited rest w _ hrun
  have hdrawn : Drawn w :=
    hrun.invariant (I := Drawn) (fun _ _ _ h hstep => h.next hstep)
      (drawn_initial now remoteAdminEnabled adminPasswordDigest)
  exact keysSpent_of_inv ((inv_initial now remoteAdminEnabled adminPasswordDigest).run hrun) hdrawn

end MoonlightWeb.Server.AuthManager
