import MoonlightWeb.Frontend.PairingCrypto
import MoonlightWeb.Lib.Run

/-! # Trust on first use, over several tabs

The two pages keep their records in one database. A get and a put are
transactions of their own, and whatever a call awaits between them, any other
call of any tab may run.
-/

namespace MoonlightWeb.Frontend.TrustOnFirstUse

open Js Lib
open Bootstrap.Pairing (Record Identity Offer)
open Function Bootstrap.Pairing

/-- Where a call waits. An identity is named by the call that loaded it. -/
inductive Phase (Call : Type)
  /-- `loadIdentity` found no record and creates a key pair. -/
  | generating (recordId : JsString) (hostId : Option JsString)
  /-- `verifyOffer` waits for the signature. -/
  | checking (identity : Call) (message : Offer) (firstContact : Bool) (fingerprint : JsString)
  /-- `verifyHostSignature` waits for the signature. -/
  | checkingHost (identity : Call) (message : Offer) (hostKey fingerprint : JsString)
  /-- `verifyOffer` is about to call `rememberHostKey`. -/
  | pinning (identity : Call) (recordId hostKey : JsString)
  | writing (recordId : JsString) (record : Record) (hostKey : JsString)
      (identity : Option Call)

structure State (Call : Type) where
  store : JsString → Option Record
  identities : Call → Option Identity
  phases : Call → Option (Phase Call)

inductive Event (Call : Type)
  /-- The get of the bootstrap page's `loadIdentity`. -/
  | loadIdentity (c : Call) (hostId : JsString)
  /-- The get of the application's `loadOrCreateIdentity`. -/
  | loadOrCreateIdentity (c : Call) (forHost : JsString)
  /-- The put of either, with the key pair created. -/
  | generated (c : Call) (keyId : JsString)
  /-- `helloMessage` or `beginHandshake` draws a nonce. -/
  | nonce (identity : Call) (nonceB : List UInt8)
  | verifyOffer (c identity : Call) (message : Offer)
  | verifyHostSignature (c identity : Call) (message : Offer)
  | checked (c : Call)
  /-- The get of `rememberHostKey`. -/
  | rememberHostKey (c : Call)
  /-- The get of `rememberHostIdentity`. -/
  | rememberHostIdentity (c : Call) (forHost hostPublicKey hostId : JsString)
  /-- The put of either. -/
  | remembered (c : Call)
  /-- `forgetHost` or `clearIdentity`. -/
  | forget (recordId : JsString)

section

variable {Call : Type} [DecidableEq Call]

def State.wait (s : State Call) (c : Call) (phase : Option (Phase Call)) : State Call :=
  { s with phases := update s.phases c phase }

def loaded (recordId : JsString) (hostId : Option JsString) (record : Record) : Identity :=
  ⟨recordId, hostId, record.keyId, record.hostPublicKey, none⟩

variable (verify : JsString → JsString → List UInt8 → Bool)

def verified (hostKey sig : JsString) (digest : Option (List UInt8)) : Bool :=
  digest.any (verify hostKey sig)

def move (s : State Call) : Event Call → Option (State Call)
  | .loadIdentity c hostId =>
      if s.phases c = none ∧ s.identities c = none then
        let recordId := recordId hostId
        match s.store recordId with
        | none => some (s.wait c (some (.generating recordId (some hostId))))
        | some record =>
            some { s with
              identities := update s.identities c
                (some (loaded recordId (some hostId) record)) }
      else none
  | .loadOrCreateIdentity c forHost =>
      if s.phases c = none ∧ s.identities c = none then
        let recordId := PairingCrypto.recordId forHost
        match s.store recordId with
        | none => some (s.wait c (some (.generating recordId none)))
        | some record =>
            some { s with
              identities := update s.identities c
                (some (loaded recordId record.hostId record)) }
      else none
  | .generated c keyId =>
      match s.phases c with
      | some (.generating recordId hostId) =>
          let record : Record := ⟨keyId, none, none⟩
          some {
            store := update s.store recordId (some record)
            identities := update s.identities c (some (loaded recordId hostId record))
            phases := update s.phases c none }
      | _ => none
  | .nonce i nonceB =>
      match s.identities i with
      | none => none
      | some identity =>
          some { s with
            identities := update s.identities i
              (some { identity with nonceB := some nonceB }) }
  | .verifyOffer c i message =>
      match s.phases c, s.identities i with
      | none, some identity =>
          match offerChecks identity message with
          | .error _ => some s
          | .ok (firstContact, fingerprint) =>
              some (s.wait c (some (.checking i message firstContact fingerprint)))
      | _, _ => none
  | .verifyHostSignature c i message =>
      match s.phases c, s.identities i with
      | none, some identity =>
          match PairingCrypto.hostSignatureChecks identity message with
          | none => some s
          | some (hostKey, fingerprint) =>
              some (s.wait c (some (.checkingHost i message hostKey fingerprint)))
      | _, _ => none
  | .checked c =>
      match s.phases c with
      | some (.checking i message firstContact fingerprint) =>
          match s.identities i with
          | none => none
          | some identity =>
              if verified verify message.hostKey message.sig
                  (offerDigest identity fingerprint) then
                if firstContact then
                  some (s.wait c (some (.pinning i identity.recordId message.hostKey)))
                else
                  some { s with
                    identities := update s.identities i
                      (some { identity with hostPublicKey := some message.hostKey })
                    phases := update s.phases c none }
              else some (s.wait c none)
      | some (.checkingHost _ _ _ _) => some (s.wait c none)
      | _ => none
  | .rememberHostKey c =>
      match s.phases c with
      | some (.pinning i recordId hostKey) =>
          match rememberHostKey (s.store recordId) hostKey with
          | none => some (s.wait c none)
          | some record => some (s.wait c (some (.writing recordId record hostKey (some i))))
      | _ => none
  | .rememberHostIdentity c forHost hostPublicKey hostId =>
      if s.phases c = none then
        let recordId := PairingCrypto.recordId forHost
        match PairingCrypto.rememberHostIdentity (s.store recordId) hostPublicKey hostId with
        | none => some s
        | some record => some (s.wait c (some (.writing recordId record hostPublicKey none)))
      else none
  | .remembered c =>
      match s.phases c with
      | some (.writing recordId record hostKey i) =>
          some {
            store := update s.store recordId
              (some { record with hostPublicKey := some hostKey })
            identities :=
              match i with
              | none => s.identities
              | some i =>
                  update s.identities i ((s.identities i).map fun identity =>
                    { identity with hostPublicKey := some hostKey })
            phases := update s.phases c none }
      | _ => none
  | .forget recordId => some { s with store := update s.store recordId none }

def State.hostKey (s : State Call) (recordId : JsString) : Option JsString :=
  (s.store recordId).bind Record.hostPublicKey

/-- The record and host key a check accepts on the word of the identity in memory. -/
def accepts (s : State Call) (c : Call) : Option (JsString × JsString) :=
  match s.phases c with
  | some (.checking i message firstContact fingerprint) =>
      match s.identities i with
      | none => none
      | some identity =>
          if verified verify message.hostKey message.sig
              (offerDigest identity fingerprint) ∧ ¬ firstContact then
            some (identity.recordId, message.hostKey)
          else none
  | some (.checkingHost i message hostKey fingerprint) =>
      match s.identities i with
      | none => none
      | some identity =>
          if verified verify hostKey message.sig
              (PairingCrypto.hostSignatureDigest identity message fingerprint) then
            some (identity.recordId, hostKey)
          else none
  | _ => none

/-- The record and host key a put remembers. -/
def remembers (s : State Call) (c : Call) : Option (JsString × JsString) :=
  match s.phases c with
  | some (.writing recordId _ hostKey _) => some (recordId, hostKey)
  | _ => none

/-- The record a put creates without a host key. -/
def creates (s : State Call) (c : Call) : Option JsString :=
  match s.phases c with
  | some (.generating recordId _) => some recordId
  | _ => none

/-- The record and host key an event accepts or remembers. -/
def takes (s : State Call) : Event Call → Option (JsString × JsString)
  | .checked c => accepts verify s c
  | .remembered c => remembers s c
  | _ => none

/-- A state together with the host key first accepted or remembered for each
record since it was last forgotten. -/
structure Watched (Call : Type) where
  state : State Call
  trusted : JsString → Option JsString

def trust (w : Watched Call) (e : Event Call) : JsString → Option JsString :=
  match e with
  | .forget recordId => update w.trusted recordId none
  | e =>
      match takes verify w.state e with
      | none => w.trusted
      | some (recordId, hostKey) =>
          update w.trusted recordId (some ((w.trusted recordId).getD hostKey))

def watch (w : Watched Call) (e : Event Call) : Option (Watched Call) :=
  (move verify w.state e).map fun state => ⟨state, trust verify w e⟩

def fresh : Watched Call := ⟨⟨fun _ => none, fun _ => none, fun _ => none⟩, fun _ => none⟩

/-- The store holds every trusted key. -/
def Held (w : Watched Call) : Prop :=
  ∀ recordId hostKey, w.trusted recordId = some hostKey → w.state.hostKey recordId = some hostKey

/-- The store holds every trusted key after the step, and a key the step accepts
or remembers is the trusted one. -/
def Faithful (w : Watched Call) (e : Event Call) (w' : Watched Call) : Prop :=
  Held w' ∧ ∀ recordId hostKey, takes verify w.state e = some (recordId, hostKey) →
    w'.trusted recordId = some hostKey

/-- Nobody stored a host key while an identity was created, nobody another one
while a host key was remembered, and a key accepted from memory is still stored. -/
def Undisturbed (w : Watched Call) : Event Call → Prop
  | .generated c _ =>
      ∀ recordId, creates w.state c = some recordId → w.state.hostKey recordId = none
  | .remembered c =>
      ∀ recordId hostKey, remembers w.state c = some (recordId, hostKey) →
        w.state.hostKey recordId = none ∨ w.state.hostKey recordId = some hostKey
  | .checked c =>
      ∀ recordId hostKey, accepts verify w.state c = some (recordId, hostKey) →
        w.state.hostKey recordId = some hostKey
  | _ => True

/-- A step that neither puts nor takes leaves the host keys and the trust alone. -/
inductive Effect (w : Watched Call) (e : Event Call) (w' : Watched Call) : Prop
  /-- The store and what is trusted stay. -/
  | none (hquiet : Undisturbed verify w e) (htakes : takes verify w.state e = Option.none)
      (hkeys : w'.state.hostKey = w.state.hostKey) (htrust : w'.trusted = w.trusted)
  /-- A record is created without a host key. -/
  | created (recordId : JsString)
      (hcond : Undisturbed verify w e ↔ w.state.hostKey recordId = Option.none)
      (htakes : takes verify w.state e = Option.none)
      (hkeys : w'.state.hostKey = update w.state.hostKey recordId Option.none)
      (htrust : w'.trusted = w.trusted)
  | written (recordId hostKey : JsString)
      (hcond : Undisturbed verify w e ↔
        w.state.hostKey recordId = Option.none ∨ w.state.hostKey recordId = some hostKey)
      (htakes : takes verify w.state e = some (recordId, hostKey))
      (hkeys : w'.state.hostKey = update w.state.hostKey recordId (some hostKey))
      (htrust : w'.trusted =
        update w.trusted recordId (some ((w.trusted recordId).getD hostKey)))
  /-- A key is accepted on the word of the identity in memory. -/
  | accepted (recordId hostKey : JsString)
      (hcond : Undisturbed verify w e ↔ w.state.hostKey recordId = some hostKey)
      (htakes : takes verify w.state e = some (recordId, hostKey))
      (hkeys : w'.state.hostKey = w.state.hostKey)
      (htrust : w'.trusted =
        update w.trusted recordId (some ((w.trusted recordId).getD hostKey)))
  | forgotten (recordId : JsString) (hquiet : Undisturbed verify w e)
      (htakes : takes verify w.state e = Option.none)
      (hkeys : w'.state.hostKey = update w.state.hostKey recordId Option.none)
      (htrust : w'.trusted = update w.trusted recordId Option.none)

omit [DecidableEq Call] in
theorem hostKey_update (s : State Call) (recordId : JsString) (record : Option Record)
    (identities : Call → Option Identity) (phases : Call → Option (Phase Call)) :
    State.hostKey ⟨update s.store recordId record, identities, phases⟩ =
      update s.hostKey recordId (record.bind Record.hostPublicKey) := by
  funext other
  by_cases hother : other = recordId
  · subst hother
    simp [State.hostKey]
  · simp [State.hostKey, hother]

variable {w w' : Watched Call} {e : Event Call}

theorem watch_spec (h : watch verify w e = some w') :
    ∃ s', move verify w.state e = some s' ∧ w' = ⟨s', trust verify w e⟩ := by
  obtain ⟨s', hmove, rfl⟩ := Option.map_eq_some_iff.mp h
  exact ⟨s', hmove, rfl⟩

omit [DecidableEq Call] in
/-- A step outside `generated`, `checked`, `remembered` and `forget` leaves the
store as it was. -/
theorem effect_of_store {w : Watched Call} {s' : State Call}
    (hquiet : Undisturbed verify w e) (htakes : takes verify w.state e = none)
    (htrust : trust verify w e = w.trusted) (hstore : s'.store = w.state.store) :
    Effect verify w e ⟨s', trust verify w e⟩ := by
  refine Effect.none hquiet htakes ?_ htrust
  funext recordId
  simp only [State.hostKey, hstore]

theorem watch_effect (h : watch verify w e = some w') :
    Effect verify w e w' := by
  obtain ⟨s', hmove, rfl⟩ := watch_spec verify h
  cases e with
  | loadIdentity c hostId =>
    refine effect_of_store (e := .loadIdentity c hostId) verify trivial rfl rfl ?_
    simp only [move] at hmove
    split at hmove
    · split at hmove <;> cases hmove <;> rfl
    · cases hmove
  | loadOrCreateIdentity c forHost =>
    refine effect_of_store (e := .loadOrCreateIdentity c forHost) verify trivial rfl rfl ?_
    simp only [move] at hmove
    split at hmove
    · split at hmove <;> cases hmove <;> rfl
    · cases hmove
  | nonce i nonceB =>
    refine effect_of_store (e := .nonce i nonceB) verify trivial rfl rfl ?_
    simp only [move] at hmove
    split at hmove <;> cases hmove
    rfl
  | verifyOffer c i message =>
    refine effect_of_store (e := .verifyOffer c i message) verify trivial rfl rfl ?_
    simp only [move] at hmove
    split at hmove
    · split at hmove <;> cases hmove <;> rfl
    · cases hmove
  | verifyHostSignature c i message =>
    refine effect_of_store (e := .verifyHostSignature c i message) verify trivial rfl rfl ?_
    simp only [move] at hmove
    split at hmove
    · split at hmove <;> cases hmove <;> rfl
    · cases hmove
  | rememberHostKey c =>
    refine effect_of_store (e := .rememberHostKey c) verify trivial rfl rfl ?_
    simp only [move] at hmove
    split at hmove
    · split at hmove <;> cases hmove <;> rfl
    · cases hmove
  | rememberHostIdentity c forHost hostPublicKey hostId =>
    refine effect_of_store (e := .rememberHostIdentity c forHost hostPublicKey hostId) verify trivial rfl rfl ?_
    simp only [move] at hmove
    split at hmove
    · split at hmove <;> cases hmove <;> rfl
    · cases hmove
  | forget recordId =>
    simp only [move, Option.some.injEq] at hmove
    subst hmove
    exact Effect.forgotten recordId trivial rfl (hostKey_update _ _ none _ _) rfl
  | generated c keyId =>
    simp only [move] at hmove
    split at hmove
    · rename_i recordId hostId hphase
      cases hmove
      refine Effect.created recordId ?_ rfl (hostKey_update _ _ _ _ _) rfl
      simp [Undisturbed, creates, hphase]
    · cases hmove
  | remembered c =>
    simp only [move] at hmove
    split at hmove
    · rename_i recordId record hostKey i hphase
      cases hmove
      have hremembers : remembers w.state c = some (recordId, hostKey) := by
        simp [remembers, hphase]
      refine Effect.written recordId hostKey ?_ hremembers (hostKey_update _ _ _ _ _) ?_
      · simp [Undisturbed, hremembers]
      · simp [trust, takes, hremembers]
    · cases hmove
  | checked c =>
    have hstore : s'.store = w.state.store := by
      simp only [move] at hmove
      split at hmove
      · split at hmove
        · cases hmove
        · split at hmove
          · split at hmove <;> cases hmove <;> rfl
          · cases hmove
            rfl
      · cases hmove
        rfl
      · cases hmove
    cases haccepts : accepts verify w.state c with
    | none =>
      refine effect_of_store (e := .checked c) verify ?_ haccepts ?_ hstore
      · simp [Undisturbed, haccepts]
      · simp [trust, takes, haccepts]
    | some accepted =>
      obtain ⟨recordId, hostKey⟩ := accepted
      refine Effect.accepted recordId hostKey ?_ haccepts ?_ ?_
      · simp [Undisturbed, haccepts]
      · funext other
        simp only [State.hostKey, hstore]
      · simp [trust, takes, haccepts]

/-- A key the store holds is trusted, or another one is. -/
def Known (w : Watched Call) : Prop :=
  ∀ recordId, w.trusted recordId = none → w.state.hostKey recordId = none

theorem watch_known (hknown : Known w) (h : watch verify w e = some w') : Known w' := by
  intro recordId hnone
  cases watch_effect verify h with
  | none _ _ hkeys htrust =>
    rw [hkeys]
    exact hknown recordId (htrust ▸ hnone)
  | created other _ _ hkeys htrust =>
    rw [hkeys]
    by_cases hother : recordId = other
    · subst hother
      exact update_self _ _ _
    · rw [update_of_ne hother]
      exact hknown recordId (htrust ▸ hnone)
  | written other hostKey _ _ hkeys htrust =>
    rw [hkeys]
    by_cases hother : recordId = other
    · subst hother
      rw [htrust, update_self] at hnone
      cases hnone
    · rw [update_of_ne hother]
      rw [htrust, update_of_ne hother] at hnone
      exact hknown recordId hnone
  | accepted other hostKey _ _ hkeys htrust =>
    rw [hkeys]
    by_cases hother : recordId = other
    · subst hother
      rw [htrust, update_self] at hnone
      cases hnone
    · rw [htrust, update_of_ne hother] at hnone
      exact hknown recordId hnone
  | forgotten other _ _ hkeys htrust =>
    rw [hkeys]
    by_cases hother : recordId = other
    · subst hother
      exact update_self _ _ _
    · rw [update_of_ne hother]
      rw [htrust, update_of_ne hother] at hnone
      exact hknown recordId hnone

omit [DecidableEq Call] in
theorem trusted_eq {w : Watched Call} (hknown : Known w) (hheld : Held w) (recordId : JsString) :
    w.trusted recordId = w.state.hostKey recordId := by
  cases htrusted : w.trusted recordId with
  | none => exact (hknown recordId htrusted).symm
  | some hostKey => exact (hheld recordId hostKey htrusted).symm

omit [DecidableEq Call] in
theorem held_update {recordId : JsString} {stored trusted : Option JsString}
    (hheld : Held w) (hkeys : w'.state.hostKey = update w.state.hostKey recordId stored)
    (htrust : w'.trusted = update w.trusted recordId trusted) :
    Held w' ↔ ∀ hostKey, trusted = some hostKey → stored = some hostKey := by
  constructor
  · intro hheld' hostKey hsome
    have hkey := hheld' recordId hostKey
    rw [htrust, hkeys, update_self, update_self] at hkey
    exact hkey hsome
  · intro hupdate other hostKey hsome
    rw [hkeys]
    rw [htrust] at hsome
    by_cases hother : other = recordId
    · subst hother
      rw [update_self] at hsome ⊢
      exact hupdate hostKey hsome
    · rw [update_of_ne hother] at hsome ⊢
      exact hheld other hostKey hsome

theorem faithful_iff (hknown : Known w) (hheld : Held w)
    (h : watch verify w e = some w') : Faithful verify w e w' ↔ Undisturbed verify w e := by
  have hsame := trusted_eq hknown hheld
  cases watch_effect verify h with
  | none hquiet htakes hkeys htrust =>
    refine iff_of_true ⟨?_, by simp [htakes]⟩ hquiet
    intro recordId hostKey hsome
    rw [hkeys]
    exact hheld recordId hostKey (htrust ▸ hsome)
  | created recordId hcond htakes hkeys htrust =>
    have htrust' : w'.trusted = update w.trusted recordId (w.trusted recordId) := by
      rw [htrust, update_eq_self]
    rw [hcond, Faithful, held_update hheld hkeys htrust', hsame]
    simp only [htakes, reduceCtorEq, false_implies, implies_true, and_true, imp_false]
    exact Option.eq_none_iff_forall_ne_some.symm
  | written recordId hostKey hcond htakes hkeys htrust =>
    have htaken : w'.trusted recordId = some ((w.trusted recordId).getD hostKey) := by
      rw [htrust, update_self]
    rw [hcond, Faithful, held_update hheld hkeys htrust]
    simp only [htakes, Option.some.injEq, Prod.mk.injEq, and_imp, forall_eq', forall_apply_eq_imp_iff]
    rw [htaken, hsame]
    cases w.state.hostKey recordId with
    | none => simp
    | some key => simp [eq_comm]
  | accepted recordId hostKey hcond htakes hkeys htrust =>
    have htaken : w'.trusted recordId = some ((w.trusted recordId).getD hostKey) := by
      rw [htrust, update_self]
    have hkeys' : w'.state.hostKey =
        update w.state.hostKey recordId (w.state.hostKey recordId) := by
      rw [hkeys, update_eq_self]
    rw [hcond, Faithful, held_update hheld hkeys' htrust]
    simp only [htakes, Option.some.injEq, Prod.mk.injEq, and_imp, forall_eq', forall_apply_eq_imp_iff]
    rw [htaken, hsame]
    cases w.state.hostKey recordId with
    | none => simp
    | some key => simp
  | forgotten recordId hquiet htakes hkeys htrust =>
    refine iff_of_true ⟨?_, by simp [htakes]⟩ hquiet
    rw [held_update hheld hkeys htrust]
    simp

end

open Qt in
def signedOffer (hostKey : JsString) : Offer :=
  ⟨qs "sig", qs "nonce", hostKey, qs "host",
    qs "a=fingerprint:sha-256 " ++ (List.replicate 31 (qs "0A:")).flatten ++ qs "0A"⟩

open Qt in
/-- Two tabs find no record; the first finishes its first contact before the
second has stored the key pair it is still creating. -/
def twoContacts : List (Event Nat) :=
  [.loadIdentity 1 (qs "host"), .loadIdentity 2 (qs "host"), .generated 1 (qs "k1"),
    .nonce 1 [7], .verifyOffer 3 1 (signedOffer (qs "K")), .checked 3, .rememberHostKey 3,
    .remembered 3, .generated 2 (qs "k2")]

theorem twoContacts_end :
    (runMoves (watch fun _ _ _ => true) fresh twoContacts).map
        (fun w => (w.trusted (recordId (Qt.qs "host")),
          w.state.hostKey (recordId (Qt.qs "host")))) =
      some (some (Qt.qs "K"), none) := by
  decide +kernel

end MoonlightWeb.Frontend.TrustOnFirstUse
