import MoonlightWeb.Server.ControlTunnel
import MoonlightWeb.Lib.Run
import MoonlightWeb.Common.SignedMessages

/-! # What a verified answer covers

An answer is taken when its signature verifies over the host nonce and the
fingerprint of the local offer as the peer holds them at that moment. Only
`handleAnswer` sets the flag; every other operation is `Quiet`: it verifies
nobody, hands the connections nothing and keeps what the exchange has recorded
consistent.
-/

namespace MoonlightWeb.Server.ControlTunnel

open Lib Qt Common.PairingCrypto Streaming
open SdpFingerprint Tunnel

/-- The event is an answer of the session whose signature verifies over the
nonce generated for this connection and the fingerprint of an offer that was
sent with it, neither of them empty. -/
def Covered (C : Crypto) (t : Tunnel) (event : Event) (id : QString) : Prop :=
  ∃ payload nonce usable p, event = .signal id payload nonce usable ∧ t.peers id = some p ∧
    p.binding.nonceHost ≠ [] ∧ p.binding.localFingerprint ≠ [] ∧
    (∃ offer ∈ p.binding.offers, extract offer.1 = p.binding.localFingerprint ∧
      offer.2 = p.binding.nonceHost) ∧
    C.verify p.binding.browserSpki
      (browserDigestInput t.settings.rendezvousId p.binding.nonceHost p.binding.localFingerprint
        (extract (answerSdp payload)))
      (answerSig payload) = true

variable (t : Tunnel)

def Verified (id : QString) : Prop :=
  ∃ p, t.peers id = some p ∧ p.binding.answerVerified = true

/-- In one step a session becomes verified, and its connection gets a remote
description, only by a covered answer; candidates go to verified sessions. -/
structure AnswersBound (C : Crypto) (t : Tunnel) (event : Event) (u : Tunnel) : Prop where
  flagged : ∀ id, Verified u id → Verified t id ∨ Covered C t event id
  described : ∀ id sdp, Call.setRemoteDescription id sdp ∈ u.calls → Covered C t event id
  candidates : ∀ id c m, Call.addRemoteCandidate id c m ∈ u.calls → Verified t id

/-- An answer for a session that was sent no offer yet, with a signature that
verifies over an empty nonce and an empty host fingerprint. -/
def EarlyAnswer (C : Crypto) (t : Tunnel) (event : Event) : Prop :=
  ∃ id payload nonce usable p, event = .signal id payload nonce usable ∧ t.peers id = some p ∧
    (payload.value "type").toString = qs "sdp" ∧
    p.binding.helloSeen = true ∧ p.binding.answerVerified = false ∧ p.pc = true ∧
    p.binding.offers = [] ∧
    extract (answerSdp payload) ≠ [] ∧ answerSig payload ≠ [] ∧
    C.verify p.binding.browserSpki
      (browserDigestInput t.settings.rendezvousId [] []
        (extract (answerSdp payload)))
      (answerSig payload) = true

/-- The fields of one exchange agree: an offer that waits waits for the hello,
nothing is recorded before something was sent, and what is recorded is of an
offer that was. -/
structure Sound (b : Binding) : Prop where
  waits : b.pendingOffer ≠ [] →
    b.helloSeen = false ∧ extract b.pendingOffer = b.localFingerprint ∧
      b.localFingerprint ≠ []
  unsent : b.offers = [] → b.pendingOffer = [] → b.nonceHost = [] ∧ b.localFingerprint = []
  early : b.helloSeen = false → b.offers = []
  sent : b.offers ≠ [] → b.nonceHost ≠ [] ∧ b.localFingerprint ≠ [] ∧
    ∃ offer ∈ b.offers, extract offer.1 = b.localFingerprint ∧
      offer.2 = b.nonceHost

def AllSound : Prop := ∀ id p, t.peers id = some p → Sound p.binding

theorem Sound.fresh : Sound {} := by
  constructor <;> simp

theorem extract_nil : extract [] = [] := rfl

/-- From `t` to `u` nobody becomes verified and no description or candidate is
handed over; the records stay sound. -/
structure Quiet (t u : Tunnel) : Prop where
  sound : AllSound t → AllSound u
  verified : ∀ id, Verified u id → Verified t id
  described : ∀ id sdp, Call.setRemoteDescription id sdp ∈ u.calls →
    Call.setRemoteDescription id sdp ∈ t.calls
  candidates : ∀ id c m, Call.addRemoteCandidate id c m ∈ u.calls →
    Call.addRemoteCandidate id c m ∈ t.calls

open Quiet

namespace Quiet

variable {t u : Tunnel}

/-- Ports, queue, claims and settings are out of sight. -/
theorem of_eq (hpeers : u.peers = t.peers) (hcalls : u.calls = t.calls) : Quiet t u where
  sound h id p hp := h id p (by rw [← hpeers, hp])
  verified id h := by
    obtain ⟨p, hp, hv⟩ := h
    exact ⟨p, by rw [← hpeers, hp], hv⟩
  described id sdp h := by rwa [← hcalls]
  candidates id c m h := by rwa [← hcalls]

theorem refl (t : Tunnel) : Quiet t t := of_eq rfl rfl

theorem trans {v : Tunnel} (h : Quiet t u) (h' : Quiet u v) : Quiet t v where
  sound hs := h'.sound (h.sound hs)
  verified id hv := h.verified id (h'.verified id hv)
  described id sdp hc := h.described id sdp (h'.described id sdp hc)
  candidates id c m hc := h.candidates id c m (h'.candidates id c m hc)

theorem closeSession (t : Tunnel) (id : QString) : Quiet t (t.call (.closeSession id)) where
  sound h := h
  verified _ h := h
  described _ _ h := by simpa [call] using h
  candidates _ _ _ h := by simpa [call] using h

theorem sendSignal (t : Tunnel) (id : QString) (payload : QJsonObject) :
    Quiet t (t.call (.sendSignal id payload)) where
  sound h := h
  verified _ h := h
  described _ _ h := by simpa [call] using h
  candidates _ _ _ h := by simpa [call] using h

theorem forget (t : Tunnel) (id : QString) (waiting : List QString) :
    Quiet t { t with
        peers := Function.update t.peers id none
        waitingPeers := waiting } where
  sound h id' p hp := by
    by_cases heq : id' = id
    · simp [heq] at hp
    · exact h id' p (by simpa [Function.update_of_ne heq] using hp)
  verified id' h := by
    obtain ⟨p, hp, hv⟩ := h
    by_cases heq : id' = id
    · simp [heq] at hp
    · exact ⟨p, by simpa [Function.update_of_ne heq] using hp, hv⟩
  described _ _ h := h
  candidates _ _ _ h := h

theorem store {id : QString} {p : Peer} (hsound : AllSound t → Sound p.binding)
    (hverified : p.binding.answerVerified = true → Verified t id) : Quiet t (t.setPeer id p) where
  sound h id' p' hp' := by
    by_cases heq : id' = id
    · subst heq
      have hsame : p' = p := by simpa using hp'.symm
      rw [hsame]
      exact hsound h
    · rw [t.setPeer_ne p heq] at hp'
      exact h id' p' hp'
  verified id' h := by
    obtain ⟨p', hp', hv⟩ := h
    by_cases heq : id' = id
    · subst heq
      have hsame : p' = p := by simpa using hp'.symm
      exact hverified (by rw [← hsame, hv])
    · rw [t.setPeer_ne p heq] at hp'
      exact ⟨p', hp', hv⟩
  described _ _ h := h
  candidates _ _ _ h := h

end Quiet

/-- A record as the table holds it for the session, or a new one. -/
def Known (id : QString) (b : Binding) : Prop :=
  b = {} ∨ ∃ old, t.peers id = some old ∧ b = old.binding

section

variable {t : Tunnel} {id : QString} {p : Peer} {binds : Binds}

theorem Known.store (h : Known t id p.binding) : Quiet t (t.setPeer id p) := by
  rcases h with hnew | ⟨old, hold, heq⟩
  · apply Quiet.store
    · intro _
      rw [hnew]
      exact Sound.fresh
    · intro hv
      rw [hnew] at hv
      cases hv
  · apply Quiet.store
    · intro hs
      rw [heq]
      exact hs id old hold
    · intro hv
      exact ⟨old, hold, by rw [← heq, hv]⟩

theorem releaseTunnelPort_quiet (t : Tunnel) (q : UInt16) : Quiet t (releaseTunnelPort t q) :=
  of_eq (releaseTunnelPort_frame t q).1 (releaseTunnelPort_frame t q).2.2

theorem requestTunnelPort_quiet (t : Tunnel) : Quiet t (requestTunnelPort t) := by
  unfold requestTunnelPort
  split_ifs
  · exact refl t
  · exact refl t
  · exact of_eq rfl rfl

theorem dropPeer_quiet (t : Tunnel) (id : QString) : Quiet t (dropPeer t id) := by
  unfold dropPeer
  split
  · exact refl t
  · exact (forget t id _).trans (releaseTunnelPort_quiet _ _)

theorem endSession_quiet (t : Tunnel) (id : QString) : Quiet t (endSession t id) :=
  (closeSession t id).trans (dropPeer_quiet _ id)

theorem createEphemeral_quiet (h : Known t id p.binding) :
    Quiet t (createEphemeral binds t id p) := by
  have hstored : ∀ pc, Quiet t (t.setPeer id { p with pc := pc }) := fun pc =>
    Known.store (p := { p with pc := pc }) h
  unfold createEphemeral
  split_ifs
  · exact hstored true
  · exact (hstored false).trans (endSession_quiet _ id)

theorem createPeerConnection_quiet (h : Known t id p.binding) :
    Quiet t (createPeerConnection binds t id p) := by
  have hreleased : Known (releaseTunnelPort t p.port) id p.binding := by
    unfold Known
    rw [(releaseTunnelPort_frame t p.port).1]
    exact h
  unfold createPeerConnection
  split_ifs
  · exact createEphemeral_quiet h
  · exact Known.store (p := { p with pc := true }) h
  · exact (releaseTunnelPort_quiet t p.port).trans
      (createEphemeral_quiet (p := { p with port := 0 }) hreleased)

theorem startPeer_quiet (hp : t.peers id = some p) : Quiet t (startPeer binds t id p) := by
  have hknown : Known t id p.binding := Or.inr ⟨p, hp, rfl⟩
  have hunqueued : Quiet t
      { t.setPeer id { p with awaitingPort := false } with
        waitingPeers := t.waitingPeers.filter (· ≠ id) } :=
    (Known.store (p := { p with awaitingPort := false }) hknown).trans (of_eq rfl rfl)
  unfold startPeer
  by_cases hport : p.port = 0
  · simp only [if_pos hport]
    obtain ⟨hpeers, _, hcalls⟩ := takeTunnelPort_frame
      { t.setPeer id { p with awaitingPort := false } with
        waitingPeers := t.waitingPeers.filter (· ≠ id) }
    apply (hunqueued.trans (of_eq hpeers hcalls)).trans
    apply createPeerConnection_quiet
    right
    refine ⟨{ p with awaitingPort := false }, ?_, rfl⟩
    rw [hpeers]
    simp
  · simp only [if_neg hport]
    apply hunqueued.trans
    apply createPeerConnection_quiet
    right
    exact ⟨{ p with awaitingPort := false }, by simp, rfl⟩

theorem startWaiting_quiet (binds : Binds) (t : Tunnel) (id : QString) :
    Quiet t (startWaiting binds t id) := by
  unfold startWaiting
  cases hp : t.peers id with
  | none => exact refl t
  | some p =>
    simp only
    split_ifs
    · exact startPeer_quiet hp
    · exact refl t

theorem giveUpWaiting_quiet (binds : Binds) (t : Tunnel) : Quiet t (giveUpWaiting binds t) := by
  have hall : ∀ (ids : List QString) (t : Tunnel), Quiet t (ids.foldl (startWaiting binds) t) := by
    intro ids
    induction ids with
    | nil => exact fun t => refl t
    | cons id ids ih => exact fun t => (startWaiting_quiet binds t id).trans (ih _)
  have hcleared : Quiet t { t with waitingPeers := [] } := of_eq rfl rfl
  exact hcleared.trans (hall t.waitingPeers _)

theorem serveWaitingPeersFor_quiet (binds : Binds) (fuel : Nat) (t : Tunnel) :
    Quiet t (serveWaitingPeersFor binds fuel t) := by
  induction fuel generalizing t with
  | zero => exact refl t
  | succ fuel ih =>
    unfold serveWaitingPeersFor
    split
    · rename_i id rest _ _ _ _
      have hmoved : Quiet t { t with waitingPeers := rest } := of_eq rfl rfl
      exact (hmoved.trans (startWaiting_quiet binds _ id)).trans (ih _)
    · exact refl t

theorem claimGranted_quiet (binds : Binds) (t : Tunnel) (port : UInt16) :
    Quiet t (claimGranted binds t port) := by
  have htail : ∀ s : Tunnel, Quiet s
      (if s.waitingPeers = [] then s
      else if (requestTunnelPort s).inFlight = 0 then giveUpWaiting binds (requestTunnelPort s)
      else requestTunnelPort s) := by
    intro s
    have hasked := requestTunnelPort_quiet s
    split_ifs
    · exact refl s
    · exact hasked.trans (giveUpWaiting_quiet binds _)
    · exact hasked
  have hbooked : Quiet t
      { t with
        held := t.held ++ [port]
        inFlight := t.inFlight - 1
        freePorts := t.freePorts ++ [port] } := of_eq rfl rfl
  exact (hbooked.trans (serveWaitingPeersFor_quiet binds _ _)).trans (htail _)

theorem onPortLost_quiet (t : Tunnel) (port : UInt16) : Quiet t (onPortLost t port) := by
  have hdropped : Quiet t
      { t with
        held := t.held.filter (· ≠ port)
        freePorts := t.freePorts.filter (· ≠ port) } := of_eq rfl rfl
  unfold onPortLost
  simp only
  split_ifs
  · exact hdropped.trans (requestTunnelPort_quiet _)
  · exact hdropped

theorem onSessionOpened_quiet (binds : Binds) (enabled : Bool) (gateway : GatewayState)
    (t : Tunnel) (id : QString) : Quiet t (onSessionOpened binds enabled gateway t id) := by
  unfold onSessionOpened
  split
  · exact refl t
  · obtain ⟨hpeers, _, hcalls⟩ := takeTunnelPort_frame t
    have htaken : Quiet t (takeTunnelPort t).2 := of_eq hpeers hcalls
    have hcreated : Quiet t
        (createPeerConnection binds (takeTunnelPort t).2 id { port := (takeTunnelPort t).1 }) :=
      htaken.trans (createPeerConnection_quiet (Or.inl rfl))
    have hstored : Quiet (takeTunnelPort t).2
        ((takeTunnelPort t).2.setPeer id
          { port := (takeTunnelPort t).1, awaitingPort := true }) :=
      Known.store (Or.inl rfl)
    have hqueued : Quiet t
        { (takeTunnelPort t).2.setPeer id
            { port := (takeTunnelPort t).1, awaitingPort := true } with
          waitingPeers := (takeTunnelPort t).2.waitingPeers ++ [id] } :=
      htaken.trans (hstored.trans (of_eq rfl rfl))
    simp only
    split_ifs
    · exact hcreated
    · exact hcreated
    · exact hqueued.trans (requestTunnelPort_quiet _)

end

/-- A record `sendSignedOffer` may be called on: sound unless its offer can go out. -/
structure Sendable (b : Binding) : Prop where
  kept : b.pendingOffer = [] ∨ b.helloSeen = false → Sound b
  offered : b.pendingOffer ≠ [] →
    extract b.pendingOffer = b.localFingerprint ∧ b.localFingerprint ≠ []

variable {b : Binding}

theorem Sound.describe (h : Sound b) {text : QString} (htext : extract text ≠ []) :
    Sendable { b with
      pendingOffer := text
      localFingerprint := extract text } where
  kept := by
    have hne : text ≠ [] := by
      intro heq
      rw [heq, extract_nil] at htext
      exact htext rfl
    intro hor
    have hearly : b.helloSeen = false := hor.resolve_left hne
    exact {
      waits := fun _ => ⟨hearly, rfl, htext⟩
      unsent := fun _ hempty => absurd hempty hne
      early := h.early
      sent := fun hsent => absurd (h.early hearly) hsent }
  offered _ := ⟨rfl, htext⟩

theorem Sound.greet (h : Sound b) (hearly : b.helloSeen = false)
    (spki : QByteArray) (key : QString) (nonce : QByteArray) :
    Sendable { b with
      helloSeen := true
      browserSpki := spki
      browserKeyId := key
      nonceBrowser := nonce } where
  kept hor :=
    { waits := fun hne => absurd (hor.resolve_right (by simp)) hne
      unsent := h.unsent
      early := fun hfalse => absurd hfalse (by simp)
      sent := fun hsent => absurd (h.early hearly) hsent }
  offered hne := (h.waits hne).2

theorem Sendable.sent (h : Sendable b) (hseen : b.helloSeen ≠ false)
    (hpending : b.pendingOffer ≠ []) {nonce : QByteArray} (hnonce : nonce ≠ []) :
    Sound { b with
      nonceHost := nonce
      pendingOffer := []
      offers := b.offers ++ [(b.pendingOffer, nonce)] } where
  waits hne := absurd rfl hne
  unsent hempty := by simp at hempty
  early hfalse := absurd hfalse hseen
  sent _ := ⟨hnonce, (h.offered hpending).2, (b.pendingOffer, nonce), by simp,
    (h.offered hpending).1, rfl⟩

/-- `handleAnswer` reaches its end: everything it checks holds. -/
structure Accepting (C : Crypto) (t : Tunnel) (p : Peer) (msg : QJsonObject) : Prop where
  unverified : p.binding.answerVerified = false
  greeted : p.binding.helloSeen = true
  described : extract (answerSdp msg) ≠ []
  signed : answerSig msg ≠ []
  verifies : C.verify p.binding.browserSpki (signedBytes t.settings p.binding msg)
    (answerSig msg) = true
  built : p.pc = true

/-- The tunnel once an answer is taken and handed to the connection. -/
def accepted (id : QString) (p : Peer) (msg : QJsonObject) : Tunnel :=
  (t.setPeer id { p with binding := { p.binding with answerVerified := true } }).call
    (.setRemoteDescription id (answerSdp msg))

section

variable {C : Crypto} {t : Tunnel} {id : QString} {p : Peer}

theorem abort_quiet (t : Tunnel) (id : QString) : Quiet t (abort t id) := endSession_quiet t id

theorem sendSignedOffer_quiet {nonce : QByteArray} (hsend : AllSound t → Sendable p.binding)
    (hverified : p.binding.answerVerified = true → Verified t id) :
    Quiet t (sendSignedOffer C t id p nonce) := by
  unfold sendSignedOffer
  simp only
  split_ifs with hkept hnonce hsig
  · exact store (fun hs => (hsend hs).kept hkept) hverified
  · exact abort_quiet t id
  · exact abort_quiet t id
  · have hgo : p.binding.pendingOffer ≠ [] ∧ p.binding.helloSeen ≠ false := not_or.mp hkept
    apply (sendSignal t id _).trans
    exact store (fun hs => (hsend hs).sent hgo.2 hgo.1 hnonce) hverified

theorem onLocalDescription_quiet (text : QString) (nonce : QByteArray) :
    Quiet t (onLocalDescription C t id text nonce) := by
  unfold onLocalDescription
  cases hp : t.peers id with
  | none => exact refl t
  | some p =>
    simp only
    split_ifs with hempty
    · exact abort_quiet t id
    · exact sendSignedOffer_quiet (fun hs => (hs id p hp).describe hempty)
        fun hv => ⟨p, hp, hv⟩

theorem handleHello_quiet (hp : t.peers id = some p) (msg : QJsonObject) (nonce : QByteArray) :
    Quiet t (handleHello C t id p msg nonce) := by
  unfold handleHello
  simp only
  split_ifs with hseen
  · exact abort_quiet t id
  · exact abort_quiet t id
  · exact abort_quiet t id
  · exact abort_quiet t id
  · have hearly : p.binding.helloSeen = false := by simpa using hseen
    exact sendSignedOffer_quiet (fun hs => (hs id p hp).greet hearly _ _ _)
      fun hv => ⟨p, hp, hv⟩

theorem handleAnswer_quiet {msg : QJsonObject} (usable : Bool) (h : ¬ Accepting C t p msg) :
    Quiet t (handleAnswer C t id p msg usable) := by
  unfold handleAnswer
  by_cases hdone : p.binding.answerVerified = true
  · rw [if_pos hdone]
    exact refl t
  rw [if_neg hdone]
  split_ifs with hhello hsdp hsig hverify hpc
  · exact abort_quiet t id
  · exact abort_quiet t id
  · exact abort_quiet t id
  · exact abort_quiet t id
  · exact abort_quiet t id
  all_goals
    exfalso
    apply h
    exact {
      unverified := by simpa using hdone
      greeted := by simpa using hhello
      described := hsdp
      signed := hsig
      verifies := by simpa using hverify
      built := by simpa using hpc }

theorem handleAnswer_accepting {msg : QJsonObject} (usable : Bool) (h : Accepting C t p msg) :
    handleAnswer C t id p msg usable =
      if usable then accepted t id p msg else abort (accepted t id p msg) id := by
  have hverify : ¬ C.verify p.binding.browserSpki (signedBytes t.settings p.binding msg)
      (answerSig msg) = false := by simp [h.verifies]
  unfold handleAnswer
  rw [if_neg (by simp [h.unverified]), if_neg (by simp [h.greeted]), if_neg h.described,
    if_neg h.signed, if_neg hverify, if_neg (by simp [h.built])]
  rfl

theorem abort_calls (t : Tunnel) (id : QString) :
    (abort t id).calls = t.calls ++ [.closeSession id] := by
  unfold abort endSession dropPeer
  split
  · rfl
  · rw [(releaseTunnelPort_frame _ _).2.2]
    rfl

end

section

variable {C : Crypto} {t u : Tunnel} {event : Event}

def fresh (t : Tunnel) : Tunnel := { t with calls := [] }

/-- What one event does to the exchange: nothing, take an answer, or hand a
candidate to a session that is verified. -/
theorem handle_spec (h : handle C t event = some u) :
    Quiet (fresh t) u ∨
    (∃ id payload nonce usable p, event = .signal id payload nonce usable ∧
      t.peers id = some p ∧ (payload.value "type").toString = qs "sdp" ∧
      Accepting C t p payload ∧ Quiet (accepted (fresh t) id p payload) u) ∨
    (∃ id c m, Verified t id ∧ u = (fresh t).call (.addRemoteCandidate id c m)) := by
  unfold handle at h
  cases event with
  | settingsChanged s =>
    obtain rfl : _ = u := by simpa using h
    exact Or.inl (of_eq rfl rfl)
  | gatewayReady =>
    obtain rfl : _ = u := by simpa using h
    left
    unfold onGatewayReady
    split_ifs
    · exact requestTunnelPort_quiet _
    · exact refl _
  | gatewayMissing binds =>
    obtain rfl : _ = u := by simpa using h
    exact Or.inl (giveUpWaiting_quiet binds _)
  | claimGranted port binds =>
    simp only at h
    split_ifs at h
    obtain rfl : _ = u := by simpa using h
    exact Or.inl (claimGranted_quiet binds _ port)
  | claimRefused binds =>
    simp only at h
    split_ifs at h
    obtain rfl : _ = u := by simpa using h
    have hclosed : Quiet (fresh t) { fresh t with inFlight := t.inFlight - 1 } :=
      of_eq rfl rfl
    exact Or.inl (hclosed.trans (giveUpWaiting_quiet binds _))
  | portLost port =>
    simp only at h
    split_ifs at h
    obtain rfl : _ = u := by simpa using h
    exact Or.inl (onPortLost_quiet _ port)
  | sessionOpened id enabled gateway binds =>
    obtain rfl : _ = u := by simpa using h
    exact Or.inl (onSessionOpened_quiet binds enabled gateway _ id)
  | claimWaitOver id binds =>
    obtain rfl : _ = u := by simpa using h
    exact Or.inl (startWaiting_quiet binds _ id)
  | sessionClosed id =>
    obtain rfl : _ = u := by simpa using h
    exact Or.inl (dropPeer_quiet _ id)
  | connectionEnded id =>
    obtain rfl : _ = u := by simpa using h
    exact Or.inl (endSession_quiet _ id)
  | localDescription id text nonce =>
    obtain rfl : _ = u := by simpa using h
    exact Or.inl (onLocalDescription_quiet text nonce)
  | signal id payload nonce usable =>
    obtain rfl : onSignal C (fresh t) id payload nonce usable = u := Option.some.inj h
    have hpeers : (fresh t).peers id = t.peers id := rfl
    unfold onSignal
    cases hp : t.peers id with
    | none =>
      rw [hpeers, hp]
      exact Or.inl (refl _)
    | some p =>
      rw [hpeers, hp]
      simp only
      split_ifs with hhello hsdp hice
      · exact Or.inl (handleHello_quiet (t := fresh t) hp payload nonce)
      · by_cases haccepting : Accepting C (fresh t) p payload
        · right; left
          refine ⟨id, payload, nonce, usable, p, rfl, hp, hsdp, { haccepting with }, ?_⟩
          rw [handleAnswer_accepting usable haccepting]
          split_ifs
          · exact refl _
          · exact abort_quiet _ id
        · exact Or.inl (handleAnswer_quiet usable haccepting)
      · unfold handleIce
        split_ifs with hverified
        · exact Or.inl (refl _)
        · right; right
          exact ⟨id, _, _, ⟨p, hp, by simpa using hverified⟩, rfl⟩
      · exact Or.inl (refl _)

theorem accepted_sound {id : QString} {p : Peer} {msg : QJsonObject} (hs : AllSound t)
    (hp : t.peers id = some p) : AllSound (accepted (fresh t) id p msg) := by
  intro id' p' hp'
  by_cases heq : id' = id
  · subst heq
    have hsame : p' = { p with binding := { p.binding with answerVerified := true } } := by
      have hstored := setPeer_self (fresh t) id'
        { p with binding := { p.binding with answerVerified := true } }
      exact (Option.some.inj (hstored.symm.trans hp')).symm
    rw [hsame]
    exact { hs id' p hp with }
  · have hold : t.peers id' = some p' := by
      have hkept := setPeer_ne (fresh t)
        { p with binding := { p.binding with answerVerified := true } } heq
      exact hkept.symm.trans hp'
    exact hs id' p' hold

/-- The frame: what the exchange has recorded stays sound. -/
theorem handle_sound (hs : AllSound t) (h : handle C t event = some u) : AllSound u := by
  have hfresh : AllSound (fresh t) := hs
  rcases handle_spec h with hquiet | ⟨id, payload, _, _, p, _, hp, _, _, hquiet⟩ | ⟨_, _, _, _, heq⟩
  · exact hquiet.sound hfresh
  · exact hquiet.sound (accepted_sound hs hp)
  · rw [heq]
    exact hfresh

/-- The exact condition for one step. -/
theorem answersBound_iff (hs : AllSound t) (h : handle C t event = some u) :
    AnswersBound C t event u ↔ ¬ EarlyAnswer C t event := by
  constructor
  · rintro hbound ⟨id, payload, nonce, usable, p, hevent, hp, htype, hseen, hunverified, hpc,
      hnone, hdescribed, hsigned, hverifies⟩
    have hbind := hs id p hp
    have hpending : p.binding.pendingOffer = [] := by
      by_contra hne
      simp [(hbind.waits hne).1] at hseen
    have hempty := hbind.unsent hnone hpending
    have hbytes : signedBytes t.settings p.binding payload =
        browserDigestInput t.settings.rendezvousId [] []
          (extract (answerSdp payload)) := by
      rw [signedBytes, hempty.1, hempty.2]
    have haccepting : Accepting C (fresh t) p payload :=
      ⟨hunverified, hseen, hdescribed, hsigned, by rw [← hbytes] at hverifies; exact hverifies,
        hpc⟩
    have hcalls : Call.setRemoteDescription id (answerSdp payload) ∈ u.calls := by
      have hu : u = handleAnswer C (fresh t) id p payload usable := by
        subst hevent
        have honly : qs "sdp" ≠ qs "hello" := by decide
        have hstep : onSignal C (fresh t) id payload nonce usable = u := Option.some.inj h
        rw [← hstep, onSignal]
        have hpeers : (fresh t).peers id = some p := hp
        simp only [hpeers, htype, if_neg honly, if_pos]
      rw [hu, handleAnswer_accepting usable haccepting]
      split_ifs
      · simp [accepted, call]
      · simp [abort_calls, accepted, call]
    obtain ⟨payload', nonce', usable', p', hevent', hp', hnonce, _⟩ := hbound.described id _ hcalls
    have hsame : p' = p := Option.some.inj (hp'.symm.trans hp)
    exact hnonce (by rw [hsame]; exact hempty.1)
  · intro hnot
    rcases handle_spec h with hquiet | ⟨id, payload, nonce, usable, p, hevent, hp, htype,
      haccepting, hquiet⟩ | ⟨id, c, m, hverified, heq⟩
    · exact {
        flagged := fun id hv => Or.inl (hquiet.verified id hv)
        described := fun id sdp hc => absurd (hquiet.described id sdp hc) (by simp [fresh])
        candidates := fun id c m hc => absurd (hquiet.candidates id c m hc) (by simp [fresh]) }
    · have hbind := hs id p hp
      have hsent : p.binding.offers ≠ [] := by
        intro hnone
        have hpending : p.binding.pendingOffer = [] := by
          by_contra hne
          have hearly := (hbind.waits hne).1
          rw [haccepting.greeted] at hearly
          cases hearly
        have hempty := hbind.unsent hnone hpending
        have hverifies := haccepting.verifies
        rw [signedBytes, hempty.1, hempty.2] at hverifies
        exact hnot ⟨id, payload, nonce, usable, p, hevent, hp, htype, haccepting.greeted,
          haccepting.unverified, haccepting.built, hnone, haccepting.described,
          haccepting.signed, hverifies⟩
      obtain ⟨hnonce, hfingerprint, hoffer⟩ := hbind.sent hsent
      have hcovered : Covered C t event id :=
        ⟨payload, nonce, usable, p, hevent, hp, hnonce, hfingerprint, hoffer,
          haccepting.verifies⟩
      exact {
        flagged := by
          intro id' hv
          by_cases heq : id' = id
          · exact Or.inr (heq ▸ hcovered)
          · obtain ⟨p', hp', hv'⟩ := hquiet.verified id' hv
            have hkept := setPeer_ne (fresh t)
              { p with binding := { p.binding with answerVerified := true } } heq
            exact Or.inl ⟨p', hkept.symm.trans hp', hv'⟩
        described := by
          intro id' sdp hc
          have hmem := hquiet.described id' sdp hc
          have hsame : id' = id ∧ sdp = answerSdp payload := by
            simpa [accepted, call, fresh, setPeer] using hmem
          exact hsame.1 ▸ hcovered
        candidates := by
          intro id' c m hc
          have hmem := hquiet.candidates id' c m hc
          simp [accepted, call, fresh, setPeer] at hmem }
    · subst heq
      exact {
        flagged := fun _ hv => Or.inl hv
        described := by
          intro id' sdp hc
          simp [call, fresh] at hc
        candidates := by
          intro id' c' m' hc
          have hsame : id' = id ∧ c' = c ∧ m' = m := by
            simpa [call, fresh] using hc
          exact hsame.1 ▸ hverified }

end

/-- Along every run, answers are bound exactly as long as none comes early. -/
theorem answersBound_along_iff (C : Crypto) (s : Settings) (events : List Event) :
    EachStep (moves (handle C)) (AnswersBound C) (initial s) events ↔
      EachStep (moves (handle C)) (fun t event _ => ¬ EarlyAnswer C t event) (initial s)
        events := by
  apply eachStep_iff (S := AllSound) (I := fun _ => True)
  · exact fun t event u hs hstep => handle_sound hs hstep
  · exact fun _ _ _ _ _ => trivial
  · exact fun t event u hs _ hstep => answersBound_iff hs hstep
  · intro id p hp
    cases hp
  · trivial

def host : Settings := ⟨qs "host", [1], [1]⟩

/-- A hello with the toy key, and an answer that arrives before the local
description: its signature is over an empty nonce and an empty fingerprint. -/
def hello : QJsonObject :=
  [(qs "type", .string (qs "hello")), (qs "public_key", .string (qs "Bw==")),
    (qs "key_id", .string [7]), (qs "nonce", .string (qs "AAAAAAAAAAAAAAAAAAAAAA=="))]

def earlyAnswer : QJsonObject :=
  [(qs "type", .string (qs "sdp")),
    (qs "sdp", .string (qs "a=fingerprint:sha-256 " ++
      [unit ':'].intercalate (List.replicate 32 (qs "AB")))),
    (qs "sig", .string (qs "4g=="))]

def opened : Tunnel := (initial host).setPeer (qs "s1") { pc := true }

def greeted : Tunnel :=
  opened.setPeer (qs "s1")
    { pc := true
      binding :=
        { helloSeen := true
          browserSpki := [7]
          browserKeyId := [7]
          nonceBrowser := List.replicate 16 0 } }

/-- The answer is taken although nothing was sent: neither a nonce nor a local
fingerprint exists yet. -/
theorem earlyAnswer_accepted :
    ¬ ∀ (C : Crypto) (s : Settings) (events : List Event),
      EachStep (moves (handle C)) (AnswersBound C) (initial s) events := by
  intro hall
  have hopened : moves (handle checksum) (initial host)
      (.sessionOpened (qs "s1") false .missing fun _ _ => true) opened := rfl
  have hgreeted : moves (handle checksum) opened (.signal (qs "s1") hello [] true) greeted := rfl
  have hanswered : moves (handle checksum) greeted (.signal (qs "s1") earlyAnswer [] true)
      (onSignal checksum (fresh greeted) (qs "s1") earlyAnswer [] true) := rfl
  have hrun := Run.cons hopened (Run.single hgreeted)
  have hbound := hall checksum host
    ([.sessionOpened (qs "s1") false .missing fun _ _ => true,
      .signal (qs "s1") hello [] true] ++ [.signal (qs "s1") earlyAnswer [] true])
    _ _ [] _ _ rfl hrun hanswered
  have hmarked : ((onSignal checksum (fresh greeted) (qs "s1") earlyAnswer [] true).peers
      (qs "s1")).map (·.binding.answerVerified) = some true := by
    decide +kernel
  have hflag : Verified (onSignal checksum (fresh greeted) (qs "s1") earlyAnswer [] true)
      (qs "s1") := by simpa [Verified, Option.map_eq_some_iff] using hmarked
  rcases hbound.flagged (qs "s1") hflag with ⟨p, hp, hverified⟩ | hcovered
  · have hsame : (greeted.peers (qs "s1")).map (·.binding.answerVerified) = some false := rfl
    rw [hp] at hsame
    simp [hverified] at hsame
  · obtain ⟨_, _, _, p, _, hp, hnonce, _⟩ := hcovered
    have hsame : (greeted.peers (qs "s1")).map (·.binding.nonceHost) = some [] := rfl
    rw [hp] at hsame
    exact hnonce (by simpa using hsame)

/-- What an answer is checked against. -/
def expected (t : Tunnel) (b : Binding) (sdp : QString) : Signed :=
  ⟨t.settings.rendezvousId.toUtf8, b.nonceHost, b.localFingerprint.toUtf8, (extract sdp).toUtf8⟩

/-- A description that a connection gets is what the browser signed, over the nonce and the
fingerprint of an offer that was sent to it. -/
def DescribesSigned (spki : QByteArray) (signed : List Signed) (t u : Tunnel) : Prop :=
  ∀ id sdp, Call.setRemoteDescription id sdp ∈ u.calls →
    ∃ p, t.peers id = some p ∧
      (p.binding.browserSpki = spki → (expected t p.binding sdp).Short →
        expected t p.binding sdp ∈ signed ∧
          ∃ offer ∈ p.binding.offers, extract offer.1 = p.binding.localFingerprint ∧
            offer.2 = p.binding.nonceHost)

theorem describesSigned_step {C : Crypto} {spki : QByteArray} {signed : List Signed}
    (hunforged : Unforged C spki signed) {t u : Tunnel} {event : Event} (hs : AllSound t)
    (h : handle C t event = some u) : DescribesSigned spki signed t u := by
  intro id sdp hcall
  rcases handle_spec h with hquiet | ⟨id', payload, _, _, p, _, hp, _, haccepting, hquiet⟩ |
    ⟨_, _, _, _, rfl⟩
  · cases hquiet.described id sdp hcall
  · have hmem := hquiet.described id sdp hcall
    obtain ⟨rfl, rfl⟩ : id = id' ∧ sdp = answerSdp payload := by
      simpa [accepted, call, fresh, setPeer] using hmem
    refine ⟨p, hp, fun hspki hshort => ?_⟩
    obtain ⟨a, ha, hmessage⟩ := hunforged.verifies _ _ (hspki ▸ haccepting.verifies)
    obtain rfl : expected t p.binding (answerSdp payload) = a :=
      fields_injective hshort (hunforged.nonces a ha).2 hmessage
    have hnonce : p.binding.nonceHost ≠ [] := (hunforged.nonces _ ha).1
    have hbind := hs id p hp
    have hsent : p.binding.offers ≠ [] := by
      intro hnone
      have hpending : p.binding.pendingOffer = [] := by
        by_contra hne
        cases (hbind.waits hne).1.symm.trans haccepting.greeted
      exact hnonce (hbind.unsent hnone hpending).1
    exact ⟨ha, (hbind.sent hsent).2.2⟩
  · simp [call, fresh] at hcall

/-- With signatures that nobody forges, no order of events hands a connection a description that
its browser did not sign for it. -/
theorem describesSigned_along (C : Crypto) (s : Settings) (spki : QByteArray)
    (signed : List Signed) (hunforged : Unforged C spki signed) (events : List Event) :
    EachStep (moves (handle C)) (fun t _ u => DescribesSigned spki signed t u) (initial s)
      events := by
  intro visited _ _ t u _ hrun hstep
  have hsound : AllSound t := hrun.invariant (fun _ _ _ hs hstep => handle_sound hs hstep)
    (fun id p hp => by cases hp)
  exact describesSigned_step hunforged hsound hstep

def signedOnce : Signed :=
  ⟨(qs "host").toUtf8, [1], (extract (answerSdp earlyAnswer)).toUtf8,
    (extract (answerSdp earlyAnswer)).toUtf8⟩

/-- A browser that signs one answer, and a session that takes it. -/
theorem describesSigned_along_once :
    EachStep (moves (handle { checksum with
        verify := fun _ message _ => message = buildSignedMessage signedOnce.fields }))
      (fun t _ u => DescribesSigned [7] [signedOnce] t u) (initial host)
      [.sessionOpened (qs "s1") false .missing fun _ _ => true, .signal (qs "s1") hello [] true,
        .localDescription (qs "s1") (answerSdp earlyAnswer) [1],
        .signal (qs "s1") earlyAnswer [] true] :=
  describesSigned_along _ host [7] [signedOnce]
    ⟨fun _ _ h => ⟨signedOnce, by simp, of_decide_eq_true h⟩, by
      intro a ha
      rw [List.mem_singleton.mp ha]
      decide +kernel⟩ _

end MoonlightWeb.Server.ControlTunnel
