import MoonlightWeb.Common.SignedMessages
import MoonlightWeb.Streaming.SignalingServer

/-! # What binds an answer to its offer

A description reaches the relay only behind a signature over the nonce and the
fingerprint of an offer sent on the connection, provided that no answer arrives
before the first offer: until then no nonce is drawn, and the server verifies over
the fields as they are. The offers go out signed and once, and every candidate behind
them.
-/

namespace MoonlightWeb.Streaming

open Qt Lib
open Common.PairingCrypto SignalingServer SdpFingerprint SignalingEvent

namespace SignalingSession

def Covers (d : SignalingSession) (nonce : QByteArray) (fingerprint : QString) (a : Answer) :
    Prop :=
  d.crypto.verify d.browserSpki
    (browserDigestInput d.hostId nonce fingerprint (extract a.sdp)) a.sig = true

/-- The host key signed the offer, over the fingerprint of its description. -/
def SignedBy (d : SignalingSession) (o : Offer) : Prop :=
  ∃ signature nonceBrowser, o.signature = some signature ∧ signature.sig ≠ [] ∧
    signature.sig = d.crypto.sign d.hostKeyPem (hostDigestInput d.hostId
      (d.crypto.keyId d.browserSpki) nonceBrowser (extract o.sdp))

end SignalingSession

variable (log : List (Nat × Effect))

/-- Among the effects: an offer with this nonce, drawn for it, and this fingerprint. -/
def OfferSent (nonce : QByteArray) (fingerprint : QString) : Prop :=
  ∃ k o signature, (k, .nonceDrawn nonce) ∈ log ∧ (k, .offer o) ∈ log ∧
    o.signature = some signature ∧ signature.nonce = nonce ∧
    extract o.sdp = fingerprint

/-- Each description set answers, under the paired key, an offer sent before. -/
def Answered (d : SignalingSession) (log : List (Nat × Effect)) : Prop :=
  ∀ before k a after, log = before ++ (k, .setRemoteDescription a) :: after →
    ∃ nonce fingerprint, nonce ≠ [] ∧ fingerprint ≠ [] ∧ OfferSent before nonce fingerprint ∧
      d.Covers nonce fingerprint a

def offerEpochs : List Nat :=
  log.filterMap fun
    | (k, .offer _) => some k
    | _ => none

/-- The candidates among the effects, and the offers as the barriers they wait behind. -/
def channel : List (Sent IceCandidate) :=
  log.filterMap fun
    | (k, .offer _) => some (.barrier k)
    | (_, .ice c) => some (.item c)
    | _ => none

namespace SignalingConnection

/-- The promise of the connection: the answers are bound, the offers are signed, each of
its own description and in the order of the descriptions, and the candidates go out in
order behind the offers; while the socket is open, all have gone out but those held
behind an offer that waits for the hello. -/
structure Bound (d : SignalingSession) (c : SignalingConnection) : Prop where
  answered : Answered d c.log
  once : (offerEpochs c.log).Pairwise (· < ·)
  signed : ∀ k o, (k, .offer o) ∈ c.log →
    d.SignedBy o ∧ 0 < k ∧ c.descriptions[k - 1]? = some o.sdp
  inOrder : Behind c.candidates (channel c.log)
  delivered : c.server.wsOpen = true →
    Sent.items (channel c.log) ++ c.server.pendingCandidates = c.candidates.map Prod.snd
  held : c.server.wsOpen = true → c.server.pendingCandidates ≠ [] →
    c.server.helloReceived = false ∧ c.descriptions.getLast? = some c.server.pendingOffer

/-- No answer that verifies over the empty nonce arrives before the first offer. -/
def Timely (d : SignalingSession) (c : SignalingConnection) : SignalingEvent → Prop
  | .textMessage (some msg) _ _ =>
      c.server.wsFallbackActive = false → messageType msg = .sdp → c.server.nonceHost = [] →
        extract (Answer.ofMessage msg).sdp = [] ∨ (Answer.ofMessage msg).sig = [] ∨
          ¬ d.Covers [] c.server.localFingerprint (Answer.ofMessage msg)
  | _ => True

end SignalingConnection

def Effect.quiet : Effect → Bool
  | .offer _ => false
  | .ice _ => false
  | .setRemoteDescription _ => false
  | _ => true

section Logs

variable {log : List (Nat × Effect)} {k : Nat} {e : Effect}

theorem offerEpochs_append (log more : List (Nat × Effect)) :
    offerEpochs (log ++ more) = offerEpochs log ++ offerEpochs more :=
  List.filterMap_append

theorem channel_append (log more : List (Nat × Effect)) :
    channel (log ++ more) = channel log ++ channel more :=
  List.filterMap_append

theorem offerEpochs_quiet (h : e.quiet = true) : offerEpochs (log ++ [(k, e)]) = offerEpochs log := by
  cases e with
  | offer o => cases h
  | _ => simp [offerEpochs]

theorem channel_quiet (h : e.quiet = true) : channel (log ++ [(k, e)]) = channel log := by
  cases e with
  | offer o => cases h
  | ice c => cases h
  | _ => simp [channel]

theorem offerEpochs_ices (cs : List IceCandidate) (k : Nat) :
    offerEpochs ((cs.map Effect.ice).map (Prod.mk k)) = [] := by
  simp [offerEpochs]

theorem channel_ices (cs : List IceCandidate) (k : Nat) :
    channel ((cs.map Effect.ice).map (Prod.mk k)) = cs.map Sent.item := by
  simp [channel]

theorem mem_offerEpochs : k ∈ offerEpochs log ↔ ∃ o, (k, .offer o) ∈ log := by
  unfold offerEpochs
  rw [List.mem_filterMap]
  constructor
  · rintro ⟨⟨j, e⟩, hmem, he⟩
    cases e with
    | offer o =>
      obtain rfl : j = k := by simpa using he
      exact ⟨o, hmem⟩
    | _ => simp at he
  · rintro ⟨o, hmem⟩
    exact ⟨(k, .offer o), hmem, rfl⟩

theorem barrier_mem_channel : Sent.barrier k ∈ channel log ↔ k ∈ offerEpochs log := by
  rw [mem_offerEpochs]
  unfold channel
  rw [List.mem_filterMap]
  constructor
  · rintro ⟨⟨j, e⟩, hmem, he⟩
    cases e with
    | offer o =>
      obtain rfl : j = k := by simpa using he
      exact ⟨o, hmem⟩
    | _ => simp at he
  · rintro ⟨o, hmem⟩
    exact ⟨(k, .offer o), hmem, rfl⟩

theorem OfferSent.mono {more : List (Nat × Effect)} {nonce : QByteArray} {fingerprint : QString}
    (h : OfferSent log nonce fingerprint) : OfferSent (log ++ more) nonce fingerprint := by
  obtain ⟨k, o, signature, hdrawn, hoffer, hrest⟩ := h
  exact ⟨k, o, signature, List.mem_append_left _ hdrawn, List.mem_append_left _ hoffer, hrest⟩

/-- Only a description set asks for a new answer. -/
theorem Answered.snoc {d : SignalingSession} (h : Answered d log)
    (he : ∀ a, e = .setRemoteDescription a → ∃ nonce fingerprint, nonce ≠ [] ∧ fingerprint ≠ [] ∧
      OfferSent log nonce fingerprint ∧ d.Covers nonce fingerprint a) :
    Answered d (log ++ [(k, e)]) := by
  intro before j a after hlog
  cases split_snoc hlog with
  | inl hlast =>
    obtain ⟨rfl, hlast⟩ := hlast
    exact he a (congrArg Prod.snd hlast).symm
  | inr hbefore =>
    obtain ⟨rest, hrest⟩ := hbefore
    exact h before j a rest hrest

end Logs

theorem length_pos_of_getLast? {descriptions : List QString} {sdp : QString}
    (h : descriptions.getLast? = some sdp) : 0 < descriptions.length := by
  cases descriptions with
  | nil => cases h
  | cons first rest => exact Nat.succ_pos _

/-- What holds of the history, whether the socket is open or not. -/
structure History (d : SignalingSession) (descriptions : List QString)
    (candidates : List (Nat × IceCandidate)) (log : List (Nat × Effect)) : Prop where
  followed : ∀ g ∈ candidates, g.1 ≤ descriptions.length
  answered : Answered d log
  once : (offerEpochs log).Pairwise (· < ·)
  signed : ∀ k o, (k, .offer o) ∈ log →
    d.SignedBy o ∧ 0 < k ∧ descriptions[k - 1]? = some o.sdp
  inOrder : Behind candidates (channel log)
  known : ∀ k ∈ offerEpochs log, k ≤ descriptions.length

namespace History

variable {d : SignalingSession} {descriptions : List QString}
  {candidates : List (Nat × IceCandidate)} {log : List (Nat × Effect)}

theorem nil : History d [] [] [] where
  followed := by
    intro g h
    cases h
  answered := by
    intro before k a after h
    cases before <;> cases h
  once := List.Pairwise.nil
  signed := by
    intro k o h
    cases h
  inOrder := Behind.nil
  known := by
    intro k h
    cases h

theorem describe (h : History d descriptions candidates log) (more : List QString) :
    History d (descriptions ++ more) candidates log where
  followed := by
    intro g hg
    have hle := h.followed g hg
    rw [List.length_append]
    omega
  answered := h.answered
  once := h.once
  signed := by
    intro k o hmem
    obtain ⟨hsigned, hpos, hget⟩ := h.signed k o hmem
    have hle := h.known k (mem_offerEpochs.mpr ⟨o, hmem⟩)
    have hlt : k - 1 < descriptions.length := by omega
    exact ⟨hsigned, hpos, by rw [List.getElem?_append_left hlt, hget]⟩
  inOrder := h.inOrder
  known := by
    intro k hk
    have hle := h.known k hk
    rw [List.length_append]
    omega

theorem gather (h : History d descriptions candidates log) (more : List IceCandidate) :
    History d descriptions (candidates ++ more.map (Prod.mk descriptions.length)) log :=
  { h with
    followed := by
      intro g hg
      cases List.mem_append.mp hg with
      | inl hg => exact h.followed g hg
      | inr hg =>
        obtain ⟨i, _, rfl⟩ := List.mem_map.mp hg
        exact Nat.le_refl _
    inOrder := h.inOrder.gather _ }

variable {k : Nat}

variable (h : History d descriptions candidates log)

include h

theorem snoc_quiet {e : Effect}
    (he : e.quiet = true) : History d descriptions candidates (log ++ [(k, e)]) where
  followed := h.followed
  answered := by
    refine h.answered.snoc fun a ha => ?_
    subst ha
    cases he
  once := by rw [offerEpochs_quiet he]; exact h.once
  signed := by
    intro j o hmem
    have hbefore : (j, Effect.offer o) ∈ log := by
      have hepoch : j ∈ offerEpochs (log ++ [(k, e)]) := mem_offerEpochs.mpr ⟨o, hmem⟩
      cases List.mem_append.mp hmem with
      | inl hmem => exact hmem
      | inr hmem =>
        obtain ⟨_, rfl⟩ := Prod.mk.inj (List.mem_singleton.mp hmem)
        cases he
    exact h.signed j o hbefore
  inOrder := by rw [channel_quiet he]; exact h.inOrder
  known := by rw [offerEpochs_quiet he]; exact h.known

theorem quiet {effects : List Effect}
    (heffects : ∀ e ∈ effects, e.quiet = true) :
    History d descriptions candidates (log ++ effects.map (Prod.mk k)) := by
  induction effects generalizing log with
  | nil => simpa using h
  | cons e effects ih =>
    have hstep := h.snoc_quiet (k := k) (heffects e List.mem_cons_self)
    have hrest : ∀ e' ∈ effects, e'.quiet = true := fun e' he' =>
      heffects e' (List.mem_cons_of_mem _ he')
    simpa using ih hstep hrest

/-- The offer of the last description, which was not made before. -/
theorem offer {o : Offer}
    (hbefore : ∀ k ∈ offerEpochs log, k < descriptions.length)
    (hlast : descriptions.getLast? = some o.sdp) (hsigned : d.SignedBy o) :
    History d descriptions candidates (log ++ [(descriptions.length, .offer o)]) where
  followed := h.followed
  answered := h.answered.snoc fun a ha => by cases ha
  once := by
    rw [offerEpochs_append, List.pairwise_append]
    refine ⟨h.once, List.pairwise_singleton _ _, ?_⟩
    intro k hk j hj
    obtain rfl : j = descriptions.length := List.mem_singleton.mp hj
    exact hbefore k hk
  signed := by
    intro k o' hmem
    cases List.mem_append.mp hmem with
    | inl hmem => exact h.signed k o' hmem
    | inr hmem =>
      obtain ⟨rfl, ho⟩ := Prod.mk.inj (List.mem_singleton.mp hmem)
      obtain rfl : o' = o := by simpa using ho
      have hpos := length_pos_of_getLast? hlast
      rw [List.getLast?_eq_getElem?] at hlast
      exact ⟨hsigned, hpos, hlast⟩
  inOrder := by
    rw [channel_append]
    exact h.inOrder.barrier (length_pos_of_getLast? hlast) fun k hk =>
      hbefore k (barrier_mem_channel.mp hk)
  known := by
    intro k hk
    rw [offerEpochs_append] at hk
    cases List.mem_append.mp hk with
    | inl hk => exact h.known k hk
    | inr hk => exact Nat.le_of_eq (List.mem_singleton.mp hk)

/-- The candidates not sent yet, when an offer stands before all of them. -/
theorem ices {waiting : List (Nat × IceCandidate)}
    (hwaiting : candidates.drop (Sent.items (channel log)).length = waiting)
    (hopen : ∀ g ∈ waiting, g.1 = 0 ∨ ∃ k, g.1 ≤ k ∧ k ∈ offerEpochs log) :
    History d descriptions candidates
      (log ++ ((waiting.map Prod.snd).map Effect.ice).map (Prod.mk k)) where
  followed := h.followed
  answered := by
    have hkeep : ∀ cs : List IceCandidate, ∀ log, Answered d log →
        Answered d (log ++ (cs.map Effect.ice).map (Prod.mk k)) := by
      intro cs
      induction cs with
      | nil => intro log h; simpa using h
      | cons c cs ih =>
        intro log h
        simpa using ih _ (h.snoc (k := k) (e := .ice c) fun a ha => by cases ha)
    exact hkeep _ log h.answered
  once := by
    rw [offerEpochs_append, offerEpochs_ices, List.append_nil]
    exact h.once
  signed := by
    intro j o hmem
    cases List.mem_append.mp hmem with
    | inl hmem => exact h.signed j o hmem
    | inr hmem => simp at hmem
  inOrder := by
    rw [channel_append, channel_ices]
    refine h.inOrder.items hwaiting fun g hg => (hopen g hg).imp_right fun hoffer => ?_
    obtain ⟨j, hle, hj⟩ := hoffer
    exact ⟨j, hle, barrier_mem_channel.mpr hj⟩
  known := by
    rw [offerEpochs_append, offerEpochs_ices, List.append_nil]
    exact h.known

theorem answer {a : Answer}
    {nonce : QByteArray} {fingerprint : QString} (hnonce : nonce ≠ []) (hfp : fingerprint ≠ [])
    (hsent : OfferSent log nonce fingerprint) (hcovers : d.Covers nonce fingerprint a) :
    History d descriptions candidates (log ++ [(k, .setRemoteDescription a)]) where
  followed := h.followed
  answered := by
    refine h.answered.snoc fun b hb => ?_
    obtain rfl : a = b := by simpa using hb
    exact ⟨nonce, fingerprint, hnonce, hfp, hsent, hcovers⟩
  once := by simpa [offerEpochs] using h.once
  signed := by
    intro j o hmem
    cases List.mem_append.mp hmem with
    | inl hmem => exact h.signed j o hmem
    | inr hmem => simp at hmem
  inOrder := by
    rw [channel_append]
    simpa [channel] using h.inOrder
  known := by simpa [offerEpochs] using h.known

omit h

end History

/-- What the fields of a server with an open socket say of the history. -/
structure Live (s : SignalingServer) (descriptions : List QString)
    (candidates : List (Nat × IceCandidate)) (log : List (Nat × Effect)) : Prop where
  waiting : s.pendingOffer ≠ [] →
    s.helloReceived = false ∧ s.localFingerprint = extract s.pendingOffer ∧
      s.localFingerprint ≠ [] ∧ descriptions.getLast? = some s.pendingOffer ∧
      descriptions.length ∉ offerEpochs log
  unmet : s.helloReceived = false → s.nonceHost = []
  sent : s.nonceHost ≠ [] → s.localFingerprint ≠ [] ∧ OfferSent log s.nonceHost s.localFingerprint
  offered : s.pendingOffer = [] → descriptions = [] ∨ descriptions.length ∈ offerEpochs log
  free : s.pendingOffer = [] → s.pendingCandidates = []
  gathered : (candidates.drop (Sent.items (channel log)).length).map Prod.snd =
    s.pendingCandidates

namespace Live

variable {s : SignalingServer} {descriptions : List QString}
  {candidates : List (Nat × IceCandidate)} {log : List (Nat × Effect)}

variable (h : Live s descriptions candidates log)

include h

theorem snoc_quiet {e : Effect} {k : Nat}
    (he : e.quiet = true) : Live s descriptions candidates (log ++ [(k, e)]) where
  waiting := by rw [offerEpochs_quiet he]; exact h.waiting
  unmet := h.unmet
  sent hnonce := (h.sent hnonce).imp_right OfferSent.mono
  offered := by rw [offerEpochs_quiet he]; exact h.offered
  free := h.free
  gathered := by rw [channel_quiet he]; exact h.gathered

theorem quiet {effects : List Effect} {k : Nat}
    (heffects : ∀ e ∈ effects, e.quiet = true) :
    Live s descriptions candidates (log ++ effects.map (Prod.mk k)) := by
  induction effects generalizing log with
  | nil => simpa using h
  | cons e effects ih =>
    have hstep := h.snoc_quiet (k := k) (heffects e List.mem_cons_self)
    have hrest : ∀ e' ∈ effects, e'.quiet = true := fun e' he' =>
      heffects e' (List.mem_cons_of_mem _ he')
    simpa using ih hstep hrest

theorem other (timers : Nat) (fallback channels : Bool) :
    Live { s with
      helloTimers := timers
      wsFallbackActive := fallback
      dataChannelsOpen := channels } descriptions candidates log :=
  ⟨h.waiting, h.unmet, h.sent, h.offered, h.free, h.gathered⟩

omit h

end Live

namespace SignalingServer

variable {d : SignalingSession} {s : SignalingServer}

/-- The socket is closed, and nothing went out or to the relay. -/
def Silent (r : SignalingServer × List Effect) : Prop :=
  r.1.wsOpen = false ∧ ∀ e ∈ r.2, e.quiet = true

theorem silent_abortSignaling (s : SignalingServer) : Silent s.abortSignaling :=
  ⟨rfl, by simp [abortSignaling, Effect.quiet]⟩

theorem silent_unchanged (h : s.wsOpen = false) : Silent (s, []) :=
  ⟨h, by simp⟩

theorem silent_onWsDisconnected (s : SignalingServer) : Silent s.onWsDisconnected := by
  refine ⟨rfl, ?_⟩
  unfold onWsDisconnected
  cases s.signalingComplete || s.dataChannelsOpen with
  | true => simp [Effect.quiet]
  | false => simp [Effect.quiet]

theorem flatMap_sendIceCandidate (hopen : s.wsOpen = true) (cs : List IceCandidate) :
    cs.flatMap s.sendIceCandidate = cs.map .ice := by
  induction cs with
  | nil => rfl
  | cons c cs ih =>
    rw [List.flatMap_cons, ih, List.map_cons, sendIceCandidate, if_pos hopen]
    rfl

/-- What `sendSignedOffer` leaves of an offer with a paired key: the connection is
aborted, or the offer goes out signed with the candidates behind it. -/
theorem sendSignedOffer_cases (hpaired : d.browserSpki ≠ []) (hopen : s.wsOpen = true)
    (hpending : s.pendingOffer ≠ []) (draw : QByteArray) :
    Silent (s.sendSignedOffer d draw) ∨
    (draw ≠ [] ∧ ∃ sig, sig ≠ [] ∧
      sig = d.crypto.sign d.hostKeyPem (hostDigestInput d.hostId
        (d.crypto.keyId d.browserSpki) s.nonceBrowser s.localFingerprint) ∧
      s.sendSignedOffer d draw =
        ({ s with nonceHost := draw, pendingOffer := [], pendingCandidates := [] },
          .nonceDrawn draw :: .offer ⟨s.pendingOffer, some ⟨d.hostId, draw, sig⟩⟩ ::
            s.pendingCandidates.map .ice)) := by
  have hvalid : ¬ (!s.wsOpen) = true := by simp [hopen]
  unfold sendSignedOffer
  rw [if_neg hpending, if_neg hvalid, if_neg hpaired]
  by_cases hdraw : draw = []
  · rw [if_pos hdraw]
    exact Or.inl (silent_abortSignaling _)
  · rw [if_neg hdraw]
    by_cases hsig : d.crypto.sign d.hostKeyPem (hostDigestInput d.hostId
        (d.crypto.keyId d.browserSpki) s.nonceBrowser s.localFingerprint) = []
    · rw [if_pos hsig]
      exact Or.inl (silent_abortSignaling _)
    · refine Or.inr ⟨hdraw, _, hsig, rfl, ?_⟩
      rw [if_neg hsig]
      simp only [forwardOffer]
      rw [flatMap_sendIceCandidate (by exact hopen)]

/-- An answer with a paired key aborts the connection, or verifies. -/
theorem onAnswer_cases (hpaired : d.browserSpki ≠ []) (a : Answer) (accepted : Bool) :
    Silent (s.onAnswer d a accepted) ∨
    (extract a.sdp ≠ [] ∧ a.sig ≠ [] ∧
      d.Covers s.nonceHost s.localFingerprint a ∧
      s.onAnswer d a accepted = s.setRemoteDescription a accepted) := by
  unfold onAnswer
  rw [if_pos hpaired]
  by_cases hfp : extract a.sdp = []
  · rw [if_pos hfp]
    exact Or.inl (silent_abortSignaling _)
  · rw [if_neg hfp]
    by_cases hsig : a.sig = []
    · rw [if_pos hsig]
      exact Or.inl (silent_abortSignaling _)
    · rw [if_neg hsig]
      dsimp only
      by_cases hcovers : d.Covers s.nonceHost s.localFingerprint a
      · have haccept : ¬ (!d.crypto.verify d.browserSpki (browserDigestInput d.hostId s.nonceHost
            s.localFingerprint (extract a.sdp)) a.sig) = true := by
          simpa [SignalingSession.Covers] using hcovers
        exact Or.inr ⟨hfp, hsig, hcovers, if_neg haccept⟩
      · have hrefuse : (!d.crypto.verify d.browserSpki (browserDigestInput d.hostId s.nonceHost
            s.localFingerprint (extract a.sdp)) a.sig) = true := by
          simpa [SignalingSession.Covers] using hcovers
        rw [if_pos hrefuse]
        exact Or.inl (silent_abortSignaling _)

theorem onHello_cases (msg : QJsonObject) (draw : QByteArray) :
    Silent (s.onHello d msg draw) ∨
    (s.helloReceived = false ∧ ∃ nonce, s.onHello d msg draw =
      ({ s with nonceBrowser := nonce, helloReceived := true }).sendSignedOffer d draw) := by
  unfold onHello
  by_cases hagain : s.helloReceived = true
  · rw [if_pos hagain]
    exact Or.inl (silent_abortSignaling _)
  · rw [if_neg hagain]
    by_cases hkey : d.browserSpki ≠ [] ∧
        (msg.value "key_id").toString ≠ d.crypto.keyId d.browserSpki
    · rw [if_pos hkey]
      exact Or.inl (silent_abortSignaling _)
    · rw [if_neg hkey]
      by_cases hshort : d.browserSpki ≠ [] ∧
          (QByteArray.fromBase64 (msg.value "nonce").toString.toUtf8).length < minNonceBytes
      · rw [if_pos hshort]
        exact Or.inl (silent_abortSignaling _)
      · rw [if_neg hshort]
        exact Or.inr ⟨by simpa using hagain, _, rfl⟩

/-- A local description aborts the connection, waits for the hello, or goes out. -/
theorem onLocalSdp_cases (hpaired : d.browserSpki ≠ []) (sdp : QString) (draw : QByteArray) :
    Silent (s.onLocalSdp d sdp draw) ∨
    (extract sdp ≠ [] ∧
      (s.helloReceived = false ∧
        s.onLocalSdp d sdp draw = ({ s with
              pendingOffer := sdp
              localFingerprint := extract sdp
              helloTimers := s.helloTimers + 1 }, []) ∨
      s.helloReceived = true ∧
        s.onLocalSdp d sdp draw = ({ s with
              pendingOffer := sdp
              localFingerprint := extract sdp }).sendSignedOffer d draw)) := by
  unfold onLocalSdp
  by_cases hfp : extract sdp = []
  · rw [if_pos ⟨hpaired, hfp⟩]
    exact Or.inl (silent_abortSignaling _)
  · rw [if_neg fun h => hfp h.2]
    refine Or.inr ⟨hfp, ?_⟩
    by_cases hhello : s.helloReceived = false
    · rw [if_pos ⟨hpaired, hhello⟩]
      exact Or.inl ⟨hhello, rfl⟩
    · rw [if_neg fun h => hhello h.2]
      exact Or.inr ⟨by simpa using hhello, rfl⟩

theorem silent_handle (hclosed : s.wsOpen = false) {event : SignalingEvent}
    {r : SignalingServer × List Effect} (h : event.handle d s = some r) : Silent r := by
  have hsend : ∀ u : SignalingServer, ∀ draw, u.wsOpen = false →
      Silent (u.sendSignedOffer d draw) := by
    intro u draw hu
    unfold sendSignedOffer
    by_cases hpending : u.pendingOffer = []
    · rw [if_pos hpending]
      exact silent_unchanged hu
    · rw [if_neg hpending, if_pos (by simp [hu])]
      exact silent_unchanged hu
  cases event with
  | localSdp sdp draw =>
    obtain rfl := Option.some.inj h
    unfold onLocalSdp
    dsimp only
    split
    · exact silent_abortSignaling _
    · split
      · exact silent_unchanged hclosed
      · exact hsend _ _ hclosed
  | localIceCandidate c =>
    obtain rfl := Option.some.inj h
    unfold onLocalIceCandidate
    rw [if_pos (by simp [hclosed])]
    exact silent_unchanged hclosed
  | textMessage message draw accepted =>
    simp [handle, hclosed] at h
  | helloTimeout =>
    by_cases htimer : 0 < s.helloTimers
    · simp only [handle, if_pos htimer] at h
      obtain rfl := Option.some.inj h
      unfold onHelloTimeout
      dsimp only
      split
      · exact silent_unchanged hclosed
      · rw [if_pos (by simp [hclosed])]
        exact silent_unchanged hclosed
    · simp [handle, htimer] at h
  | wsDisconnected =>
    obtain rfl := Option.some.inj h
    exact silent_onWsDisconnected s
  | relayIceTimedOut =>
    obtain rfl := Option.some.inj h
    unfold onRelayIceTimedOut startWsFallback
    split
    · exact silent_unchanged hclosed
    · split
      · exact ⟨hclosed, by simp [Effect.quiet]⟩
      · rw [if_pos (by simp [hclosed])]
        exact ⟨hclosed, by simp [Effect.quiet]⟩
  | dataChannelsOpen =>
    obtain rfl := Option.some.inj h
    exact ⟨hclosed, by simp [onDataChannelsOpen]⟩

end SignalingServer

namespace SignalingConnection

variable {d : SignalingSession} {c : SignalingConnection}

/-- The history, and what the server holds of it while the socket is open. -/
def Inv (d : SignalingSession) (c : SignalingConnection) : Prop :=
  History d c.descriptions c.candidates c.log ∧
    (c.server.wsOpen = true → Live c.server c.descriptions c.candidates c.log)

theorem inv_start (s : SignalingServer) : Inv d (start s) := by
  refine ⟨History.nil, fun _ => ?_⟩
  exact {
    waiting := fun h => absurd rfl h
    unmet := fun _ => rfl
    sent := fun h => absurd rfl h
    offered := fun _ => Or.inl rfl
    free := fun _ => rfl
    gathered := rfl }

theorem Inv.bound (h : Inv d c) : Bound d c where
  answered := h.1.answered
  once := h.1.once
  signed := h.1.signed
  inOrder := h.1.inOrder
  delivered hopen := by
    exact h.1.inOrder.items_append_rest (h.2 hopen).gathered
  held hopen hheld := by
    have hpending : c.server.pendingOffer ≠ [] := fun hnone => hheld ((h.2 hopen).free hnone)
    obtain ⟨hhello, _, _, hlast, _⟩ := (h.2 hopen).waiting hpending
    exact ⟨hhello, hlast⟩

theorem Inv.silent (h : Inv d c) {event : SignalingEvent} {r : SignalingServer × List Effect}
    (hr : Silent r) : Inv d (c.record event r.1 r.2) := by
  constructor
  · exact ((h.1.describe _).gather _).quiet hr.2
  · intro hopen
    have hclosed : r.1.wsOpen = false := hr.1
    cases hclosed.symm.trans hopen

/-- A step that gathers nothing, sends nothing and keeps what the server holds. -/
theorem Inv.quiet (h : Inv d c) {event : SignalingEvent} {t : SignalingServer}
    {effects : List Effect} (hdescription : event.description = [])
    (hcandidate : event.candidate = []) (heffects : ∀ e ∈ effects, e.quiet = true)
    (hlive : Live t c.descriptions c.candidates c.log) : Inv d (c.record event t effects) := by
  unfold record Inv
  rw [hdescription, hcandidate]
  simp only [List.append_nil, List.map_nil]
  exact ⟨h.1.quiet heffects, fun _ => hlive.quiet heffects⟩

/-- The offer going out, or the connection aborted, keeps the invariant. -/
theorem inv_sendSignedOffer (hpaired : d.browserSpki ≠ []) {s : SignalingServer}
    {descriptions : List QString} {candidates : List (Nat × IceCandidate)}
    {log : List (Nat × Effect)} (h : History d descriptions candidates log)
    (hopen : s.wsOpen = true) (hhello : s.helloReceived = true) (hpending : s.pendingOffer ≠ [])
    (hfp : s.localFingerprint = extract s.pendingOffer)
    (hsome : s.localFingerprint ≠ []) (hlast : descriptions.getLast? = some s.pendingOffer)
    (hnew : descriptions.length ∉ offerEpochs log)
    (hgathered : (candidates.drop (Sent.items (channel log)).length).map Prod.snd =
      s.pendingCandidates) (draw : QByteArray) :
    Inv d ⟨(s.sendSignedOffer d draw).1, descriptions, candidates,
      log ++ (s.sendSignedOffer d draw).2.map (Prod.mk descriptions.length)⟩ := by
  cases sendSignedOffer_cases hpaired hopen hpending draw with
  | inl hsilent =>
    refine ⟨h.quiet hsilent.2, fun hstill => ?_⟩
    cases hsilent.1.symm.trans hstill
  | inr hsent =>
    obtain ⟨hdraw, sig, hsig, hsign, hresult⟩ := hsent
    rw [hresult]
    have hsigned : d.SignedBy ⟨s.pendingOffer, some ⟨d.hostId, draw, sig⟩⟩ := by
      refine ⟨_, s.nonceBrowser, rfl, hsig, ?_⟩
      rw [← hfp]
      exact hsign
    have hdrawn := h.snoc_quiet (e := .nonceDrawn draw) (k := descriptions.length) rfl
    have hbefore : ∀ k ∈ offerEpochs (log ++ [(descriptions.length, .nonceDrawn draw)]),
        k < descriptions.length := by
      intro k hk
      rw [offerEpochs_quiet rfl] at hk
      exact lt_of_le_of_ne (h.known k hk) fun heq => hnew (heq ▸ hk)
    have hoffer := hdrawn.offer hbefore hlast hsigned
    obtain ⟨sent, hlog⟩ : ∃ sent, sent = log ++ [(descriptions.length, .nonceDrawn draw)] ++
        [(descriptions.length, .offer ⟨s.pendingOffer, some ⟨d.hostId, draw, sig⟩⟩)] :=
      ⟨_, rfl⟩
    rw [← hlog] at hoffer
    have hmem : (descriptions.length,
        Effect.offer ⟨s.pendingOffer, some ⟨d.hostId, draw, sig⟩⟩) ∈ sent := by
      simp [hlog]
    have hitems : Sent.items (channel sent) = Sent.items (channel log) := by
      rw [hlog, channel_append, channel_quiet rfl, Sent.items_append]
      simp [channel]
    have hepoch := mem_offerEpochs.mpr ⟨_, hmem⟩
    have hstands : ∀ g ∈ candidates.drop (Sent.items (channel sent)).length,
        g.1 = 0 ∨ ∃ k, g.1 ≤ k ∧ k ∈ offerEpochs sent := fun g hg =>
      Or.inr ⟨_, h.followed g (List.mem_of_mem_drop hg), hepoch⟩
    have hices := hoffer.ices (k := descriptions.length) rfl hstands
    rw [hitems, hgathered] at hices
    have hsentOffer : OfferSent sent draw s.localFingerprint :=
      ⟨descriptions.length, _, _, by simp [hlog], hmem, rfl, rfl, hfp.symm⟩
    have hall : log ++ (Effect.nonceDrawn draw ::
        .offer ⟨s.pendingOffer, some ⟨d.hostId, draw, sig⟩⟩ ::
          s.pendingCandidates.map .ice).map (Prod.mk descriptions.length) =
        sent ++ (s.pendingCandidates.map Effect.ice).map (Prod.mk descriptions.length) := by
      simp [hlog]
    rw [hall]
    refine ⟨hices, fun _ => ?_⟩
    exact {
      waiting := fun hno => absurd rfl hno
      unmet := fun hno => by cases hhello.symm.trans hno
      sent := fun _ => ⟨hsome, hsentOffer.mono⟩
      offered := fun _ => Or.inr (mem_offerEpochs.mpr ⟨_, List.mem_append_left _ hmem⟩)
      free := fun _ => rfl
      gathered := by
        rw [channel_append, channel_ices, Sent.items_append, Sent.items_map_item, hitems,
          List.length_append, ← List.drop_drop, List.map_drop, hgathered, List.drop_length] }

section Steps

variable {draw : QByteArray}

theorem Inv.localSdp (hpaired : d.browserSpki ≠ []) (h : Inv d c)
    (hopen : c.server.wsOpen = true) {sdp : QString} :
    Inv d (c.record (.localSdp sdp draw) (c.server.onLocalSdp d sdp draw).1
      (c.server.onLocalSdp d sdp draw).2) := by
  have hlive := h.2 hopen
  have hnew : (c.descriptions ++ [sdp]).length ∉ offerEpochs c.log := by
    intro hmem
    have hle := h.1.known _ hmem
    rw [List.length_append, List.length_singleton] at hle
    omega
  have hlast : (c.descriptions ++ [sdp]).getLast? = some sdp := List.getLast?_concat
  have hsome : extract sdp ≠ [] → sdp ≠ [] := by
    intro hfp hempty
    subst hempty
    exact hfp rfl
  cases onLocalSdp_cases hpaired sdp draw with
  | inl hsilent => exact h.silent hsilent
  | inr hmade =>
    obtain ⟨hfp, hheld | hsent⟩ := hmade
    · obtain ⟨hhello, hresult⟩ := hheld
      rw [hresult]
      refine ⟨((h.1.describe _).gather _).quiet (by simp), fun _ => ?_⟩
      simp only [record, description, candidate, List.map_nil,
        List.append_nil]
      exact {
        waiting := fun _ => ⟨hhello, rfl, hfp, hlast, hnew⟩
        unmet := hlive.unmet
        sent := fun hnonce => absurd (hlive.unmet hhello) hnonce
        offered := fun hno => absurd hno (hsome hfp)
        free := fun hno => absurd hno (hsome hfp)
        gathered := hlive.gathered }
    · obtain ⟨hhello, hresult⟩ := hsent
      rw [hresult]
      have hsend := inv_sendSignedOffer hpaired (h.1.describe [sdp])
        (s := { c.server with
            pendingOffer := sdp
            localFingerprint := extract sdp })
        hopen hhello (hsome hfp) rfl hfp hlast hnew hlive.gathered draw
      simpa only [record, description, candidate, List.map_nil,
        List.append_nil] using hsend

theorem Inv.localIceCandidate (h : Inv d c) (hopen : c.server.wsOpen = true) {i : IceCandidate} :
    Inv d (c.record (.localIceCandidate i) (c.server.onLocalIceCandidate i).1
      (c.server.onLocalIceCandidate i).2) := by
  have hlive := h.2 hopen
  have hfront := h.1.inOrder.isPrefix.length_le
  rw [List.length_map] at hfront
  have hmore : (c.candidates ++ [i].map (Prod.mk c.descriptions.length)).drop
      (Sent.items (channel c.log)).length =
        c.candidates.drop (Sent.items (channel c.log)).length ++
          [i].map (Prod.mk c.descriptions.length) :=
    List.drop_append_of_le_length hfront
  unfold onLocalIceCandidate
  rw [if_neg (by simp [hopen])]
  by_cases hpending : c.server.pendingOffer = []
  · rw [if_neg (by simp [hpending]), sendIceCandidate, if_pos hopen]
    have hnone : c.candidates.drop (Sent.items (channel c.log)).length = [] := by
      have hmap := hlive.gathered
      rw [hlive.free hpending] at hmap
      exact List.map_eq_nil_iff.mp hmap
    rw [hnone, List.nil_append] at hmore
    have hstands : ∀ g ∈ [i].map (Prod.mk c.descriptions.length),
        g.1 = 0 ∨ ∃ k, g.1 ≤ k ∧ k ∈ offerEpochs c.log := by
      intro g hg
      obtain rfl : g = (c.descriptions.length, i) := List.mem_singleton.mp hg
      cases hlive.offered hpending with
      | inl hnil => exact Or.inl (by rw [hnil]; rfl)
      | inr hoffer => exact Or.inr ⟨_, Nat.le_refl _, hoffer⟩
    have hices := (h.1.gather [i]).ices (k := c.descriptions.length) hmore hstands
    simp only [record, description, candidate, List.append_nil]
    refine ⟨hices, fun _ => ?_⟩
    exact {
      waiting := fun hno => absurd hpending hno
      unmet := hlive.unmet
      sent := fun hnonce => (hlive.sent hnonce).imp_right OfferSent.mono
      offered := fun _ => by
        rw [offerEpochs_append]
        exact (hlive.offered hpending).imp_right (List.mem_append_left _)
      free := hlive.free
      gathered := by
        rw [hlive.free hpending, channel_append, Sent.items_append, List.length_append,
          ← List.drop_drop, hmore]
        rfl }
  · rw [if_pos hpending]
    simp only [record, description, candidate, List.append_nil,
      List.map_nil]
    refine ⟨h.1.gather [i], fun _ => ?_⟩
    exact {
      waiting := hlive.waiting
      unmet := hlive.unmet
      sent := hlive.sent
      offered := fun hno => absurd hno hpending
      free := fun hno => absurd hno hpending
      gathered := by
        rw [hmore, List.map_append, hlive.gathered]
        rfl }

variable {event : SignalingEvent}

theorem Inv.hello (hpaired : d.browserSpki ≠ []) (h : Inv d c) (hopen : c.server.wsOpen = true)
    {msg : QJsonObject}
    (hdescription : event.description = []) (hcandidate : event.candidate = []) :
    Inv d (c.record event (c.server.onHello d msg draw).1 (c.server.onHello d msg draw).2) := by
  have hlive := h.2 hopen
  cases onHello_cases msg draw with
  | inl hsilent => exact h.silent hsilent
  | inr haccepted =>
    obtain ⟨hhello, nonce, hresult⟩ := haccepted
    rw [hresult]
    by_cases hpending : c.server.pendingOffer = []
    · have hnothing : ({ c.server with nonceBrowser := nonce, helloReceived := true } :
          SignalingServer).sendSignedOffer d draw =
            ({ c.server with nonceBrowser := nonce, helloReceived := true }, []) := by
        unfold sendSignedOffer
        rw [if_pos hpending]
      rw [hnothing]
      refine h.quiet hdescription hcandidate (by simp) ?_
      exact {
        waiting := fun hno => absurd hpending hno
        unmet := fun hno => by cases hno
        sent := fun hnonce => absurd (hlive.unmet hhello) hnonce
        offered := hlive.offered
        free := hlive.free
        gathered := hlive.gathered }
    · obtain ⟨_, hfp, hsome, hlast, hnew⟩ := hlive.waiting hpending
      have hsend := inv_sendSignedOffer hpaired h.1
        (s := { c.server with nonceBrowser := nonce, helloReceived := true })
        hopen rfl hpending hfp hsome hlast hnew hlive.gathered draw
      unfold record
      rw [hdescription, hcandidate]
      simpa only [List.map_nil, List.append_nil] using hsend

/-- An answer that would verify over the empty nonce comes after an offer. -/
theorem Inv.answer (hpaired : d.browserSpki ≠ []) (h : Inv d c) (hopen : c.server.wsOpen = true)
    {a : Answer} {accepted : Bool}
    (hdescription : event.description = []) (hcandidate : event.candidate = [])
    (htimely : c.server.nonceHost = [] → extract a.sdp = [] ∨ a.sig = [] ∨
      ¬ d.Covers [] c.server.localFingerprint a) :
    Inv d (c.record event (c.server.onAnswer d a accepted).1
      (c.server.onAnswer d a accepted).2) := by
  have hlive := h.2 hopen
  cases onAnswer_cases hpaired a accepted with
  | inl hsilent => exact h.silent hsilent
  | inr haccepted =>
    obtain ⟨hfp, hsig, hcovers, hresult⟩ := haccepted
    have hnonce : c.server.nonceHost ≠ [] := by
      intro hnone
      rw [hnone] at hcovers
      cases htimely hnone with
      | inl hno => exact hfp hno
      | inr hno => exact hno.elim hsig fun hno => hno hcovers
    obtain ⟨hsome, hsent⟩ := hlive.sent hnonce
    have hhistory := h.1.answer (k := c.descriptions.length) hnonce hsome hsent hcovers
    rw [hresult]
    unfold record Inv
    rw [hdescription, hcandidate]
    simp only [List.map_nil, List.append_nil, setRemoteDescription]
    refine ⟨hhistory, fun _ => ?_⟩
    exact {
      waiting := by simpa [offerEpochs] using hlive.waiting
      unmet := hlive.unmet
      sent := fun hnonce => (hlive.sent hnonce).imp_right OfferSent.mono
      offered := by simpa [offerEpochs] using hlive.offered
      free := hlive.free
      gathered := by simpa [channel] using hlive.gathered }

theorem Inv.startWsFallback (h : Inv d c) (hopen : c.server.wsOpen = true)
    (hdescription : event.description = []) (hcandidate : event.candidate = []) :
    Inv d (c.record event (c.server.startWsFallback d).1 (c.server.startWsFallback d).2) := by
  have hlive := h.2 hopen
  unfold SignalingServer.startWsFallback
  split
  · exact h.quiet hdescription hcandidate (by simp [Effect.quiet]) hlive
  · exact h.quiet hdescription hcandidate (by simp [Effect.quiet])
      (hlive.other c.server.helloTimers true true)

theorem Inv.textMessage (hpaired : d.browserSpki ≠ []) (h : Inv d c)
    (hopen : c.server.wsOpen = true) {message : Option QJsonObject}
    {accepted : Bool} (htimely : Timely d c (.textMessage message draw accepted)) :
    Inv d (c.record (.textMessage message draw accepted)
      (c.server.onWsTextMessage d message draw accepted).1
      (c.server.onWsTextMessage d message draw accepted).2) := by
  have hlive := h.2 hopen
  cases message with
  | none => exact h.quiet rfl rfl (by simp [onWsTextMessage]) hlive
  | some msg =>
    by_cases hfallback : c.server.wsFallbackActive = true
    · simp only [onWsTextMessage, if_pos hfallback]
      exact h.quiet rfl rfl (by simp) hlive
    · simp only [onWsTextMessage, if_neg hfallback]
      cases htype : messageType msg with
      | hello => exact h.hello hpaired hopen rfl rfl
      | sdp => exact h.answer hpaired hopen rfl rfl (htimely (by simpa using hfallback) htype)
      | ice => exact h.quiet rfl rfl (by simp [Effect.quiet]) hlive
      | fallbackWsRequest =>
        by_cases hallowed : (!d.allowWsFallback) = true
        · simp only [if_pos hallowed]
          exact h.quiet rfl rfl (by simp) hlive
        · simp only [if_neg hallowed]
          exact h.startWsFallback hopen rfl rfl
      | unknown => exact h.quiet rfl rfl (by simp) hlive

theorem Inv.move (hpaired : d.browserSpki ≠ []) (h : Inv d c)
    {t : SignalingConnection} (htimely : Timely d c event)
    (hmove : SignalingConnection.move d c event = some t) : Inv d t := by
  unfold SignalingConnection.move at hmove
  cases hhandle : event.handle d c.server with
  | none => simp [hhandle] at hmove
  | some r =>
    simp only [hhandle] at hmove
    obtain rfl := Option.some.inj hmove
    by_cases hopen : c.server.wsOpen = true
    · have hlive := h.2 hopen
      cases event with
      | localSdp sdp draw =>
        obtain rfl := Option.some.inj hhandle
        exact h.localSdp hpaired hopen
      | localIceCandidate i =>
        obtain rfl := Option.some.inj hhandle
        exact h.localIceCandidate hopen
      | textMessage message draw accepted =>
        simp only [handle, if_pos hopen] at hhandle
        obtain rfl := Option.some.inj hhandle
        exact h.textMessage hpaired hopen htimely
      | helloTimeout =>
        by_cases htimer : 0 < c.server.helloTimers
        · simp only [handle, if_pos htimer] at hhandle
          obtain rfl := Option.some.inj hhandle
          unfold onHelloTimeout
          dsimp only
          split
          · exact h.quiet rfl rfl (by simp) (hlive.other _ _ _)
          · rw [if_neg (by simp [hopen])]
            exact h.silent (silent_abortSignaling _)
        · simp [handle, htimer] at hhandle
      | wsDisconnected =>
        obtain rfl := Option.some.inj hhandle
        exact h.silent (silent_onWsDisconnected _)
      | relayIceTimedOut =>
        obtain rfl := Option.some.inj hhandle
        unfold onRelayIceTimedOut
        split
        · exact h.quiet rfl rfl (by simp) hlive
        · split
          · exact h.quiet rfl rfl (by simp [Effect.quiet]) hlive
          · exact h.startWsFallback hopen rfl rfl
      | dataChannelsOpen =>
        obtain rfl := Option.some.inj hhandle
        exact h.quiet rfl rfl (by simp [onDataChannelsOpen])
          (hlive.other _ _ _)
    · exact h.silent (silent_handle (by simpa using hopen) hhandle)

end Steps

/-- Along every connection whose events are timely, every description the relay is given
answers an offer sent before, the offers are signed and made once, and the candidates
follow them. -/
theorem connection_bound (hpaired : d.browserSpki ≠ []) {s : SignalingServer}
    {events : List SignalingEvent}
    (htimely : EachStep (moves (move d)) (fun c event _ => Timely d c event) (start s) events)
    (hrun : Run (moves (move d)) (start s) events c) : Bound d c := by
  have hinv : Inv d c :=
    htimely.invariant (fun _ _ _ h hstep ht => h.move hpaired ht hstep) (inv_start s) hrun
  exact hinv.bound

end SignalingConnection

namespace SignalingConnection

instance decidableCovers (d : SignalingSession) (nonce : QByteArray) (fingerprint : QString)
    (a : Answer) : Decidable (d.Covers nonce fingerprint a) :=
  inferInstanceAs (Decidable (_ = true))

instance decidableTimely (d : SignalingSession) (c : SignalingConnection)
    (event : SignalingEvent) : Decidable (Timely d c event) :=
  match event with
  | .textMessage (some _) _ _ => inferInstanceAs (Decidable (_ → _ → _ → _))
  | .textMessage none _ _ => isTrue trivial
  | .localSdp _ _ => isTrue trivial
  | .localIceCandidate _ => isTrue trivial
  | .helloTimeout => isTrue trivial
  | .wsDisconnected => isTrue trivial
  | .relayIceTimedOut => isTrue trivial
  | .dataChannelsOpen => isTrue trivial

def checksumSession : SignalingSession where
  crypto := checksum
  hostId := qs "h"
  hostKeyPem := [7]
  browserSpki := [7]
  allowWsFallback := false
  hasShim := false

def fresh : SignalingServer := ⟨true, false, [], [], [], [], [], 0, false, false, false⟩

def descriptionOf (byte : String) : QString :=
  qs "a=fingerprint:sha-256 " ++ [unit ':'].intercalate (List.replicate 32 (qs byte))

def helloMessage : SignalingEvent :=
  .textMessage (some [(qs "type", .string (qs "hello")), (qs "key_id", .string [7]),
    (qs "nonce", .string (qs "AAAAAAAAAAAAAAAAAAAAAA=="))]) [1, 2, 3] false

def answerMessage (sig : String) : SignalingEvent :=
  .textMessage (some [(qs "type", .string (qs "sdp")), (qs "sdp", .string (descriptionOf "BB")),
    (qs "sig", .string (qs sig))]) [] true

def hostCandidate : IceCandidate := ⟨qs "candidate", qs "0"⟩

/-- The offer waits for the hello, the candidate behind it, and the answer is signed. -/
theorem connection_bound_answered :
    ∃ c, Run (moves (move checksumSession)) (start fresh)
      [.localSdp (descriptionOf "AA") [], .localIceCandidate hostCandidate, helloMessage,
        answerMessage "Vw=="] c ∧ c.server.signalingComplete = true ∧ Bound checksumSession c := by
  have hcheck : checkMoves (move checksumSession) (Timely checksumSession) (start fresh)
      [.localSdp (descriptionOf "AA") [], .localIceCandidate hostCandidate, helloMessage,
        answerMessage "Vw=="] = true := by
    decide +kernel
  have hend : (runMoves (move checksumSession) (start fresh)
      [.localSdp (descriptionOf "AA") [], .localIceCandidate hostCandidate, helloMessage,
        answerMessage "Vw=="]).map (fun c => c.server.signalingComplete) = some true := by
    decide +kernel
  obtain ⟨c, hc, hcomplete⟩ := Option.map_eq_some_iff.mp hend
  have hrun := run_of_runMoves _ hc
  exact ⟨c, hrun, hcomplete,
    connection_bound (by decide) (eachStep_of_checkMoves hcheck) hrun⟩

/-- An answer before any offer, signed over the empty fields, reaches the relay. -/
theorem answer_before_offer :
    ¬ ∀ d s events c, d.browserSpki ≠ [] → Run (moves (move d)) (start s) events c →
      Bound d c := by
  intro hclaim
  have hend : (runMoves (move checksumSession) (start fresh) [answerMessage "qQ=="]).map
      (fun c => c.log) = some [(0, .setRemoteDescription ⟨descriptionOf "BB", [0xA9]⟩)] := by
    decide +kernel
  obtain ⟨c, hc, hlog⟩ := Option.map_eq_some_iff.mp hend
  have hbound := hclaim _ _ _ c (by decide) (run_of_runMoves _ hc)
  obtain ⟨_, _, _, _, ⟨_, _, _, hdrawn, _⟩, _⟩ := hbound.answered [] 0 _ [] hlog
  cases hdrawn

variable {d : SignalingSession} {c : SignalingConnection} {signed : List Signed}

/-- What the browser has to sign for an answer to an offer. -/
def asked (d : SignalingSession) (nonce : QByteArray) (fingerprint : QString) (a : Answer) :
    Signed :=
  ⟨d.hostId.toUtf8, nonce, fingerprint.toUtf8, (extract a.sdp).toUtf8⟩

/-- Every answer the relay is given is one the browser signed, over an offer sent before. -/
def AnswersSigned (d : SignalingSession) (signed : List Signed) (c : SignalingConnection) : Prop :=
  ∀ before k a after, c.log = before ++ (k, .setRemoteDescription a) :: after →
    ∃ nonce fingerprint, OfferSent before nonce fingerprint ∧
      ((asked d nonce fingerprint a).Short → asked d nonce fingerprint a ∈ signed)

theorem timely_of_unforged (hunforged : Unforged d.crypto d.browserSpki signed)
    (hid : d.hostId.toUtf8.length < 2 ^ 32) (event : SignalingEvent) : Timely d c event := by
  cases event with
  | textMessage message draw accepted =>
    cases message with
    | none => trivial
    | some msg =>
      refine fun _ _ _ => Or.inr (Or.inr fun hcovers => ?_)
      obtain ⟨a, ha, hmessage⟩ := hunforged.verifies _ _ hcovers
      obtain ⟨hnonce, hshort⟩ := hunforged.nonces a ha
      exact hnonce (nonce_of_fields (b := ⟨_, [], _, _⟩) hshort hid rfl hmessage)
  | _ => trivial

/-- With signatures that nobody forges, no order of events breaks the promise of the connection,
and the relay is given nothing but what the browser signed. -/
theorem connection_signed (hpaired : d.browserSpki ≠ []) (hid : d.hostId.toUtf8.length < 2 ^ 32)
    (hunforged : Unforged d.crypto d.browserSpki signed) {s : SignalingServer}
    {events : List SignalingEvent} (hrun : Run (moves (move d)) (start s) events c) :
    Bound d c ∧ AnswersSigned d signed c := by
  have hinv : Inv d c := hrun.invariant
    (fun _ event _ h hstep => h.move hpaired (timely_of_unforged hunforged hid event) hstep)
    (inv_start s)
  refine ⟨hinv.bound, fun before k a after hlog => ?_⟩
  obtain ⟨nonce, fingerprint, _, _, hsent, hcovers⟩ := hinv.1.answered before k a after hlog
  refine ⟨nonce, fingerprint, hsent, fun hshort => ?_⟩
  obtain ⟨b, hb, hmessage⟩ := hunforged.verifies _ _ hcovers
  rwa [fields_injective hshort (hunforged.nonces b hb).2 hmessage]

def signedAnswer : Signed :=
  asked checksumSession [1, 2, 3] (extract (descriptionOf "AA")) ⟨descriptionOf "BB", []⟩

def signedSession : SignalingSession :=
  { checksumSession with
    crypto := { checksum with
      verify := fun _ message _ => message = buildSignedMessage signedAnswer.fields } }

/-- The browser signs one answer, which the relay is given. -/
theorem connection_signed_once :
    ∃ c, Run (moves (move signedSession)) (start fresh)
      [.localSdp (descriptionOf "AA") [], helloMessage, answerMessage "Vw=="] c ∧
        c.server.signalingComplete = true ∧ Bound signedSession c ∧
          AnswersSigned signedSession [signedAnswer] c := by
  have hend : (runMoves (move signedSession) (start fresh)
      [.localSdp (descriptionOf "AA") [], helloMessage, answerMessage "Vw=="]).map
        (fun c => c.server.signalingComplete) = some true := by
    decide +kernel
  obtain ⟨c, hc, hcomplete⟩ := Option.map_eq_some_iff.mp hend
  have hrun := run_of_runMoves _ hc
  have hunforged : Unforged signedSession.crypto signedSession.browserSpki [signedAnswer] := by
    refine ⟨fun _ _ h => ⟨signedAnswer, by simp, of_decide_eq_true h⟩, fun a ha => ?_⟩
    rw [List.mem_singleton.mp ha]
    decide +kernel
  exact ⟨c, hrun, hcomplete, connection_signed (by decide) (by decide +kernel) hunforged hrun⟩

end SignalingConnection

end MoonlightWeb.Streaming
