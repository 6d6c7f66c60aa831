import MoonlightWeb.Server.ControlTunnel
import MoonlightWeb.Lib.Run
import Mathlib.Data.List.Nodup

/-! # Conservation of the tunnel's ports

Ports move between the idle list, the peers and the handler that has one in
hand. `Pool` says where every port is at each point inside a handler, and who
is queued for one; every operation moves a port from one place to another.
-/

namespace MoonlightWeb.Server.ControlTunnel

open Lib Qt Common.PairingCrypto List

/-- The ports and the queue between two events. -/
structure Conserved (t : Tunnel) : Prop where
  notBoth : ∀ q ∈ t.freePorts, ∀ id p, t.peers id = some p → p.port ≠ q
  notTwice : ∀ id id' p p', t.peers id = some p → t.peers id' = some p' →
    p.port ≠ 0 → p.port = p'.port → id = id'
  idleOnce : t.freePorts.Nodup
  placed : ∀ q ∈ t.held, q ∈ t.freePorts ∨ ∃ id p, t.peers id = some p ∧ p.port = q
  queued : ∀ id, (∃ p, t.peers id = some p ∧ p.awaitingPort = true) ↔ id ∈ t.waitingPeers
  queuedOnce : ∀ id ∈ t.waitingPeers, t.waitingPeers.count id = 1

/-- Inside a handler: `loose` is the port it has in hand, 0 when it has none,
and `starting` the sessions it took off the queue and has not started yet. -/
structure Pool (loose : UInt16) (starting : List QString) (t : Tunnel) : Prop where
  idleOnce : t.freePorts.Nodup
  idleHeld : ∀ q ∈ t.freePorts, q ∈ t.held
  heldReal : (0 : UInt16) ∉ t.held
  apart : ∀ id p, t.peers id = some p → p.port ∉ t.freePorts
  single : ∀ id id' p p', t.peers id = some p → t.peers id' = some p' →
    p.port ≠ 0 → p.port = p'.port → id = id'
  looseApart : loose ∉ t.freePorts
  looseSingle : loose ≠ 0 → ∀ id p, t.peers id = some p → p.port ≠ loose
  placed : ∀ q ∈ t.held,
    q ∈ t.freePorts ∨ q = loose ∨ ∃ id p, t.peers id = some p ∧ p.port = q
  queueOnce : (starting ++ t.waitingPeers).Nodup
  queued : ∀ id, id ∈ starting ++ t.waitingPeers ↔
    ∃ p, t.peers id = some p ∧ p.awaitingPort = true
  queuedBare : ∀ id p, t.peers id = some p → p.awaitingPort = true → p.port = 0

variable {t : Tunnel} {loose : UInt16} {starting : List QString} {id : QString} {p : Peer}

theorem Pool.conserved (h : Pool 0 [] t) : Conserved t where
  notBoth q hq id p hp heq := h.apart id p hp (heq ▸ hq)
  notTwice := h.single
  idleOnce := h.idleOnce
  placed q hq := by
    rcases h.placed q hq with hidle | hzero | hassigned
    · exact Or.inl hidle
    · exact absurd (hzero ▸ hq) h.heldReal
    · exact Or.inr hassigned
  queued id := by simpa using (h.queued id).symm
  queuedOnce id hid := count_eq_one_of_mem (by simpa using h.queueOnce) hid

theorem Pool.zero_notIdle (h : Pool loose starting t) : (0 : UInt16) ∉ t.freePorts :=
  fun hzero => h.heldReal (h.idleHeld 0 hzero)

/-- The pool does not see the calls, the claims in flight or the settings. -/
theorem Pool.congr {u : Tunnel} (h : Pool loose starting t) (hpeers : u.peers = t.peers)
    (hfree : u.freePorts = t.freePorts) (hwaiting : u.waitingPeers = t.waitingPeers)
    (hheld : u.held = t.held) : Pool loose starting u := by
  obtain ⟨_, peers, free, waiting, held, _, _⟩ := u
  simp only at hpeers hfree hwaiting hheld
  subst hpeers hfree hwaiting hheld
  exact { h with }

theorem Pool.take (h : Pool 0 starting t) :
    Pool (takeTunnelPort t).1 starting (takeTunnelPort t).2 := by
  unfold takeTunnelPort
  cases hfree : t.freePorts with
  | nil => exact h
  | cons q rest =>
    have honce : q ∉ rest ∧ rest.Nodup := by simpa [hfree] using h.idleOnce
    have hsub : ∀ r ∈ rest, r ∈ t.freePorts := fun r hr => by simp [hfree, hr]
    have hq : q ∈ t.freePorts := by simp [hfree]
    exact {
      idleOnce := honce.2
      idleHeld := fun r hr => h.idleHeld r (hsub r hr)
      heldReal := h.heldReal
      apart := fun id p hp hr => h.apart id p hp (hsub _ hr)
      single := h.single
      looseApart := honce.1
      looseSingle := fun _ id p hp heq => h.apart id p hp (heq ▸ hq)
      placed := by
        intro r hr
        rcases h.placed r hr with hidle | hzero | hassigned
        · rw [hfree, mem_cons] at hidle
          rcases hidle with heq | hidle
          · exact Or.inr (Or.inl heq)
          · exact Or.inl hidle
        · exact absurd (hzero ▸ hr) h.heldReal
        · exact Or.inr (Or.inr hassigned)
      queueOnce := h.queueOnce
      queued := h.queued
      queuedBare := h.queuedBare }

theorem Pool.release (h : Pool loose starting t) : Pool 0 starting (releaseTunnelPort t loose) := by
  have hnone : loose ∉ t.held → Pool 0 starting t := fun hnot =>
    { h with
      looseApart := h.zero_notIdle
      looseSingle := fun hne => absurd rfl hne
      placed := by
        intro r hr
        rcases h.placed r hr with hidle | heq | hassigned
        · exact Or.inl hidle
        · exact absurd (heq ▸ hr) hnot
        · exact Or.inr (Or.inr hassigned) }
  unfold releaseTunnelPort
  by_cases hback : loose = 0 ∨ loose ∈ t.freePorts
  · rw [if_pos hback]
    have hzero : loose = 0 := hback.resolve_right h.looseApart
    exact hnone (hzero ▸ h.heldReal)
  rw [if_neg hback]
  have hreal : loose ≠ 0 := fun heq => hback (Or.inl heq)
  by_cases hheld : loose ∈ t.held
  · rw [if_pos hheld]
    exact {
      idleOnce := by
        rw [nodup_append]
        refine ⟨h.idleOnce, by simp, ?_⟩
        intro q hq r hr heq
        have hr : r = loose := by simpa using hr
        exact h.looseApart (hr ▸ heq ▸ hq)
      idleHeld := by
        intro q hq
        rcases mem_append.mp hq with hq | hq
        · exact h.idleHeld q hq
        · have hq : q = loose := by simpa using hq
          exact hq ▸ hheld
      heldReal := h.heldReal
      apart := by
        intro id p hp hmem
        rcases mem_append.mp hmem with hmem | hmem
        · exact h.apart id p hp hmem
        · exact h.looseSingle hreal id p hp (by simpa using hmem)
      single := h.single
      looseApart := by
        intro hmem
        rcases mem_append.mp hmem with hmem | hmem
        · exact h.zero_notIdle hmem
        · have heq : (0 : UInt16) = loose := by simpa using hmem
          exact hreal heq.symm
      looseSingle := fun hne => absurd rfl hne
      placed := by
        intro r hr
        rcases h.placed r hr with hidle | heq | hassigned
        · exact Or.inl (mem_append_left _ hidle)
        · exact Or.inl (mem_append_right _ (by simp [heq]))
        · exact Or.inr (Or.inr hassigned)
      queueOnce := h.queueOnce
      queued := h.queued
      queuedBare := h.queuedBare }
  · rw [if_neg hheld]
    exact hnone hheld

/-- A peer that leaves the table leaves its port in the handler's hand. -/
theorem Pool.erase (h : Pool 0 starting t) (hp : t.peers id = some p) (hid : id ∉ starting) :
    Pool p.port starting { t with
        peers := Function.update t.peers id none
        waitingPeers := t.waitingPeers.filter (· ≠ id) } := by
  have hkept : ∀ {id' p'}, Function.update t.peers id none id' = some p' →
      id' ≠ id ∧ t.peers id' = some p' := by
    intro id' p' hp'
    by_cases heq : id' = id
    · simp [heq] at hp'
    · exact ⟨heq, by simpa [Function.update_of_ne heq] using hp'⟩
  exact {
    idleOnce := h.idleOnce
    idleHeld := h.idleHeld
    heldReal := h.heldReal
    apart := fun id' p' hp' => h.apart id' p' (hkept hp').2
    single := fun a b pa pb ha hb => h.single a b pa pb (hkept ha).2 (hkept hb).2
    looseApart := h.apart id p hp
    looseSingle := by
      intro hne id' p' hp' heq
      exact (hkept hp').1 (h.single id id' p p' hp (hkept hp').2 hne heq.symm).symm
    placed := by
      intro q hq
      rcases h.placed q hq with hidle | hzero | ⟨id', p', hp', hport⟩
      · exact Or.inl hidle
      · exact absurd (hzero ▸ hq) h.heldReal
      · by_cases heq : id' = id
        · rw [heq, hp] at hp'
          have hsame : p = p' := by simpa using hp'
          exact Or.inr (Or.inl (by rw [hsame, hport]))
        · exact Or.inr (Or.inr ⟨id', p', by simp [Function.update_of_ne heq, hp'], hport⟩)
    queueOnce := h.queueOnce.sublist (List.Sublist.append_left filter_sublist starting)
    queued := by
      intro id'
      by_cases heq : id' = id
      · simp [heq, hid]
      · simpa [Function.update_of_ne heq, heq] using h.queued id'
    queuedBare := fun id' p' hp' => h.queuedBare id' p' (hkept hp').2 }

theorem Pool.store (h : Pool p.port starting t) (hid : id ∉ starting ++ t.waitingPeers)
    (hbare : ∀ old, t.peers id = some old → old.port = 0) (hp : p.awaitingPort = false) :
    Pool 0 starting (t.setPeer id p) := by
  have hcases : ∀ {id' p'}, (t.setPeer id p).peers id' = some p' →
      (id' = id ∧ p' = p) ∨ (id' ≠ id ∧ t.peers id' = some p') := by
    intro id' p' hp'
    by_cases heq : id' = id
    · subst heq
      exact Or.inl ⟨rfl, by simpa using hp'.symm⟩
    · exact Or.inr ⟨heq, by simpa [t.setPeer_ne p heq] using hp'⟩
  exact {
    idleOnce := h.idleOnce
    idleHeld := h.idleHeld
    heldReal := h.heldReal
    apart := by
      intro id' p' hp'
      rcases hcases hp' with ⟨_, rfl⟩ | ⟨_, hold⟩
      · exact h.looseApart
      · exact h.apart id' p' hold
    single := by
      intro a b pa pb ha hb hne heq
      rcases hcases ha with ⟨rfl, rfl⟩ | ⟨_, hold⟩ <;> rcases hcases hb with ⟨rfl, rfl⟩ | ⟨_, hold'⟩
      · rfl
      · exact absurd heq.symm (h.looseSingle hne b pb hold')
      · exact absurd heq (h.looseSingle (heq ▸ hne) a pa hold)
      · exact h.single a b pa pb hold hold' hne heq
    looseApart := h.zero_notIdle
    looseSingle := fun hne => absurd rfl hne
    placed := by
      intro q hq
      rcases h.placed q hq with hidle | heq | ⟨id', p', hp', hport⟩
      · exact Or.inl hidle
      · exact Or.inr (Or.inr ⟨id, p, by simp, heq.symm⟩)
      · by_cases heq : id' = id
        · have hzero : p'.port = 0 := hbare p' (heq ▸ hp')
          exact absurd (hzero ▸ hport ▸ hq) h.heldReal
        · exact Or.inr (Or.inr ⟨id', p', by rw [t.setPeer_ne p heq, hp'], hport⟩)
    queueOnce := h.queueOnce
    queued := by
      intro id'
      by_cases heq : id' = id
      · rw [heq]
        have hnot : id ∉ starting ++ (t.setPeer id p).waitingPeers := hid
        simp [hnot, hp]
      · rw [t.setPeer_ne p heq]
        exact h.queued id'
    queuedBare := by
      intro id' p' hp' haw
      rcases hcases hp' with ⟨_, rfl⟩ | ⟨_, hold⟩
      · simp [hp] at haw
      · exact h.queuedBare id' p' hold haw }

theorem dropPeer_pool (h : Pool 0 starting t) (hid : id ∉ starting) :
    Pool 0 starting (dropPeer t id) := by
  unfold dropPeer
  cases hp : t.peers id with
  | none => exact h
  | some p => exact (h.erase hp hid).release

theorem endSession_pool (h : Pool 0 starting t) (hid : id ∉ starting) :
    Pool 0 starting (endSession t id) :=
  dropPeer_pool (h.congr (u := t.call _) rfl rfl rfl rfl) hid

/-- A session that is being started: off the queue, and with no port in the table. -/
structure Bare (starting : List QString) (t : Tunnel) (id : QString) : Prop where
  unqueued : id ∉ starting ++ t.waitingPeers
  portless : ∀ old, t.peers id = some old → old.port = 0

variable {binds : Binds}

theorem createEphemeral_pool (h : Pool 0 starting t) (hbare : Bare starting t id)
    (hport : p.port = 0) (hp : p.awaitingPort = false) :
    Pool 0 starting (createEphemeral binds t id p) := by
  have hstored : ∀ pc, Pool 0 starting (t.setPeer id { p with pc := pc }) := fun pc =>
    Pool.store (p := { p with pc := pc }) (by rw [hport]; exact h) hbare.unqueued
      hbare.portless hp
  unfold createEphemeral
  by_cases hbinds : binds id 0 = true
  · rw [if_pos hbinds]
    exact hstored true
  · rw [if_neg hbinds]
    exact endSession_pool (hstored false) fun hmem =>
      hbare.unqueued (mem_append_left _ hmem)

theorem createPeerConnection_pool (h : Pool p.port starting t)
    (hbare : Bare starting t id) (hp : p.awaitingPort = false) :
    Pool 0 starting (createPeerConnection binds t id p) := by
  unfold createPeerConnection
  by_cases hport : p.port = 0
  · rw [if_pos hport]
    exact createEphemeral_pool (hport ▸ h) hbare hport hp
  rw [if_neg hport]
  by_cases hbinds : binds id p.port = true
  · rw [if_pos hbinds]
    exact Pool.store (p := { p with pc := true }) h hbare.unqueued hbare.portless hp
  · rw [if_neg hbinds]
    obtain ⟨hpeers, hwaiting, _⟩ := releaseTunnelPort_frame t p.port
    have hbare' : Bare starting (releaseTunnelPort t p.port) id := {
      unqueued := by rw [hwaiting]; exact hbare.unqueued
      portless := by rw [hpeers]; exact hbare.portless }
    exact createEphemeral_pool h.release hbare' rfl hp

/-- `startPeer` first takes the peer off the queue. -/
theorem Pool.unqueue (h : Pool 0 starting t) (hp : t.peers id = some p)
    (haw : p.awaitingPort = true) :
    Pool 0 (starting.filter (· ≠ id)) { t.setPeer id { p with awaitingPort := false } with
        waitingPeers := t.waitingPeers.filter (· ≠ id) } := by
  have hport : p.port = 0 := h.queuedBare id p hp haw
  have hcases : ∀ {id' p'},
      (t.setPeer id { p with awaitingPort := false }).peers id' = some p' →
      ∃ old, t.peers id' = some old ∧ old.port = p'.port ∧
        (p'.awaitingPort = true → old.awaitingPort = true) := by
    intro id' p' hp'
    by_cases heq : id' = id
    · subst heq
      have hsame : p' = { p with awaitingPort := false } := by simpa using hp'.symm
      exact ⟨p, hp, by rw [hsame], fun _ => haw⟩
    · rw [t.setPeer_ne _ heq] at hp'
      exact ⟨p', hp', rfl, fun hf => hf⟩
  exact {
    idleOnce := h.idleOnce
    idleHeld := h.idleHeld
    heldReal := h.heldReal
    apart := by
      intro id' p' hp'
      obtain ⟨old, hold, heq, _⟩ := hcases hp'
      rw [← heq]
      exact h.apart id' old hold
    single := by
      intro a b pa pb ha hb hne heq
      obtain ⟨oa, hoa, hea, _⟩ := hcases ha
      obtain ⟨ob, hob, heb, _⟩ := hcases hb
      exact h.single a b oa ob hoa hob (hea ▸ hne) (by rw [hea, heb, heq])
    looseApart := h.looseApart
    looseSingle := fun hne => absurd rfl hne
    placed := by
      intro q hq
      rcases h.placed q hq with hidle | hzero | ⟨id', p', hp', hq'⟩
      · exact Or.inl hidle
      · exact Or.inr (Or.inl hzero)
      · by_cases heq : id' = id
        · rw [heq, hp] at hp'
          have hsame : p = p' := by simpa using hp'
          exact Or.inr (Or.inl (by rw [← hq', ← hsame, hport]))
        · exact Or.inr (Or.inr ⟨id', p', by rw [t.setPeer_ne _ heq, hp'], hq'⟩)
    queueOnce := by
      have hsub := h.queueOnce.filter (· ≠ id)
      rwa [filter_append] at hsub
    queued := by
      intro id'
      by_cases heq : id' = id
      · simp [heq]
      · rw [t.setPeer_ne _ heq]
        simpa [heq] using h.queued id'
    queuedBare := by
      intro id' p' hp' haw'
      obtain ⟨old, hold, heq, himp⟩ := hcases hp'
      exact heq ▸ h.queuedBare id' old hold (himp haw') }

theorem startPeer_pool (h : Pool 0 starting t) (hp : t.peers id = some p)
    (haw : p.awaitingPort = true) :
    Pool 0 (starting.filter (· ≠ id)) (startPeer binds t id p) := by
  have hport : p.port = 0 := h.queuedBare id p hp haw
  have hpool := h.unqueue hp haw
  unfold startPeer
  rw [if_pos hport]
  obtain ⟨hpeers, hwaiting, _⟩ := takeTunnelPort_frame
    { t.setPeer id { p with awaitingPort := false } with
      waitingPeers := t.waitingPeers.filter (· ≠ id) }
  refine createPeerConnection_pool hpool.take ⟨?_, ?_⟩ rfl
  · rw [hwaiting]
    simp
  · intro old hold
    rw [hpeers] at hold
    have hsame : old = { p with awaitingPort := false } := by simpa using hold.symm
    rw [hsame, hport]

theorem startWaiting_pool (binds : Binds) (id : QString) (h : Pool 0 starting t) :
    Pool 0 (starting.filter (· ≠ id)) (startWaiting binds t id) := by
  have hskip : (∀ p, t.peers id = some p → p.awaitingPort = false) →
      Pool 0 (starting.filter (· ≠ id)) t := by
    intro hnot
    have habsent : ∀ x ∈ starting, decide (x ≠ id) = true := by
      intro x hx
      by_contra heq
      have heq : x = id := by simpa using heq
      obtain ⟨p, hp, haw⟩ := (h.queued id).mp (mem_append_left _ (heq ▸ hx))
      simp [hnot p hp] at haw
    rwa [filter_eq_self.mpr habsent]
  unfold startWaiting
  cases hp : t.peers id with
  | none => exact hskip (by simp [hp])
  | some p =>
    by_cases haw : p.awaitingPort = true
    · simpa [haw] using startPeer_pool h hp haw
    · simpa [haw] using hskip (by simpa [hp] using haw)

theorem startAll_pool (ids : List QString) (h : Pool 0 ids t) :
    Pool 0 [] (ids.foldl (startWaiting binds) t) := by
  induction ids generalizing t with
  | nil => exact h
  | cons id ids ih =>
    have hnodup : id ∉ ids := by
      have honce := h.queueOnce
      rw [cons_append, nodup_cons] at honce
      exact fun hmem => honce.1 (mem_append_left _ hmem)
    have hrest : (id :: ids).filter (· ≠ id) = ids := by
      rw [filter_cons_of_neg (by simp)]
      exact filter_eq_self.mpr fun x hx => by
        have hne : x ≠ id := fun heq => hnodup (heq ▸ hx)
        simpa using hne
    have hnext := startWaiting_pool binds id h
    rw [hrest] at hnext
    exact ih hnext

theorem giveUpWaiting_pool (h : Pool 0 [] t) :
    Pool 0 [] (giveUpWaiting binds t) := by
  apply startAll_pool
  exact { h with
    queueOnce := by simpa using h.queueOnce
    queued := by simpa using h.queued }

theorem serveWaitingPeersFor_pool (fuel : Nat) (h : Pool 0 [] t) :
    Pool 0 [] (serveWaitingPeersFor binds fuel t) := by
  induction fuel generalizing t with
  | zero => exact h
  | succ fuel ih =>
    unfold serveWaitingPeersFor
    split
    · rename_i id rest _ _ hwaiting hfree
      have hmoved : Pool 0 [id] { t with waitingPeers := rest } :=
        { h with
          queueOnce := by simpa [hwaiting] using h.queueOnce
          queued := by simpa [hwaiting] using h.queued }
      have hnext := startWaiting_pool binds id hmoved
      exact ih (by simpa using hnext)
    · exact h

theorem requestTunnelPort_pool (h : Pool loose starting t) :
    Pool loose starting (requestTunnelPort t) := by
  unfold requestTunnelPort
  split
  · exact h
  · split
    · exact h
    · exact { h with }

theorem Pool.enqueue (h : Pool 0 [] t) (hbare : Bare [] t id) (habsent : t.peers id = none) :
    Pool 0 [] { t.setPeer id { port := 0, awaitingPort := true } with
        waitingPeers := t.waitingPeers ++ [id] } := by
  have hunqueued : id ∉ t.waitingPeers := by simpa using hbare.unqueued
  have hcases : ∀ {id' p'},
      (t.setPeer id { port := 0, awaitingPort := true }).peers id' = some p' →
      (id' = id ∧ p'.port = 0) ∨ (id' ≠ id ∧ t.peers id' = some p') := by
    intro id' p' hp'
    by_cases heq : id' = id
    · subst heq
      have hsame : p' = { port := 0, awaitingPort := true } := by simpa using hp'.symm
      exact Or.inl ⟨rfl, by rw [hsame]⟩
    · exact Or.inr ⟨heq, by simpa [t.setPeer_ne _ heq] using hp'⟩
  exact {
    idleOnce := h.idleOnce
    idleHeld := h.idleHeld
    heldReal := h.heldReal
    apart := by
      intro id' p' hp'
      rcases hcases hp' with ⟨_, hzero⟩ | ⟨_, hold⟩
      · rw [hzero]
        exact h.zero_notIdle
      · exact h.apart id' p' hold
    single := by
      intro a b pa pb ha hb hne heq
      rcases hcases ha with ⟨_, hzero⟩ | ⟨_, hold⟩
      · exact absurd hzero hne
      rcases hcases hb with ⟨_, hzero⟩ | ⟨_, hold'⟩
      · exact absurd (heq.trans hzero) hne
      · exact h.single a b pa pb hold hold' hne heq
    looseApart := h.looseApart
    looseSingle := fun hne => absurd rfl hne
    placed := by
      intro q hq
      rcases h.placed q hq with hidle | hzero | ⟨id', p', hp', hport⟩
      · exact Or.inl hidle
      · exact Or.inr (Or.inl hzero)
      · have hne : id' ≠ id := fun heq => by simp [heq, habsent] at hp'
        exact Or.inr (Or.inr ⟨id', p', by rw [t.setPeer_ne _ hne, hp'], hport⟩)
    queueOnce := by
      have honce : t.waitingPeers.Nodup := by simpa using h.queueOnce
      simp only [nil_append, nodup_append]
      refine ⟨honce, by simp, ?_⟩
      intro a ha b hb heq
      have hb : b = id := by simpa using hb
      exact hunqueued (hb ▸ heq ▸ ha)
    queued := by
      intro id'
      by_cases heq : id' = id
      · simp [heq]
      · rw [t.setPeer_ne _ heq]
        simpa [heq] using h.queued id'
    queuedBare := by
      intro id' p' hp' haw
      rcases hcases hp' with ⟨_, hzero⟩ | ⟨_, hold⟩
      · exact hzero
      · exact h.queuedBare id' p' hold haw }

/-- A port granted is neither held already nor carried by a live peer. -/
def FreshGrant (t : Tunnel) : Event → Prop
  | .claimGranted port _ => port ∉ t.held ∧ ∀ id p, t.peers id = some p → p.port ≠ port
  | _ => True

theorem claimGranted_pool {port : UInt16} (h : Pool 0 [] t) (hreal : port ≠ 0)
    (hheld : port ∉ t.held) (hcarried : ∀ id p, t.peers id = some p → p.port ≠ port) :
    Pool 0 [] (claimGranted binds t port) := by
  have hbooked : Pool port []
      { t with held := t.held ++ [port], inFlight := t.inFlight - 1 } := {
    idleOnce := h.idleOnce
    idleHeld := fun q hq => mem_append_left _ (h.idleHeld q hq)
    heldReal := by
      intro hmem
      rcases mem_append.mp hmem with hmem | hmem
      · exact h.heldReal hmem
      · have heq : (0 : UInt16) = port := by simpa using hmem
        exact hreal heq.symm
    apart := h.apart
    single := h.single
    looseApart := fun hmem => hheld (h.idleHeld port hmem)
    looseSingle := fun _ => hcarried
    placed := by
      intro q hq
      rcases mem_append.mp hq with hq | hq
      · rcases h.placed q hq with hidle | hzero | hassigned
        · exact Or.inl hidle
        · exact absurd (hzero ▸ hq) h.heldReal
        · exact Or.inr (Or.inr hassigned)
      · exact Or.inr (Or.inl (by simpa using hq))
    queueOnce := h.queueOnce
    queued := h.queued
    queuedBare := h.queuedBare }
  have hidle : Pool 0 []
      { t with
        held := t.held ++ [port]
        inFlight := t.inFlight - 1
        freePorts := t.freePorts ++ [port] } := by
    have hrelease := hbooked.release
    have hnot : ¬(port = 0 ∨ port ∈ t.freePorts) := fun hor =>
      hor.elim hreal fun hmem => hheld (h.idleHeld port hmem)
    simpa [releaseTunnelPort, hnot] using hrelease
  have htail : ∀ s : Tunnel, Pool 0 [] s →
      Pool 0 []
        (if s.waitingPeers = [] then s
        else if (requestTunnelPort s).inFlight = 0 then giveUpWaiting binds (requestTunnelPort s)
        else requestTunnelPort s) := by
    intro s hs
    have hasked := requestTunnelPort_pool hs
    split_ifs
    · exact hs
    · exact giveUpWaiting_pool hasked
    · exact hasked
  exact htail _ (serveWaitingPeersFor_pool _ hidle)

theorem onPortLost_pool {port : UInt16} (h : Pool 0 [] t) : Pool 0 [] (onPortLost t port) := by
  have hdropped : Pool 0 []
      { t with
        held := t.held.filter (· ≠ port)
        freePorts := t.freePorts.filter (· ≠ port) } := {
    idleOnce := h.idleOnce.filter _
    idleHeld := by
      intro q hq
      have hq : q ∈ t.freePorts ∧ q ≠ port := by simpa using hq
      have hmem := h.idleHeld q hq.1
      simp [hmem, hq.2]
    heldReal := fun hmem => h.heldReal (mem_of_mem_filter hmem)
    apart := fun id p hp hmem => h.apart id p hp (mem_of_mem_filter hmem)
    single := h.single
    looseApart := fun hmem => h.looseApart (mem_of_mem_filter hmem)
    looseSingle := h.looseSingle
    placed := by
      intro q hq
      have hq : q ∈ t.held ∧ q ≠ port := by simpa using hq
      rcases h.placed q hq.1 with hidle | hrest
      · left
        simp [hidle, hq.2]
      · exact Or.inr hrest
    queueOnce := h.queueOnce
    queued := h.queued
    queuedBare := h.queuedBare }
  unfold onPortLost
  simp only
  split
  · exact requestTunnelPort_pool hdropped
  · exact hdropped

theorem onSessionOpened_pool {enabled : Bool} {gateway : GatewayState}
    (h : Pool 0 [] t) : Pool 0 [] (onSessionOpened binds enabled gateway t id) := by
  unfold onSessionOpened
  cases habsent : t.peers id with
  | some _ => exact h
  | none =>
    obtain ⟨hpeers, hwaiting, _⟩ := takeTunnelPort_frame t
    have hunqueued : id ∉ t.waitingPeers := by
      intro hmem
      obtain ⟨p, hp, _⟩ := (h.queued id).mp (by simpa using hmem)
      simp [habsent] at hp
    have hbare : Bare [] (takeTunnelPort t).2 id := {
      unqueued := by simpa [hwaiting] using hunqueued
      portless := by simp [hpeers, habsent] }
    have hcreated : Pool 0 []
        (createPeerConnection binds (takeTunnelPort t).2 id { port := (takeTunnelPort t).1 }) :=
      createPeerConnection_pool h.take hbare rfl
    simp only
    split
    · exact hcreated
    · rename_i hnot
      have hport : (takeTunnelPort t).1 = 0 := by
        by_contra hne
        exact hnot (Or.inl hne)
      split
      · exact hcreated
      · have htaken := h.take
        rw [hport] at htaken
        rw [hport]
        exact requestTunnelPort_pool (htaken.enqueue hbare (by rw [hpeers, habsent]))

/-- Signalling leaves a peer's port and its place in the queue as they are. -/
theorem Pool.rebind {old : Peer} (h : Pool loose starting t) (hold : t.peers id = some old)
    (hport : p.port = old.port) (haw : p.awaitingPort = old.awaitingPort) :
    Pool loose starting (t.setPeer id p) := by
  have hback : ∀ {id' p'}, (t.setPeer id p).peers id' = some p' →
      ∃ q, t.peers id' = some q ∧ q.port = p'.port ∧ q.awaitingPort = p'.awaitingPort := by
    intro id' p' hp'
    by_cases heq : id' = id
    · subst heq
      have hsame : p' = p := by simpa using hp'.symm
      exact ⟨old, hold, by rw [hsame, hport], by rw [hsame, haw]⟩
    · rw [t.setPeer_ne _ heq] at hp'
      exact ⟨p', hp', rfl, rfl⟩
  have hforth : ∀ {id' q}, t.peers id' = some q →
      ∃ p', (t.setPeer id p).peers id' = some p' ∧ p'.port = q.port ∧
        p'.awaitingPort = q.awaitingPort := by
    intro id' q hq
    by_cases heq : id' = id
    · subst heq
      have hsame : old = q := by simpa [hold] using hq
      exact ⟨p, by simp, by rw [hport, hsame], by rw [haw, hsame]⟩
    · exact ⟨q, by rw [t.setPeer_ne _ heq, hq], rfl, rfl⟩
  exact {
    idleOnce := h.idleOnce
    idleHeld := h.idleHeld
    heldReal := h.heldReal
    apart := by
      intro id' p' hp'
      obtain ⟨q, hq, heq, _⟩ := hback hp'
      rw [← heq]
      exact h.apart id' q hq
    single := by
      intro a b pa pb ha hb hne heq
      obtain ⟨qa, hqa, hea, _⟩ := hback ha
      obtain ⟨qb, hqb, heb, _⟩ := hback hb
      exact h.single a b qa qb hqa hqb (hea ▸ hne) (by rw [hea, heb, heq])
    looseApart := h.looseApart
    looseSingle := by
      intro hne id' p' hp'
      obtain ⟨q, hq, heq, _⟩ := hback hp'
      rw [← heq]
      exact h.looseSingle hne id' q hq
    placed := by
      intro r hr
      rcases h.placed r hr with hidle | hloose | ⟨id', q, hq, hr'⟩
      · exact Or.inl hidle
      · exact Or.inr (Or.inl hloose)
      · obtain ⟨p', hp', heq, _⟩ := hforth hq
        exact Or.inr (Or.inr ⟨id', p', hp', by rw [heq, hr']⟩)
    queueOnce := h.queueOnce
    queued := by
      intro id'
      have hview := h.queued id'
      constructor
      · intro hmem
        obtain ⟨q, hq, hwait⟩ := hview.mp hmem
        obtain ⟨p', hp', _, heq⟩ := hforth hq
        exact ⟨p', hp', by rw [heq, hwait]⟩
      · rintro ⟨p', hp', hwait⟩
        obtain ⟨q, hq, _, heq⟩ := hback hp'
        exact hview.mpr ⟨q, hq, by rw [heq, hwait]⟩
    queuedBare := by
      intro id' p' hp' hwait
      obtain ⟨q, hq, hqport, heq⟩ := hback hp'
      rw [← hqport]
      exact h.queuedBare id' q hq (by rw [heq, hwait]) }

section

variable {C : Crypto}

theorem abort_pool (h : Pool 0 [] t) : Pool 0 [] (abort t id) := endSession_pool h (by simp)

variable {nonce : QByteArray}

theorem sendSignedOffer_pool {old : Peer} (h : Pool 0 [] t)
    (hold : t.peers id = some old) (hport : p.port = old.port)
    (haw : p.awaitingPort = old.awaitingPort) : Pool 0 [] (sendSignedOffer C t id p nonce) := by
  unfold sendSignedOffer
  simp only
  split_ifs
  · exact h.rebind hold hport haw
  · exact abort_pool h
  · exact abort_pool h
  · have hcalled : ∀ c, Pool 0 [] (t.call c) := fun c => h.congr rfl rfl rfl rfl
    exact (hcalled _).rebind hold hport haw

theorem onLocalDescription_pool {text : QString} (h : Pool 0 [] t) :
    Pool 0 [] (onLocalDescription C t id text nonce) := by
  unfold onLocalDescription
  cases hp : t.peers id with
  | none => exact h
  | some p =>
    simp only
    split_ifs
    · exact abort_pool h
    · exact sendSignedOffer_pool h hp rfl rfl

theorem onSignal_pool {payload : QJsonObject} {usable : Bool}
    (h : Pool 0 [] t) : Pool 0 [] (onSignal C t id payload nonce usable) := by
  unfold onSignal
  cases hp : t.peers id with
  | none => exact h
  | some p =>
    simp only
    split_ifs
    · unfold handleHello
      simp only
      split_ifs
      · exact abort_pool h
      · exact abort_pool h
      · exact abort_pool h
      · exact abort_pool h
      · exact sendSignedOffer_pool h hp rfl rfl
    · have hstored := Pool.rebind
        (p := { p with binding := { p.binding with answerVerified := true } }) h hp rfl rfl
      have haccepted : ∀ c, Pool 0 []
          ((t.setPeer id
            { p with binding := { p.binding with answerVerified := true } }).call c) :=
        fun c => hstored.congr rfl rfl rfl rfl
      unfold handleAnswer
      simp only
      split_ifs
      · exact h
      · exact abort_pool h
      · exact abort_pool h
      · exact abort_pool h
      · exact abort_pool h
      · exact abort_pool h
      · exact haccepted _
      · exact abort_pool (haccepted _)
    · unfold handleIce
      split_ifs
      · exact h
      · exact h.congr rfl rfl rfl rfl
    · exact h

/-- The step lemma: an event keeps every port in its place and every waiting
session in the queue. -/
theorem handle_pool {event : Event} {u : Tunnel} (h : Pool 0 [] t) (hfresh : FreshGrant t event)
    (hstep : handle C t event = some u) : Pool 0 [] u := by
  have hstart : Pool 0 [] { t with calls := [] } := h.congr rfl rfl rfl rfl
  unfold handle at hstep
  cases event with
  | settingsChanged s =>
    obtain rfl : _ = u := by simpa using hstep
    exact h.congr rfl rfl rfl rfl
  | gatewayReady =>
    obtain rfl : _ = u := by simpa using hstep
    unfold onGatewayReady
    split_ifs
    · exact requestTunnelPort_pool hstart
    · exact hstart
  | gatewayMissing binds =>
    obtain rfl : _ = u := by simpa using hstep
    exact giveUpWaiting_pool hstart
  | claimGranted port binds =>
    simp only at hstep
    split_ifs at hstep with hclaim
    obtain rfl : _ = u := by simpa using hstep
    exact claimGranted_pool hstart hclaim.2 hfresh.1 hfresh.2
  | claimRefused binds =>
    simp only at hstep
    split_ifs at hstep
    obtain rfl : _ = u := by simpa using hstep
    exact giveUpWaiting_pool (h.congr rfl rfl rfl rfl)
  | portLost port =>
    simp only at hstep
    split_ifs at hstep
    obtain rfl : _ = u := by simpa using hstep
    exact onPortLost_pool hstart
  | sessionOpened id enabled gateway binds =>
    obtain rfl : _ = u := by simpa using hstep
    exact onSessionOpened_pool hstart
  | claimWaitOver id binds =>
    obtain rfl : _ = u := by simpa using hstep
    exact startWaiting_pool binds id hstart
  | sessionClosed id =>
    obtain rfl : _ = u := by simpa using hstep
    exact dropPeer_pool hstart (by simp)
  | connectionEnded id =>
    obtain rfl : _ = u := by simpa using hstep
    exact endSession_pool hstart (by simp)
  | localDescription id text nonce =>
    obtain rfl : _ = u := by simpa using hstep
    exact onLocalDescription_pool hstart
  | signal id payload nonce usable =>
    obtain rfl : _ = u := by simpa using hstep
    exact onSignal_pool hstart

theorem initial_pool (s : Settings) : Pool 0 [] (initial s) := by
  constructor <;> simp [initial]

/-- While every port granted is a fresh one, each port held is in one place and
each waiting session in the queue once, in every state a run reaches. -/
theorem ports_conserved (C : Crypto) (s : Settings)
    (h : Reachable (· = initial s) (guarded FreshGrant (moves (handle C))) t) : Conserved t := by
  have hpool : Pool 0 [] t := by
    refine h.invariant (I := Pool 0 []) ?_ ?_
    · intro t ht
      exact ht ▸ initial_pool s
    · intro t event u ht hstep
      exact handle_pool ht hstep.1 hstep.2
  exact hpool.conserved

end

def blank : Settings := ⟨[], [], []⟩

def asked : Tunnel := { initial blank with inFlight := 1 }

def oneHole : Tunnel := { initial blank with freePorts := [3478], held := [3478] }

def oneBrowser : Tunnel :=
  { initial blank with
    peers := Function.update (fun _ => none) (qs "s1") (some { pc := true, port := 3478 })
    held := [3478] }

theorem oneBrowser_conserved : Conserved oneBrowser := by
  have hstart : Reachable (· = initial blank) (guarded FreshGrant (moves (handle checksum)))
      (initial blank) := Reachable.start rfl
  have hasked := hstart.next (t := asked) (a := Event.gatewayReady) ⟨trivial, rfl⟩
  have hhole := hasked.next (t := oneHole) (a := Event.claimGranted 3478 fun _ _ => true)
    ⟨⟨nofun, nofun⟩, rfl⟩
  exact ports_conserved _ _
    (hhole.next (a := Event.sessionOpened (qs "s1") true .ready fun _ _ => true) ⟨trivial, rfl⟩)

/-- The assumption on the allocator's own books alone: it never grants a port
it still holds. -/
def UnheldGrant (t : Tunnel) : Event → Prop
  | .claimGranted port _ => port ∉ t.held
  | _ => True

/-- The hole is lost while the browser is on it, and a next one is asked for. -/
def lostUnderBrowser : Tunnel := { oneBrowser with held := [], inFlight := 1 }

def regranted : Tunnel := { oneBrowser with freePorts := [3478] }

/-- A port lost at renewal under a live connection and granted again is idle and
assigned at once. -/
theorem regranted_port_shared :
    ¬ ∀ (C : Crypto) (s : Settings) (t : Tunnel),
      Reachable (· = initial s) (guarded UnheldGrant (moves (handle C))) t → Conserved t := by
  intro hall
  have hstart : Reachable (· = initial blank) (guarded UnheldGrant (moves (handle checksum)))
      (initial blank) := Reachable.start rfl
  have hasked := hstart.next (t := asked) (a := Event.gatewayReady) ⟨trivial, rfl⟩
  have hhole := hasked.next (t := oneHole) (a := Event.claimGranted 3478 fun _ _ => true)
    ⟨nofun, rfl⟩
  have hbrowser := hhole.next (t := oneBrowser)
    (a := Event.sessionOpened (qs "s1") true .ready fun _ _ => true) ⟨trivial, rfl⟩
  have hlost := hbrowser.next (t := lostUnderBrowser) (a := Event.portLost 3478) ⟨trivial, rfl⟩
  have hagain := hlost.next (t := regranted) (a := Event.claimGranted 3478 fun _ _ => true)
    ⟨nofun, rfl⟩
  have hconserved : Conserved regranted := hall _ _ _ hagain
  exact hconserved.notBoth 3478 (by decide) (qs "s1") { pc := true, port := 3478 } rfl rfl

end MoonlightWeb.Server.ControlTunnel
