import MoonlightWeb.Deploy.RendezvousClose

/-! # What the hub promises

The invariants of routing, registration and closing, stated for whole runs of
the server as its users see them.
-/

namespace MoonlightWeb.Deploy.Rendezvous

open Lib

namespace World

variable (w : World)

/-- Messages stay with the session they belong to. What is written to a host as
a message was sent by the browser of that session, admitted on that line; what
is written to a browser as a message was sent by the host of the line it was
admitted on, and named its session. A session id names one browser. -/
def OwnTraffic : Prop :=
  (∀ l writer f, .toHost l writer f ∈ w.log → f.t = msgMsg →
      ∃ p, writer = .peer p ∧ w.Names p f.s l ∧ .fromPeer p f.d ∈ w.log) ∧
    (∀ p writer f, .toPeer p writer f ∈ w.log → f.t = msgMsg →
      ∃ l s g, writer = .line l ∧ w.Names p s l ∧ .fromHost l g ∈ w.log ∧
        g.t = msgMsg ∧ g.s = s ∧ g.d = f.d) ∧
    ∀ p q s l k, w.Names p s l → w.Names q s k → p = q

/-- No line registers more than the maximum, or anything once it was shut down. -/
def Bounded (maxSessions : Nat) (w : World) : Prop :=
  ∀ l line, w.lines l = some line → LineBounded maxSessions line

/-- The newest line of an id is in the hub until it unregisters itself. -/
def SuccessorServed : Prop :=
  ∀ l line, w.lines l = some line → w.Newest l line → line.holding → w.hub line.id = some l

/-- The host of a session was told at most once that it is over. -/
def ClosedOnce : Prop := ∀ s, w.closes s ≤ 1

theorem Routing.ownTraffic {w : World} (h : w.Routing) : w.OwnTraffic := by
  refine ⟨?_, ?_, h.distinct⟩
  · intro l writer f hf ht
    have hrouted := h.toHost l writer f hf
    cases writer with
    | peer p => exact ⟨p, rfl, hrouted.1, hrouted.2 ht⟩
    | line k => exact absurd ht hrouted.2.1
    | hangUp k => exact hrouted.elim
  · intro p writer f hf ht
    have hrouted := h.toPeer p writer f hf
    cases writer with
    | peer q => exact absurd ht hrouted.2
    | line l =>
      obtain ⟨s, g, hname, hg, hgt, hgs, hgd⟩ := hrouted ht
      exact ⟨l, s, g, rfl, hname, hg, hgt, hgs, hgd⟩
    | hangUp k => exact absurd ht hrouted

theorem Tidy.closedOnce {w : World} (h : w.Tidy) (hrouting : w.Routing) : w.ClosedOnce := by
  intro s
  by_cases hknown : ∃ p peer, w.peers p = some peer ∧ peer.sid = s
  · obtain ⟨p, peer, hpeer, hsid⟩ := hknown
    rw [← hsid]
    exact (h p peer hpeer).closes_le
  · have hfresh : w.closes s = 0 := by
      apply hrouting.closes_fresh
      intro q peer hq heq
      exact hknown ⟨q, peer, hq, heq⟩
    omega

theorem start_tidy (maxSessions : Nat) : (start maxSessions).Tidy := by
  intro p peer hpeer
  cases hpeer

theorem sendPeer_maxSessions (writer : Writer) (p : Nat) (f : PeerFrame)
    (taken : Bool) : (w.sendPeer writer p f taken).maxSessions = w.maxSessions := by
  cases taken <;> rfl

theorem sendHost_maxSessions (writer : Writer) (l : Nat) (f : HostFrame)
    (taken : Bool) : (w.sendHost writer l f taken).maxSessions = w.maxSessions := by
  cases taken <;> rfl

variable {w v : World} {line : Line}

theorem hostGoes_maxSessions {l : Nat} {ok : Bool}
    (hgoes : w.hostGoes l line ok = some v) : v.maxSessions = w.maxSessions := by
  unfold World.hostGoes at hgoes
  split at hgoes
  · cases hgoes
  · cases hgoes
    exact sendPeer_maxSessions ..
  · split at hgoes <;> cases hgoes <;> rfl
  · cases hgoes
    exact sendHost_maxSessions ..
  · cases hgoes
    rfl
  · cases hgoes
    rfl
  · cases hgoes
    rfl
  · cases hgoes
    unfold World.unregister
    split <;> rfl
  · cases hgoes
    rfl
  · cases hgoes
    rfl
  · cases hgoes
    exact sendPeer_maxSessions ..
  · cases hgoes
    rfl
  · cases hgoes

theorem hangUpStep_maxSessions {l : Nat} {ok : Bool}
    (hgoes : w.hangUpStep l line ok = some v) : v.maxSessions = w.maxSessions := by
  unfold World.hangUpStep at hgoes
  split at hgoes
  · cases hgoes
  · cases hgoes
    rfl
  · cases hgoes
    rfl
  · cases hgoes
    exact sendPeer_maxSessions ..
  · cases hgoes
    rfl
  · cases hgoes

theorem peerGoes_maxSessions {p : Nat} {peer : Peer} {ok : Bool}
    (hgoes : w.peerGoes p peer line ok = some v) : v.maxSessions = w.maxSessions := by
  unfold World.peerGoes at hgoes
  split at hgoes
  · cases hgoes
    unfold World.addSession
    split
    · rfl
    · split <;> rfl
  · cases hgoes
    exact sendHost_maxSessions ..
  · cases hgoes
    rfl
  · cases hgoes
    exact sendPeer_maxSessions ..
  · cases hgoes
    rfl
  · cases hgoes
    exact sendHost_maxSessions ..
  · cases hgoes
  · cases hgoes
    exact sendHost_maxSessions ..
  · split at hgoes <;> cases hgoes <;> rfl
  · cases hgoes
    exact sendHost_maxSessions ..
  · cases hgoes
    rfl
  · cases hgoes
    exact sendPeer_maxSessions ..
  · cases hgoes

theorem hostStep_maxSessions {l : Nat} {act : HostAct}
    (hgoes : w.hostStep l line act = some v) : v.maxSessions = w.maxSessions := by
  cases act with
  | receives f =>
    simp only [World.hostStep] at hgoes
    split at hgoes
    · cases hgoes
      unfold World.hostReceives
      dsimp only
      split
      · rfl
      · split
        · rfl
        · split <;> rfl
    · cases hgoes
  | readFails =>
    simp only [World.hostStep] at hgoes
    split at hgoes <;> cases hgoes
    rfl
  | goes ok => exact hostGoes_maxSessions hgoes

theorem peerStep_maxSessions {p : Nat} {peer : Peer} {act : PeerAct}
    (hgoes : w.peerStep p peer line act = some v) : v.maxSessions = w.maxSessions := by
  cases act with
  | receives f =>
    simp only [World.peerStep] at hgoes
    split at hgoes
    · cases hgoes
      unfold World.peerReceives
      split <;> rfl
    · cases hgoes
  | readFails =>
    simp only [World.peerStep] at hgoes
    split at hgoes <;> cases hgoes
    rfl
  | goes ok => exact peerGoes_maxSessions hgoes

theorem step_maxSessions {a : Label} (hstep : Step w a v) :
    v.maxSessions = w.maxSessions := by
  cases hstep with
  | hostConnect id proto =>
    unfold World.hostConnect
    dsimp only
    split <;> rfl
  | peerConnect p id sid proto number fresh =>
    unfold World.peerConnect
    split <;> rfl
  | host _ hgoes => exact hostStep_maxSessions hgoes
  | hangUp _ hgoes => exact hangUpStep_maxSessions hgoes
  | peer _ _ hgoes => exact peerStep_maxSessions hgoes
  | lineDies l => rfl
  | peerDies p => rfl

end World

open World

/-- Along every run messages stay with their session, lines stay within the
maximum and a displaced line never evicts its successor; and along a run in
which no delivery of a host fails on a browser that was not told it is ready,
the host hears of a session's end at most once. -/
theorem hub_promises (maxSessions : Nat) (labels : List Label) :
    AllAlong Step (fun w => w.OwnTraffic ∧ w.Bounded maxSessions ∧ w.SuccessorServed)
        (.start maxSessions) labels ∧
      (EachStep Step (fun w a _ => w.Prompt a) (.start maxSessions) labels →
        AllAlong Step ClosedOnce (.start maxSessions) labels) := by
  constructor
  · intro visited rest w _ hrun
    have hrouting : w.Routing :=
      hrun.invariant (fun _ _ _ h hstep => h.step hstep) (start_routing maxSessions)
    have hregistration : w.Registration :=
      hrun.invariant (fun _ _ _ h hstep => h.step hstep) (start_registration maxSessions)
    have hmax : w.maxSessions = maxSessions :=
      hrun.invariant (I := fun w => w.maxSessions = maxSessions)
        (fun _ _ _ h hstep => (step_maxSessions hstep).trans h) rfl
    refine ⟨hrouting.ownTraffic, ?_, hregistration.served⟩
    intro l line hline
    rw [← hmax]
    exact hregistration.bounded l line hline
  · intro hprompt visited rest w hl hrun
    have hboth : w.Routing ∧ w.Tidy := by
      refine (hprompt.take hl).invariant (I := fun w => w.Routing ∧ w.Tidy) ?_
        ⟨start_routing maxSessions, start_tidy maxSessions⟩ hrun
      intro v a u hv hstep hcond
      exact ⟨hv.1.step hstep, hv.2.step hv.1 hcond hstep⟩
    exact hboth.2.closedOnce hboth.1

def admitted : List Label :=
  [.hostConnect "host" 1, .peerConnect 0 "host" "s1" 1, .peer 0 (.goes true), .peer 0 (.goes true),
    .peer 0 (.goes true)]

theorem admitted_closedOnce : AllAlong Step ClosedOnce (.start 8) admitted := by
  apply (hub_promises 8 admitted).2
  intro visited a rest w v hl _ _
  have hact : ∀ l, a ≠ .host l (.goes true) ∧ a ≠ .host l (.goes false) := by
    intro l
    have hmem : a ∈ admitted := by simp [hl]
    simp only [admitted, List.mem_cons, List.not_mem_nil, or_false] at hmem
    rcases hmem with rfl | rfl | rfl | rfl | rfl <;> simp
  cases a with
  | host l act =>
      cases act with
      | goes ok =>
          cases ok with
          | true => exact absurd rfl (hact l).1
          | false => exact absurd rfl (hact l).2
      | _ => trivial
  | _ => trivial

/-- A host answers a browser before the browser was told it is ready, the
delivery fails, and then so does the ready frame. -/
def hastyHost : List Label :=
  [.hostConnect "host" 1, .peerConnect 0 "host" "s1" 1, .peer 0 (.goes true), .peer 0 (.goes true),
    .host 0 (.receives { t := "msg", s := "s1", d := "1" }), .host 0 (.goes false),
    .host 0 (.goes true), .host 0 (.goes true), .peer 0 (.goes true), .peer 0 (.goes true),
    .peer 0 (.goes true)]

theorem hastyHost_closes_twice : ¬AllAlong Step ClosedOnce (.start 8) hastyHost := by
  intro h
  obtain ⟨w, hrun, hcloses⟩ : ∃ w, Run Step (.start 8) hastyHost w ∧ w.closes "s1" = 2 := by
    refine ⟨_, Run.cons (.hostConnect _ _ _) <| Run.cons (.peerConnect _ _ _ _ _ rfl ?_) <|
      Run.cons (.peer rfl rfl rfl) <| Run.cons (.peer rfl rfl rfl) <|
      Run.cons (.host rfl rfl) <| Run.cons (.host rfl rfl) <|
      Run.cons (.host rfl rfl) <| Run.cons (.host rfl rfl) <|
      Run.cons (.peer rfl rfl rfl) <| Run.cons (.peer rfl rfl rfl) <|
      Run.cons (.peer rfl rfl rfl) .nil, rfl⟩
    intro q peer hq
    cases hq
  have honce := h.last hrun "s1"
  omega

end MoonlightWeb.Deploy.Rendezvous
