import MoonlightWeb.Deploy.Rendezvous

/-! # Routing on the hub

A browser's session id names it and the line it was admitted on, for as long as
the server runs: every session table, every frame in delivery and every frame
written refers to browsers only in agreement with that.
-/

namespace MoonlightWeb.Deploy.Rendezvous

open Lib Function

namespace World

variable (w : World)

@[simp] theorem modifyLine_peers (l : Nat) (f : Line → Line) :
    (w.modifyLine l f).peers = w.peers := rfl

@[simp] theorem modifyLine_log (l : Nat) (f : Line → Line) :
    (w.modifyLine l f).log = w.log := rfl

@[simp] theorem modifyLine_hub (l : Nat) (f : Line → Line) :
    (w.modifyLine l f).hub = w.hub := rfl

@[simp] theorem modifyPeer_lines (p : Nat) (f : Peer → Peer) :
    (w.modifyPeer p f).lines = w.lines := rfl

@[simp] theorem modifyPeer_log (p : Nat) (f : Peer → Peer) :
    (w.modifyPeer p f).log = w.log := rfl

@[simp] theorem modifyPeer_hub (p : Nat) (f : Peer → Peer) :
    (w.modifyPeer p f).hub = w.hub := rfl

variable (e : Event)

@[simp] theorem emit_lines : (w.emit e).lines = w.lines := rfl

@[simp] theorem emit_peers : (w.emit e).peers = w.peers := rfl

@[simp] theorem emit_hub : (w.emit e).hub = w.hub := rfl

@[simp] theorem emit_log : (w.emit e).log = w.log ++ [e] := rfl

variable {w}

variable {line : Line}

/-- A line after a section on line `l`: another line as it was, or `l` changed. -/
theorem modifyLine_cases {l k : Nat} {f : Line → Line}
    (h : (w.modifyLine l f).lines k = some line) :
    (k ≠ l ∧ w.lines k = some line) ∨ (k = l ∧ ∃ old, w.lines l = some old ∧ line = f old) := by
  by_cases hk : k = l
  · subst hk
    simp only [modifyLine, update_self, Option.map_eq_some_iff] at h
    obtain ⟨old, hold, hline⟩ := h
    exact .inr ⟨rfl, old, hold, hline.symm⟩
  · simp only [modifyLine, update_of_ne hk] at h
    exact .inl ⟨hk, h⟩

variable {f : Peer → Peer} {peer : Peer}

theorem modifyPeer_cases {p q : Nat} (h : (w.modifyPeer p f).peers q = some peer) :
    (q ≠ p ∧ w.peers q = some peer) ∨ (q = p ∧ ∃ old, w.peers p = some old ∧ peer = f old) := by
  by_cases hq : q = p
  · subst hq
    simp only [modifyPeer, update_self, Option.map_eq_some_iff] at h
    obtain ⟨old, hold, hpeer⟩ := h
    exact .inr ⟨rfl, old, hold, hpeer.symm⟩
  · simp only [modifyPeer, update_of_ne hq] at h
    exact .inl ⟨hq, h⟩

variable {l : Nat}

theorem modifyLine_self {f : Line → Line} (h : w.lines l = some line) :
    (w.modifyLine l f).lines l = some (f line) := by
  simp [modifyLine, h]

variable {p : Nat}

theorem modifyPeer_self (h : w.peers p = some peer) :
    (w.modifyPeer p f).peers p = some (f peer) := by
  simp [modifyPeer, h]

/-- Session id `s` names browser `p`, admitted on line `l`. -/
def Names (w : World) (p : Nat) (s : String) (l : Nat) : Prop :=
  ∃ peer, w.peers p = some peer ∧ peer.sid = s ∧ peer.line = l

/-- A section that keeps a browser's session id and line. -/
def Keeps (f : Peer → Peer) : Prop := ∀ peer, (f peer).sid = peer.sid ∧ (f peer).line = peer.line

theorem Names.modifyPeer {p q l : Nat} {s : String} (hf : Keeps f)
    (h : w.Names p s l) : (w.modifyPeer q f).Names p s l := by
  obtain ⟨peer, hpeer, hsid, hline⟩ := h
  by_cases hp : p = q
  · subst hp
    exact ⟨f peer, modifyPeer_self hpeer, (hf peer).1.trans hsid, (hf peer).2.trans hline⟩
  · exact ⟨peer, by simp [World.modifyPeer, update_of_ne hp, hpeer], hsid, hline⟩

theorem Names.of_modifyPeer {p q l : Nat} {s : String} (hf : Keeps f)
    (h : (w.modifyPeer q f).Names p s l) : w.Names p s l := by
  obtain ⟨peer, hpeer, hsid, hline⟩ := h
  rcases modifyPeer_cases hpeer with ⟨-, hold⟩ | ⟨rfl, old, hold, rfl⟩
  · exact ⟨peer, hold, hsid, hline⟩
  · exact ⟨old, hold, (hf old).1.symm.trans hsid, (hf old).2.symm.trans hline⟩

/-- What the handler of a line is busy with: a session of that very line, and
for a delivery a payload the host sent for it. -/
def Busy (w : World) (l : Nat) : HostPc → Prop
  | .delivering s p d =>
      w.Names p s l ∧ ∃ f, .fromHost l f ∈ w.log ∧ f.t = msgMsg ∧ f.s = s ∧ f.d = d
  | .undelivered s p => w.Names p s l
  | .announcing s p => w.Names p s l
  | .dropping s p => w.Names p s l
  | _ => True

/-- A frame on a host line: a browser's handler writes only to the line the
browser was admitted on, under its session id, and as a message only what the
browser sent; the line's own handler writes no message and names no stranger. -/
def ToHostRouted (w : World) (l : Nat) (f : HostFrame) : Writer → Prop
  | .peer p => w.Names p f.s l ∧ (f.t = msgMsg → .fromPeer p f.d ∈ w.log)
  | .line k => k = l ∧ f.t ≠ msgMsg ∧ ∃ p, w.Names p f.s l
  | .hangUp _ => False

/-- A frame on a browser's socket: a message comes from the line the browser
was admitted on, and the host named the browser's session in it. -/
def ToPeerRouted (w : World) (p : Nat) (f : PeerFrame) : Writer → Prop
  | .line l => f.t = msgMsg →
      ∃ s g, w.Names p s l ∧ .fromHost l g ∈ w.log ∧ g.t = msgMsg ∧ g.s = s ∧ g.d = f.d
  | .hangUp _ => f.t ≠ msgMsg
  | .peer q => q = p ∧ f.t ≠ msgMsg

structure Routing (w : World) : Prop where
  distinct : ∀ p q s l k, w.Names p s l → w.Names q s k → p = q
  sessions : ∀ l line, w.lines l = some line →
    ∀ s p, line.sessions.lookup s = some p → w.Names p s l
  handler : ∀ l line, w.lines l = some line → w.Busy l line.handler
  forwarding : ∀ p peer d, w.peers p = some peer → peer.pc = .forwarding d → .fromPeer p d ∈ w.log
  toHost : ∀ l writer f, .toHost l writer f ∈ w.log → w.ToHostRouted l f writer
  toPeer : ∀ p writer f, .toPeer p writer f ∈ w.log → w.ToPeerRouted p f writer

/-! ### Sections keep the invariant -/

variable {v : World}

theorem Busy.transfer {pc : HostPc} (h : w.Busy l pc)
    (hnames : ∀ p s l, w.Names p s l → v.Names p s l) (hlog : ∀ e ∈ w.log, e ∈ v.log) :
    v.Busy l pc := by
  cases pc with
  | delivering s p d =>
    obtain ⟨hn, f, hf, ht, hs, hd⟩ := h
    exact ⟨hnames _ _ _ hn, f, hlog _ hf, ht, hs, hd⟩
  | undelivered s p => exact hnames _ _ _ h
  | announcing s p => exact hnames _ _ _ h
  | dropping s p => exact hnames _ _ _ h
  | _ => trivial

variable {writer : Writer}

theorem ToHostRouted.transfer {f : HostFrame}
    (h : w.ToHostRouted l f writer) (hnames : ∀ p s l, w.Names p s l → v.Names p s l)
    (hlog : ∀ e ∈ w.log, e ∈ v.log) : v.ToHostRouted l f writer := by
  cases writer with
  | peer p => exact ⟨hnames _ _ _ h.1, fun ht => hlog _ (h.2 ht)⟩
  | line k =>
    obtain ⟨hk, ht, p, hp⟩ := h
    exact ⟨hk, ht, p, hnames _ _ _ hp⟩
  | hangUp k => exact h

theorem ToPeerRouted.transfer {f : PeerFrame}
    (h : w.ToPeerRouted p f writer) (hnames : ∀ p s l, w.Names p s l → v.Names p s l)
    (hlog : ∀ e ∈ w.log, e ∈ v.log) : v.ToPeerRouted p f writer := by
  cases writer with
  | line l =>
    intro ht
    obtain ⟨s, g, hn, hg, hgt, hgs, hgd⟩ := h ht
    exact ⟨s, g, hnames _ _ _ hn, hlog _ hg, hgt, hgs, hgd⟩
  | hangUp k => exact h
  | peer q => exact h

variable (h : w.Routing)

include h

theorem Routing.modifyLine (l : Nat) {f : Line → Line}
    (hsessions : ∀ line, w.lines l = some line →
      ∀ s p, (f line).sessions.lookup s = some p → w.Names p s l)
    (hhandler : ∀ line, w.lines l = some line → w.Busy l (f line).handler) :
    (w.modifyLine l f).Routing where
  distinct := h.distinct
  sessions k line hline := by
    rcases modifyLine_cases hline with ⟨-, hold⟩ | ⟨rfl, old, hold, rfl⟩
    · exact h.sessions k line hold
    · exact hsessions old hold
  handler k line hline := by
    rcases modifyLine_cases hline with ⟨-, hold⟩ | ⟨rfl, old, hold, rfl⟩
    · exact h.handler k line hold
    · exact hhandler old hold
  forwarding := h.forwarding
  toHost := h.toHost
  toPeer := h.toPeer

/-- A section that leaves sessions and handler of a line alone. -/
theorem Routing.modifyLine_quiet (l : Nat) {f : Line → Line}
    (hsessions : ∀ line, (f line).sessions = line.sessions)
    (hhandler : ∀ line, (f line).handler = line.handler) : (w.modifyLine l f).Routing := by
  refine h.modifyLine l ?_ ?_
  · intro line hline s p hs
    rw [hsessions] at hs
    exact h.sessions l line hline s p hs
  · intro line hline
    rw [hhandler]
    exact h.handler l line hline

theorem Routing.setHandler (l : Nat) (pc : HostPc) (hpc : w.Busy l pc) :
    (w.setHandler l pc).Routing :=
  h.modifyLine l (fun line hline => h.sessions l line hline) fun _ _ => hpc

theorem Routing.setHangUp (l : Nat) (pc : HangUpPc) :
    (w.setHangUp l pc).Routing :=
  h.modifyLine_quiet l (fun _ => rfl) fun _ => rfl

theorem Routing.closeLine (l : Nat) : (w.closeLine l).Routing :=
  h.modifyLine_quiet l (fun _ => rfl) fun _ => rfl

theorem Routing.dropSession (l : Nat) (s : String) :
    (w.dropSession l s).Routing := by
  refine h.modifyLine l ?_ fun line hline => h.handler l line hline
  intro line hline s' p hs'
  by_cases heq : s' = s
  · subst heq
    simp at hs'
  · rw [AList.lookup_erase_ne heq] at hs'
    exact h.sessions l line hline s' p hs'

theorem Routing.shutdown (l : Nat) : (w.shutdown l).Routing :=
  h.modifyLine l (fun _ _ s p hs => by simp at hs) fun line hline => h.handler l line hline

theorem Routing.modifyPeer (p : Nat) (hf : Keeps f)
    (hforwarding : ∀ peer d, w.peers p = some peer → (f peer).pc = .forwarding d →
      .fromPeer p d ∈ w.log) : (w.modifyPeer p f).Routing where
  distinct q r s l k hq hr := h.distinct q r s l k (hq.of_modifyPeer hf) (hr.of_modifyPeer hf)
  sessions l line hline s q hs := (h.sessions l line hline s q hs).modifyPeer hf
  handler l line hline :=
    (h.handler l line hline).transfer (fun _ _ _ hn => hn.modifyPeer hf) fun _ he => he
  forwarding q peer d hpeer hpc := by
    rcases modifyPeer_cases hpeer with ⟨-, hold⟩ | ⟨rfl, old, hold, rfl⟩
    · exact h.forwarding q peer d hold hpc
    · exact hforwarding old d hold hpc
  toHost l writer e he :=
    (h.toHost l writer e he).transfer (fun _ _ _ hn => hn.modifyPeer hf) fun _ he => he
  toPeer q writer e he :=
    (h.toPeer q writer e he).transfer (fun _ _ _ hn => hn.modifyPeer hf) fun _ he => he

theorem Routing.setPc (p : Nat) (pc : PeerPc)
    (hpc : ∀ d, pc = .forwarding d → .fromPeer p d ∈ w.log) : (w.setPc p pc).Routing :=
  h.modifyPeer p (fun _ => ⟨rfl, rfl⟩) fun _ d _ heq => hpc d heq

theorem Routing.closePeer (p : Nat) : (w.closePeer p).Routing :=
  h.modifyPeer p (fun _ => ⟨rfl, rfl⟩) fun peer d hpeer hpc => h.forwarding p peer d hpeer hpc

theorem Routing.emit {e : Event}
    (hhost : ∀ l writer f, e = .toHost l writer f → w.ToHostRouted l f writer)
    (hpeer : ∀ p writer f, e = .toPeer p writer f → w.ToPeerRouted p f writer) :
    (w.emit e).Routing where
  distinct := h.distinct
  sessions := h.sessions
  handler l line hline :=
    (h.handler l line hline).transfer (fun _ _ _ hn => hn) fun _ he => List.mem_append_left _ he
  forwarding p peer d hp hpc := List.mem_append_left _ (h.forwarding p peer d hp hpc)
  toHost l writer f hf := by
    have hrouted : w.ToHostRouted l f writer := by
      rcases List.mem_append.mp hf with hold | hnew
      · exact h.toHost l writer f hold
      · exact hhost l writer f (List.mem_singleton.mp hnew).symm
    exact hrouted.transfer (fun _ _ _ hn => hn) fun _ he => List.mem_append_left _ he
  toPeer p writer f hf := by
    have hrouted : w.ToPeerRouted p f writer := by
      rcases List.mem_append.mp hf with hold | hnew
      · exact h.toPeer p writer f hold
      · exact hpeer p writer f (List.mem_singleton.mp hnew).symm
    exact hrouted.transfer (fun _ _ _ hn => hn) fun _ he => List.mem_append_left _ he

theorem Routing.sendPeer {f : PeerFrame}
    (hf : w.ToPeerRouted p f writer) (taken : Bool) : (w.sendPeer writer p f taken).Routing := by
  cases taken with
  | false => exact h.closePeer p
  | true =>
    refine h.emit (fun _ _ _ heq => by cases heq) ?_
    intro q wr g heq
    cases heq
    exact hf

theorem Routing.sendHost {f : HostFrame}
    (hf : w.ToHostRouted l f writer) (taken : Bool) : (w.sendHost writer l f taken).Routing := by
  cases taken with
  | false => exact h.closeLine l
  | true =>
    refine h.emit ?_ (fun _ _ _ heq => by cases heq)
    intro k wr g heq
    cases heq
    exact hf

omit h

/-! ### Handlers keep the invariant -/

variable (h : w.Routing)

include h

theorem Routing.hostReceives (hline : w.lines l = some line)
    (f : HostFrame) : (w.hostReceives l line f).Routing := by
  have hread : (w.emit (.fromHost l f)).Routing :=
    h.emit (fun _ _ _ heq => by cases heq) (fun _ _ _ heq => by cases heq)
  unfold World.hostReceives
  cases hs : line.sessions.lookup f.s with
  | none => exact hread
  | some p =>
    have hname : w.Names p f.s l := h.sessions l line hline f.s p hs
    dsimp only
    split
    · next ht =>
      apply hread.setHandler
      exact ⟨hname, f, List.mem_append_right _ List.mem_cons_self, ht, rfl, rfl⟩
    · split
      · exact hread.setHandler l _ hname
      · exact hread

theorem Routing.unregister (l : Nat) (line : Line) :
    (w.unregister l line).Routing := by
  unfold World.unregister
  split
  · exact ⟨h.distinct, h.sessions, h.handler, h.forwarding, h.toHost, h.toPeer⟩
  · exact h

theorem Routing.hostGoes (hline : w.lines l = some line)
    {ok : Bool} (hgoes : w.hostGoes l line ok = some v) : v.Routing := by
  have hbusy := h.handler l line hline
  revert hgoes
  unfold World.hostGoes
  cases hpc : line.handler with
  | reading => rintro ⟨⟩
  | down => rintro ⟨⟩
  | delivering s p d =>
    simp only [hpc] at hbusy
    rintro ⟨⟩
    obtain ⟨hname, f, hf, ht, hs, hd⟩ := hbusy
    have hset : (w.setHandler l
        (if w.peerTakes p ok then .reading else .undelivered s p)).Routing := by
      apply h.setHandler
      split
      · trivial
      · exact hname
    apply hset.sendPeer
    exact fun _ => ⟨s, f, hname, hf, ht, hs, hd⟩
  | undelivered s p =>
    simp only [hpc] at hbusy
    dsimp only
    split
    · rintro ⟨⟩
      exact (h.dropSession l s).setHandler l _ hbusy
    · rintro ⟨⟩
      exact h.setHandler l _ trivial
  | announcing s p =>
    simp only [hpc] at hbusy
    rintro ⟨⟩
    have hclose : msgClose ≠ msgMsg := by decide
    apply (h.setHandler l (.hangingUp p) trivial).sendHost
    exact ⟨rfl, hclose, p, hbusy⟩
  | hangingUp p =>
    rintro ⟨⟩
    exact (h.closePeer p).setHandler l _ trivial
  | dropping s p =>
    rintro ⟨⟩
    exact (h.dropSession l s).setHandler l _ trivial
  | closing p =>
    rintro ⟨⟩
    exact (h.closePeer p).setHandler l _ trivial
  | leaving =>
    rintro ⟨⟩
    exact (h.unregister l line).setHandler l _ trivial
  | unregistered =>
    rintro ⟨⟩
    exact (h.shutdown l).setHandler l _ trivial
  | telling peers =>
    cases peers with
    | nil =>
      rintro ⟨⟩
      exact (h.closeLine l).setHandler l _ trivial
    | cons p rest =>
      rintro ⟨⟩
      have herror : msgError ≠ msgMsg := by decide
      apply (h.setHandler l (.closingEach p rest) trivial).sendPeer
      exact fun ht => absurd ht herror
  | closingEach p rest =>
    rintro ⟨⟩
    exact (h.closePeer p).setHandler l _ trivial

theorem Routing.hostStep (hline : w.lines l = some line)
    {act : HostAct} (hgoes : w.hostStep l line act = some v) : v.Routing := by
  cases act with
  | receives f =>
    simp only [World.hostStep] at hgoes
    split at hgoes
    · cases hgoes
      exact h.hostReceives hline f
    · cases hgoes
  | readFails =>
    simp only [World.hostStep] at hgoes
    split at hgoes
    · cases hgoes
      exact h.setHandler l _ trivial
    · cases hgoes
  | goes ok => exact h.hostGoes hline hgoes

theorem Routing.hangUpStep {ok : Bool}
    (hgoes : w.hangUpStep l line ok = some v) : v.Routing := by
  revert hgoes
  unfold World.hangUpStep
  cases hpc : line.hangUp with
  | idle => rintro ⟨⟩
  | down => rintro ⟨⟩
  | pending =>
    rintro ⟨⟩
    exact (h.shutdown l).setHangUp l _
  | telling peers =>
    cases peers with
    | nil =>
      rintro ⟨⟩
      exact (h.closeLine l).setHangUp l _
    | cons p rest =>
      rintro ⟨⟩
      have herror : msgError ≠ msgMsg := by decide
      apply (h.setHangUp l (.closingEach p rest)).sendPeer
      exact herror
  | closingEach p rest =>
    rintro ⟨⟩
    exact (h.closePeer p).setHangUp l _

theorem Routing.addSession
    (hpeer : w.peers p = some peer) : (w.addSession p peer line).Routing := by
  unfold World.addSession
  split
  · exact h.setPc p _ fun _ heq => by cases heq
  · split
    · exact h.setPc p _ fun _ heq => by cases heq
    · refine Routing.setPc ?_ p _ fun _ heq => by cases heq
      refine h.modifyLine peer.line ?_ fun l hl => h.handler peer.line l hl
      intro old hold s q hs
      by_cases heq : s = peer.sid
      · subst heq
        rw [AList.lookup_insert, Option.some.injEq] at hs
        subst hs
        exact ⟨peer, hpeer, rfl, rfl⟩
      · rw [AList.lookup_insert_ne heq] at hs
        exact h.sessions peer.line old hold s q hs

theorem Routing.peerGoes (hpeer : w.peers p = some peer) {ok : Bool}
    (hgoes : w.peerGoes p peer line ok = some v) : v.Routing := by
  have hname : w.Names p peer.sid peer.line := ⟨peer, hpeer, rfl, rfl⟩
  have hstill : ∀ pc, (w.setPc p pc).Names p peer.sid peer.line :=
    fun pc => hname.modifyPeer fun _ => ⟨rfl, rfl⟩
  revert hgoes
  unfold World.peerGoes
  cases hpc : peer.pc with
  | reading => rintro ⟨⟩
  | done => rintro ⟨⟩
  | adding =>
    rintro ⟨⟩
    exact h.addSession hpeer
  | opening =>
    rintro ⟨⟩
    have hopen : msgOpen ≠ msgMsg := by decide
    apply Routing.sendHost
    · apply h.setPc
      intro d heq
      split at heq <;> cases heq
    · exact ⟨hstill _, fun ht => absurd ht hopen⟩
  | openFailed =>
    rintro ⟨⟩
    exact (h.dropSession peer.line peer.sid).setPc p _ fun _ heq => by cases heq
  | readying =>
    rintro ⟨⟩
    have hready : msgReady ≠ msgMsg := by decide
    apply Routing.sendPeer
    · apply h.modifyPeer
      · exact fun _ => ⟨rfl, rfl⟩
      · intro _ d _ heq
        dsimp only at heq
        split at heq <;> cases heq
    · exact ⟨rfl, hready⟩
  | readyFailed =>
    rintro ⟨⟩
    exact (h.dropSession peer.line peer.sid).setPc p _ fun _ heq => by cases heq
  | readyAnnouncing =>
    rintro ⟨⟩
    have hclose : msgClose ≠ msgMsg := by decide
    apply (h.setPc p .closing fun _ heq => by cases heq).sendHost
    exact ⟨hstill _, fun ht => absurd ht hclose⟩
  | forwarding d =>
    have hsent : .fromPeer p d ∈ w.log := h.forwarding p peer d hpeer hpc
    rintro ⟨⟩
    apply Routing.sendHost
    · apply h.setPc
      intro d' heq
      split at heq <;> cases heq
    · exact ⟨hstill _, fun _ => hsent⟩
  | leaving =>
    dsimp only
    split
    · rintro ⟨⟩
      exact (h.dropSession peer.line peer.sid).setPc p _ fun _ heq => by cases heq
    · rintro ⟨⟩
      exact h.setPc p _ fun _ heq => by cases heq
  | announcing =>
    rintro ⟨⟩
    have hclose : msgClose ≠ msgMsg := by decide
    apply (h.setPc p .closing fun _ heq => by cases heq).sendHost
    exact ⟨hstill _, fun ht => absurd ht hclose⟩
  | closing =>
    rintro ⟨⟩
    exact (h.closePeer p).setPc p _ fun _ heq => by cases heq
  | refusing code =>
    rintro ⟨⟩
    have herror : msgError ≠ msgMsg := by decide
    apply (h.setPc p .closing fun _ heq => by cases heq).sendPeer
    exact ⟨rfl, herror⟩

theorem Routing.peerStep (hpeer : w.peers p = some peer) {act : PeerAct}
    (hgoes : w.peerStep p peer line act = some v) : v.Routing := by
  cases act with
  | receives f =>
    simp only [World.peerStep] at hgoes
    split at hgoes
    · cases hgoes
      unfold World.peerReceives
      split
      · have hread : (w.emit (.fromPeer p f.d)).Routing :=
          h.emit (fun _ _ _ heq => by cases heq) (fun _ _ _ heq => by cases heq)
        refine hread.setPc p _ ?_
        intro d heq
        cases heq
        exact List.mem_append_right _ List.mem_cons_self
      · exact h
    · cases hgoes
  | readFails =>
    simp only [World.peerStep] at hgoes
    split at hgoes
    · cases hgoes
      exact h.setPc p _ fun _ heq => by cases heq
    · cases hgoes
  | goes ok => exact h.peerGoes hpeer hgoes

theorem Routing.hostConnect (id : String) (proto : Int) :
    (w.hostConnect id proto).Routing := by
  have hline : ∀ k line, update w.lines w.lineCount
      (some { id := id, proto := proto }) k = some line →
      w.lines k = some line ∨ line = { id := id, proto := proto } := by
    intro k line hk
    by_cases heq : k = w.lineCount
    · subst heq
      rw [update_self, Option.some.injEq] at hk
      exact .inr hk.symm
    · rw [update_of_ne heq] at hk
      exact .inl hk
  have hnew : World.Routing { w with
      lineCount := w.lineCount + 1
      hub := update w.hub id (some w.lineCount)
      lines := update w.lines w.lineCount (some { id := id, proto := proto }) } := by
    refine ⟨h.distinct, ?_, ?_, h.forwarding, h.toHost, h.toPeer⟩
    · intro k line hk s p hs
      rcases hline k line hk with hold | rfl
      · exact h.sessions k line hold s p hs
      · simp at hs
    · intro k line hk
      rcases hline k line hk with hold | rfl
      · exact h.handler k line hold
      · trivial
  unfold World.hostConnect
  dsimp only
  split
  · exact hnew
  · exact hnew.setHangUp _ _

theorem Routing.peerConnect {id sid : String} {proto : Int}
    (number : w.peers p = none) (fresh : ∀ q peer, w.peers q = some peer → peer.sid ≠ sid) :
    (w.peerConnect p id sid proto).Routing := by
  unfold World.peerConnect
  split
  · exact h
  · next l _ =>
    generalize hnew : ({ sid := sid, line := l, proto := proto } : Peer) = new
    have hpeer : ∀ q peer, update w.peers p (some new) q = some peer →
        (q ≠ p ∧ w.peers q = some peer) ∨ (q = p ∧ peer = new) := by
      intro q peer hq
      by_cases heq : q = p
      · subst heq
        rw [update_self, Option.some.injEq] at hq
        exact .inr ⟨rfl, hq.symm⟩
      · rw [update_of_ne heq] at hq
        exact .inl ⟨heq, hq⟩
    have hkeep : ∀ q s k, w.Names q s k →
        World.Names { w with peers := update w.peers p (some new) } q s k := by
      intro q s k hq
      obtain ⟨peer, hold, hsid, hon⟩ := hq
      have hne : q ≠ p := by
        intro heq
        rw [heq, number] at hold
        cases hold
      exact ⟨peer, by simp [update_of_ne hne, hold], hsid, hon⟩
    refine ⟨?_, ?_, ?_, ?_, ?_, ?_⟩
    · intro q r s k m hq hr
      obtain ⟨a, ha, hasid, hak⟩ := hq
      obtain ⟨b, hb, hbsid, hbm⟩ := hr
      rcases hpeer q a ha with ⟨hqp, haold⟩ | ⟨hqp, rfl⟩
      · rcases hpeer r b hb with ⟨-, hbold⟩ | ⟨-, rfl⟩
        · exact h.distinct q r s k m ⟨a, haold, hasid, hak⟩ ⟨b, hbold, hbsid, hbm⟩
        · rw [← hnew] at hbsid
          exact absurd (hasid.trans hbsid.symm) (fresh q a haold)
      · rcases hpeer r b hb with ⟨-, hbold⟩ | ⟨hrp, rfl⟩
        · rw [← hnew] at hasid
          exact absurd (hbsid.trans hasid.symm) (fresh r b hbold)
        · rw [hqp, hrp]
    · intro k line hk s q hs
      exact hkeep _ _ _ (h.sessions k line hk s q hs)
    · intro k line hk
      exact (h.handler k line hk).transfer hkeep fun _ he => he
    · intro q peer d hq hpc
      rcases hpeer q peer hq with ⟨-, hold⟩ | ⟨-, rfl⟩
      · exact h.forwarding q peer d hold hpc
      · rw [← hnew] at hpc
        cases hpc
    · intro k writer f hf
      exact (h.toHost k writer f hf).transfer hkeep fun _ he => he
    · intro q writer f hf
      exact (h.toPeer q writer f hf).transfer hkeep fun _ he => he

theorem Routing.step {a : Label} (hstep : Step w a v) : v.Routing := by
  cases hstep with
  | hostConnect id proto => exact h.hostConnect id proto
  | peerConnect p id sid proto number fresh => exact h.peerConnect number fresh
  | host hline hgoes => exact h.hostStep hline hgoes
  | hangUp _ hgoes => exact h.hangUpStep hgoes
  | peer hpeer _ hgoes => exact h.peerStep hpeer hgoes
  | lineDies l => exact h.closeLine l
  | peerDies p => exact h.closePeer p

omit h

theorem start_routing (maxSessions : Nat) : (start maxSessions).Routing := by
  refine ⟨?_, ?_, ?_, ?_, ?_, ?_⟩
  · intro p q s l k hp
    obtain ⟨peer, hpeer, -⟩ := hp
    cases hpeer
  · intro l line hl
    cases hl
  · intro l line hl
    cases hl
  · intro p peer d hp
    cases hp
  · intro l writer f hf
    cases hf
  · intro p writer f hf
    cases hf

end World

end MoonlightWeb.Deploy.Rendezvous
