import MoonlightWeb.Deploy.RendezvousRegistration

/-! # Closing a session once

Whoever takes a session off a line announces its end to the host, and only the
handler whose `dropSession` found it does. One path is different: a browser
whose ready frame cannot be written is announced without asking whether it was
still registered. The host hears of a session's end at most once as long as no
delivery of the host fails on a browser before that browser was told it is ready.
-/

namespace MoonlightWeb.Deploy.Rendezvous

open Lib World

namespace World

/-- A close frame for session `s`, written to a host. -/
def isClose (s : String) : Event → Bool
  | .toHost _ _ f => f.t = msgClose && f.s = s
  | _ => false

variable (w : World)

/-- How often the host was told that session `s` is over. -/
def closes (s : String) : Nat := w.log.countP (isClose s)

def registeredOn (l : Nat) (s : String) : Bool :=
  (w.lines l).any fun line => decide (s ∈ line.sessions)

/-- The handler of line `l` dropped session `s` and is about to announce it. -/
def announcing (pc : HostPc) (s : String) : Bool :=
  match pc with
  | .announcing s' _ => s' = s
  | _ => false

def announcedOn (l : Nat) (s : String) : Bool :=
  (w.lines l).any fun line => announcing line.handler s

/-- What was announced and what is still due, by where the browser's handler
is. While the browser is not ready nobody else may announce it. -/
def Settled (closes : Nat) (registered announced ready : Bool) : PeerPc → Prop
  | .adding => closes = 0 ∧ announced = false ∧ registered = false ∧ ready = false
  | .opening => closes = 0 ∧ announced = false ∧ ready = false
  | .openFailed => closes = 0 ∧ announced = false ∧ ready = false
  | .readying => closes = 0 ∧ announced = false ∧ ready = false
  | .readyFailed => closes = 0 ∧ announced = false ∧ ready = false
  | .reading => closes + registered.toNat + announced.toNat ≤ 1
  | .forwarding _ => closes + registered.toNat + announced.toNat ≤ 1
  | .leaving => closes + registered.toNat + announced.toNat ≤ 1
  | .closing => closes + announced.toNat ≤ 1 ∧ registered = false
  | .done => closes + announced.toNat ≤ 1 ∧ registered = false
  | .readyAnnouncing => closes = 0 ∧ announced = false ∧ registered = false
  | .announcing => closes = 0 ∧ announced = false ∧ registered = false
  | .refusing _ => closes = 0 ∧ announced = false ∧ registered = false

variable {pc : PeerPc} {closes : Nat}

theorem Settled.closes_le {registered announced ready : Bool}
    (h : Settled closes registered announced ready pc) : closes ≤ 1 := by
  cases pc <;> simp only [Settled] at h <;> omega

/-- Taking a session off the line, or an announcement off the agenda, settles nothing less. -/
theorem Settled.mono {registered announced registered' announced' ready : Bool}
    (h : Settled closes registered announced ready pc)
    (hr : registered' = true → registered = true) (ha : announced' = true → announced = true) :
    Settled closes registered' announced' ready pc := by
  cases pc <;> cases registered <;> cases announced <;> cases registered' <;> cases announced' <;>
    simp_all [Settled]

/-- A session still registered once its browser is ready, or about to be
announced: nothing was announced before. -/
theorem Settled.drop {announced : Bool}
    (h : Settled closes true announced true pc) : Settled closes false true true pc := by
  cases pc <;> cases announced <;> simp_all [Settled]

theorem Settled.announce {registered ready : Bool} (h : Settled closes registered true ready pc) :
    Settled (closes + 1) registered false ready pc := by
  cases pc <;> cases registered <;> simp_all [Settled]

/-- Every browser is settled. -/
def Tidy : Prop :=
  ∀ p peer, w.peers p = some peer →
    Settled (w.closes peer.sid) (w.registeredOn peer.line peer.sid)
      (w.announcedOn peer.line peer.sid) peer.ready peer.pc

/-- A delivery that fails on a session still registered fails on a browser that
was told it is ready. -/
def Prompt : Label → Prop
  | .host l (.goes _) => ∀ line s p peer, w.lines l = some line →
      line.handler = .undelivered s p → s ∈ line.sessions → w.peers p = some peer →
      peer.ready = true
  | _ => True

/-! ### Sections that announce nothing -/

variable {w : World}

theorem Tidy.modifyPeer (h : w.Tidy) (p : Nat) {f : Peer → Peer} (hf : Keeps f)
    (hsettled : ∀ peer, w.peers p = some peer →
      Settled (w.closes peer.sid) (w.registeredOn peer.line peer.sid)
        (w.announcedOn peer.line peer.sid) (f peer).ready (f peer).pc) :
    (w.modifyPeer p f).Tidy := by
  intro q peer hq
  rcases modifyPeer_cases hq with ⟨-, hold⟩ | ⟨rfl, old, hold, rfl⟩
  · exact h q peer hold
  · rw [(hf old).1, (hf old).2]
    exact hsettled old hold

theorem Tidy.closePeer (h : w.Tidy) (p : Nat) : (w.closePeer p).Tidy :=
  h.modifyPeer p (fun _ => ⟨rfl, rfl⟩) fun peer hpeer => h p peer hpeer

theorem registeredOn_modifyLine (l k : Nat) (f : Line → Line) (s : String) :
    (w.modifyLine l f).registeredOn k s =
      if k = l then (w.lines l).any fun line => decide (s ∈ (f line).sessions)
      else w.registeredOn k s := by
  by_cases hk : k = l
  · subst hk
    cases hline : w.lines k <;> simp [registeredOn, modifyLine, hline]
  · simp [registeredOn, modifyLine, hk]

theorem announcedOn_modifyLine (l k : Nat) (f : Line → Line) (s : String) :
    (w.modifyLine l f).announcedOn k s =
      if k = l then (w.lines l).any fun line => announcing (f line).handler s
      else w.announcedOn k s := by
  by_cases hk : k = l
  · subst hk
    cases hline : w.lines k <;> simp [announcedOn, modifyLine, hline]
  · simp [announcedOn, modifyLine, hk]

variable (h : w.Tidy)

include h

/-- A section that registers nothing new and takes nothing on to announce. -/
theorem Tidy.modifyLine (l : Nat) {f : Line → Line}
    (hsessions : ∀ line, w.lines l = some line → ∀ s, s ∈ (f line).sessions → s ∈ line.sessions)
    (hhandler : ∀ line, w.lines l = some line → ∀ s, announcing (f line).handler s = true →
      announcing line.handler s = true) : (w.modifyLine l f).Tidy := by
  intro p peer hpeer
  refine (h p peer hpeer).mono ?_ ?_
  · rw [registeredOn_modifyLine]
    split
    · next heq =>
      cases hline : w.lines l with
      | none => simp
      | some line => simpa [registeredOn, heq, hline] using hsessions line hline peer.sid
    · exact id
  · rw [announcedOn_modifyLine]
    split
    · next heq =>
      cases hline : w.lines l with
      | none => simp
      | some line => simpa [announcedOn, heq, hline] using hhandler line hline peer.sid
    · exact id

theorem Tidy.setHandler (l : Nat) (pc : HostPc)
    (hpc : ∀ s, announcing pc s = false) : (w.setHandler l pc).Tidy := by
  apply h.modifyLine
  · exact fun _ _ _ hs => hs
  · intro line _ s hs
    rw [hpc] at hs
    cases hs

theorem Tidy.setHangUp (l : Nat) (pc : HangUpPc) : (w.setHangUp l pc).Tidy :=
  h.modifyLine l (fun _ _ _ hs => hs) fun _ _ _ hs => hs

theorem Tidy.closeLine (l : Nat) : (w.closeLine l).Tidy :=
  h.modifyLine l (fun _ _ _ hs => hs) fun _ _ _ hs => hs

theorem Tidy.shutdown (l : Nat) : (w.shutdown l).Tidy :=
  h.modifyLine l (fun _ _ s hs => absurd hs (AList.notMem_empty s)) fun _ _ _ hs => hs

theorem Tidy.dropSession (l : Nat) (s : String) : (w.dropSession l s).Tidy := by
  apply h.modifyLine
  · intro line _ s' hs'
    exact (AList.mem_erase.mp hs').2
  · exact fun _ _ _ hs => hs

omit h

theorem registeredOn_dropSession (l : Nat) (s : String) :
    (w.dropSession l s).registeredOn l s = false := by
  unfold dropSession
  rw [registeredOn_modifyLine, if_pos rfl]
  cases w.lines l <;> simp

theorem announcedOn_dropSession (l k : Nat) (s s' : String) :
    (w.dropSession l s).announcedOn k s' = w.announcedOn k s' := by
  rw [dropSession, announcedOn_modifyLine]
  split
  · next heq => rw [heq, announcedOn]
  · rfl

theorem closes_emit (e : Event) (s : String) :
    (w.emit e).closes s = w.closes s + if isClose s e then 1 else 0 := by
  simp only [closes, emit_log, List.countP_append, List.countP_singleton]

theorem Tidy.emit (h : w.Tidy) {e : Event} (he : ∀ s, isClose s e = false) : (w.emit e).Tidy := by
  intro p peer hpeer
  have hcloses : (w.emit e).closes peer.sid = w.closes peer.sid := by
    rw [closes_emit, he]
    simp
  rw [hcloses]
  exact h p peer hpeer

theorem Tidy.sendPeer (h : w.Tidy) (writer : Writer) (p : Nat) (f : PeerFrame) (taken : Bool) :
    (w.sendPeer writer p f taken).Tidy := by
  cases taken with
  | false => exact h.closePeer p
  | true => exact h.emit fun _ => rfl

variable {l : Nat}

theorem Tidy.sendHost (h : w.Tidy) {writer : Writer} {f : HostFrame}
    (hf : f.t ≠ msgClose) (taken : Bool) : (w.sendHost writer l f taken).Tidy := by
  cases taken with
  | false => exact h.closeLine l
  | true => exact h.emit fun _ => by simp [isClose, hf]

/-- Announcing session `s`, by whoever it is due from. -/
theorem Tidy.announce (h : w.Tidy) {writer : Writer} {f : HostFrame}
    (hdue : ∀ p peer, w.peers p = some peer → peer.sid = f.s →
      Settled (w.closes peer.sid + 1) (w.registeredOn peer.line peer.sid)
        (w.announcedOn peer.line peer.sid) peer.ready peer.pc) (taken : Bool) :
    (w.sendHost writer l f taken).Tidy := by
  cases taken with
  | false => exact h.closeLine l
  | true =>
    intro p peer hpeer
    change Settled ((w.emit (.toHost l writer f)).closes peer.sid) _ _ _ _
    rw [closes_emit]
    by_cases hclose : isClose peer.sid (.toHost l writer f) = true
    · rw [if_pos hclose]
      simp only [isClose, Bool.and_eq_true, decide_eq_true_eq] at hclose
      exact hdue p peer hpeer hclose.2.symm
    · rw [if_neg hclose]
      exact h p peer hpeer

/-! ### Handlers -/

theorem Tidy.hostReceives (h : w.Tidy) (l : Nat) (line : Line) (f : HostFrame) :
    (w.hostReceives l line f).Tidy := by
  have hread : (w.emit (.fromHost l f)).Tidy := h.emit fun _ => rfl
  unfold World.hostReceives
  cases line.sessions.lookup f.s with
  | none => exact hread
  | some p =>
    dsimp only
    split
    · exact hread.setHandler l _ fun _ => rfl
    · split
      · exact hread.setHandler l _ fun _ => rfl
      · exact hread

theorem Tidy.unregister (h : w.Tidy) (l : Nat) (line : Line) : (w.unregister l line).Tidy := by
  unfold World.unregister
  split
  · exact h
  · exact h

variable {line : Line} {p : Nat}

theorem Tidy.drop (h : w.Tidy) (hrouting : w.Routing) {s : String}
    (hline : w.lines l = some line) (hpc : line.handler = .undelivered s p)
    (hregistered : s ∈ line.sessions) (hready : ∀ peer, w.peers p = some peer → peer.ready = true) :
    ((w.dropSession l s).setHandler l (.announcing s p)).Tidy := by
  have hname : w.Names p s l := by
    have hbusy := hrouting.handler l line hline
    rw [hpc] at hbusy
    exact hbusy
  have hdrop : (w.dropSession l s).Tidy := h.dropSession l s
  intro q peer hq
  change w.peers q = some peer at hq
  by_cases hon : peer.line = l
  · by_cases hs : peer.sid = s
    · -- The browser of the dropped session: ready, so nobody else has a say in it.
      have hqp : q = p := hrouting.distinct q p s l l ⟨peer, hq, hs, hon⟩ hname
      subst hqp
      have hwas := h q peer hq
      have hreg : w.registeredOn peer.line peer.sid = true := by
        simp [registeredOn, hon, hs, hline, hregistered]
      rw [hreg, hready peer hq] at hwas
      refine (hready peer hq ▸ hwas.drop : Settled _ false true peer.ready peer.pc).mono ?_ ?_
      · rw [World.setHandler, registeredOn_modifyLine, if_pos hon]
        intro hstill
        simp [World.dropSession, modifyLine_self hline, hs] at hstill
      · exact fun _ => rfl
    · refine (hdrop q peer hq).mono ?_ ?_
      · rw [World.setHandler, registeredOn_modifyLine, if_pos hon]
        rw [registeredOn, hon]
        exact id
      · rw [World.setHandler, announcedOn_modifyLine, if_pos hon]
        intro hdue
        simp [World.dropSession, modifyLine_self hline, World.announcing, Ne.symm hs] at hdue
  · refine (hdrop q peer hq).mono ?_ ?_
    · rw [World.setHandler, registeredOn_modifyLine, if_neg hon]
      exact id
    · rw [World.setHandler, announcedOn_modifyLine, if_neg hon]
      exact id

variable {v : World}

theorem Tidy.hostGoes (h : w.Tidy) (hrouting : w.Routing)
    (hline : w.lines l = some line) {ok : Bool} (hprompt : w.Prompt (.host l (.goes ok)))
    (hgoes : w.hostGoes l line ok = some v) : v.Tidy := by
  revert hgoes
  unfold World.hostGoes
  cases hpc : line.handler with
  | reading => rintro ⟨⟩
  | down => rintro ⟨⟩
  | delivering s p d =>
    rintro ⟨⟩
    apply Tidy.sendPeer
    apply h.setHandler
    intro s'
    split <;> rfl
  | undelivered s p =>
    dsimp only
    split
    · next hregistered =>
      rintro ⟨⟩
      exact h.drop hrouting hline hpc hregistered fun peer hpeer =>
        hprompt line s p peer hline hpc hregistered hpeer
    · rintro ⟨⟩
      exact h.setHandler l _ fun _ => rfl
  | announcing s p =>
    rintro ⟨⟩
    have hname : w.Names p s l := by
      have hbusy := hrouting.handler l line hline
      rw [hpc] at hbusy
      exact hbusy
    have hnext : (w.setHandler l (.hangingUp p)).Tidy := h.setHandler l _ fun _ => rfl
    apply hnext.announce
    intro q peer hq hs
    change w.peers q = some peer at hq
    change peer.sid = s at hs
    obtain ⟨known, hknown, hsid, hon⟩ := hname
    have hqp : q = p :=
      hrouting.distinct q p s peer.line l ⟨peer, hq, hs, rfl⟩ ⟨known, hknown, hsid, hon⟩
    subst hqp
    rw [hq, Option.some.injEq] at hknown
    subst hknown
    have hwas := h q peer hq
    have hdue : w.announcedOn peer.line peer.sid = true := by
      simp [announcedOn, hon, hs, hline, hpc, World.announcing]
    rw [hdue] at hwas
    refine hwas.announce.mono ?_ ?_
    · rw [World.setHandler, registeredOn_modifyLine, if_pos hon, registeredOn, hon]
      exact id
    · rw [World.setHandler, announcedOn_modifyLine, if_pos hon]
      intro hstill
      simp [hline, World.announcing] at hstill
  | hangingUp p =>
    rintro ⟨⟩
    exact (h.closePeer p).setHandler l _ fun _ => rfl
  | dropping s p =>
    rintro ⟨⟩
    exact (h.dropSession l s).setHandler l _ fun _ => rfl
  | closing p =>
    rintro ⟨⟩
    exact (h.closePeer p).setHandler l _ fun _ => rfl
  | leaving =>
    rintro ⟨⟩
    exact (h.unregister l line).setHandler l _ fun _ => rfl
  | unregistered =>
    rintro ⟨⟩
    exact (h.shutdown l).setHandler l _ fun _ => rfl
  | telling peers =>
    cases peers with
    | nil =>
      rintro ⟨⟩
      exact (h.closeLine l).setHandler l _ fun _ => rfl
    | cons p rest =>
      rintro ⟨⟩
      exact (h.setHandler l (.closingEach p rest) fun _ => rfl).sendPeer _ _ _ _
  | closingEach p rest =>
    rintro ⟨⟩
    exact (h.closePeer p).setHandler l _ fun _ => rfl

theorem Tidy.hostStep (h : w.Tidy) (hrouting : w.Routing)
    (hline : w.lines l = some line) {act : HostAct} (hprompt : w.Prompt (.host l act))
    (hgoes : w.hostStep l line act = some v) : v.Tidy := by
  cases act with
  | receives f =>
    simp only [World.hostStep] at hgoes
    split at hgoes
    · cases hgoes
      exact h.hostReceives l line f
    · cases hgoes
  | readFails =>
    simp only [World.hostStep] at hgoes
    split at hgoes
    · cases hgoes
      exact h.setHandler l _ fun _ => rfl
    · cases hgoes
  | goes ok => exact h.hostGoes hrouting hline hprompt hgoes

theorem Tidy.hangUpStep (h : w.Tidy) {ok : Bool}
    (hgoes : w.hangUpStep l line ok = some v) : v.Tidy := by
  revert hgoes
  unfold World.hangUpStep
  cases hpc : line.hangUp with
  | idle => rintro ⟨⟩
  | down => rintro ⟨⟩
  | pending =>
    rintro ⟨⟩
    exact (h.shutdown l).setHangUp l _
  | telling peers =>
    cases peers with
    | nil =>
      rintro ⟨⟩
      exact (h.closeLine l).setHangUp l _
    | cons p rest =>
      rintro ⟨⟩
      exact (h.setHangUp l _).sendPeer _ _ _ _
  | closingEach p rest =>
    rintro ⟨⟩
    exact (h.closePeer p).setHangUp l _

variable {peer : Peer}

variable (h : w.Tidy)

include h

theorem Tidy.setPc (hpeer : w.peers p = some peer)
    (hpc : Settled (w.closes peer.sid) (w.registeredOn peer.line peer.sid)
      (w.announcedOn peer.line peer.sid) peer.ready pc) : (w.setPc p pc).Tidy := by
  apply h.modifyPeer
  · exact fun _ => ⟨rfl, rfl⟩
  · intro old hold
    rw [hpeer, Option.some.injEq] at hold
    subst hold
    exact hpc

/-- A browser that takes its session off the line itself. -/
theorem Tidy.leave (hpeer : w.peers p = some peer)
    (hpc : Settled (w.closes peer.sid) false (w.announcedOn peer.line peer.sid)
      peer.ready pc) : ((w.dropSession peer.line peer.sid).setPc p pc).Tidy := by
  have hdrop : (w.dropSession peer.line peer.sid).Tidy := h.dropSession peer.line peer.sid
  apply hdrop.setPc hpeer
  rw [registeredOn_dropSession, announcedOn_dropSession]
  exact hpc

/-- The announcement a browser's handler owes for its own session. -/
theorem Tidy.announceOwn (hrouting : w.Routing)
    (hpeer : w.peers p = some peer) (hnone : w.closes peer.sid = 0)
    (hannounced : w.announcedOn peer.line peer.sid = false)
    (hregistered : w.registeredOn peer.line peer.sid = false) (taken : Bool) :
    ((w.setPc p .closing).sendHost (.peer p) peer.line { t := msgClose, s := peer.sid }
      taken).Tidy := by
  have hclosing : (w.setPc p .closing).Tidy := by
    apply h.setPc hpeer
    simp [Settled, hnone, hannounced, hregistered]
  apply hclosing.announce
  intro q other hq hs
  rcases modifyPeer_cases hq with ⟨hne, hold⟩ | ⟨rfl, old, hold, rfl⟩
  · exact absurd (hrouting.distinct q p peer.sid other.line peer.line ⟨other, hold, hs, rfl⟩
      ⟨peer, hpeer, rfl, rfl⟩) hne
  · rw [hpeer, Option.some.injEq] at hold
    subst hold
    change Settled (w.closes peer.sid + 1) (w.registeredOn peer.line peer.sid)
      (w.announcedOn peer.line peer.sid) peer.ready .closing
    simp [Settled, hnone, hannounced, hregistered]

theorem Tidy.addSession (hrouting : w.Routing)
    (hpeer : w.peers p = some peer) (hpc : peer.pc = .adding) (line : Line) :
    (w.addSession p peer line).Tidy := by
  have hwas := h p peer hpeer
  rw [hpc] at hwas
  obtain ⟨hnone, hannounced, hregistered, hready⟩ := hwas
  unfold World.addSession
  split
  · exact h.setPc hpeer ⟨hnone, hannounced, hregistered⟩
  · split
    · exact h.setPc hpeer ⟨hnone, hannounced, hregistered⟩
    · intro q other hq
      rcases modifyPeer_cases hq with ⟨hne, hold⟩ | ⟨rfl, old, hold, rfl⟩
      · -- Another browser has another session id, so its registration is as it was.
        have hsid : other.sid ≠ peer.sid := by
          intro heq
          exact hne (hrouting.distinct q p peer.sid other.line peer.line ⟨other, hold, heq, rfl⟩
            ⟨peer, hpeer, rfl, rfl⟩)
        refine (h q other hold).mono ?_ ?_
        · change (w.modifyLine peer.line _).registeredOn other.line other.sid = true → _
          rw [registeredOn_modifyLine]
          split
          · next heq => simp [registeredOn, heq, AList.mem_insert, hsid]
          · exact id
        · change (w.modifyLine peer.line _).announcedOn other.line other.sid = true → _
          rw [announcedOn_modifyLine]
          split
          · next heq => simp [announcedOn, heq]
          · exact id
      · change w.peers q = some old at hold
        rw [hpeer, Option.some.injEq] at hold
        subst hold
        refine ⟨hnone, ?_, hready⟩
        change (w.modifyLine peer.line _).announcedOn peer.line peer.sid = false
        rw [announcedOn_modifyLine, if_pos rfl]
        exact hannounced

theorem Tidy.peerGoes (hrouting : w.Routing)
    (hpeer : w.peers p = some peer) (hline : w.lines peer.line = some line) {ok : Bool}
    (hgoes : w.peerGoes p peer line ok = some v) : v.Tidy := by
  have hwas := h p peer hpeer
  revert hgoes
  unfold World.peerGoes
  cases hpc : peer.pc with
  | reading => rintro ⟨⟩
  | done => rintro ⟨⟩
  | adding =>
    rintro ⟨⟩
    exact h.addSession hrouting hpeer hpc line
  | opening =>
    simp only [hpc] at hwas
    rintro ⟨⟩
    have hopen : msgOpen ≠ msgClose := by decide
    apply Tidy.sendHost
    · apply h.setPc hpeer
      split
      · exact hwas
      · exact hwas
    · exact hopen
  | openFailed =>
    simp only [hpc] at hwas
    rintro ⟨⟩
    exact h.leave hpeer ⟨hwas.1, hwas.2.1, rfl⟩
  | readying =>
    simp only [hpc] at hwas
    rintro ⟨⟩
    obtain ⟨hnone, hannounced, hready⟩ := hwas
    apply Tidy.sendPeer
    apply h.modifyPeer
    · exact fun _ => ⟨rfl, rfl⟩
    · intro old hold
      rw [hpeer, Option.some.injEq] at hold
      subst hold
      cases w.peerTakes p ok with
      | false => exact ⟨hnone, hannounced, rfl⟩
      | true =>
        have hle := Bool.toNat_le (w.registeredOn peer.line peer.sid)
        simp only [if_true, Settled, hnone, hannounced, Bool.toNat_false]
        omega
  | readyFailed =>
    simp only [hpc] at hwas
    rintro ⟨⟩
    exact h.leave hpeer ⟨hwas.1, hwas.2.1, rfl⟩
  | readyAnnouncing =>
    simp only [hpc] at hwas
    rintro ⟨⟩
    exact h.announceOwn hrouting hpeer hwas.1 hwas.2.1 hwas.2.2 _
  | forwarding d =>
    simp only [hpc] at hwas
    rintro ⟨⟩
    have hmsg : msgMsg ≠ msgClose := by decide
    apply Tidy.sendHost
    · apply h.setPc hpeer
      split
      · exact hwas
      · exact hwas
    · exact hmsg
  | leaving =>
    simp only [hpc] at hwas
    dsimp only
    split
    · next hregistered =>
      rintro ⟨⟩
      have hreg : w.registeredOn peer.line peer.sid = true := by
        simp [registeredOn, hline, hregistered]
      rw [hreg] at hwas
      apply h.leave hpeer
      cases hannounced : w.announcedOn peer.line peer.sid with
      | true =>
        simp only [Settled, hannounced, Bool.toNat_true] at hwas
        omega
      | false =>
        simp only [Settled, hannounced, Bool.toNat_true, Bool.toNat_false] at hwas
        exact ⟨by omega, rfl, rfl⟩
    · next hgone =>
      rintro ⟨⟩
      have hreg : w.registeredOn peer.line peer.sid = false := by
        simp [registeredOn, hline, hgone]
      apply h.setPc hpeer
      rw [hreg] at hwas ⊢
      exact ⟨hwas, rfl⟩
  | announcing =>
    simp only [hpc] at hwas
    rintro ⟨⟩
    exact h.announceOwn hrouting hpeer hwas.1 hwas.2.1 hwas.2.2 _
  | closing =>
    simp only [hpc] at hwas
    rintro ⟨⟩
    have hdead : (w.closePeer p).peers p = some { peer with dead := true } :=
      modifyPeer_self hpeer
    exact (h.closePeer p).setPc hdead hwas
  | refusing code =>
    simp only [hpc] at hwas
    rintro ⟨⟩
    apply Tidy.sendPeer
    apply h.setPc hpeer
    obtain ⟨hnone, hannounced, hregistered⟩ := hwas
    simp [Settled, hnone, hannounced, hregistered]

theorem Tidy.peerStep (hrouting : w.Routing)
    (hpeer : w.peers p = some peer) (hline : w.lines peer.line = some line) {act : PeerAct}
    (hgoes : w.peerStep p peer line act = some v) : v.Tidy := by
  have hwas := h p peer hpeer
  cases act with
  | receives f =>
    simp only [World.peerStep] at hgoes
    split at hgoes
    · next hpc =>
      cases hgoes
      rw [hpc] at hwas
      unfold World.peerReceives
      split
      · have hread : (w.emit (.fromPeer p f.d)).Tidy := h.emit fun _ => rfl
        apply hread.setPc hpeer
        have hcloses : (w.emit (.fromPeer p f.d)).closes peer.sid = w.closes peer.sid := by
          simp [closes_emit, isClose]
        rw [hcloses]
        exact hwas
      · exact h
    · cases hgoes
  | readFails =>
    simp only [World.peerStep] at hgoes
    split at hgoes
    · next hpc =>
      cases hgoes
      rw [hpc] at hwas
      exact h.setPc hpeer hwas
    · cases hgoes
  | goes ok => exact h.peerGoes hrouting hpeer hline hgoes

omit h

/-! ### Arrivals -/

theorem Tidy.hostConnect (h : w.Tidy) (id : String) (proto : Int) :
    (w.hostConnect id proto).Tidy := by
  have hnew : World.Tidy { w with
      lineCount := w.lineCount + 1
      hub := Function.update w.hub id (some w.lineCount)
      lines := Function.update w.lines w.lineCount (some { id := id, proto := proto }) } := by
    intro p peer hpeer
    refine (h p peer hpeer).mono ?_ ?_
    · unfold registeredOn
      by_cases hon : peer.line = w.lineCount
      · simp [hon]
      · simp [Function.update_of_ne hon]
    · unfold announcedOn
      by_cases hon : peer.line = w.lineCount
      · simp [hon, World.announcing]
      · simp [Function.update_of_ne hon]
  unfold World.hostConnect
  dsimp only
  split
  · exact hnew
  · exact hnew.setHangUp _ _

/-- A session id nobody had was never announced, registered or due. -/
theorem Routing.closes_fresh (h : w.Routing) {sid : String}
    (fresh : ∀ q peer, w.peers q = some peer → peer.sid ≠ sid) : w.closes sid = 0 := by
  have hstranger : ∀ p l, ¬w.Names p sid l := by
    intro p l hname
    obtain ⟨peer, hpeer, hsid, -⟩ := hname
    exact fresh p peer hpeer hsid
  unfold closes
  rw [List.countP_eq_zero]
  intro e he hclose
  cases e with
  | fromHost l f => simp [isClose] at hclose
  | fromPeer p d => simp [isClose] at hclose
  | toPeer p writer f => simp [isClose] at hclose
  | toHost l writer f =>
    simp only [isClose, Bool.and_eq_true, decide_eq_true_eq] at hclose
    have hrouted := h.toHost l writer f he
    cases writer with
    | peer p => exact hstranger p l (hclose.2 ▸ hrouted.1)
    | line k =>
      obtain ⟨-, -, p, hname⟩ := hrouted
      exact hstranger p l (hclose.2 ▸ hname)
    | hangUp k => exact hrouted

theorem Tidy.peerConnect (h : w.Tidy) (hrouting : w.Routing) {id sid : String}
    {proto : Int} (fresh : ∀ q peer, w.peers q = some peer → peer.sid ≠ sid) :
    (w.peerConnect p id sid proto).Tidy := by
  have hstranger : ∀ p l, ¬w.Names p sid l := by
    intro p l hname
    obtain ⟨peer, hpeer, hsid, -⟩ := hname
    exact fresh p peer hpeer hsid
  unfold World.peerConnect
  split
  · exact h
  · next l _ =>
    intro q peer hq
    by_cases hqp : q = p
    · subst hqp
      simp only [Function.update_self, Option.some.injEq] at hq
      subst hq
      refine ⟨hrouting.closes_fresh fresh, ?_, ?_, rfl⟩
      · cases hline : w.lines l with
        | none => simp [announcedOn, hline]
        | some line =>
          have hbusy := hrouting.handler l line hline
          cases hpc : line.handler with
          | announcing s r =>
            rw [hpc] at hbusy
            have hne : s ≠ sid := fun heq => hstranger r l (heq ▸ hbusy)
            simp [announcedOn, hline, hpc, announcing, hne]
          | _ => simp [announcedOn, hline, hpc, announcing]
      · cases hline : w.lines l with
        | none => simp [registeredOn, hline]
        | some line =>
          have hnot : sid ∉ line.sessions := by
            intro hmem
            obtain ⟨r, hr⟩ := Option.isSome_iff_exists.mp (AList.lookup_isSome.mpr hmem)
            exact hstranger r l (hrouting.sessions l line hline sid r hr)
          simp [registeredOn, hline, hnot]
    · simp only [Function.update_of_ne hqp] at hq
      exact h q peer hq

theorem Tidy.step {a : Label} (h : w.Tidy) (hrouting : w.Routing)
    (hprompt : w.Prompt a) (hstep : Step w a v) : v.Tidy := by
  cases hstep with
  | hostConnect id proto => exact h.hostConnect id proto
  | peerConnect p id sid proto number fresh => exact h.peerConnect hrouting fresh
  | host hline hgoes => exact h.hostStep hrouting hline hprompt hgoes
  | hangUp _ hgoes => exact h.hangUpStep hgoes
  | peer hpeer hline hgoes => exact h.peerStep hrouting hpeer hline hgoes
  | lineDies l => exact h.closeLine l
  | peerDies p => exact h.closePeer p

end World

end MoonlightWeb.Deploy.Rendezvous
