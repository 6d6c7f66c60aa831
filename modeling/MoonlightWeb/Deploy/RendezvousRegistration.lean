import MoonlightWeb.Deploy.RendezvousRouting

/-! # Registration on the hub

A line registers at most the configured number of sessions and none once it was
shut down, and the newest line of an id stays in the hub until its own handler
takes it out, whatever older lines of that id do on their way out.
-/

namespace MoonlightWeb.Deploy.Rendezvous

open Lib Line Function

/-- A line registers at most the maximum, and nothing once it was shut down. -/
def LineBounded (maxSessions : Nat) (line : Line) : Prop :=
  line.sessions.entries.length ≤ maxSessions ∧ (line.gone = true → line.sessions = ∅)

/-- The handler of a line has not taken the line out of the hub yet. -/
def Line.holding (line : Line) : Prop :=
  match line.handler with
  | .unregistered => False
  | .telling _ => False
  | .closingEach _ _ => False
  | .down => False
  | _ => True

namespace World

variable {w : World}

/-- No line that arrived later serves the id of line `l`. -/
def Newest (w : World) (l : Nat) (line : Line) : Prop :=
  ∀ k other, w.lines k = some other → l < k → other.id ≠ line.id

/-- Every line is bounded, and the hub hands out the newest line of an id from
its registration until that very line unregisters. -/
structure Registration (w : World) : Prop where
  bounded : ∀ l line, w.lines l = some line → LineBounded w.maxSessions line
  numbered : ∀ l line, w.lines l = some line → l < w.lineCount
  served : ∀ l line, w.lines l = some line → Newest w l line → holding line →
    w.hub line.id = some l

/-- A section on a line that keeps its id, and does not put it back to work. -/
theorem Registration.modifyLine (h : w.Registration) (l : Nat) {f : Line → Line}
    (hid : ∀ line, (f line).id = line.id)
    (hbounded : ∀ line, w.lines l = some line → LineBounded w.maxSessions line →
      LineBounded w.maxSessions (f line))
    (hholding : ∀ line, w.lines l = some line → holding (f line) → holding line) :
    (w.modifyLine l f).Registration where
  bounded k line hk := by
    rcases modifyLine_cases hk with ⟨-, hold⟩ | ⟨rfl, old, hold, rfl⟩
    · exact h.bounded k line hold
    · exact hbounded old hold (h.bounded k old hold)
  numbered k line hk := by
    rcases modifyLine_cases hk with ⟨-, hold⟩ | ⟨rfl, old, hold, rfl⟩
    · exact h.numbered k line hold
    · exact h.numbered k old hold
  served k line hk hnewest hheld := by
    -- The ids of all lines are what they were, so the same lines are newest.
    have hbefore : ∀ m other, w.lines m = some other →
        ∃ other', (w.modifyLine l f).lines m = some other' ∧ other'.id = other.id := by
      intro m other hm
      by_cases hml : m = l
      · subst hml
        exact ⟨f other, modifyLine_self hm, hid other⟩
      · exact ⟨other, by simp [World.modifyLine, update_of_ne hml, hm], rfl⟩
    rcases modifyLine_cases hk with ⟨-, hold⟩ | ⟨rfl, old, hold, rfl⟩
    · refine h.served k line hold ?_ hheld
      intro m other hm hlt
      obtain ⟨other', hm', hsame⟩ := hbefore m other hm
      rw [← hsame]
      exact hnewest m other' hm' hlt
    · rw [hid]
      refine h.served k old hold ?_ (hholding old hold hheld)
      intro m other hm hlt
      obtain ⟨other', hm', hsame⟩ := hbefore m other hm
      rw [← hsame, ← hid old]
      exact hnewest m other' hm' hlt

theorem Registration.modifyPeer (h : w.Registration) (p : Nat) (f : Peer → Peer) :
    (w.modifyPeer p f).Registration :=
  ⟨h.bounded, h.numbered, h.served⟩

theorem Registration.emit (h : w.Registration) (e : Event) : (w.emit e).Registration :=
  ⟨h.bounded, h.numbered, h.served⟩

variable {line : Line} {l : Nat}

variable (h : w.Registration)

include h

theorem Registration.setHandler (pc : HostPc) (hline : w.lines l = some line)
    (hpc : holding { line with handler := pc } → holding line) :
    (w.setHandler l pc).Registration := by
  apply h.modifyLine
  · exact fun _ => rfl
  · exact fun _ _ hb => hb
  · intro old hold
    rw [hline, Option.some.injEq] at hold
    subst hold
    exact hpc

theorem Registration.setHangUp (l : Nat) (pc : HangUpPc) :
    (w.setHangUp l pc).Registration := by
  apply h.modifyLine
  · exact fun _ => rfl
  · exact fun _ _ hb => hb
  · exact fun _ _ hh => hh

theorem Registration.closeLine (l : Nat) : (w.closeLine l).Registration := by
  apply h.modifyLine
  · exact fun _ => rfl
  · exact fun _ _ hb => hb
  · exact fun _ _ hh => hh

theorem Registration.dropSession (l : Nat) (s : String) :
    (w.dropSession l s).Registration := by
  apply h.modifyLine
  · exact fun _ => rfl
  · intro line _ hb
    constructor
    · have hle : (line.sessions.erase s).entries.length ≤ line.sessions.entries.length :=
        (List.kerase_sublist s line.sessions.entries).length_le
      exact Nat.le_trans hle hb.1
    · intro hgone
      have hempty : line.sessions = ∅ := hb.2 hgone
      dsimp only
      rw [hempty]
      rfl
  · exact fun _ _ hh => hh

theorem Registration.shutdown (l : Nat) : (w.shutdown l).Registration := by
  apply h.modifyLine
  · exact fun _ => rfl
  · exact fun _ _ _ => ⟨Nat.zero_le _, fun _ => rfl⟩
  · exact fun _ _ hh => hh

theorem Registration.sendPeer (writer : Writer) (p : Nat) (f : PeerFrame)
    (taken : Bool) : (w.sendPeer writer p f taken).Registration := by
  cases taken with
  | false => exact h.modifyPeer p _
  | true => exact h.emit _

theorem Registration.sendHost (writer : Writer) (l : Nat) (f : HostFrame)
    (taken : Bool) : (w.sendHost writer l f taken).Registration := by
  cases taken with
  | false => exact h.closeLine l
  | true => exact h.emit _

theorem Registration.unregister (hline : w.lines l = some line) :
    ((w.unregister l line).setHandler l .unregistered).Registration := by
  have hlines : (w.unregister l line).lines = w.lines := by
    unfold World.unregister
    split <;> rfl
  have hmax : (w.unregister l line).maxSessions = w.maxSessions := by
    unfold World.unregister
    split <;> rfl
  have hcount : (w.unregister l line).lineCount = w.lineCount := by
    unfold World.unregister
    split <;> rfl
  refine ⟨?_, ?_, ?_⟩
  · intro k other hk
    have hb : ∀ old, w.lines k = some old → LineBounded w.maxSessions old := h.bounded k
    change LineBounded (w.unregister l line).maxSessions other
    rw [hmax]
    rcases modifyLine_cases hk with ⟨-, hold⟩ | ⟨rfl, old, hold, rfl⟩
    · exact hb other (hlines ▸ hold)
    · exact hb old (hlines ▸ hold)
  · intro k other hk
    change k < (w.unregister l line).lineCount
    rw [hcount]
    rcases modifyLine_cases hk with ⟨-, hold⟩ | ⟨rfl, old, hold, rfl⟩
    · exact h.numbered k other (hlines ▸ hold)
    · exact h.numbered k old (hlines ▸ hold)
  · intro k other hk hnewest hheld
    rcases modifyLine_cases hk with ⟨hne, hold⟩ | ⟨rfl, old, -, rfl⟩
    · rw [hlines] at hold
      have hserved : w.hub other.id = some k := by
        refine h.served k other hold ?_ hheld
        intro m newer hm hlt
        by_cases hml : m = l
        · subst hml
          rw [hline, Option.some.injEq] at hm
          subst hm
          exact hnewest m { line with handler := .unregistered }
            (modifyLine_self (by rw [hlines, hline])) hlt
        · refine hnewest m newer ?_ hlt
          simp [World.setHandler, World.modifyLine, update_of_ne hml, hlines, hm]
      change (w.unregister l line).hub other.id = some k
      unfold World.unregister
      split
      · next hours =>
        have hids : other.id ≠ line.id := by
          intro heq
          rw [heq, hours, Option.some.injEq] at hserved
          exact hne hserved.symm
        dsimp only
        rw [update_of_ne hids]
        exact hserved
      · exact hserved
    · exact absurd hheld (by simp [holding])

omit h

/-! ### Handlers keep the registration -/

theorem Registration.hostReceives (h : w.Registration)
    (hline : w.lines l = some line) (hpc : line.handler = .reading) (f : HostFrame) :
    (w.hostReceives l line f).Registration := by
  have hheld : holding line := by simp [holding, hpc]
  have hread : (w.emit (.fromHost l f)).Registration := h.emit _
  unfold World.hostReceives
  cases line.sessions.lookup f.s with
  | none => exact hread
  | some p =>
    dsimp only
    split
    · exact hread.setHandler _ hline fun _ => hheld
    · split
      · exact hread.setHandler _ hline fun _ => hheld
      · exact hread

variable {v : World}

theorem Registration.hostGoes (h : w.Registration) (hline : w.lines l = some line) {ok : Bool}
    (hgoes : w.hostGoes l line ok = some v) : v.Registration := by
  revert hgoes
  unfold World.hostGoes
  cases hpc : line.handler with
  | reading => rintro ⟨⟩
  | down => rintro ⟨⟩
  | delivering s p d =>
    have hheld : holding line := by simp [holding, hpc]
    rintro ⟨⟩
    exact (h.setHandler _ hline fun _ => hheld).sendPeer _ _ _ _
  | undelivered s p =>
    have hheld : holding line := by simp [holding, hpc]
    dsimp only
    split
    · rintro ⟨⟩
      exact (h.dropSession l s).setHandler _ (modifyLine_self hline) fun _ => hheld
    · rintro ⟨⟩
      exact h.setHandler _ hline fun _ => hheld
  | announcing s p =>
    have hheld : holding line := by simp [holding, hpc]
    rintro ⟨⟩
    exact (h.setHandler _ hline fun _ => hheld).sendHost _ _ _ _
  | hangingUp p =>
    have hheld : holding line := by simp [holding, hpc]
    rintro ⟨⟩
    exact (h.modifyPeer p _).setHandler _ hline fun _ => hheld
  | dropping s p =>
    have hheld : holding line := by simp [holding, hpc]
    rintro ⟨⟩
    exact (h.dropSession l s).setHandler _ (modifyLine_self hline) fun _ => hheld
  | closing p =>
    have hheld : holding line := by simp [holding, hpc]
    rintro ⟨⟩
    exact (h.modifyPeer p _).setHandler _ hline fun _ => hheld
  | leaving =>
    rintro ⟨⟩
    exact h.unregister hline
  | unregistered =>
    rintro ⟨⟩
    exact (h.shutdown l).setHandler (.telling _) (modifyLine_self hline) fun hh => False.elim hh
  | telling peers =>
    cases peers with
    | nil =>
      rintro ⟨⟩
      exact (h.closeLine l).setHandler .down (modifyLine_self hline) fun hh => False.elim hh
    | cons p rest =>
      rintro ⟨⟩
      exact (h.setHandler (.closingEach p rest) hline fun hh => False.elim hh).sendPeer _ _ _ _
  | closingEach p rest =>
    rintro ⟨⟩
    exact (h.modifyPeer p _).setHandler (.telling rest) hline fun hh => False.elim hh

theorem Registration.hostStep (h : w.Registration) (hline : w.lines l = some line) {act : HostAct}
    (hgoes : w.hostStep l line act = some v) : v.Registration := by
  cases act with
  | receives f =>
    simp only [World.hostStep] at hgoes
    split at hgoes
    · next hpc =>
      cases hgoes
      exact h.hostReceives hline hpc f
    · cases hgoes
  | readFails =>
    simp only [World.hostStep] at hgoes
    split at hgoes
    · next hpc =>
      cases hgoes
      exact h.setHandler _ hline fun _ => by simp [holding, hpc]
    · cases hgoes
  | goes ok => exact h.hostGoes hline hgoes

theorem Registration.hangUpStep (h : w.Registration) {ok : Bool}
    (hgoes : w.hangUpStep l line ok = some v) : v.Registration := by
  revert hgoes
  unfold World.hangUpStep
  cases hpc : line.hangUp with
  | idle => rintro ⟨⟩
  | down => rintro ⟨⟩
  | pending =>
    rintro ⟨⟩
    exact (h.shutdown l).setHangUp l _
  | telling peers =>
    cases peers with
    | nil =>
      rintro ⟨⟩
      exact (h.closeLine l).setHangUp l _
    | cons p rest =>
      rintro ⟨⟩
      exact (h.setHangUp l _).sendPeer _ _ _ _
  | closingEach p rest =>
    rintro ⟨⟩
    exact (h.modifyPeer p _).setHangUp l _

variable {peer : Peer}

variable (h : w.Registration)

include h

/-- Only a line that is up and below the maximum takes a session. -/
theorem Registration.addSession (p : Nat)
    (hline : w.lines peer.line = some line) : (w.addSession p peer line).Registration := by
  unfold World.addSession
  split
  · exact h.modifyPeer p _
  · next hup =>
    split
    · exact h.modifyPeer p _
    · next hroom =>
      refine Registration.modifyPeer ?_ p _
      apply h.modifyLine
      · exact fun _ => rfl
      · intro old hold _
        rw [hline, Option.some.injEq] at hold
        subst hold
        constructor
        · have hkerase : (List.kerase peer.sid line.sessions.entries).length ≤
              line.sessions.entries.length :=
            (List.kerase_sublist peer.sid line.sessions.entries).length_le
          simp only [AList.entries_insert, List.length_cons]
          omega
        · exact fun hgone => absurd hgone hup
      · exact fun _ _ hh => hh

theorem Registration.peerGoes {p : Nat}
    (hline : w.lines peer.line = some line) {ok : Bool}
    (hgoes : w.peerGoes p peer line ok = some v) : v.Registration := by
  revert hgoes
  unfold World.peerGoes
  cases hpc : peer.pc with
  | reading => rintro ⟨⟩
  | done => rintro ⟨⟩
  | adding =>
    rintro ⟨⟩
    exact h.addSession p hline
  | openFailed =>
    rintro ⟨⟩
    exact (h.dropSession _ _).modifyPeer p _
  | readyFailed =>
    rintro ⟨⟩
    exact (h.dropSession _ _).modifyPeer p _
  | readying =>
    rintro ⟨⟩
    exact (h.modifyPeer p _).sendPeer _ _ _ _
  | refusing code =>
    rintro ⟨⟩
    exact (h.modifyPeer p _).sendPeer _ _ _ _
  | leaving =>
    dsimp only
    split
    · rintro ⟨⟩
      exact (h.dropSession _ _).modifyPeer p _
    · rintro ⟨⟩
      exact h.modifyPeer p _
  | closing =>
    rintro ⟨⟩
    exact (h.modifyPeer p _).modifyPeer p _
  | _ =>
    rintro ⟨⟩
    exact (h.modifyPeer p _).sendHost _ _ _ _

theorem Registration.peerStep {p : Nat}
    (hline : w.lines peer.line = some line) {act : PeerAct}
    (hgoes : w.peerStep p peer line act = some v) : v.Registration := by
  cases act with
  | receives f =>
    simp only [World.peerStep] at hgoes
    split at hgoes
    · cases hgoes
      unfold World.peerReceives
      split
      · exact (h.emit _).modifyPeer p _
      · exact h
    · cases hgoes
  | readFails =>
    simp only [World.peerStep] at hgoes
    split at hgoes
    · cases hgoes
      exact h.modifyPeer p _
    · cases hgoes
  | goes ok => exact h.peerGoes hline hgoes

/-- A new line takes its id over in the hub, and is the newest one of it. -/
theorem Registration.hostConnect (id : String) (proto : Int) :
    (w.hostConnect id proto).Registration := by
  have hline : ∀ k line, update w.lines w.lineCount
      (some { id := id, proto := proto }) k = some line →
      (k ≠ w.lineCount ∧ w.lines k = some line) ∨
        (k = w.lineCount ∧ line = { id := id, proto := proto }) := by
    intro k line hk
    by_cases heq : k = w.lineCount
    · subst heq
      rw [update_self, Option.some.injEq] at hk
      exact .inr ⟨rfl, hk.symm⟩
    · rw [update_of_ne heq] at hk
      exact .inl ⟨heq, hk⟩
  have hnew : World.Registration { w with
      lineCount := w.lineCount + 1
      hub := update w.hub id (some w.lineCount)
      lines := update w.lines w.lineCount (some { id := id, proto := proto }) } := by
    refine ⟨?_, ?_, ?_⟩
    · intro k line hk
      rcases hline k line hk with ⟨-, hold⟩ | ⟨-, rfl⟩
      · exact h.bounded k line hold
      · exact ⟨Nat.zero_le _, fun _ => rfl⟩
    · intro k line hk
      rcases hline k line hk with ⟨-, hold⟩ | ⟨rfl, -⟩
      · have hlt := h.numbered k line hold
        dsimp only
        omega
      · exact Nat.lt_succ_self _
    · intro k line hk hnewest hheld
      rcases hline k line hk with ⟨-, hold⟩ | ⟨rfl, rfl⟩
      · have hlt := h.numbered k line hold
        have hids : id ≠ line.id :=
          hnewest w.lineCount { id := id, proto := proto } (update_self ..) hlt
        dsimp only
        rw [update_of_ne hids.symm]
        refine h.served k line hold ?_ hheld
        intro m other hm hkm
        have hm' : m ≠ w.lineCount := by
          have hmlt := h.numbered m other hm
          omega
        refine hnewest m other ?_ hkm
        dsimp only
        rw [update_of_ne hm']
        exact hm
      · exact update_self ..
  unfold World.hostConnect
  dsimp only
  split
  · exact hnew
  · exact hnew.setHangUp _ _

theorem Registration.step {a : Label} (hstep : Step w a v) :
    v.Registration := by
  cases hstep with
  | hostConnect id proto => exact h.hostConnect id proto
  | peerConnect p id sid proto number fresh =>
    unfold World.peerConnect
    split
    · exact h
    · exact ⟨h.bounded, h.numbered, h.served⟩
  | host hline hgoes => exact h.hostStep hline hgoes
  | hangUp _ hgoes => exact h.hangUpStep hgoes
  | peer _ hline hgoes => exact h.peerStep hline hgoes
  | lineDies l => exact h.closeLine l
  | peerDies p => exact h.modifyPeer p _

omit h

theorem start_registration (maxSessions : Nat) : (start maxSessions).Registration := by
  refine ⟨?_, ?_, ?_⟩
  · intro l line hl
    cases hl
  · intro l line hl
    cases hl
  · intro l line hl
    cases hl

end World

end MoonlightWeb.Deploy.Rendezvous
