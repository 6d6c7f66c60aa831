import MoonlightWeb.Network.RouterPortCore

/-! # Whose hole a write lands on

An entry is foreign while it points at a machine that is neither this host at
its present address nor this host at its previous one. A claim asks the router
before its UDP add, so that add can only land on a foreign entry when another
machine takes the entry between the answer and the write. The TCP add of a
claim, the re-adds of a renewal and the removes of a release ask nothing first:
they are safe exactly while the entry they find is not foreign.
-/

namespace MoonlightWeb.Network.RouterPortCore

open Lib System

/-- The entry points at an address, and at neither of this host's. -/
def Foreign (lan previous : String) (table : Table) (e : Entry) : Prop :=
  ∃ owner, table e = some owner ∧ owner ≠ "" ∧ owner ≠ lan ∧ owner ≠ previous

instance (lan previous : String) (table : Table) (e : Entry) :
    Decidable (Foreign lan previous table e) :=
  match h : table e with
  | none => isFalse (by simp [Foreign, h])
  | some owner =>
      decidable_of_iff (owner ≠ "" ∧ owner ≠ lan ∧ owner ≠ previous) (by simp [Foreign, h])

variable (s : System)

def System.foreign (table : Table) (e : Entry) : Prop :=
  Foreign s.lan s.core.previousLan table e

/-- The write the core makes next, if any, does not land on a foreign entry. -/
def System.NeverTakes : Prop :=
  ∀ e, s.writes = some e → ¬s.foreign s.table e

/-- The UDP add of a claim is the one write that follows a question about its entry. -/
def System.asksFirst (e : Entry) : Prop :=
  s.operation.isClaim = true ∧ e.protocol = .udp

/-- No other machine stands in the way of the next write: after a question
about the entry nobody took it over, without one nobody else has it. -/
def System.Undisturbed : Prop :=
  ∀ e, s.writes = some e →
    (s.asksFirst e → s.foreign s.table e → s.foreign s.asked e) ∧
      (¬s.asksFirst e → ¬s.foreign s.table e)

structure Tables where
  table : Table
  asked : Table

/-- Other machines change the table, not what was answered. -/
def Tables.Drift (w w' : Tables) : Prop := w'.asked = w.asked

def Tables.Answers (lan : String) (w : Tables) (c : Call) (r : c.Answer) (w' : Tables) : Prop :=
  ∃ accepts, r = c.answer lan w.table accepts ∧ w' = ⟨c.effect lan w.table accepts,
    c.asks w.table w.asked⟩

/-- What a claim asks of a call: a UDP add follows an answer that left the entry to it. -/
def Tables.Permits (lan previous : String) (w : Tables) (c : Call) : Prop :=
  ∀ e, c.target = some e → e.protocol = .udp → ¬Foreign lan previous w.asked e

theorem Tables.drift_refl (w : Tables) : w.Drift w := rfl

theorem Tables.drift_trans (a b c : Tables) (h₁ : a.Drift b) (h₂ : b.Drift c) : a.Drift c :=
  Eq.trans h₂ h₁

section Claim

variable (lan previous : String)

/-- The interaction never makes a UDP add the last answer spoke against. -/
abbrev Careful {α : Type} (post : α → Tables → Prop) (p : GatewayM α) (w : Tables) : Prop :=
  p.Safe Tables.Drift (Tables.Answers lan) (Tables.Permits lan previous) post w

variable {lan previous}

variable {w : Tables}

theorem careful_add {e : Entry} {internal : UInt16} {leaseSec : UInt32} {description : String}
    (h : e.protocol = .udp → ¬Foreign lan previous w.asked e) :
    Careful lan previous (fun _ v => v.asked = w.asked)
      (Gateway.add e internal leaseSec description) w := by
  intro v hv
  refine ⟨?_, ?_⟩
  · intro e' he' hudp
    obtain rfl : e = e' := by simpa [Call.target] using he'
    rw [hv]
    exact h hudp
  · rintro r v' ⟨accepts, -, rfl⟩ u hu
    rw [hu]
    exact hv

theorem careful_lanAddress (w : Tables) :
    Careful lan previous (fun r v => r = lan ∧ v.asked = w.asked) Gateway.lanAddress w := by
  intro v hv
  refine ⟨by simp [Tables.Permits, Call.target], ?_⟩
  rintro r v' ⟨accepts, rfl, rfl⟩ u hu
  exact ⟨rfl, hu.trans hv⟩

theorem careful_bindProbe (port : UInt16) (w : Tables) :
    Careful lan previous (fun _ v => v.asked = w.asked) (Gateway.bindProbe port) w := by
  intro v hv
  refine ⟨by simp [Tables.Permits, Call.target], ?_⟩
  rintro r v' ⟨accepts, rfl, rfl⟩ u hu
  exact hu.trans hv

/-- The answer to `ownerOf` is the owner in the table the question was asked of. -/
theorem careful_ownerOf (external : UInt16) (w : Tables) :
    Careful lan previous (fun r v => r = (v.asked ⟨external, .udp⟩).getD "")
      (Core.ownerOf external) w := by
  intro v hv
  refine ⟨by simp [Tables.Permits, Call.target], ?_⟩
  rintro r v' ⟨accepts, rfl, rfl⟩ u hu
  rw [hu]
  rfl

theorem careful_bind {α β : Type} {mid : α → Tables → Prop} {post : β → Tables → Prop}
    {p : GatewayM α} {next : α → GatewayM β} (h : Careful lan previous mid p w)
    (hnext : ∀ a v, mid a v → Careful lan previous post (next a) v) :
    Careful lan previous post (p >>= next) w :=
  Interaction.Safe.bind Tables.drift_refl h hnext

variable {core : Core}

theorem careful_addWithLatch {external internal : UInt16} {description : String}
    {protocol : Protocol}
    (h : protocol = .udp → ¬Foreign lan previous w.asked ⟨external, protocol⟩) :
    Careful lan previous (fun r _ => r.2.previousLan = core.previousLan)
      (core.addWithLatch external internal description protocol) w := by
  unfold Core.addWithLatch
  split
  · refine careful_bind (careful_add h) ?_
    intro accepted v hv
    split
    · exact fun _ _ => rfl
    · refine careful_bind (careful_add (by rwa [hv])) ?_
      intro retried u hu
      split
      · exact fun _ _ => rfl
      · exact fun _ _ => rfl
  · exact careful_bind (careful_add h) fun _ _ _ _ _ => rfl

theorem careful_takeEntry {external : UInt16} {request : Request} {result : Result}
    (h : ¬Foreign lan previous w.asked ⟨external, .udp⟩) :
    Careful lan previous (fun r _ => r.1.previousLan = core.previousLan)
      (core.takeEntry external request lan result) w := by
  unfold Core.takeEntry
  refine careful_bind (careful_addWithLatch fun _ => h) ?_
  rintro ⟨added, core₁⟩ v (hcore : core₁.previousLan = core.previousLan)
  dsimp only
  split
  · exact fun _ _ => hcore
  · refine careful_bind (careful_ownerOf external v) ?_
    intro after u _
    split
    · exact fun _ _ => hcore
    · refine careful_bind (careful_addWithLatch (by simp)) ?_
      rintro ⟨tcp, core₂⟩ u' (hcore₂ : core₂.previousLan = core₁.previousLan)
      exact fun _ _ => hcore₂.trans hcore

/-- The check of `tryOne` leaves through to the write only what is not foreign. -/
theorem not_foreign_of_answer {asked : Table} {external : UInt16}
    (h : (asked ⟨external, .udp⟩).getD "" = "" ∨ (asked ⟨external, .udp⟩).getD "" = lan ∨
      (asked ⟨external, .udp⟩).getD "" = previous) :
    ¬Foreign lan previous asked ⟨external, .udp⟩ := by
  rintro ⟨owner, howner, hempty, hlan, hprevious⟩
  simp only [howner, Option.getD_some] at h
  rcases h with h | h | h
  · exact hempty h
  · exact hlan h
  · exact hprevious h

variable (hcore : core.previousLan = previous)

include hcore

theorem careful_tryOwned (external : UInt16)
    (request : Request) (result : Result) (w : Tables) :
    Careful lan previous (fun r _ => r.1.previousLan = previous)
      (core.tryOwned external request result) w := by
  unfold Core.tryOwned
  refine careful_bind (careful_lanAddress w) ?_
  rintro lan' v ⟨rfl, -⟩
  refine careful_bind (careful_ownerOf external v) ?_
  intro before u hbefore
  split
  · next hother =>
    split
    · next hprevious =>
      have hfree : ¬Foreign lan' previous u.asked ⟨external, .udp⟩ :=
        not_foreign_of_answer (.inr (.inr (by rw [← hbefore, hprevious.2, hcore])))
      exact (careful_takeEntry hfree).mono fun r _ hr => hr.trans hcore
    · exact fun _ _ => hcore
  · next hours =>
    have hfree : ¬Foreign lan' previous u.asked ⟨external, .udp⟩ := by
      apply not_foreign_of_answer
      rw [← hbefore]
      by_cases hempty : before = ""
      · exact .inl hempty
      · exact .inr (.inl (by simpa [hempty] using hours))
    exact (careful_takeEntry hfree).mono fun r _ hr => hr.trans hcore

theorem careful_tryOne (external : UInt16)
    (request : Request) (result : Result) (w : Tables) :
    Careful lan previous (fun r _ => r.1.previousLan = previous)
      (core.tryOne external request result) w := by
  unfold Core.tryOne
  split
  · refine careful_bind (careful_bindProbe external w) ?_
    intro free v _
    split
    · exact careful_tryOwned hcore external request result v
    · exact fun _ _ => hcore
  · exact careful_tryOwned hcore external request result w

theorem careful_tryAll (request : Request)
    (result : Result) (ports : List UInt16) (w : Tables) :
    Careful lan previous (fun r _ => r.1.previousLan = previous)
      (core.tryAll request result ports) w := by
  induction ports generalizing core result w with
  | nil => exact fun _ _ => hcore
  | cons external rest ih =>
    refine careful_bind (careful_tryOne hcore external request result w) ?_
    rintro ⟨core₁, result₁⟩ v (hcore₁ : core₁.previousLan = previous)
    dsimp only
    split
    · exact fun _ _ => hcore₁
    · exact ih hcore₁ result₁ v

omit hcore

/-- A claim makes no UDP add the router's last answer spoke against. -/
theorem careful_claim (core : Core) (request : Request) (w : Tables) :
    Careful lan core.previousLan (fun _ _ => True) ((Operation.claim request).start core) w := by
  refine careful_bind (careful_tryAll rfl request {} (core.candidates request) w) ?_
  exact fun _ _ _ _ _ => trivial

end Claim

/-- What is left of a claim keeps asking before its UDP adds. -/
def System.Claiming : Prop :=
  s.operation.isClaim = true →
    Careful s.lan s.core.previousLan (fun _ _ => True) s.todo ⟨s.table, s.asked⟩

theorem System.Claiming.step {s t : System} {a : Label} (h : s.Claiming) (hstep : s.Step a t) :
    t.Claiming := by
  intro hclaim
  unfold System.Step moves System.step at hstep
  cases a with
  | start operation =>
    cases htodo : s.todo with
    | ask c rest => simp [htodo] at hstep
    | done core =>
      simp only [htodo, Option.some.injEq] at hstep
      subst hstep
      cases operation with
      | claim request => exact careful_claim core request _
      | _ => simp [Operation.isClaim] at hclaim
  | call accepts =>
    cases htodo : s.todo with
    | done core => simp [htodo] at hstep
    | ask c rest =>
      simp only [htodo, Option.some.injEq] at hstep
      subst hstep
      have hsafe := h hclaim
      rw [htodo] at hsafe
      exact (hsafe.asks Tables.drift_refl).2 _ _ ⟨accepts, rfl, rfl⟩
  | others table =>
    simp only [Option.some.injEq] at hstep
    subst hstep
    exact (h hclaim).drifts Tables.drift_trans rfl

variable {s : System}

theorem System.Initial.claiming (h : s.Initial) : s.Claiming := by
  obtain ⟨lan, bindProbe, table, rfl⟩ := h
  exact fun _ _ _ => trivial

theorem System.reachable_claiming (h : Reachable Initial Step s) :
    s.Claiming :=
  h.invariant (fun _ hs => hs.claiming) fun _ _ _ hs hstep => hs.step hstep

theorem System.Claiming.asked (h : s.Claiming) {e : Entry}
    (hwrites : s.writes = some e) (hasks : s.asksFirst e) : ¬s.foreign s.asked e := by
  have hsafe := h hasks.1
  cases htodo : s.todo with
  | done core => simp [writes, pending, htodo] at hwrites
  | ask c rest =>
    rw [htodo] at hsafe
    refine (hsafe.asks Tables.drift_refl).1 e ?_ hasks.2
    simpa [writes, pending, htodo] using hwrites

/-- In every reachable state the next write spares the neighbours exactly when
none of them stands in its way. -/
theorem System.neverTakes_iff_undisturbed
    (h : Reachable Initial Step s) : s.NeverTakes ↔ s.Undisturbed := by
  constructor
  · intro hspares e hwrites
    exact ⟨fun _ hnow => absurd hnow (hspares e hwrites), fun _ => hspares e hwrites⟩
  · intro hclear e hwrites hnow
    by_cases hasks : s.asksFirst e
    · have hthen : s.foreign s.asked e := (hclear e hwrites).1 hasks hnow
      exact (reachable_claiming h).asked hwrites hasks hthen
    · exact (hclear e hwrites).2 hasks hnow

/-- The tunnel claim of a host that asks for the first corporate port only. -/
def tunnelRequest : Request :=
  { purpose := .tunnel, slot := -1, internalPort := 0, remembered := [], preferred := [3478],
    poolBegin := 1, poolEnd := 0, description := "MoonlightWeb tunnel" }

/-- A neighbour repoints the claimed UDP entry at itself, then the host renews. -/
def renewOverNeighbour : List Label :=
  [.start (.claim tunnelRequest), .call true, .call true, .call true, .call true, .call true,
    .call true, .others fun e => if e = ⟨3478, .udp⟩ then some "192.168.1.20" else none,
    .start .renew, .call true]

end MoonlightWeb.Network.RouterPortCore
