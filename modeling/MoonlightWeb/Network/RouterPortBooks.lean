import Mathlib
import MoonlightWeb.Network.RouterPortCore

/-! # What the core leaves in the router

The router's table is watched together with a mark on every entry the core was
the last to write. Between two operations each marked entry that points at
this machine belongs to a held claim, as long as no renewal drops a claim
whose TCP entry is still the core's own, and a claim is released with the mark
it is held with. The calls of every operation are kept, so that the end of the
finite leases can be traced to the adds that were refused.
-/

namespace MoonlightWeb.Network.RouterPortCore

open Lib Core

/-- The calls of one operation, each with what the router made of it. -/
abbrev Calls := List (Call × Bool)

def Call.accepted (accepts : Bool) : Call → Bool
  | .remove _ => true
  | _ => accepts

/-- The marks after a call: an accepted add leaves the core's own entry, a
remove leaves none. -/
def Call.marks (marked : Entry → Bool) (accepts : Bool) : Call → Entry → Bool
  | .add e _ _ _ => if accepts then fun other => if other = e then true else marked other else marked
  | .remove e => if accepts then fun other => if other = e then false else marked other else marked
  | _ => marked

structure View where
  table : Table
  marked : Entry → Bool
  calls : Calls

open View

structure Watched where
  system : System
  marked : Entry → Bool
  calls : Calls
  past : List (Operation × Calls)

open Watched

variable (w : Watched)

def Watched.view : View := ⟨w.system.table, w.marked, w.calls⟩

def Watched.history : List (Operation × Calls) :=
  w.past ++ [(w.system.operation, w.calls)]

/-- A mark outlives what other machines do to an entry only if they leave it. -/
def Watched.step (w : Watched) : Label → Option Watched
  | .start operation =>
      (w.system.step (.start operation)).map fun s =>
        { system := s, marked := w.marked, calls := [], past := w.history }
  | .call accepts =>
      match w.system.todo with
      | .done _ => none
      | .ask c _ =>
          (w.system.step (.call (c.accepted accepts))).map fun s =>
            { w with
              system := s, marked := c.marks w.marked (c.accepted accepts),
              calls := w.calls ++ [(c, c.accepted accepts)] }
  | .others table =>
      (w.system.step (.others table)).map fun s =>
        { w with
          system := s, marked := fun e => w.marked e && decide (table e = w.system.table e) }

def Watched.Step : Watched → Label → Watched → Prop := moves step

/-- A host that holds nothing, in front of any router. -/
def Watched.boot (lan : String) (bindProbe : Bool) (table : Table) : Watched :=
  ⟨.boot lan bindProbe table, fun _ => false, [], []⟩

/-- The entry points at this machine, because of an add by the core. -/
def View.Ours (lan : String) (v : View) (e : Entry) : Prop :=
  v.marked e = true ∧ v.table e = some lan

/-- A permanent add was accepted where the leased one had just been refused. -/
def Latched (calls : Calls) : Prop :=
  ∃ before after e internal leaseSec description, leaseSec ≠ 0 ∧
    calls = before ++ (.add e internal leaseSec description, false) ::
      (.add e internal 0 description, true) :: after

/-- A UDP add was refused, with a lease and without. -/
def Missed (calls : Calls) : Prop :=
  ∃ before after external internal leaseSec description, leaseSec ≠ 0 ∧
    calls = before ++ (.add ⟨external, .udp⟩ internal leaseSec description, false) ::
      (.add ⟨external, .udp⟩ internal 0 description, false) :: after

def Operation.isRenew : Operation → Bool
  | .renew => true
  | _ => false

def renewals (history : List (Operation × Calls)) : List Calls :=
  (history.filter fun r => r.1.isRenew).map Prod.snd

/-- What may end the finite leases. -/
def Excused (history : List (Operation × Calls)) : Prop :=
  (∃ r ∈ history, Latched r.2) ∨
    ∃ before first second after,
      renewals history = before ++ first :: second :: after ∧ Missed first ∧ Missed second

/-- Nothing is left behind: between two operations, what the router has of the
core is what the core holds. -/
structure LeavesNothing (w : Watched) (core : Core) : Prop where
  distinct : (core.held.map Claim.external).Nodup
  owned : ∀ e, w.view.Ours w.system.lan e →
    ∃ c ∈ core.held, c.external = e.external ∧ (e.protocol = .tcp → c.tcp = true)
  released : w.system.operation = .releaseAll → ∀ e, ¬w.view.Ours w.system.lan e
  leases : core.leaseSec = 0 → Excused w.history

def Call.questioned : Call → Option UInt16
  | .owner ⟨external, .udp⟩ => some external
  | _ => none

def System.resting (s : System) : List Claim :=
  match s.todo with
  | .done core => core.held
  | .ask .. => []

/-- The router is about to name another machine for this port. -/
def View.Taken (lan : String) (v : View) (external : UInt16) : Prop :=
  ∃ owner, v.table ⟨external, .udp⟩ = some owner ∧ owner ≠ "" ∧ owner ≠ lan

/-- No ownership answer names another machine for a port whose TCP entry is the
core's own, and a claim is released with the mark it is held with. -/
def Watched.Clean : Label → Prop
  | .start (.release claim) =>
      ∀ c ∈ w.system.resting, c.same claim = true → c.tcp = claim.tcp
  | .call _ =>
      ∀ external ∈ (w.system.pending.bind Call.questioned).toList,
        w.view.Taken w.system.lan external → ¬w.view.Ours w.system.lan ⟨external, .tcp⟩
  | _ => True

instance (lan : String) (v : View) (e : Entry) : Decidable (v.Ours lan e) :=
  inferInstanceAs (Decidable (_ ∧ _))

instance (lan : String) (v : View) (external : UInt16) : Decidable (v.Taken lan external) :=
  match h : v.table ⟨external, .udp⟩ with
  | none => isFalse (by simp [Taken, h])
  | some owner => decidable_of_iff (owner ≠ "" ∧ owner ≠ lan) (by simp [Taken, h])

instance (w : Watched) (a : Label) : Decidable (w.Clean a) :=
  match a with
  | .start (.release _) => List.decidableBAll _ _
  | .start (.setPreviousLanAddress _) | .start (.claim _) | .start .renew | .start .releaseAll =>
      isTrue trivial
  | .call _ => List.decidableBAll _ _
  | .others _ => isTrue trivial

theorem Latched.mono {calls calls' : Calls} (h : Latched calls) (hle : calls <+: calls') :
    Latched calls' := by
  obtain ⟨before, after, e, internal, leaseSec, description, hlease, rfl⟩ := h
  obtain ⟨more, rfl⟩ := hle
  exact ⟨before, after ++ more, e, internal, leaseSec, description, hlease, by simp⟩

theorem Missed.mono {calls calls' : Calls} (h : Missed calls) (hle : calls <+: calls') :
    Missed calls' := by
  obtain ⟨before, after, external, internal, leaseSec, description, hlease, rfl⟩ := h
  obtain ⟨more, rfl⟩ := hle
  exact ⟨before, after ++ more, external, internal, leaseSec, description, hlease, by simp⟩

theorem renewals_append (history : List (Operation × Calls)) (operation : Operation)
    (calls : Calls) :
    renewals (history ++ [(operation, calls)]) =
      renewals history ++ if operation.isRenew then [calls] else [] := by
  cases h : operation.isRenew <;> simp [renewals, List.filter_append, h]

theorem Excused.mono {history : List (Operation × Calls)} (h : Excused history)
    (operation : Operation) (calls : Calls) : Excused (history ++ [(operation, calls)]) := by
  rcases h with ⟨r, hr, hlatched⟩ | ⟨before, first, second, after, hrenewals, hfirst, hsecond⟩
  · exact Or.inl ⟨r, List.mem_append_left _ hr, hlatched⟩
  · refine Or.inr ⟨before, first, second,
      after ++ if operation.isRenew then [calls] else [], ?_, hfirst, hsecond⟩
    simp [renewals_append, hrenewals]

section Rules

/-- Other machines drop marks; what they leave marked they leave as it was. -/
def View.Drift (w w' : View) : Prop :=
  w'.calls = w.calls ∧
    ∀ e, w'.marked e = true → w.marked e = true ∧ w'.table e = w.table e

/-- The answers of a router that deletes what is removed, and names no other
machine for a port whose TCP entry is the core's own. -/
def View.Answers (lan : String) (w : View) (c : Call) (r : c.Answer) (w' : View) : Prop :=
  ∃ accepts, accepts = c.accepted accepts ∧ r = c.answer lan w.table accepts ∧
    w' = ⟨c.effect lan w.table accepts, c.marks w.marked accepts, w.calls ++ [(c, accepts)]⟩ ∧
    ∀ external owner, c = .owner ⟨external, .udp⟩ → w.table ⟨external, .udp⟩ = some owner →
      owner ≠ "" → owner ≠ lan → ¬w.Ours lan ⟨external, .tcp⟩

theorem View.drift_refl (w : View) : w.Drift w := ⟨rfl, fun _ h => ⟨h, rfl⟩⟩

theorem View.drift_trans (a b c : View) (h₁ : a.Drift b) (h₂ : b.Drift c) : a.Drift c := by
  refine ⟨h₂.1.trans h₁.1, fun e he => ?_⟩
  obtain ⟨hb, htable⟩ := h₂.2 e he
  obtain ⟨ha, htable'⟩ := h₁.2 e hb
  exact ⟨ha, htable.trans htable'⟩

variable {lan : String}

theorem View.Drift.ours {w w' : View} (h : w.Drift w') {e : Entry} (he : w'.Ours lan e) :
    w.Ours lan e :=
  ⟨(h.2 e he.1).1, (h.2 e he.1).2 ▸ he.2⟩

/-- Whatever the other machines do, the interaction ends with `post`. -/
abbrev Leads (lan : String) {α : Type} (post : α → View → Prop) (p : GatewayM α) (w : View) :
    Prop :=
  p.Safe Drift (Answers lan) (fun _ _ => True) post w

variable {w : View}

theorem leads_bind {α β : Type} {mid : α → View → Prop} {post : β → View → Prop}
    {p : GatewayM α} {next : α → GatewayM β} (h : Leads lan mid p w)
    (hnext : ∀ a v, mid a v → Leads lan post (next a) v) : Leads lan post (p >>= next) w :=
  Interaction.Safe.bind drift_refl h hnext

/-- Nothing new is the core's own. -/
def View.Fewer (lan : String) (w v : View) : Prop :=
  w.calls <+: v.calls ∧ ∀ e, v.Ours lan e → w.Ours lan e

theorem View.Drift.fewer {w v : View} (h : w.Drift v) : Fewer lan w v :=
  ⟨h.1 ▸ List.prefix_rfl, fun _ he => h.ours he⟩

theorem View.Fewer.trans {a b c : View} (h₁ : Fewer lan a b) (h₂ : Fewer lan b c) :
    Fewer lan a c :=
  ⟨h₁.1.trans h₂.1, fun e he => h₁.2 e (h₂.2 e he)⟩

theorem leads_pure {α : Type} {post : α → View → Prop} {a : α}
    (h : ∀ v, Fewer lan w v → post a v) : Leads lan post (pure a : GatewayM α) w :=
  fun v hv => h v hv.fewer

/-- The view after an add: `accepted` is its answer. -/
structure AfterAdd (lan : String) (w v : View) (e : Entry) (c : Call) (accepted : Bool) :
    Prop where
  calls : v.calls = w.calls ++ [(c, accepted)]
  ours : ∀ other, v.Ours lan other → w.Ours lan other ∨ (accepted = true ∧ other = e)

theorem leads_add (e : Entry) (internal : UInt16) (leaseSec : UInt32) (description : String)
    (w : View) :
    Leads lan (fun accepted v => AfterAdd lan w v e (.add e internal leaseSec description) accepted)
      (Gateway.add e internal leaseSec description) w := by
  intro v hv
  refine ⟨trivial, ?_⟩
  rintro (accepted : Bool) v' ⟨_, -, rfl, rfl, -⟩ u hu
  refine ⟨?_, fun other hother => ?_⟩
  · rw [hu.1]
    show v.calls ++ _ = w.calls ++ _
    rw [hv.1]
  · have hother := hu.ours hother
    cases accepted with
    | false => exact Or.inl (hv.ours hother)
    | true =>
      by_cases he : other = e
      · exact Or.inr ⟨rfl, he⟩
      · refine Or.inl (hv.ours ⟨?_, ?_⟩)
        · simpa [Call.marks, he] using hother.1
        · simpa [Call.effect, Table.set, he] using hother.2

theorem leads_remove (e : Entry) (w : View) :
    Leads lan (fun _ v => Fewer lan w v ∧ ¬v.Ours lan e) (Gateway.remove e) w := by
  intro v hv
  refine ⟨trivial, ?_⟩
  rintro (accepted : Bool) v' ⟨_, haccepts, rfl, rfl, -⟩ u hu
  obtain rfl : accepted = true := haccepts
  have hgone : ∀ other, u.Ours lan other → other ≠ e ∧ v.Ours lan other := by
    intro other hother
    have hother := hu.ours hother
    have hne : other ≠ e := by
      intro he
      simpa [Call.marks, he] using hother.1
    refine ⟨hne, ?_, ?_⟩
    · simpa [Call.marks, hne] using hother.1
    · simpa [Call.effect, Table.set, hne] using hother.2
  refine ⟨⟨?_, fun other hother => hv.ours (hgone other hother).2⟩, fun he => (hgone e he).1 rfl⟩
  rw [hu.1, ← hv.1]
  exact List.prefix_append _ _

theorem leads_lanAddress (w : View) :
    Leads lan (fun r v => r = lan ∧ Fewer lan w v) Gateway.lanAddress w := by
  intro v hv
  refine ⟨trivial, ?_⟩
  rintro r v' ⟨accepts, -, rfl, rfl, -⟩ u hu
  refine ⟨rfl, ?_, fun e he => hv.ours (hu.ours he)⟩
  rw [hu.1, ← hv.1]
  exact List.prefix_append _ _

theorem leads_bindProbe (port : UInt16) (w : View) :
    Leads lan (fun _ v => Fewer lan w v) (Gateway.bindProbe port) w := by
  intro v hv
  refine ⟨trivial, ?_⟩
  rintro r v' ⟨accepts, -, rfl, rfl, -⟩ u hu
  refine ⟨?_, fun e he => hv.ours (hu.ours he)⟩
  rw [hu.1, ← hv.1]
  exact List.prefix_append _ _

/-- Another machine's name in the answer: neither entry of the port is the core's own. -/
theorem leads_ownerOf (external : UInt16) (w : View) :
    Leads lan (fun r v => Fewer lan w v ∧
      (r ≠ "" → r ≠ lan → ∀ protocol, ¬v.Ours lan ⟨external, protocol⟩))
      (ownerOf external) w := by
  intro v hv
  refine ⟨trivial, ?_⟩
  rintro r v' ⟨accepts, -, rfl, rfl, hclean⟩ u hu
  refine ⟨⟨?_, fun e he => hv.ours (hu.ours he)⟩, ?_⟩
  · rw [hu.1, ← hv.1]
    exact List.prefix_append _ _
  · intro hempty hother protocol hours
    have hours : v.Ours lan ⟨external, protocol⟩ := hu.ours hours
    have hanswer : ((Call.owner ⟨external, .udp⟩).answer lan v.table accepts).getD "" =
        (v.table ⟨external, .udp⟩).getD "" := rfl
    rw [hanswer] at hempty hother
    cases htable : v.table ⟨external, .udp⟩ with
    | none => simp [htable] at hempty
    | some owner =>
      simp only [htable, Option.getD_some] at hempty hother
      cases protocol with
      | udp =>
        have hown : v.table ⟨external, .udp⟩ = some lan := hours.2
        rw [htable] at hown
        exact hother (Option.some.inj hown)
      | tcp => exact hclean external owner rfl htable hempty hother hours

structure Kept (core core' : Core) (w v : View) : Prop where
  failures : core'.renewFailures = core.renewFailures
  calls : w.calls <+: v.calls
  lease : core'.leaseSec = core.leaseSec ∨ (core'.leaseSec = 0 ∧ Latched v.calls)

variable {core : Core}

theorem Kept.of_fewer {w v : View} (h : Fewer lan w v) : Kept core core w v :=
  ⟨rfl, h.1, Or.inl rfl⟩

theorem Kept.trans {a b c : Core} {u v w : View} (h₁ : Kept a b u v) (h₂ : Kept b c v w) :
    Kept a c u w := by
  refine ⟨h₂.failures.trans h₁.failures, h₁.calls.trans h₂.calls, ?_⟩
  rcases h₂.lease with h | h
  · rcases h₁.lease with h' | h'
    · exact Or.inl (h.trans h')
    · exact Or.inr ⟨h.trans h'.1, h'.2.mono h₂.calls⟩
  · exact Or.inr h

/-- The result of `addWithLatch`. -/
structure Written (lan : String) (core : Core) (e : Entry) (w : View) (ok : Bool) (core' : Core)
    (v : View) : Prop where
  held : core'.held = core.held
  kept : Kept core core' w v
  ours : ∀ other, v.Ours lan other → w.Ours lan other ∨ (ok = true ∧ other = e)
  missed : e.protocol = .udp → ok = false → core'.leaseSec ≠ 0 → Missed v.calls

theorem leads_addWithLatch (core : Core) (external internal : UInt16) (description : String)
    (protocol : Protocol) (w : View) :
    Leads lan (fun r v => Written lan core ⟨external, protocol⟩ w r.1 r.2 v)
      (core.addWithLatch external internal description protocol) w := by
  unfold addWithLatch
  by_cases hlease : core.leaseSec > 0
  · have hne : core.leaseSec ≠ 0 := fun h => by simp [h] at hlease
    rw [if_pos hlease]
    refine leads_bind (leads_add _ internal core.leaseSec description w) fun accepted v hv => ?_
    cases accepted with
    | true =>
      rw [if_pos rfl]
      refine leads_pure fun u hu => ?_
      have hprefix : w.calls <+: u.calls :=
        (hv.calls ▸ List.prefix_append w.calls _ : w.calls <+: v.calls).trans hu.1
      exact ⟨rfl, ⟨rfl, hprefix, Or.inl rfl⟩, fun other h => hv.ours other (hu.2 other h),
        fun _ h => nomatch h⟩
    | false =>
      rw [if_neg Bool.false_ne_true]
      refine leads_bind (leads_add _ internal 0 description v) fun retried u hu => ?_
      have hcalls : u.calls = w.calls ++
          (.add ⟨external, protocol⟩ internal core.leaseSec description, false) ::
            (.add ⟨external, protocol⟩ internal 0 description, retried) :: [] := by
        rw [hu.calls, hv.calls, List.append_assoc]
        rfl
      have hours : ∀ other, u.Ours lan other →
          w.Ours lan other ∨ (retried = true ∧ other = ⟨external, protocol⟩) := by
        intro other hother
        rcases hu.ours other hother with h | h
        · rcases hv.ours other h with h | ⟨h, -⟩
          · exact Or.inl h
          · cases h
        · exact Or.inr h
      have hprefix : w.calls <+: u.calls := hcalls ▸ List.prefix_append _ _
      cases retried with
      | false =>
        rw [if_pos (show (!false) = true from rfl)]
        refine leads_pure fun x hx => ?_
        refine ⟨rfl, ⟨rfl, hprefix.trans hx.1, Or.inl rfl⟩,
          fun other h => hours other (hx.2 other h), ?_⟩
        rintro (hudp : protocol = .udp) - -
        subst hudp
        exact Missed.mono ⟨w.calls, [], external, internal, core.leaseSec, description, hne,
          hcalls⟩ hx.1
      | true =>
        rw [if_neg (show ¬(!true) = true from Bool.false_ne_true)]
        refine leads_pure fun x hx => ?_
        refine ⟨rfl, ⟨rfl, hprefix.trans hx.1, Or.inr ⟨rfl, ?_⟩⟩,
          fun other h => hours other (hx.2 other h), fun _ h => nomatch h⟩
        exact Latched.mono ⟨w.calls, [], ⟨external, protocol⟩, internal, core.leaseSec,
          description, hne, hcalls⟩ hx.1
  · have hzero : core.leaseSec = 0 := by
      by_contra hne
      exact hlease (UInt32.pos_iff_ne_zero.mpr hne)
    rw [if_neg hlease]
    refine leads_bind (leads_add _ internal 0 description w) fun accepted v hv => ?_
    refine leads_pure fun u hu => ?_
    have hprefix : w.calls <+: u.calls :=
      (hv.calls ▸ List.prefix_append w.calls _ : w.calls <+: v.calls).trans hu.1
    exact ⟨rfl, ⟨rfl, hprefix, Or.inl rfl⟩, fun other h => hv.ours other (hu.2 other h),
      fun _ _ h => absurd hzero h⟩

/-- Between two operations: the held ports are distinct, and the core's own
entries belong to held claims. -/
structure Books (lan : String) (core : Core) (v : View) : Prop where
  distinct : (core.held.map Claim.external).Nodup
  owned : ∀ e, v.Ours lan e →
    ∃ c ∈ core.held, c.external = e.external ∧ (e.protocol = .tcp → c.tcp = true)

theorem Books.fewer {core core' : Core} {w v : View} (h : Books lan core w)
    (hheld : core'.held = core.held) (hle : ∀ e, v.Ours lan e → w.Ours lan e) :
    Books lan core' v := by
  refine ⟨hheld ▸ h.distinct, fun e he => ?_⟩
  rw [hheld]
  exact h.owned e (hle e he)

structure Tried (lan : String) (core : Core) (w : View) (core' : Core) (v : View) : Prop where
  books : Books lan core' v
  kept : Kept core core' w v

variable {external : UInt16}

theorem leads_takeEntry (h : Books lan core w)
    (hfree : ∀ c ∈ core.held, c.external ≠ external) (request : Request) (result : Result) :
    Leads lan (fun r v => Tried lan core w r.1 v ∧ (r.2.claim = none → r.1.held = core.held))
      (core.takeEntry external request lan result) w := by
  unfold takeEntry
  refine leads_bind (leads_addWithLatch core external _ request.description .udp w) ?_
  rintro ⟨added, core₁⟩ v hadded
  simp only
  have hadded : Written lan core ⟨external, .udp⟩ w added core₁ v := hadded
  cases added with
  | false =>
    rw [if_pos (show (!false) = true from rfl)]
    refine leads_pure fun u hu => ⟨⟨?_, hadded.kept.trans (.of_fewer hu)⟩, fun _ => hadded.held⟩
    refine h.fewer hadded.held fun e he => ?_
    rcases hadded.ours e (hu.2 e he) with he | ⟨hfalse, -⟩
    · exact he
    · cases hfalse
  | true =>
    rw [if_neg (show ¬(!true) = true from Bool.false_ne_true)]
    refine leads_bind (leads_ownerOf external v) fun after u hu => ?_
    have hkept : Kept core core₁ w u := hadded.kept.trans (.of_fewer hu.1)
    have hours : ∀ e, u.Ours lan e → w.Ours lan e ∨ e = ⟨external, .udp⟩ := by
      intro e he
      rcases hadded.ours e (hu.1.2 e he) with he | ⟨-, he⟩
      · exact Or.inl he
      · exact Or.inr he
    by_cases hother : after ≠ "" ∧ after ≠ lan
    · rw [if_pos hother]
      refine leads_pure fun x hx => ⟨⟨?_, hkept.trans (.of_fewer hx)⟩, fun _ => hadded.held⟩
      refine h.fewer hadded.held fun e he => ?_
      rcases hours e (hx.2 e he) with he' | rfl
      · exact he'
      · exact absurd (hx.2 _ he) (hu.2 hother.1 hother.2 .udp)
    · rw [if_neg hother]
      refine leads_bind (leads_addWithLatch core₁ external _ request.description .tcp u) ?_
      rintro ⟨tcp, core₂⟩ x hx
      simp only
      have hx : Written lan core₁ ⟨external, .tcp⟩ u tcp core₂ x := hx
      refine leads_pure fun y hy => ⟨⟨?_, ?_⟩, fun hnone => nomatch hnone⟩
      · have hheld : core₂.held = core.held := hx.held.trans hadded.held
        constructor
        · simp only [hheld, List.map_append, List.map_cons, List.map_nil]
          refine List.nodup_append.mpr ⟨h.distinct, List.pairwise_singleton _ _, ?_⟩
          intro a ha b hb
          obtain ⟨c, hc, rfl⟩ := List.mem_map.mp ha
          rw [List.mem_singleton.mp hb]
          exact hfree c hc
        · intro e he
          simp only [hheld]
          have hnew : e.external = external → (e.protocol = .tcp → tcp = true) →
              ∃ c ∈ core.held ++ [⟨request.purpose, request.slot, external,
                if request.purpose = .tunnel then external else request.internalPort, tcp⟩],
                c.external = e.external ∧ (e.protocol = .tcp → c.tcp = true) := by
            intro hexternal htcp
            exact ⟨_, List.mem_append_right _ (List.mem_singleton.mpr rfl), hexternal.symm, htcp⟩
          rcases hx.ours e (hy.2 e he) with he | ⟨htcp, rfl⟩
          · rcases hours e he with he | rfl
            · obtain ⟨c, hc, hcfacts⟩ := h.owned e he
              exact ⟨c, List.mem_append_left _ hc, hcfacts⟩
            · exact hnew rfl fun h => nomatch h
          · exact hnew rfl fun _ => htcp
      · have hlast : Kept core₂ core₂ x y := .of_fewer hy
        have hall := (hkept.trans hx.kept).trans hlast
        exact ⟨hall.failures, hall.calls, hall.lease⟩

/-- An attempt that took a turn after another one. -/
theorem Tried.after {core core' core'' : Core} {w v u : View} (h : Tried lan core w core' v)
    (h' : Tried lan core' v core'' u) : Tried lan core w core'' u :=
  ⟨h'.books, h.kept.trans h'.kept⟩

theorem Books.idle {w v : View} (h : Books lan core w)
    (hle : Fewer lan w v) : Tried lan core w core v :=
  ⟨h.fewer rfl hle.2, .of_fewer hle⟩

theorem leads_tryOwned (h : Books lan core w)
    (hfree : ∀ c ∈ core.held, c.external ≠ external) (request : Request) (result : Result) :
    Leads lan (fun r v => Tried lan core w r.1 v ∧ (r.2.claim = none → r.1.held = core.held))
      (core.tryOwned external request result) w := by
  have htake : ∀ v, Fewer lan w v → ∀ result,
      Leads lan (fun r v => Tried lan core w r.1 v ∧ (r.2.claim = none → r.1.held = core.held))
        (core.takeEntry external request lan result) v := by
    intro v hv result
    refine (leads_takeEntry (h.fewer rfl hv.2) hfree request result).mono fun r u hu => ?_
    exact ⟨(h.idle hv).after hu.1, hu.2⟩
  unfold tryOwned
  refine leads_bind (leads_lanAddress w) ?_
  rintro lan' v ⟨rfl, hv⟩
  refine leads_bind (leads_ownerOf external v) fun before u hu => ?_
  have hle : Fewer lan' w u := hv.trans hu.1
  by_cases hother : before ≠ "" ∧ before ≠ lan'
  · rw [if_pos hother]
    by_cases hprevious : core.previousLan ≠ "" ∧ before = core.previousLan
    · rw [if_pos hprevious]
      exact htake u hle _
    · rw [if_neg hprevious]
      exact leads_pure fun x hx => ⟨h.idle (hle.trans hx), fun _ => rfl⟩
  · rw [if_neg hother]
    exact htake u hle result

theorem leads_tryOne (h : Books lan core w)
    (hfree : ∀ c ∈ core.held, c.external ≠ external) (request : Request) (result : Result) :
    Leads lan (fun r v => Tried lan core w r.1 v ∧ (r.2.claim = none → r.1.held = core.held))
      (core.tryOne external request result) w := by
  unfold tryOne
  by_cases hprobe : request.purpose = .tunnel ∧ core.bindProbe = true
  · rw [if_pos hprobe]
    refine leads_bind (leads_bindProbe external w) fun free v hv => ?_
    cases free with
    | true =>
      rw [if_pos rfl]
      refine (leads_tryOwned (h.fewer rfl hv.2) hfree request result).mono fun r u hu => ?_
      exact ⟨(h.idle hv).after hu.1, hu.2⟩
    | false =>
      rw [if_neg Bool.false_ne_true]
      exact leads_pure fun x hx => ⟨h.idle (hv.trans hx), fun _ => rfl⟩
  · rw [if_neg hprobe]
    exact leads_tryOwned h hfree request result

theorem leads_tryAll (h : Books lan core w) (request : Request)
    (result : Result) (ports : List UInt16)
    (hfree : ∀ external ∈ ports, ∀ c ∈ core.held, c.external ≠ external) :
    Leads lan (fun r v => Tried lan core w r.1 v) (core.tryAll request result ports) w := by
  induction ports generalizing core result w with
  | nil => exact leads_pure fun v hv => h.idle hv
  | cons external rest ih =>
    have hone := leads_tryOne h (hfree external List.mem_cons_self) request result
    unfold tryAll
    refine leads_bind hone ?_
    rintro ⟨core₁, result₁⟩ v ⟨htried, hheld⟩
    simp only
    cases hclaim : result₁.claim with
    | some claim => exact leads_pure fun u hu => htried.after (htried.books.idle hu)
    | none =>
      have hheld : core₁.held = core.held := hheld hclaim
      refine (ih htried.books result₁ ?_).mono fun r u hu => htried.after hu
      intro port hport c hc
      rw [hheld] at hc
      exact hfree port (List.mem_cons_of_mem _ hport) c hc

/-- No candidate of a claim is a port already held. -/
theorem candidates_free (core : Core) (request : Request) :
    ∀ external ∈ core.candidates request, ∀ c ∈ core.held, c.external ≠ external := by
  have hstep : ∀ ports candidates : List UInt16,
      (∀ external ∈ candidates, core.holds external = false) →
      ∀ external ∈ ports.foldl core.consider candidates, core.holds external = false := by
    intro ports
    induction ports with
    | nil => exact fun candidates h => h
    | cons port rest ih =>
      intro candidates h
      refine ih _ fun external hmem => ?_
      unfold consider at hmem
      by_cases hskip : port = 0 ∨ core.holds port = true ∨ port ∈ candidates
      · rw [if_pos hskip] at hmem
        exact h external hmem
      · rw [if_neg hskip] at hmem
        rcases List.mem_append.mp hmem with hmem | hmem
        · exact h external hmem
        · rw [List.mem_singleton.mp hmem]
          simp only [not_or] at hskip
          exact Bool.eq_false_iff.mpr hskip.2.1
  intro external hmem c hc hexternal
  have hfree := hstep _ [] (fun _ h => nomatch h) external hmem
  have hholds : core.holds external = true :=
    List.any_eq_true.mpr ⟨c, hc, decide_eq_true hexternal⟩
  rw [hfree] at hholds
  cases hholds

theorem leads_claim (h : Books lan core w) (request : Request) :
    Leads lan (fun r v => Tried lan core w r v) ((Operation.claim request).start core) w := by
  refine leads_bind (leads_tryAll h request {} _ (candidates_free core request)) fun r v hv => ?_
  exact leads_pure fun u hu => hv.after (hv.books.idle hu)

theorem Claim.same_iff (c o : Claim) : c.same o = true ↔
    c.purpose = o.purpose ∧ c.slot = o.slot ∧ c.external = o.external ∧ c.internal = o.internal := by
  simp [Claim.same, and_assoc]

theorem Claim.same_self (c : Claim) : c.same c = true := by
  simp [Claim.same]

theorem Books.unique (h : Books lan core w) {c d : Claim}
    (hc : c ∈ core.held) (hd : d ∈ core.held) (hexternal : c.external = d.external) : c = d :=
  List.inj_on_of_nodup_map h.distinct hc hd hexternal

/-- Claims leave the books with every entry of theirs. -/
theorem Books.drop {core core' : Core} {w v : View} (h : Books lan core w)
    (keeps : Claim → Bool) (hheld : core'.held = core.held.filter keeps)
    (hle : ∀ e, v.Ours lan e → w.Ours lan e)
    (hgone : ∀ c ∈ core.held, keeps c = false → ∀ protocol, ¬v.Ours lan ⟨c.external, protocol⟩) :
    Books lan core' v := by
  constructor
  · rw [hheld]
    exact h.distinct.sublist (List.filter_sublist.map _)
  · intro e he
    obtain ⟨c, hc, hexternal, htcp⟩ := h.owned e (hle e he)
    refine ⟨c, ?_, hexternal, htcp⟩
    rw [hheld]
    refine List.mem_filter.mpr ⟨hc, ?_⟩
    cases hkeeps : keeps c with
    | true => rfl
    | false =>
      have hnot := hgone c hc hkeeps e.protocol
      rw [hexternal] at hnot
      exact absurd he hnot

structure Released (lan : String) (core : Core) (w : View) (core' : Core) (v : View) : Prop where
  books : Books lan core' v
  fewer : Fewer lan w v
  same : core' = { core with held := core'.held }
  held : ∀ c ∈ core'.held, c ∈ core.held

theorem leads_release (h : Books lan core w) (claim : Claim)
    (hmark : ∀ c ∈ core.held, c.same claim = true → c.tcp = claim.tcp) :
    Leads lan (fun r v => Released lan core w r v ∧ ∀ c ∈ r.held, c.same claim = false)
      (core.release claim) w := by
  unfold release
  by_cases hheld : (!core.held.any fun c => c.same claim) = true
  · rw [if_pos hheld]
    refine leads_pure fun v hv => ⟨⟨h.fewer rfl hv.2, hv, rfl, fun c hc => hc⟩, fun c hc => ?_⟩
    rw [Bool.not_eq_true', List.any_eq_false] at hheld
    exact Bool.eq_false_iff.mpr (hheld c hc)
  rw [if_neg hheld]
  refine leads_bind (leads_remove _ w) fun _ v hv => ?_
  -- The claim leaves the books once both of its entries are gone.
  have hend : ∀ u, Fewer lan v u → (∀ c ∈ core.held, c.same claim = true →
      ¬u.Ours lan ⟨c.external, .tcp⟩) →
      Released lan core w (core.removeAll claim) u ∧
        ∀ c ∈ (core.removeAll claim).held, c.same claim = false := by
    intro u hu htcp
    have hle : Fewer lan w u := hv.1.trans hu
    refine ⟨⟨h.drop (fun c => !c.same claim) rfl hle.2 ?_, hle, rfl, ?_⟩, ?_⟩
    · intro c hc hsame protocol
      have hsame : c.same claim = true := by simpa using hsame
      cases protocol with
      | tcp => exact htcp c hc hsame
      | udp =>
        rw [((c.same_iff claim).mp hsame).2.2.1]
        exact fun hours => hv.2 (hu.2 _ hours)
    · exact fun c hc => List.mem_of_mem_filter hc
    · intro c hc
      simpa using (List.mem_filter.mp hc).2
  cases htcp : claim.tcp with
  | true =>
    rw [if_pos rfl]
    refine leads_bind (leads_remove _ v) fun _ u hu => leads_pure fun x hx => ?_
    refine hend x (hu.1.trans hx) fun c hc hsame => ?_
    rw [((c.same_iff claim).mp hsame).2.2.1]
    exact fun hours => hu.2 (hx.2 _ hours)
  | false =>
    rw [if_neg Bool.false_ne_true]
    refine leads_pure fun x hx => hend x hx fun c hc hsame hours => ?_
    obtain ⟨d, hd, hexternal, hmarked⟩ := h.owned _ (hv.1.2 _ (hx.2 _ hours))
    obtain rfl : d = c := h.unique hd hc hexternal
    have hdtcp := hmarked rfl
    rw [hmark d hd hsame, htcp] at hdtcp
    cases hdtcp

theorem leads_releaseEach (h : Books lan core w) (claims : List Claim)
    (hmark : ∀ claim ∈ claims, ∀ c ∈ core.held, c.same claim = true → c.tcp = claim.tcp) :
    Leads lan (fun r v => Released lan core w r v ∧
      ∀ claim ∈ claims, ∀ c ∈ r.held, c.same claim = false) (core.releaseEach claims) w := by
  induction claims generalizing core w with
  | nil =>
    exact leads_pure fun v hv => ⟨⟨h.fewer rfl hv.2, hv, rfl, fun c hc => hc⟩, fun _ h => nomatch h⟩
  | cons claim rest ih =>
    have hone := leads_release h claim (hmark claim List.mem_cons_self)
    unfold releaseEach
    refine leads_bind hone fun core₁ v hv => ?_
    obtain ⟨hreleased, hgone⟩ := hv
    refine (ih hreleased.books ?_).mono fun r u hu => ?_
    · intro other hother c hc
      exact hmark other (List.mem_cons_of_mem _ hother) c (hreleased.held c hc)
    · obtain ⟨hrest, hgone'⟩ := hu
      refine ⟨⟨hrest.books, hreleased.fewer.trans hrest.fewer, ?_,
        fun c hc => hreleased.held c (hrest.held c hc)⟩, ?_⟩
      · rw [hrest.same, hreleased.same]
      · intro other hother c hc
        rcases List.mem_cons.mp hother with rfl | hother
        · exact hgone c (hrest.held c hc)
        · exact hgone' other hother c hc

theorem leads_releaseAll (h : Books lan core w) :
    Leads lan (fun r v => Released lan core w r v ∧ r.held = []) core.releaseAll w := by
  have hmark : ∀ claim ∈ core.held, ∀ c ∈ core.held, c.same claim = true → c.tcp = claim.tcp := by
    intro claim hclaim c hc hsame
    rw [h.unique hc hclaim ((c.same_iff claim).mp hsame).2.2.1]
  refine (leads_releaseEach h core.held hmark).mono fun r v hv => ⟨hv.1, ?_⟩
  refine List.eq_nil_iff_forall_not_mem.mpr fun c hc => ?_
  have hgone := hv.2 c (hv.1.held c hc) c hc
  rw [c.same_self] at hgone
  cases hgone

/-- The state of the renewal loop: `lost` are the claims read back as another
machine's, none of them still the core's own. -/
structure Renewing (lan : String) (core : Core) (w : View) (core' : Core) (ok : Bool)
    (lost : List Lost) (v : View) : Prop where
  tried : Tried lan core w core' v
  held : core'.held = core.held
  missed : ok = false → core'.leaseSec ≠ 0 → Missed v.calls
  gone : ∀ l ∈ lost, ∀ protocol, ¬v.Ours lan ⟨l.claim.external, protocol⟩

variable {lost : List Lost}

theorem leads_renewOne {core core' : Core} {w v : View} {ok : Bool}
    (h : Renewing lan core w core' ok lost v) {c : Claim} (hc : c ∈ core.held)
    (hother : ∀ l ∈ lost, l.claim.external ≠ c.external) :
    Leads lan (fun r u => Renewing lan core w r.1 r.2.1 r.2.2 u ∧
      ∀ l ∈ r.2.2, l ∈ lost ∨ l.claim = c) (core'.renewOne lan ok lost c) v := by
  -- A write of one of the claim's entries keeps the state of the loop.
  have hwrite : ∀ {a : Core} {x y : View} {b : Core} {added prior : Bool} {protocol : Protocol},
      Renewing lan core w a prior lost x →
      Written lan a ⟨c.external, protocol⟩ x added b y → (protocol = .tcp → c.tcp = true) →
      Renewing lan core w b (prior && (added || decide (protocol = .tcp))) lost y := by
    intro a x y b added prior protocol ha hb htcp
    refine ⟨⟨?_, ha.tried.kept.trans hb.kept⟩, hb.held.trans ha.held, ?_, ?_⟩
    · refine ⟨hb.held ▸ ha.tried.books.distinct, fun e he => ?_⟩
      rcases hb.ours e he with he | ⟨-, rfl⟩
      · rw [hb.held]
        exact ha.tried.books.owned e he
      · exact ⟨c, by rw [hb.held, ha.held]; exact hc, rfl, htcp⟩
    · intro hfalse hlease
      have hcases : prior = false ∨ (added = false ∧ protocol = .udp) := by
        cases prior with
        | false => exact Or.inl rfl
        | true =>
          cases protocol with
          | udp => exact Or.inr ⟨by simpa using hfalse, rfl⟩
          | tcp => simp at hfalse
      rcases hcases with hprior | ⟨hadded, hudp⟩
      · refine (ha.missed hprior ?_).mono hb.kept.calls
        rcases hb.kept.lease with hsame | ⟨hzero, -⟩
        · rwa [← hsame]
        · exact absurd hzero hlease
      · exact hb.missed hudp hadded hlease
    · intro l hl protocol' hours
      rcases hb.ours _ hours with hours | ⟨-, he⟩
      · exact ha.gone l hl protocol' hours
      · exact hother l hl (Entry.mk.inj he).1
  -- The read back, which may add the claim to the lost ones.
  have hread : ∀ (a : Core) (prior : Bool) (x : View), Renewing lan core w a prior lost x →
      Leads lan (fun r u => Renewing lan core w r.1 r.2.1 r.2.2 u ∧
        ∀ l ∈ r.2.2, l ∈ lost ∨ l.claim = c)
        (do
          let owner ← ownerOf c.external
          let lost := if owner ≠ "" ∧ owner ≠ lan then lost ++ [⟨c, owner⟩] else lost
          return (a, prior, lost)) x := by
    intro a prior x hx
    refine leads_bind (leads_ownerOf c.external x) fun owner y hy => leads_pure fun z hz => ?_
    have hle : Fewer lan x z := hy.1.trans hz
    have hkept : Kept a a x z := .of_fewer hle
    refine ⟨⟨⟨hx.tried.books.fewer rfl hle.2, hx.tried.kept.trans hkept⟩, hx.held,
      fun hprior hlease => (hx.missed hprior hlease).mono hle.1, ?_⟩, ?_⟩
    · intro l hl protocol hours
      by_cases howner : owner ≠ "" ∧ owner ≠ lan
      · simp only [if_pos howner, List.mem_append, List.mem_singleton] at hl
        rcases hl with hl | rfl
        · exact hx.gone l hl protocol (hle.2 _ hours)
        · exact hy.2 howner.1 howner.2 protocol (hz.2 _ hours)
      · simp only [if_neg howner] at hl
        exact hx.gone l hl protocol (hle.2 _ hours)
    · intro l hl
      by_cases howner : owner ≠ "" ∧ owner ≠ lan
      · simp only [if_pos howner, List.mem_append, List.mem_singleton] at hl
        rcases hl with hl | rfl
        · exact Or.inl hl
        · exact Or.inr rfl
      · simp only [if_neg howner] at hl
        exact Or.inl hl
  unfold renewOne
  refine leads_bind (leads_addWithLatch core' c.external c.internal _ .udp v) ?_
  rintro ⟨added, core₁⟩ u hu
  simp only
  have hudp : Renewing lan core w core₁ (ok && added) lost u := by
    simpa using hwrite h hu fun hp => nomatch hp
  cases htcp : c.tcp with
  | false => exact hread core₁ _ u hudp
  | true =>
    simp only [if_true]
    refine leads_bind (leads_addWithLatch core₁ c.external c.internal _ .tcp u) ?_
    rintro ⟨tcp, core₂⟩ x hx
    refine hread core₂ _ x ?_
    simpa using hwrite hudp hx fun _ => htcp

theorem Renewing.fewer {core core' : Core} {w u v : View} {ok : Bool}
    (h : Renewing lan core w core' ok lost u) (hle : Fewer lan u v) :
    Renewing lan core w core' ok lost v :=
  ⟨⟨h.tried.books.fewer rfl hle.2, h.tried.kept.trans (.of_fewer hle)⟩, h.held,
    fun hprior hlease => (h.missed hprior hlease).mono hle.1,
    fun l hl protocol hours => h.gone l hl protocol (hle.2 _ hours)⟩

theorem leads_renewAll {core core' : Core} {w v : View} {ok : Bool}
    (h : Renewing lan core w core' ok lost v) (claims : List Claim)
    (hclaims : ∀ c ∈ claims, c ∈ core.held) (hdistinct : (claims.map Claim.external).Nodup)
    (hother : ∀ l ∈ lost, ∀ c ∈ claims, l.claim.external ≠ c.external) :
    Leads lan (fun r u => Renewing lan core w r.1 r.2.1 r.2.2 u)
      (core'.renewAll lan ok lost claims) v := by
  induction claims generalizing core' ok lost v with
  | nil => exact leads_pure fun y hy => h.fewer hy
  | cons c rest ih =>
    obtain ⟨hnew, hrest⟩ := List.nodup_cons.mp hdistinct
    have hone := leads_renewOne h (hclaims c List.mem_cons_self)
      fun l hl => hother l hl c List.mem_cons_self
    unfold renewAll
    refine leads_bind hone ?_
    rintro ⟨core₁, ok₁, lost₁⟩ u ⟨hu, hlost⟩
    refine ih hu (fun d hd => hclaims d (List.mem_cons_of_mem _ hd)) hrest ?_
    intro l hl d hd
    rcases hlost l hl with hold | hnow
    · exact hother l hold d (List.mem_cons_of_mem _ hd)
    · rw [hnow]
      exact fun heq => hnew (heq ▸ List.mem_map_of_mem hd)

/-- The permanent re-adds write entries of held claims only. -/
theorem leads_addPermanent (claims : List Claim)
    (hclaims : ∀ c ∈ claims, c ∈ core.held) {v : View} (h : Books lan core v) :
    Leads lan (fun _ u => Books lan core u ∧ v.calls <+: u.calls) (addPermanent claims) v := by
  induction claims generalizing v with
  | nil => exact leads_pure fun u hu => ⟨h.fewer rfl hu.2, hu.1⟩
  | cons c rest ih =>
    have hheld := hclaims c List.mem_cons_self
    have hafter : ∀ {x y : View} {e : Entry} {call : Call} {accepted : Bool},
        Books lan core x → AfterAdd lan x y e call accepted → e.external = c.external →
        (e.protocol = .tcp → c.tcp = true) → Books lan core y ∧ x.calls <+: y.calls := by
      intro x y e call accepted hx hy hexternal htcp
      refine ⟨⟨hx.distinct, fun other hother => ?_⟩, hy.calls ▸ List.prefix_append _ _⟩
      rcases hy.ours other hother with hother | ⟨-, rfl⟩
      · exact hx.owned other hother
      · exact ⟨c, hheld, hexternal.symm, htcp⟩
    have hrest : ∀ x, Books lan core x → v.calls <+: x.calls →
        Leads lan (fun _ u => Books lan core u ∧ v.calls <+: u.calls)
          (addPermanent rest) x := by
      intro x hx hcalls
      refine (ih (fun d hd => hclaims d (List.mem_cons_of_mem _ hd)) hx).mono fun _ u hu => ?_
      exact ⟨hu.1, hcalls.trans hu.2⟩
    unfold addPermanent
    refine leads_bind (leads_add _ c.internal 0 _ v) fun _ x hx => ?_
    obtain ⟨hbooks, hcalls⟩ := hafter h hx rfl fun hp => nomatch hp
    cases htcp : c.tcp with
    | false => exact hrest x hbooks hcalls
    | true =>
      rw [if_pos rfl]
      refine leads_bind (leads_add _ c.internal 0 _ x) fun _ y hy => ?_
      obtain ⟨hbooks', hcalls'⟩ := hafter hbooks hy rfl fun _ => htcp
      exact hrest y hbooks' (hcalls.trans hcalls')

/-- What dropping the lost claims leaves held. -/
theorem removeAll_lost (lost : List Lost) (core : Core) :
    lost.foldl (fun core l => core.removeAll l.claim) core =
      { core with held := core.held.filter fun c => lost.all fun l => !c.same l.claim } := by
  induction lost generalizing core with
  | nil => simp
  | cons l rest ih =>
    rw [List.foldl_cons, ih]
    simp only [removeAll, List.filter_filter, List.all_cons]
    congr 1
    refine List.filter_congr fun c _ => ?_
    rw [Bool.and_comm]

/-- What a renewal leaves: the leases end by a latched add, or with the second
missed renewal in a row. -/
structure Renewed (lan : String) (core : Core) (core' : Core) (v : View) : Prop where
  books : Books lan core' v
  leases : core'.leaseSec = 0 → core.leaseSec = 0 ∨ Latched v.calls ∨
    (1 ≤ core.renewFailures ∧ Missed v.calls)
  missed : core'.leaseSec ≠ 0 → 1 ≤ core'.renewFailures → Missed v.calls

theorem leads_renew (h : Books lan core w) :
    Leads lan (fun r v => Renewed lan core r v) (Operation.renew.start core) w := by
  have hrenew : Leads lan (fun r v => Renewed lan core r.1 v) core.renew w := by
    unfold renew
    refine leads_bind (leads_lanAddress w) ?_
    rintro lan' v ⟨rfl, hv⟩
    have hstart : Renewing lan' core w core true [] v :=
      ⟨h.idle hv, rfl, (fun h => nomatch h), fun _ h => nomatch h⟩
    refine leads_bind (leads_renewAll hstart core.held (fun _ hc => hc) h.distinct
      fun _ h => nomatch h) ?_
    rintro ⟨core₁, ok, lost⟩ u hu
    have hu : Renewing lan' core w core₁ ok lost u := hu
    simp only
    unfold renewSettle
    simp only [removeAll_lost]
    have hbooks : ∀ (a : Core) (x : View), Fewer lan' u x →
        a.held = core₁.held.filter (fun c => lost.all fun l => !c.same l.claim) →
        Books lan' a x := by
      intro a x hx hheld
      refine hu.tried.books.drop _ hheld hx.2 fun c hc hlost protocol hours => ?_
      obtain ⟨l, hl, hsame⟩ := List.all_eq_false.mp hlost
      have hsame : c.same l.claim = true := by simpa using hsame
      rw [((c.same_iff l.claim).mp hsame).2.2.1] at hours
      exact hu.gone l hl protocol (hx.2 _ hours)
    have hlease : core₁.leaseSec = 0 → core.leaseSec = 0 ∨ Latched u.calls := by
      intro hzero
      rcases hu.tried.kept.lease with hsame | ⟨-, hlatched⟩
      · exact Or.inl (hsame ▸ hzero)
      · exact Or.inr hlatched
    cases ok with
    | true =>
      rw [if_pos rfl]
      refine leads_pure fun x hx => ⟨hbooks _ x hx rfl, fun hzero => ?_, fun _ hpos => ?_⟩
      · rcases hlease hzero with hzero | hlatched
        · exact Or.inl hzero
        · exact Or.inr (Or.inl (hlatched.mono hx.1))
      · simp at hpos
    | false =>
      rw [if_neg Bool.false_ne_true]
      by_cases hsecond : core₁.renewFailures + 1 ≥ 2 ∧ core₁.leaseSec > 0
      · rw [if_pos hsecond]
        have hne : core₁.leaseSec ≠ 0 := fun hzero => by simp [hzero] at hsecond
        have hmissed : Missed u.calls := hu.missed rfl hne
        have hfailed : 1 ≤ core.renewFailures := by
          have hsame := hu.tried.kept.failures
          omega
        refine leads_bind (leads_addPermanent _ (fun c hc => hc)
          (hbooks { core₁ with
            held := core₁.held.filter fun c => lost.all fun l => !c.same l.claim,
            renewFailures := core₁.renewFailures + 1 } u ⟨List.prefix_rfl, fun _ he => he⟩ rfl))
          fun _ x hx => ?_
        refine leads_pure fun y hy => ⟨hx.1.fewer rfl hy.2, fun _ => ?_, fun hne' _ => ?_⟩
        · exact Or.inr (Or.inr ⟨hfailed, hmissed.mono (hx.2.trans hy.1)⟩)
        · exact absurd rfl hne'
      · rw [if_neg hsecond]
        refine leads_pure fun x hx => ⟨hbooks _ x hx rfl, fun hzero => ?_, fun hne _ => ?_⟩
        · rcases hlease hzero with hzero | hlatched
          · exact Or.inl hzero
          · exact Or.inr (Or.inl (hlatched.mono hx.1))
        · exact (hu.missed rfl hne).mono hx.1
  refine leads_bind hrenew fun r v hv => ?_
  exact leads_pure fun u hu => ⟨hv.books.fewer rfl hu.2,
    fun hzero => (hv.leases hzero).imp_right fun h => h.imp (fun h => h.mono hu.1)
      fun h => ⟨h.1, h.2.mono hu.1⟩,
    fun hne hpos => (hv.missed hne hpos).mono hu.1⟩

end Rules

/-- The core at rest after `operation`, with the operations before it. -/
structure Rest (lan : String) (past : List (Operation × Calls)) (operation : Operation)
    (core : Core) (v : View) : Prop where
  books : Books lan core v
  leases : core.leaseSec = 0 → Excused (past ++ [(operation, v.calls)])
  missed : core.leaseSec ≠ 0 → 1 ≤ core.renewFailures →
    ∃ front last, renewals (past ++ [(operation, v.calls)]) = front ++ [last] ∧ Missed last
  released : operation = .releaseAll → core.held = []

section Operations

variable {lan : String} {past : List (Operation × Calls)} {operation following : Operation}
  {core core' : Core} {v w u : View}

/-- An operation that is no renewal adds nothing to the renewals. -/
theorem Rest.next (h : Rest lan past operation core v) (hnext : following.isRenew = false)
    (hbooks : Books lan core' u) (hkept : Kept core core' w u)
    (hreleased : following = .releaseAll → core'.held = []) :
    Rest lan (past ++ [(operation, v.calls)]) following core' u := by
  refine ⟨hbooks, fun hzero => ?_, fun hne hpos => ?_, hreleased⟩
  · rcases hkept.lease with hsame | ⟨-, hlatched⟩
    · exact (h.leases (hsame ▸ hzero)).mono _ _
    · exact Or.inl ⟨(following, u.calls), List.mem_append_right _ (List.mem_singleton.mpr rfl), hlatched⟩
  · have hsame : core'.leaseSec = core.leaseSec := by
      rcases hkept.lease with hsame | ⟨hzero, -⟩
      · exact hsame
      · exact absurd hzero hne
    obtain ⟨front, last, hrenewals, hmissed⟩ := h.missed (hsame ▸ hne) (hkept.failures ▸ hpos)
    refine ⟨front, last, ?_, hmissed⟩
    rw [renewals_append, hrenewals, hnext]
    simp

theorem Rest.renewed (h : Rest lan past operation core v) (hrenewed : Renewed lan core core' u) :
    Rest lan (past ++ [(operation, v.calls)]) .renew core' u := by
  have hrenewals : renewals (past ++ [(operation, v.calls)] ++ [(.renew, u.calls)]) =
      renewals (past ++ [(operation, v.calls)]) ++ [u.calls] := renewals_append _ _ _
  refine ⟨hrenewed.books, fun hzero => ?_, fun hne hpos => ?_, fun h => nomatch h⟩
  · by_cases hcore : core.leaseSec = 0
    · exact (h.leases hcore).mono _ _
    · rcases hrenewed.leases hzero with hcore' | hlatched | ⟨hpos, hmissed⟩
      · exact absurd hcore' hcore
      · exact Or.inl ⟨(.renew, u.calls), List.mem_append_right _ (List.mem_singleton.mpr rfl),
          hlatched⟩
      · obtain ⟨front, last, hlast, hmissed'⟩ := h.missed hcore hpos
        exact Or.inr ⟨front, last, u.calls, [], by rw [hrenewals, hlast]; simp, hmissed', hmissed⟩
  · exact ⟨_, u.calls, hrenewals, hrenewed.missed hne hpos⟩

theorem Released.kept (h : Released lan core w core' u) : Kept core core' w u := by
  refine ⟨?_, h.fewer.1, Or.inl ?_⟩
  · rw [h.same]
  · rw [h.same]

theorem Rest.start (h : Rest lan past operation core v)
    (hmark : ∀ claim, following = .release claim → ∀ c ∈ core.held, c.same claim = true →
      c.tcp = claim.tcp) :
    Leads lan (fun r u => Rest lan (past ++ [(operation, v.calls)]) following r u)
      (following.start core)
      ⟨v.table, v.marked, []⟩ := by
  have hbooks : Books lan core ⟨v.table, v.marked, []⟩ := h.books.fewer rfl fun e he => he
  cases following with
  | setPreviousLanAddress ip =>
    exact leads_pure fun u hu => h.next rfl (hbooks.fewer rfl hu.2) (w := ⟨v.table, v.marked, []⟩)
      ⟨rfl, hu.1, Or.inl rfl⟩ fun hnext => nomatch hnext
  | claim request =>
    exact (leads_claim hbooks request).mono fun r u hu =>
      h.next rfl hu.books hu.kept fun hnext => nomatch hnext
  | renew => exact (leads_renew hbooks).mono fun r u hu => h.renewed hu
  | release claim =>
    exact (leads_release hbooks claim (hmark claim rfl)).mono fun r u hu =>
      h.next rfl hu.1.books hu.1.kept fun hnext => nomatch hnext
  | releaseAll =>
    exact (leads_releaseAll hbooks).mono fun r u hu =>
      h.next rfl hu.1.books hu.1.kept fun _ => hu.2

end Operations

/-- Whatever is left of the operation in progress, it comes to rest. -/
def Watched.Inv : Prop :=
  Leads w.system.lan (fun r u => Rest w.system.lan w.past w.system.operation r u) w.system.todo
    w.view

theorem Watched.Inv.step {w w' : Watched} {a : Label} (h : w.Inv) (hstep : w.Step a w')
    (hclean : w.Clean a) : w'.Inv := by
  unfold Watched.Step moves at hstep
  unfold Watched.Inv at h
  cases a with
  | start operation =>
    simp only [Watched.step, System.step] at hstep
    cases htodo : w.system.todo with
    | ask c rest => simp [htodo] at hstep
    | done core =>
      simp only [htodo, Option.map_some, Option.some.injEq] at hstep
      subst hstep
      rw [htodo] at h
      have hrest := h w.view (drift_refl _)
      refine hrest.start fun claim hclaim c hc hsame => ?_
      subst hclaim
      exact hclean c (by simpa [System.resting, htodo] using hc) hsame
  | call accepts =>
    simp only [Watched.step, System.step] at hstep
    cases htodo : w.system.todo with
    | done core => simp [htodo] at hstep
    | ask c rest =>
      simp only [htodo, Option.map_some, Option.some.injEq] at hstep
      subst hstep
      rw [htodo] at h
      refine (h.asks drift_refl).2 _ _ ⟨c.accepted accepts, ?_, rfl, rfl, ?_⟩
      · cases c <;> rfl
      · intro external owner hc htable hempty hother
        refine hclean external ?_ ⟨owner, htable, hempty, hother⟩
        simp [System.pending, htodo, hc, Call.questioned]
  | others table =>
    simp only [Watched.step, System.step, Option.map_some, Option.some.injEq] at hstep
    subst hstep
    refine h.drifts drift_trans ⟨rfl, fun e he => ?_⟩
    simpa [view] using he

theorem Watched.inv_boot (lan : String) (bindProbe : Bool) (table : Table) :
    (boot lan bindProbe table).Inv := by
  show Leads lan (fun r u => Rest lan [] .releaseAll r u) (pure { bindProbe := bindProbe })
    ⟨table, fun _ => false, []⟩
  refine leads_pure fun u hu => ⟨⟨List.nodup_nil, fun e he => ?_⟩, fun hzero => ?_, fun _ hpos => ?_,
    fun _ => rfl⟩
  · have hmarked := (hu.2 e he).1
    cases hmarked
  · exact absurd (show kLeaseSec = 0 from hzero) (by decide)
  · simp at hpos

theorem Watched.Inv.leavesNothing {w : Watched} (h : w.Inv) {core : Core}
    (hrest : w.system.todo = .done core) : LeavesNothing w core := by
  unfold Inv at h
  rw [hrest] at h
  have hat := h w.view (drift_refl _)
  refine ⟨hat.books.distinct, hat.books.owned, fun hall e he => ?_, hat.leases⟩
  obtain ⟨c, hc, -⟩ := hat.books.owned e he
  rw [hat.released hall] at hc
  cases hc

/-- In every run in which no renewal finds another machine behind a port whose
TCP entry is the core's own, and every claim is released as it is held, nothing
is left behind between two operations. -/
theorem leavesNothing_of_clean (lan : String) (bindProbe : Bool) (table : Table)
    (labels : List Label) (w : Watched) (core : Core)
    (hrun : Run Step (.boot lan bindProbe table) labels w)
    (hclean : EachStep Step (fun w a _ => w.Clean a) (.boot lan bindProbe table) labels)
    (hrest : w.system.todo = .done core) : LeavesNothing w core :=
  (hclean.invariant (fun _ _ _ hinv hstep hcond => hinv.step hstep hcond)
    (inv_boot lan bindProbe table) hrun).leavesNothing hrest

/-- The tunnel's first corporate port and no other. -/
def firstPort : Request :=
  { purpose := .tunnel, slot := -1, internalPort := 0, remembered := [], preferred := [3478],
    poolBegin := 1, poolEnd := 0, description := "MoonlightWeb tunnel" }

def claimAndRelease : List Label :=
  [.start (.claim firstPort), .call true, .call true, .call true, .call true, .call true,
    .call true, .start .releaseAll, .call true, .call true]

theorem leavesNothing_claimAndRelease : ∃ w core,
    Run Step (.boot "192.168.1.10" true fun _ => none) claimAndRelease w ∧
      w.system.todo = .done core ∧ LeavesNothing w core := by
  obtain ⟨w, hw⟩ : ∃ w, runMoves step (.boot "192.168.1.10" true fun _ => none)
      claimAndRelease = some w := ⟨_, rfl⟩
  obtain ⟨core, hrest⟩ : ∃ core, w.system.todo = .done core := by
    cases hw
    exact ⟨_, rfl⟩
  have hrun := run_of_runMoves _ hw
  exact ⟨w, core, hrun, hrest, leavesNothing_of_clean _ _ _ _ w core hrun
    (eachStep_of_checkMoves (by decide +kernel)) hrest⟩

/-- Another machine takes the UDP entry of a held claim while it is renewed. -/
def udpTaken : List Label :=
  claimAndRelease.take 7 ++ [.start .renew, .call true, .call true, .call true,
    .others fun e => if e = ⟨3478, .udp⟩ then some "192.168.1.20"
      else if e = ⟨3478, .tcp⟩ then some "192.168.1.10" else none, .call true]

/-- The claim is dropped, and its TCP entry stays open for nobody. -/
theorem tcp_left_behind : ∃ w core,
    Run Step (.boot "192.168.1.10" true fun _ => none) udpTaken w ∧
      w.system.todo = .done core ∧ core.held = [] ∧
      w.view.Ours "192.168.1.10" ⟨3478, .tcp⟩ ∧ ¬LeavesNothing w core := by
  obtain ⟨w, hw⟩ : ∃ w, runMoves step (.boot "192.168.1.10" true fun _ => none)
      udpTaken = some w := ⟨_, rfl⟩
  have hrun := run_of_runMoves _ hw
  obtain ⟨core, hrest, hheld, hlan⟩ : ∃ core, w.system.todo = .done core ∧ core.held = [] ∧
      w.system.lan = "192.168.1.10" := by
    cases hw
    exact ⟨_, rfl, rfl, rfl⟩
  have hours : w.view.Ours "192.168.1.10" ⟨3478, .tcp⟩ := by
    cases hw
    exact ⟨rfl, rfl⟩
  refine ⟨w, core, hrun, hrest, hheld, hours, fun hlaw => ?_⟩
  obtain ⟨c, hc, -⟩ := hlaw.owned ⟨3478, .tcp⟩ (hlan ▸ hours)
  rw [hheld] at hc
  cases hc

end MoonlightWeb.Network.RouterPortCore
