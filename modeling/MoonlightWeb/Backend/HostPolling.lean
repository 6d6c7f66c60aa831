import MoonlightWeb.Backend.ComputerManager

/-! # Polling finds a host again

One host is watched through the steps of the manager: its record, its index into the
candidates, its poll under way and the polls that are over. A failed poll moves the index to
the next candidate and counts; an answer of the host's own puts the candidate that answered
first. An answer that is not the host's own does neither.
-/

namespace MoonlightWeb.Backend

open Js Lib Qt QString Streaming.LocalCandidates ComputerManager NvComputer JsMap List Option

structure Watch where
  host : Option NvComputer
  index : Nat
  pending : List NvAddress
  completed : List CompletedPoll

namespace ComputerManager

/-- The addresses of the host's polls under way. -/
def pendingOf (m : ComputerManager) (uuid : QString) : List NvAddress :=
  (m.pendingPolls.filter fun poll => poll.uuid = uuid).map Poll.address

def completedOf (m : ComputerManager) (uuid : QString) : List CompletedPoll :=
  (m.completed.get uuid).getD []

def watch (m : ComputerManager) (uuid : QString) : Watch where
  host := m.hosts.get uuid
  index := (m.pollAddrIndex.get uuid).getD 0
  pending := m.pendingOf uuid
  completed := m.completedOf uuid

end ComputerManager

structure NvComputer.Kept (h h' : NvComputer) : Prop where
  failures : h'.consecutivePollFailures = h.consecutivePollFailures
  offline : h'.state = .CS_OFFLINE → h.state = .CS_OFFLINE

theorem NvComputer.Kept.trans {h h' h'' : NvComputer} (hfirst : h.Kept h') (hlast : h'.Kept h'') :
    h.Kept h'' where
  failures := hlast.failures.trans hfirst.failures
  offline hoff := hfirst.offline (hlast.offline hoff)

section

variable (parse : QString → Option HostAddress)

def nextIndex (index : Nat) (h : NvComputer) : Reply → Nat
  | .answered _ _ info => if h.Own info then 0 else index
  | .failed _ | .rejected =>
      if 1 < (h.uniqueAddresses parse).length then
        (index + 1) % (h.uniqueAddresses parse).length
      else index

/-- The reply is a failure, or the host's own answer. -/
def NvComputer.Told (h : NvComputer) : Reply → Prop
  | .answered _ _ info => h.Own info
  | .failed _ | .rejected => True

inductive WatchStep (w : Watch) : Watch → Prop
  | still : WatchStep w w
  | changed {h h' : NvComputer} : w.host = some h → h.Kept h' →
      WatchStep w { w with host := some h' }
  | gone (index : Nat) : WatchStep w { w with host := none, index := index, completed := [] }
  | came {h : NvComputer} : w.host = none → h.consecutivePollFailures = 0 →
      WatchStep w { w with host := some h, completed := [] }
  | sent {h : NvComputer} : w.host = some h → w.pending = [] →
      WatchStep w { w with pending := [addressAt parse w.index h] }
  | finished {h : NvComputer} {address : NvAddress} {reply : Reply} (arp : QByteArray) :
      w.host = some h → w.pending = [address] → h.Told reply →
      WatchStep w
        { host := some (h.polled reply arp).1
          index := nextIndex parse w.index h reply
          pending := []
          completed := w.completed ++ [⟨address, answeredBy h reply⟩] }
  | lost : w.host = none → WatchStep w { w with pending := [] }

open WatchStep

namespace ComputerManager

/-- No other host answers a poll of this one, and no poll of it is given up while under way. -/
def Answered (uuid : QString) (m : ComputerManager) : Event → Prop
  | .pollReplyFinished poll reply _ =>
      poll.uuid = uuid → poll ∈ m.pendingPolls → ∀ h, m.hosts.get uuid = some h → h.Told reply
  | .pollTick streamActive now =>
      streamActive = false → m.pendingOf uuid ≠ [] → m.stalled now uuid = false
  | _ => True

structure OneAtATime (uuid : QString) (m : ComputerManager) : Prop where
  single : (m.pendingOf uuid).length ≤ 1
  idle : uuid ∉ m.pollingHosts → m.pendingOf uuid = []

variable {parse} {m : ComputerManager} {uuid : QString}

theorem OneAtATime.of_eq {m' : ComputerManager} (h : m.OneAtATime uuid)
    (hpending : m'.pendingPolls = m.pendingPolls) (hpolling : m'.pollingHosts = m.pollingHosts) :
    m'.OneAtATime uuid := by
  have hsame : m'.pendingOf uuid = m.pendingOf uuid := by
    rw [pendingOf, hpending]
    rfl
  constructor
  · rw [hsame]
    exact h.single
  · rw [hsame, hpolling]
    exact h.idle

theorem kept_apply (change : Change) (h : NvComputer) : h.Kept (change.apply h).1 := by
  cases change <;> simp only [Change.apply] <;> (try split_ifs) <;>
    exact ⟨rfl, fun hoff => by first | exact hoff | cases hoff⟩

theorem kept_update {h that : NvComputer} (hstate : that.state = .CS_ONLINE) :
    h.Kept (h.update that).1 := by
  unfold update
  split_ifs
  · exact ⟨rfl, id⟩
  · refine ⟨rfl, fun hoff => ?_⟩
    have hmerged : (h.merged that).state = .CS_ONLINE := hstate
    rw [hmerged] at hoff
    cases hoff

theorem watch_edit (m : ComputerManager) (edited uuid : QString)
    (change : NvComputer → NvComputer × Bool) :
    (m.edit edited change).watch uuid = { m.watch uuid with
        host := if uuid = edited then (m.hosts.get uuid).map fun h => (change h).1
          else m.hosts.get uuid } := by
  obtain ⟨store, saved, h⟩ := m.edit_eq edited change
  rw [h]
  simp only [watch, get_modify]
  rfl

theorem watchStep_edit (m : ComputerManager) (edited uuid : QString)
    {change : NvComputer → NvComputer × Bool} (hkept : ∀ h : NvComputer, h.Kept (change h).1) :
    WatchStep parse (m.watch uuid) ((m.edit edited change).watch uuid) := by
  rw [watch_edit]
  split_ifs
  · cases hget : m.hosts.get uuid with
    | none =>
      have hsame : m.watch uuid = { m.watch uuid with host := none } := by
        rw [← hget]
        rfl
      rw [map_none, ← hsame]
      exact still
    | some h => exact changed hget (hkept h)
  · exact still

theorem oneAtATime_edit (h : m.OneAtATime uuid) (edited : QString)
    (change : NvComputer → NvComputer × Bool) : (m.edit edited change).OneAtATime uuid := by
  obtain ⟨store, saved, hedit⟩ := m.edit_eq edited change
  rw [hedit]
  exact h.of_eq rfl rfl

/-! ### Hosts that come and go -/

theorem watch_insertHost (m : ComputerManager) (inserted uuid : QString) (h : NvComputer) :
    (m.insertHost inserted h).watch uuid =
      if uuid = inserted then { m.watch uuid with host := some h, completed := [] }
      else m.watch uuid := by
  simp only [watch, insertHost, pendingOf, completedOf]
  split_ifs with hsame
  · rw [hsame, get_set_self, get_delete_self]
    rfl
  · rw [get_set_of_ne _ _ hsame, get_delete_of_ne _ hsame]

theorem watch_removeHost (m : ComputerManager) (removed uuid : QString) :
    (m.removeHost removed).watch uuid =
      if uuid = removed then { m.watch uuid with host := none, completed := [] }
      else m.watch uuid := by
  simp only [watch, removeHost, pendingOf, completedOf]
  split_ifs with hsame
  · rw [hsame, get_delete_self, get_delete_self]
    rfl
  · rw [get_delete_of_ne _ hsame, get_delete_of_ne _ hsame]

theorem watch_saveHosts (m : ComputerManager) (allowEmpty : Bool) (uuid : QString) :
    (m.saveHosts allowEmpty).watch uuid = m.watch uuid := by
  obtain ⟨store, saved, h⟩ := m.saveHosts_eq allowEmpty
  rw [h]
  rfl

/-- What `addOrUpdateHost` does to the host that is watched. -/
theorem watch_addOrUpdateHost (m : ComputerManager) (info : ServerInfo) (addr : NvAddress)
    (uuid : QString) :
    (m.addOrUpdateHost info addr).watch uuid = m.watch uuid ∨
      (∃ h h', m.hosts.get uuid = some h ∧ h.Kept h' ∧
        (m.addOrUpdateHost info addr).watch uuid = { m.watch uuid with host := some h' }) ∨
      (∃ h, m.hosts.get uuid = none ∧ h.consecutivePollFailures = 0 ∧
        (m.addOrUpdateHost info addr).watch uuid =
          { m.watch uuid with host := some h, completed := [] }) := by
  simp only [addOrUpdateHost]
  split_ifs
  · exact Or.inl rfl
  · cases hget : m.hosts.get (ofServerInfo info addr).uuid with
    | some existing =>
      dsimp only
      rw [watch_edit]
      split_ifs with hsame
      · rw [hsame, hget, map_some]
        exact Or.inr (Or.inl ⟨existing, _, rfl, kept_update rfl, rfl⟩)
      · exact Or.inl rfl
    | none =>
      dsimp only
      rw [watch_saveHosts, watch_insertHost]
      split_ifs with hsame
      · rw [hsame]
        exact Or.inr (Or.inr ⟨ofServerInfo info addr, hget, rfl, rfl⟩)
      · exact Or.inl rfl

theorem watchStep_discovered (m : ComputerManager) (info : ServerInfo) (addr : NvAddress)
    (uuid : QString) :
    WatchStep parse (m.watch uuid) ((m.addOrUpdateHost info addr).watch uuid) := by
  rcases m.watch_addOrUpdateHost info addr uuid with
    hw | ⟨h, h', hget, hkept, hw⟩ | ⟨h, hget, hnew, hw⟩
  · rw [hw]
    exact still
  · rw [hw]
    exact changed hget hkept
  · rw [hw]
    exact came hget hnew

theorem kept_typedIn (nvAddr : NvAddress) (h : NvComputer) : h.Kept (h.typedIn nvAddr).1 := by
  unfold typedIn
  split_ifs
  · exact ⟨rfl, id⟩
  · exact ⟨rfl, id⟩

/-- The host a manual request added or updated is changed once more. -/
theorem watchStep_addManualHost (m : ComputerManager) (info : ServerInfo) (nvAddr : NvAddress)
    (uuid : QString) :
    WatchStep parse (m.watch uuid) ((m.handleAddManualHost info nvAddr).watch uuid) := by
  unfold handleAddManualHost
  rw [watch_edit]
  have hhost : ((m.addOrUpdateHost info nvAddr).watch uuid).host =
      (m.addOrUpdateHost info nvAddr).hosts.get uuid := rfl
  rw [← hhost]
  split_ifs
  · rcases m.watch_addOrUpdateHost info nvAddr uuid with
      hw | ⟨h, h', hget, hkept, hw⟩ | ⟨h, hget, hnew, hw⟩
    · rw [hw]
      cases hget : (m.watch uuid).host with
      | none =>
        have hsame : m.watch uuid = { m.watch uuid with host := none } := by rw [← hget]
        rw [map_none, ← hsame]
        exact still
      | some host => exact changed hget (kept_typedIn nvAddr host)
    · rw [hw]
      exact changed hget (hkept.trans (kept_typedIn nvAddr h'))
    · rw [hw]
      exact came hget ((kept_typedIn nvAddr h).failures.trans hnew)
  · exact m.watchStep_discovered info nvAddr uuid

theorem oneAtATime_addOrUpdateHost (h : m.OneAtATime uuid) (info : ServerInfo)
    (addr : NvAddress) : (m.addOrUpdateHost info addr).OneAtATime uuid := by
  simp only [addOrUpdateHost]
  split_ifs
  · exact h
  · cases m.hosts.get (ofServerInfo info addr).uuid with
    | some existing => exact oneAtATime_edit h _ _
    | none =>
      dsimp only
      exact h.of_eq (saveHosts_pendingPolls _ _) (saveHosts_pollingHosts _ _)

theorem watchStep_deleteHost (m : ComputerManager) (deleted uuid : QString) :
    WatchStep parse (m.watch uuid) ((m.handleDeleteHost deleted).watch uuid) := by
  unfold handleDeleteHost
  cases m.hosts.get deleted with
  | none => exact still
  | some h =>
    dsimp only
    rw [watch_saveHosts]
    have hremoved := m.watch_removeHost deleted uuid
    simp only [watch, removeHost, pendingOf, completedOf] at hremoved ⊢
    split_ifs at hremoved with hsame
    · rw [Watch.mk.injEq] at hremoved
      rw [hremoved.1, hremoved.2.2.2]
      exact gone _
    · rw [Watch.mk.injEq] at hremoved
      rw [hremoved.1, hremoved.2.2.2, get_delete_of_ne _ hsame]
      exact still

variable (parse) in
theorem watchStep_nativeProbed (m : ComputerManager) (probe : NativeProbe) (uuid : QString) :
    WatchStep parse (m.watch uuid) ((m.refreshNativeHost probe).watch uuid) := by
  unfold refreshNativeHost
  cases hget : m.hosts.get nativeUuid with
  | some existing =>
    dsimp only
    split_ifs
    · by_cases hsame : uuid = nativeUuid
      · have hwatch : ({ m with hosts := m.hosts.set nativeUuid (nativeHost probe existing) } :
            ComputerManager).watch uuid =
            { m.watch uuid with host := some (nativeHost probe existing) } := by
          simp only [watch, hsame, get_set_self]
          rfl
        rw [hwatch]
        refine changed (h := existing) ?_ ⟨rfl, fun hoff => by cases hoff⟩
        rw [hsame]
        exact hget
      · have hwatch : ({ m with hosts := m.hosts.set nativeUuid (nativeHost probe existing) } :
            ComputerManager).watch uuid = m.watch uuid := by
          simp only [watch, get_set_of_ne _ _ hsame]
          rfl
        rw [hwatch]
        exact still
    · rw [watch_removeHost]
      split_ifs
      · exact gone _
      · exact still
  | none =>
    dsimp only
    split_ifs
    · rw [watch_insertHost]
      split_ifs with hsame
      · refine came ?_ rfl
        rw [hsame]
        exact hget
      · exact still
    · exact still

/-! ### Polls that go out -/

/-- A poll of the host goes out, or nothing happens to it. -/
def Sends (parse : QString → Option HostAddress) (uuid : QString) (m m' : ComputerManager) :
    Prop :=
  (m'.watch uuid = m.watch uuid ∧ (uuid ∈ m'.pollingHosts ↔ uuid ∈ m.pollingHosts)) ∨
    (uuid ∉ m.pollingHosts ∧ uuid ∈ m'.pollingHosts ∧ ∃ h, m.hosts.get uuid = some h ∧
      m'.watch uuid = { m.watch uuid with
        pending := m.pendingOf uuid ++ [addressAt parse (m.watch uuid).index h] })

variable (parse) in
theorem startPoll_sends (hkeyed : KeyedHosts m.hosts) (now : Nat) (uuid : QString)
    {entry : QString × NvComputer} (hentry : m.hosts.get entry.1 = some entry.2) :
    Sends parse uuid m (startPoll parse now m entry) := by
  simp only [startPoll]
  split_ifs with hskip
  · exact Or.inl ⟨rfl, Iff.rfl⟩
  · by_cases hsame : entry.1 = uuid
    · subst hsame
      have hidle : entry.1 ∉ m.pollingHosts := fun h => hskip (Or.inl h)
      refine Or.inr ⟨hidle, Finset.mem_insert_self _ _, entry.2, hentry, ?_⟩
      simp only [watch, pendingOf, filter_append, map_append]
      rw [pollAddressFor, (hkeyed _ _ hentry).1]
      simp [completedOf]
    · refine Or.inl ⟨?_, ?_⟩
      · simp only [watch, pendingOf, filter_append, map_append]
        simp [hsame, completedOf]
      · simp only [Finset.mem_insert]
        exact ⟨fun h => h.resolve_left fun heq => hsame heq.symm, Or.inr⟩

variable (parse) in
theorem foldl_startPoll_sends (now : Nat) (uuid : QString)
    (entries : List (QString × NvComputer)) (hkeyed : KeyedHosts m.hosts)
    (hentries : ∀ entry ∈ entries, m.hosts.get entry.1 = some entry.2) :
    Sends parse uuid m (entries.foldl (startPoll parse now) m) := by
  induction entries generalizing m with
  | nil => exact Or.inl ⟨rfl, Iff.rfl⟩
  | cons entry entries ih =>
    have hhosts : (startPoll parse now m entry).hosts = m.hosts :=
      foldl_startPoll_hosts now [entry] m
    have hfirst := startPoll_sends parse hkeyed now uuid
      (hentries entry mem_cons_self)
    have hlast := ih (m := startPoll parse now m entry) (by rw [hhosts]; exact hkeyed) (by
      intro e he
      rw [hhosts]
      exact hentries e (mem_cons_of_mem _ he))
    rw [foldl_cons]
    rcases hfirst with ⟨hsame, hpolling⟩ | ⟨hidle, hpolling, h, hget, hsent⟩
    · rcases hlast with ⟨hsame', hpolling'⟩ | ⟨hidle', hpolling', h, hget, hsent⟩
      · exact Or.inl ⟨hsame'.trans hsame, hpolling'.trans hpolling⟩
      · have hpending : (startPoll parse now m entry).pendingOf uuid = m.pendingOf uuid :=
          congrArg Watch.pending hsame
        rw [hsame, hpending] at hsent
        rw [hhosts] at hget
        exact Or.inr ⟨fun hmem => hidle' (hpolling.mpr hmem), hpolling', h, hget, hsent⟩
    · -- the host is being polled now, so nothing else goes out to it
      rcases hlast with ⟨hsame', hpolling'⟩ | ⟨hidle', _⟩
      · exact Or.inr ⟨hidle, hpolling'.mpr hpolling, h, hget, hsame'.trans hsent⟩
      · exact absurd hpolling hidle'

theorem watchStep_sends {m' : ComputerManager} (hsends : Sends parse uuid m m')
    (hone : m.OneAtATime uuid) :
    WatchStep parse (m.watch uuid) (m'.watch uuid) ∧ m'.OneAtATime uuid := by
  rcases hsends with ⟨hsame, hpolling⟩ | ⟨hidle, hpolling, h, hget, hsent⟩
  · have hpending : m'.pendingOf uuid = m.pendingOf uuid := congrArg Watch.pending hsame
    constructor
    · rw [hsame]
      exact still
    · constructor
      · rw [hpending]
        exact hone.single
      · rw [hpending, hpolling]
        exact hone.idle
  · have hnone := hone.idle hidle
    have hpending : m'.pendingOf uuid = [addressAt parse (m.watch uuid).index h] := by
      calc m'.pendingOf uuid
          = m.pendingOf uuid ++ [addressAt parse (m.watch uuid).index h] :=
            congrArg Watch.pending hsent
        _ = [addressAt parse (m.watch uuid).index h] := by rw [hnone, nil_append]
    constructor
    · rw [hsent, hnone]
      exact sent hget hnone
    · constructor
      · rw [hpending]
        rfl
      · exact fun hnot => absurd hpolling hnot

theorem oneAtATime_cleanStalled {now : Nat} (hone : m.OneAtATime uuid)
    (hstalled : m.pendingOf uuid ≠ [] → m.stalled now uuid = false) :
    (m.cleanStalled now).OneAtATime uuid := by
  constructor
  · exact hone.single
  · intro hidle
    by_contra hpending
    have hpolling : uuid ∈ m.pollingHosts := by
      by_contra hnot
      exact hpending (hone.idle hnot)
    apply hidle
    rw [cleanStalled, Finset.mem_filter]
    exact ⟨hpolling, by rw [hstalled hpending]; rfl⟩

/-! ### Polls that end -/

variable {poll : Poll}

theorem pendingOf_erase_of_ne (hother : poll.uuid ≠ uuid) (polls : List Poll) :
    (polls.erase poll).filter (fun p => p.uuid = uuid) =
      polls.filter fun p => p.uuid = uuid := by
  rw [← erase_filter]
  apply erase_of_not_mem
  intro hmem
  exact hother (of_decide_eq_true (mem_filter.mp hmem).2)

/-- The host's one poll under way. -/
theorem OneAtATime.pending_eq (hone : m.OneAtATime uuid)
    (hpoll : poll ∈ m.pendingPolls) (huuid : poll.uuid = uuid) :
    m.pendingPolls.filter (fun p => p.uuid = uuid) = [poll] := by
  have hmem : poll ∈ m.pendingPolls.filter fun p => p.uuid = uuid :=
    mem_filter.mpr ⟨hpoll, decide_eq_true huuid⟩
  have hlength := hone.single
  rw [pendingOf, length_map] at hlength
  cases hfilter : m.pendingPolls.filter fun p => p.uuid = uuid with
  | nil =>
    rw [hfilter] at hmem
    cases hmem
  | cons first others =>
    rw [hfilter, length_cons] at hlength
    have hothers : others = [] := length_eq_zero_iff.mp (by omega)
    rw [hfilter, hothers, mem_singleton] at hmem
    rw [hothers, hmem]

theorem get_indexAfter (index : QHash QString Nat) (uuid : QString) (h : NvComputer)
    (reply : Reply) :
    ((indexAfter parse index uuid h reply).get uuid).getD 0 =
      nextIndex parse ((index.get uuid).getD 0) h reply := by
  cases reply with
  | failed refused =>
    simp only [indexAfter, nextIndex]
    split_ifs
    · rw [get_set_self, getD_some]
    · rfl
  | rejected =>
    simp only [indexAfter, nextIndex]
    split_ifs
    · rw [get_set_self, getD_some]
    · rfl
  | answered url host info =>
    simp only [indexAfter, nextIndex]
    split_ifs
    · rw [get_delete_self, getD_none]
    · rfl

theorem get_indexAfter_of_ne (index : QHash QString Nat) {polled uuid : QString}
    (hother : uuid ≠ polled) (h : NvComputer) (reply : Reply) :
    (indexAfter parse index polled h reply).get uuid = index.get uuid := by
  cases reply with
  | failed refused =>
    simp only [indexAfter]
    split_ifs
    · exact get_set_of_ne _ _ hother
    · rfl
  | rejected =>
    simp only [indexAfter]
    split_ifs
    · exact get_set_of_ne _ _ hother
    · rfl
  | answered url host info =>
    simp only [indexAfter]
    split_ifs
    · exact get_delete_of_ne _ hother
    · rfl

/-- The manager once a poll is off its books. -/
def settled (m : ComputerManager) (poll : Poll) : ComputerManager :=
  { m with
    pendingPolls := m.pendingPolls.erase poll
    pollingHosts := m.pollingHosts.erase poll.uuid
    pollStartedAt := m.pollStartedAt.delete poll.uuid }

/-- The manager once the reply to a poll is on the record. -/
def recorded (parse : QString → Option HostAddress) (m : ComputerManager) (poll : Poll)
    (h : NvComputer) (reply : Reply) : ComputerManager :=
  let ended : CompletedPoll := ⟨poll.address, answeredBy h reply⟩
  { m.settled poll with
    pollAddrIndex := indexAfter parse m.pollAddrIndex poll.uuid h reply
    completed := m.completed.set poll.uuid (m.completedOf poll.uuid ++ [ended]) }

theorem onPollReplyFinished_eq (hpoll : poll ∈ m.pendingPolls) (reply : Reply) (arp : QByteArray) :
    m.onPollReplyFinished parse poll reply arp =
      match m.hosts.get poll.uuid with
      | none => m.settled poll
      | some h => (m.recorded parse poll h reply).edit poll.uuid fun h => h.polled reply arp := by
  rw [onPollReplyFinished, if_pos hpoll]
  rfl

theorem oneAtATime_settled (hone : m.OneAtATime uuid)
    (hpoll : poll ∈ m.pendingPolls) : (m.settled poll).OneAtATime uuid := by
  by_cases hsame : poll.uuid = uuid
  · have hpending : (m.settled poll).pendingOf uuid = [] := by
      simp only [settled, pendingOf]
      rw [← erase_filter, hone.pending_eq hpoll hsame, erase_cons_head]
      rfl
    constructor
    · rw [hpending]
      exact Nat.zero_le 1
    · exact fun _ => hpending
  · have hpending : (m.settled poll).pendingOf uuid = m.pendingOf uuid := by
      simp only [settled, pendingOf]
      rw [pendingOf_erase_of_ne hsame]
    constructor
    · rw [hpending]
      exact hone.single
    · rw [hpending]
      intro hidle
      apply hone.idle
      intro hpolling
      exact hidle (Finset.mem_erase.mpr ⟨fun h => hsame h.symm, hpolling⟩)

theorem watchStep_finished (hone : m.OneAtATime uuid) {reply : Reply} (arp : QByteArray)
    (htold : poll.uuid = uuid → poll ∈ m.pendingPolls → ∀ h, m.hosts.get uuid = some h →
      h.Told reply) :
    WatchStep parse (m.watch uuid) ((m.onPollReplyFinished parse poll reply arp).watch uuid) ∧
      (m.onPollReplyFinished parse poll reply arp).OneAtATime uuid := by
  by_cases hpoll : poll ∈ m.pendingPolls
  · have hsettled := oneAtATime_settled hone hpoll
    rw [onPollReplyFinished_eq hpoll]
    by_cases hsame : poll.uuid = uuid
    · subst hsame
      have hfilter := hone.pending_eq hpoll rfl
      have hpending : m.pendingOf poll.uuid = [poll.address] := by rw [pendingOf, hfilter]; rfl
      have hnone : (m.settled poll).pendingOf poll.uuid = [] := by
        simp only [settled, pendingOf]
        rw [← erase_filter, hfilter, erase_cons_head]
        rfl
      cases hget : m.hosts.get poll.uuid with
      | none =>
        refine ⟨?_, hsettled⟩
        have hwatch : (m.settled poll).watch poll.uuid =
            { m.watch poll.uuid with pending := [] } := by
          rw [← hnone]
          rfl
        dsimp only
        rw [hwatch]
        exact lost hget
      | some h =>
        have hrecorded : (m.recorded parse poll h reply).OneAtATime poll.uuid :=
          hsettled.of_eq rfl rfl
        dsimp only
        refine ⟨?_, oneAtATime_edit hrecorded _ _⟩
        have hwatch : (m.recorded parse poll h reply).watch poll.uuid =
            { host := m.hosts.get poll.uuid
              index := nextIndex parse (m.watch poll.uuid).index h reply
              pending := []
              completed := m.completedOf poll.uuid ++ [⟨poll.address, answeredBy h reply⟩] } := by
          simp only [watch, recorded, completedOf, get_set_self, getD_some,
            get_indexAfter]
          rw [← hnone]
          rfl
        have hhosts : (m.recorded parse poll h reply).hosts.get poll.uuid = some h := hget
        rw [watch_edit, if_pos rfl, hwatch, hhosts]
        exact finished arp hget hpending (htold rfl hpoll h hget)
    · have hpending : (m.settled poll).pendingOf uuid = m.pendingOf uuid := by
        simp only [settled, pendingOf]
        rw [pendingOf_erase_of_ne hsame]
      have hother : uuid ≠ poll.uuid := fun h => hsame h.symm
      cases hget : m.hosts.get poll.uuid with
      | none =>
        refine ⟨?_, hsettled⟩
        have hwatch : (m.settled poll).watch uuid = m.watch uuid := by
          simp only [watch, hpending]
          rfl
        dsimp only
        rw [hwatch]
        exact still
      | some h =>
        have hrecorded : (m.recorded parse poll h reply).OneAtATime uuid := hsettled.of_eq rfl rfl
        dsimp only
        refine ⟨?_, oneAtATime_edit hrecorded _ _⟩
        have hpending' : (m.recorded parse poll h reply).pendingOf uuid = m.pendingOf uuid :=
          hpending
        have hwatch : (m.recorded parse poll h reply).watch uuid = m.watch uuid := by
          simp only [watch, hpending']
          simp only [recorded, completedOf, get_indexAfter_of_ne _ hother,
            get_set_of_ne _ _ hother]
          rfl
        rw [watch_edit, if_neg hother, hwatch]
        exact still
  · rw [onPollReplyFinished, if_neg hpoll]
    exact ⟨still, hone⟩

variable (parse) in
theorem watchStep_handle (hkeyed : KeyedHosts m.hosts) (hone : m.OneAtATime uuid) {e : Event}
    (hanswered : m.Answered uuid e) :
    WatchStep parse (m.watch uuid) ((m.handle parse e).watch uuid) ∧
      (m.handle parse e).OneAtATime uuid := by
  have hentries : ∀ entry ∈ m.hosts.entries, m.hosts.get entry.1 = some entry.2 := by
    intro entry hentry
    exact (m.hosts.mem_entries_iff entry.1 entry.2).mp hentry
  cases e with
  | pollTick streamActive now =>
    simp only [handle, onPollTick]
    split_ifs with hactive
    · exact ⟨still, hone⟩
    · have hclean := oneAtATime_cleanStalled hone
        (hanswered (Bool.eq_false_iff.mpr hactive))
      have hsends := foldl_startPoll_sends parse (m := m.cleanStalled now) now uuid
        (m.hosts.entries.filter fun entry => !entry.2.isNativeEngine) hkeyed
        fun entry hentry => hentries entry (mem_filter.mp hentry).1
      have hstep := watchStep_sends hsends hclean
      exact hstep
  | backupPollTick streamActive now =>
    simp only [handle, onBackupPollTick]
    split_ifs
    · exact ⟨still, hone⟩
    · exact watchStep_sends (foldl_startPoll_sends parse now uuid _ hkeyed hentries) hone
  | pollReplyFinished poll reply arp => exact watchStep_finished hone arp hanswered
  | discovered info addr =>
    exact ⟨watchStep_discovered m info addr uuid, oneAtATime_addOrUpdateHost hone info addr⟩
  | addManualHost info nvAddr =>
    exact ⟨watchStep_addManualHost m info nvAddr uuid,
      oneAtATime_edit (oneAtATime_addOrUpdateHost hone info nvAddr) _ _⟩
  | deleteHost deleted =>
    refine ⟨watchStep_deleteHost m deleted uuid, ?_⟩
    simp only [handle, handleDeleteHost]
    cases m.hosts.get deleted with
    | none => exact hone
    | some h => exact hone.of_eq (saveHosts_pendingPolls _ _) (saveHosts_pollingHosts _ _)
  | nativeProbed probe =>
    refine ⟨watchStep_nativeProbed parse m probe uuid, ?_⟩
    simp only [handle, refreshNativeHost]
    cases m.hosts.get nativeUuid with
    | some existing =>
      dsimp only
      split_ifs <;> exact hone.of_eq rfl rfl
    | none =>
      dsimp only
      split_ifs <;> exact hone.of_eq rfl rfl
  | changed edited change =>
    exact ⟨watchStep_edit m edited uuid (kept_apply change), oneAtATime_edit hone _ _⟩

end ComputerManager

variable (completed : List CompletedPoll)

def misses : Nat :=
  (completed.reverse.takeWhile fun poll => poll.answered.isNone).length

theorem misses_snoc_none (address : NvAddress) :
    misses (completed ++ [⟨address, none⟩]) = misses completed + 1 := by
  simp [misses]

theorem misses_snoc_some (address url : NvAddress) :
    misses (completed ++ [⟨address, some url⟩]) = 0 := by
  simp [misses]

/-- The count of failures is the polls missed, up to the threshold. -/
def Watch.Counted (w : Watch) : Prop :=
  ∀ h, w.host = some h → h.consecutivePollFailures = min 3 (misses w.completed)

variable {parse} {w w' : Watch}

theorem registerFailure_failures (h : NvComputer) :
    h.registerFailure.1.consecutivePollFailures = min 3 (h.consecutivePollFailures + 1) ∨
      3 < h.consecutivePollFailures := by
  have hcount : h.registerFailure.1.consecutivePollFailures =
      if h.consecutivePollFailures < 3 then h.consecutivePollFailures + 1
      else h.consecutivePollFailures := by
    unfold registerFailure
    by_cases hoff : OFFLINE_FAILURE_THRESHOLD ≤ h.countFailure.consecutivePollFailures ∧
        h.state ≠ .CS_OFFLINE
    · rw [if_pos hoff]
      rfl
    · rw [if_neg hoff]
      rfl
  rw [hcount]
  split_ifs <;> omega

theorem registerFailure_offline (h : NvComputer) :
    h.registerFailure.1.state = .CS_OFFLINE ↔
      3 ≤ h.registerFailure.1.consecutivePollFailures ∨ h.state = .CS_OFFLINE := by
  have hstate : h.countFailure.state = h.state := rfl
  unfold registerFailure
  split_ifs with hoff
  · exact ⟨fun _ => Or.inl hoff.1, fun _ => rfl⟩
  · rw [hstate]
    constructor
    · exact Or.inr
    · rintro (hthree | hoffline)
      · by_contra hnot
        exact hoff ⟨hthree, hnot⟩
      · exact hoffline

variable {h : NvComputer} {reply : Reply}

theorem polled_missed (arp : QByteArray) (htold : h.Told reply)
    (hmissed : answeredBy h reply = none) (hcap : h.consecutivePollFailures ≤ 3) :
    (h.polled reply arp).1.consecutivePollFailures = min 3 (h.consecutivePollFailures + 1) ∧
      ((h.polled reply arp).1.state = .CS_OFFLINE ↔
        3 ≤ (h.polled reply arp).1.consecutivePollFailures ∨ h.state = .CS_OFFLINE) := by
  cases reply with
  | failed refused =>
    have hfailures := registerFailure_failures { h with reachable := refused }
    exact ⟨hfailures.resolve_right (by dsimp only; omega), registerFailure_offline _⟩
  | rejected =>
    have hfailures := registerFailure_failures { h with reachable := true }
    exact ⟨hfailures.resolve_right (by dsimp only; omega), registerFailure_offline _⟩
  | answered url host info =>
    have hown : h.Own info := htold
    rw [answeredBy, if_pos hown] at hmissed
    cases hmissed

variable (parse) in
/-- An answer of the host's own puts the address it came from first. -/
theorem polled_answered {url : NvAddress} (arp : QByteArray)
    (hanswered : answeredBy h reply = some url) :
    (h.polled reply arp).1.consecutivePollFailures = 0 ∧
      (h.polled reply arp).1.state = .CS_ONLINE ∧
      ((h.polled reply arp).1.uniqueAddresses parse).head? = some url := by
  cases reply with
  | failed refused => cases hanswered
  | rejected => cases hanswered
  | answered source host info =>
    simp only [answeredBy] at hanswered
    split_ifs at hanswered with hown
    obtain rfl : source = url := Option.some.inj hanswered
    have huuid : h.uuid = (ofServerInfo info source).uuid := hown.symm
    have hlead : ∀ h' : NvComputer, h'.activeAddress = source →
        (h'.uniqueAddresses parse).head? = some source := by
      intro h' hactive
      rw [head_uniqueAddresses parse (by rw [hactive]; exact host), hactive]
    simp only [polled, if_pos hown, update, ne_eq, huuid,
      not_true_eq_false, if_false]
    split_ifs
    · exact ⟨rfl, rfl, hlead _ rfl⟩
    · exact ⟨rfl, rfl, hlead _ rfl⟩

theorem nextIndex_missed (htold : h.Told reply) (index : Nat)
    (hmissed : answeredBy h reply = none) :
    nextIndex parse index h reply =
      if 1 < (h.uniqueAddresses parse).length then (index + 1) % (h.uniqueAddresses parse).length
      else index := by
  cases reply with
  | failed refused => rfl
  | rejected => rfl
  | answered url host info =>
    have hown : h.Own info := htold
    rw [answeredBy, if_pos hown] at hmissed
    cases hmissed

theorem nextIndex_answered {url : NvAddress} (index : Nat)
    (hanswered : answeredBy h reply = some url) :
    nextIndex parse index h reply = 0 := by
  cases reply with
  | failed refused => cases hanswered
  | rejected => cases hanswered
  | answered source host info =>
    simp only [answeredBy] at hanswered
    split_ifs at hanswered with hown
    exact if_pos hown

theorem WatchStep.counted (hstep : WatchStep parse w w') (hw : w.Counted) : w'.Counted := by
  intro h' hget
  cases hstep with
  | still => exact hw h' hget
  | changed hh hkept =>
    obtain rfl := Option.some.inj hget
    rw [hkept.failures]
    exact hw _ hh
  | gone index => cases hget
  | came hnone hnew =>
    obtain rfl := Option.some.inj hget
    exact hnew
  | sent hh hpending => exact hw h' hget
  | @finished h address reply arp hh hpending htold =>
    obtain rfl := Option.some.inj hget
    have hcounted := hw h hh
    cases hby : answeredBy h reply with
    | none =>
      rw [(polled_missed arp htold hby (by omega)).1, hcounted, misses_snoc_none]
      omega
    | some url =>
      rw [(polled_answered parse arp hby).1, misses_snoc_some]
      rfl
  | lost hnone =>
    rw [hnone] at hget
    cases hget

theorem WatchStep.finished_of_completed (hstep : WatchStep parse w w') {poll : CompletedPoll}
    (hlog : w'.completed = w.completed ++ [poll]) :
    ∃ h address reply arp, w.host = some h ∧ w.pending = [address] ∧ h.Told reply ∧
      poll = ⟨address, answeredBy h reply⟩ ∧
      w' = { host := some (h.polled reply arp).1
             index := nextIndex parse w.index h reply
             pending := []
             completed := w.completed ++ [poll] } := by
  have hgrows : ∀ log : List CompletedPoll, log ≠ log ++ [poll] := by
    intro log h
    have hlength := congrArg List.length h
    simp at hlength
  cases hstep with
  | still => exact absurd hlog (hgrows _)
  | changed hh hkept => exact absurd hlog (hgrows _)
  | gone index =>
    have hnil := congrArg List.length hlog
    simp at hnil
  | came hnone hnew =>
    have hnil := congrArg List.length hlog
    simp at hnil
  | sent hh hpending => exact absurd hlog (hgrows _)
  | @finished h address reply arp hh hpending htold =>
    obtain rfl := (singleton_inj.mp (append_cancel_left hlog)).symm
    exact ⟨h, address, reply, arp, hh, hpending, htold, rfl, rfl⟩
  | lost hnone => exact absurd hlog (hgrows _)

def Watch.candidates (parse : QString → Option HostAddress) (w : Watch) :
    Option (List NvAddress) :=
  w.host.map fun h => h.uniqueAddresses parse

/-- Since `first` the candidates have been asked one after the other, as long as none of the
polls was answered by the host itself. -/
def Rotating (addrs : List NvAddress) (first w : Watch) : Prop :=
  ∃ done, w.completed = first.completed ++ done ∧ ((∀ poll ∈ done, poll.answered = none) →
    w.index % addrs.length = (first.index + done.length) % addrs.length ∧
    (w.pending = [] ∨
      w.pending = [addrs.getD ((first.index + done.length) % addrs.length) {}]) ∧
    done.map CompletedPoll.address =
      (List.range done.length).map fun k => addrs.getD ((first.index + k) % addrs.length) {})

theorem Rotating.start {addrs : List NvAddress} {w : Watch}
    (hpending : w.pending = [] ∨ w.pending = [addrs.getD (w.index % addrs.length) {}]) :
    Rotating addrs w w :=
  ⟨[], (append_nil _).symm, fun _ => ⟨rfl, hpending, rfl⟩⟩

/-- A step while the candidates stay the same keeps the rotation. -/
theorem Rotating.step {addrs : List NvAddress} {first : Watch} (hrotating : Rotating addrs first w)
    (hstep : WatchStep parse w w') (hpositive : 0 < addrs.length)
    (hbefore : w.candidates parse = some addrs) (hafter : w'.candidates parse = some addrs) :
    Rotating addrs first w' := by
  obtain ⟨done, hlog, hdone⟩ := hrotating
  have haddrs : ∀ {h}, w.host = some h → h.uniqueAddresses parse = addrs := by
    intro h hh
    rw [Watch.candidates, hh, map_some, Option.some.injEq] at hbefore
    exact hbefore
  cases hstep with
  | still => exact ⟨done, hlog, hdone⟩
  | changed hh hkept => exact ⟨done, hlog, hdone⟩
  | gone index => cases hafter
  | came hnone hnew =>
    rw [Watch.candidates, hnone] at hbefore
    cases hbefore
  | @sent h hh hpending =>
    refine ⟨done, hlog, fun hmissed => ?_⟩
    obtain ⟨hindex, -, hasked⟩ := hdone hmissed
    refine ⟨hindex, Or.inr ?_, hasked⟩
    dsimp only
    rw [addressAt, haddrs hh, hindex]
  | @finished h address reply arp hh hpending htold =>
    refine ⟨done ++ [⟨address, answeredBy h reply⟩], ?_, fun hmissed => ?_⟩
    · dsimp only
      rw [hlog, append_assoc]
    · have hbefore' : ∀ poll ∈ done, poll.answered = none :=
        fun poll hpoll => hmissed poll (mem_append_left _ hpoll)
      have hlast : answeredBy h reply = none :=
        hmissed ⟨address, _⟩ (mem_append_right _ (mem_singleton_self _))
      obtain ⟨hindex, hasking, hasked⟩ := hdone hbefore'
      have haddress : address = addrs.getD ((first.index + done.length) % addrs.length) {} := by
        rw [hpending] at hasking
        rcases hasking with hnone | hone
        · cases hnone
        · exact singleton_inj.mp hone
      refine ⟨?_, Or.inl rfl, ?_⟩
      · dsimp only
        rw [nextIndex_missed htold _ hlast, haddrs hh, length_append, length_singleton,
          ← Nat.add_assoc, Nat.add_mod (first.index + done.length), ← hindex]
        split_ifs with hmany
        · rw [Nat.mod_mod, Nat.add_mod]
        · have hone : addrs.length = 1 := by omega
          rw [hone, Nat.mod_one, Nat.mod_one]
      · rw [map_append, hasked, length_append, length_singleton, range_succ,
          map_append, haddress]
        rfl
  | lost hnone =>
    rw [Watch.candidates, hnone] at hbefore
    cases hbefore

theorem rotation_perm (addrs : List NvAddress) (start : Nat) :
    ((List.range addrs.length).map fun k =>
      addrs.getD ((start + k) % addrs.length) {}).Perm addrs := by
  have hrotate : ((List.range addrs.length).map fun k =>
      addrs.getD ((start + k) % addrs.length) {}) = addrs.rotate start := by
    apply ext_getElem
    · simp
    · intro k hk hk'
      have hpositive : 0 < addrs.length := by
        rw [length_map, length_range] at hk
        omega
      rw [getElem_map, getElem_range, getElem_rotate, Nat.add_comm,
        getD_eq_getElem _ _ (Nat.mod_lt _ hpositive)]
  rw [hrotate]
  exact rotate_perm addrs start

end

namespace ComputerManager

variable (parse : QString → Option HostAddress)

def HasCandidates (uuid : QString) (addrs : List NvAddress) (m : ComputerManager) : Prop :=
  ∃ h, m.hosts.get uuid = some h ∧ h.uniqueAddresses parse = addrs

/-- A poll of the host that is under way went to the candidate whose turn it is. -/
def InStep (uuid : QString) (m : ComputerManager) : Prop :=
  ∀ h, m.hosts.get uuid = some h → ∀ address ∈ m.pendingOf uuid,
    address = m.pollAddressFor parse h

/-- What polling promises of a host, whatever the steps from here. -/
structure FindsAgain (step : ComputerManager → Event → ComputerManager → Prop) (uuid : QString)
    (m : ComputerManager) : Prop where
  /-- As many polls as there are candidates get an answer or try each candidate once. -/
  everyCandidate : ∀ window m' addrs done, Run step m window m' →
    AllAlong step (HasCandidates parse uuid addrs) m window → InStep parse uuid m →
    m'.completedOf uuid = m.completedOf uuid ++ done → done.length = addrs.length →
      (∃ poll ∈ done, poll.answered.isSome) ∨
        addrs.Nodup ∧ (done.map CompletedPoll.address).Perm addrs
  /-- The third poll in a row that is missed leaves the host offline. -/
  offlineAfterThree : ∀ e m' poll, step m e m' →
    m'.completedOf uuid = m.completedOf uuid ++ [poll] → 3 ≤ misses (m'.completedOf uuid) →
      ∃ h, m'.hosts.get uuid = some h ∧ h.state = .CS_OFFLINE
  /-- Nothing else takes it offline. -/
  neverSooner : ∀ e m' h h', step m e m' → m.hosts.get uuid = some h → h.state ≠ .CS_OFFLINE →
    m'.hosts.get uuid = some h' → h'.state = .CS_OFFLINE →
      (∃ poll, m'.completedOf uuid = m.completedOf uuid ++ [poll]) ∧
        3 ≤ misses (m'.completedOf uuid)
  /-- The polls after an answer of the host's own go to where it answered from. -/
  backToTheAnswer : ∀ e m' poll url window m'' addrs, step m e m' →
    m'.completedOf uuid = m.completedOf uuid ++ [poll] → poll.answered = some url →
    Run step m' window m'' → AllAlong step (HasCandidates parse uuid addrs) m' window →
    m''.completedOf uuid = m'.completedOf uuid →
      (∀ h, m''.hosts.get uuid = some h → m''.pollAddressFor parse h = url) ∧
        ∀ address ∈ m''.pendingOf uuid, address = url

variable {parse} {m : ComputerManager} {uuid : QString}

variable {addrs : List NvAddress}

theorem candidates_of_hasCandidates
    (h : HasCandidates parse uuid addrs m) : (m.watch uuid).candidates parse = some addrs := by
  obtain ⟨host, hget, haddrs⟩ := h
  rw [Watch.candidates, watch, hget, map_some, haddrs]

structure Orderly (uuid : QString) (m : ComputerManager) : Prop where
  keyed : KeyedHosts m.hosts
  one : m.OneAtATime uuid
  counted : (m.watch uuid).Counted

variable {e : Event}

theorem Orderly.step (hm : m.Orderly uuid) (hanswered : m.Answered uuid e) :
    (m.handle parse e).Orderly uuid where
  keyed := keyed_handle hm.keyed e
  one := (watchStep_handle parse hm.keyed hm.one hanswered).2
  counted := (watchStep_handle parse hm.keyed hm.one hanswered).1.counted hm.counted

theorem refreshNativeHost_idle (m : ComputerManager) (probe : NativeProbe) :
    (m.refreshNativeHost probe).pendingPolls = m.pendingPolls ∧
      (m.refreshNativeHost probe).pollingHosts = m.pollingHosts := by
  unfold refreshNativeHost
  cases m.hosts.get nativeUuid with
  | some existing =>
    dsimp only
    split_ifs <;> exact ⟨rfl, rfl⟩
  | none =>
    dsimp only
    split_ifs <;> exact ⟨rfl, rfl⟩

theorem counted_foldl_loadHost (entries : List StoredHost) {hosts : QHash QString NvComputer}
    (hhosts : ∀ uuid h, hosts.get uuid = some h → h.consecutivePollFailures = 0) :
    ∀ uuid h, (entries.foldl loadHost hosts).get uuid = some h →
      h.consecutivePollFailures = 0 := by
  induction entries generalizing hosts with
  | nil => exact hhosts
  | cons s entries ih =>
    rw [foldl_cons]
    apply ih
    intro uuid h hget
    simp only [loadHost] at hget
    split_ifs at hget
    · exact hhosts uuid h hget
    · by_cases hsame : uuid = (ofSettings s).uuid
      · rw [hsame, get_set_self, Option.some.injEq] at hget
        rw [← hget]
        rfl
      · rw [get_set_of_ne _ _ hsame] at hget
        exact hhosts uuid h hget

theorem orderly_start (m : ComputerManager) (readable : Bool) (probe : NativeProbe)
    (uuid : QString) : (m.start readable probe).Orderly uuid := by
  have hkeyed := keyed_start m readable probe
  obtain ⟨hpending, hpolling⟩ := refreshNativeHost_idle
    ({ store := m.store, storeReadable := readable, saved := m.saved } : ComputerManager).loadHosts
    probe
  have hnone : (m.start readable probe).pendingOf uuid = [] := by
    unfold pendingOf start
    rw [hpending]
    rfl
  refine ⟨hkeyed, ⟨by rw [hnone]; exact Nat.zero_le 1, fun _ => hnone⟩, ?_⟩
  have hloaded : ({ store := m.store, storeReadable := readable, saved := m.saved } :
      ComputerManager).loadHosts.watch uuid |>.Counted := by
    intro h hget
    have hzero := counted_foldl_loadHost _ (by intro uuid h hget; cases hget) uuid h hget
    rw [hzero]
    rfl
  exact (watchStep_nativeProbed (fun _ => none) _ probe uuid).counted hloaded

/-- The one poll under way went to the candidate at the index. -/
theorem Orderly.inStep (hm : m.Orderly uuid) (hpending : m.InStep parse uuid)
    (hhas : HasCandidates parse uuid addrs m) :
    (m.watch uuid).pending = [] ∨
      (m.watch uuid).pending = [addrs.getD ((m.watch uuid).index % addrs.length) {}] := by
  obtain ⟨h, hget, haddrs⟩ := hhas
  have hlength := hm.one.single
  cases hpolls : m.pendingOf uuid with
  | nil => exact Or.inl hpolls
  | cons address others =>
    rw [hpolls, length_cons] at hlength
    have hothers : others = [] := length_eq_zero_iff.mp (by omega)
    have haddress := hpending h hget address (by rw [hpolls]; exact mem_cons_self)
    rw [pollAddressFor, (hm.keyed uuid h hget).1, addressAt, haddrs] at haddress
    right
    rw [watch, hpolls, hothers, haddress]

variable {window : List Event}

/-- The rotation over a stretch of a run in which the candidates stay the same. -/
theorem rotating_window (hpositive : 0 < addrs.length)
    (hm : m.Orderly uuid) (hpending : m.InStep parse uuid) {m' : ComputerManager}
    (hrun : Run (guarded (Answered uuid) (handles (handle parse))) m window m')
    (hsteady : AllAlong (guarded (Answered uuid) (handles (handle parse)))
      (HasCandidates parse uuid addrs) m window) :
    m'.Orderly uuid ∧ Rotating addrs (m.watch uuid) (m'.watch uuid) := by
  induction hrun with
  | nil => exact ⟨hm, Rotating.start (hm.inStep hpending (hsteady [] [] m rfl Run.nil))⟩
  | @snoc t t' window e hrun hstep ih =>
    have hearlier : AllAlong (guarded (Answered uuid) (handles (handle parse)))
        (HasCandidates parse uuid addrs) m window := by
      intro visited rest s hl
      exact hsteady visited (rest ++ [e]) s (by rw [hl, append_assoc])
    obtain ⟨ht, hrotating⟩ := ih hearlier
    obtain ⟨hanswered, rfl⟩ := hstep
    have hbefore := candidates_of_hasCandidates (hearlier.last hrun)
    have hafter := candidates_of_hasCandidates
      (hsteady.last (Run.snoc hrun ⟨hanswered, rfl⟩))
    have hwatch := (watchStep_handle parse ht.keyed ht.one hanswered).1
    exact ⟨ht.step hanswered, hrotating.step hwatch hpositive hbefore hafter⟩

variable (hm : m.Orderly uuid)

include hm

theorem Orderly.everyCandidate {m' : ComputerManager}
    {done : List CompletedPoll}
    (hrun : Run (guarded (Answered uuid) (handles (handle parse))) m window m')
    (hsteady : AllAlong (guarded (Answered uuid) (handles (handle parse)))
      (HasCandidates parse uuid addrs) m window) (hpending : m.InStep parse uuid)
    (hlog : m'.completedOf uuid = m.completedOf uuid ++ done)
    (hlength : done.length = addrs.length) :
    (∃ poll ∈ done, poll.answered.isSome) ∨
      addrs.Nodup ∧ (done.map CompletedPoll.address).Perm addrs := by
  obtain ⟨h, hget, haddrs⟩ := hsteady [] window m rfl Run.nil
  have hdistinct : addrs.Nodup := by
    rw [← haddrs]
    exact h.uniqueAddresses_nodup parse
  by_cases hpositive : 0 < addrs.length
  · obtain ⟨-, done', hlog', hdone⟩ := rotating_window hpositive hm hpending hrun hsteady
    have hsame : m'.completedOf uuid = m.completedOf uuid ++ done' := hlog'
    obtain rfl : done = done' := append_cancel_left (hlog.symm.trans hsame)
    by_cases hmissed : ∀ poll ∈ done, poll.answered = none
    · obtain ⟨-, -, hasked⟩ := hdone hmissed
      rw [hasked, hlength]
      exact Or.inr ⟨hdistinct, rotation_perm addrs _⟩
    · push Not at hmissed
      obtain ⟨poll, hpoll, hanswered⟩ := hmissed
      exact Or.inl ⟨poll, hpoll, isSome_iff_ne_none.mpr hanswered⟩
  · have hnone : addrs = [] := length_eq_zero_iff.mp (by omega)
    have hdone : done = [] := length_eq_zero_iff.mp (by omega)
    rw [hnone, hdone]
    exact Or.inr ⟨nodup_nil, List.Perm.refl _⟩

/-- The count of a poll that is over decides whether the host is offline. -/
theorem Orderly.offline_iff (hanswered : m.Answered uuid e)
    {poll : CompletedPoll}
    (hlog : (m.handle parse e).completedOf uuid = m.completedOf uuid ++ [poll]) :
    ∃ h h', m.hosts.get uuid = some h ∧ (m.handle parse e).hosts.get uuid = some h' ∧
      (3 ≤ misses ((m.handle parse e).completedOf uuid) → h'.state = .CS_OFFLINE) ∧
      (h'.state = .CS_OFFLINE → h.state ≠ .CS_OFFLINE →
        3 ≤ misses ((m.handle parse e).completedOf uuid)) := by
  obtain ⟨h, address, reply, arp, hget, hpending, htold, rfl, hwatch⟩ :=
    (watchStep_handle parse hm.keyed hm.one hanswered).1.finished_of_completed hlog
  have hget' : (m.handle parse e).hosts.get uuid = some (h.polled reply arp).1 :=
    congrArg Watch.host hwatch
  have hcounted : h.consecutivePollFailures = min 3 (misses (m.completedOf uuid)) :=
    hm.counted h hget
  have hcounted' : (h.polled reply arp).1.consecutivePollFailures =
      min 3 (misses ((m.handle parse e).completedOf uuid)) :=
    (hm.step hanswered).counted _ hget'
  refine ⟨h, _, hget, hget', ?_⟩
  rw [hlog] at hcounted' ⊢
  cases hby : answeredBy h reply with
  | none =>
    obtain ⟨-, hoffline⟩ := polled_missed arp htold hby (by omega)
    constructor
    · intro hthree
      rw [hby] at hcounted'
      exact hoffline.mpr (Or.inl (by omega))
    · intro hoff honline
      have hthree := (hoffline.mp hoff).resolve_right honline
      rw [hby] at hcounted'
      omega
  | some url =>
    obtain ⟨-, hstate, -⟩ := polled_answered parse arp hby
    rw [misses_snoc_some]
    constructor
    · intro hthree
      omega
    · intro hoff
      rw [hstate] at hoff
      cases hoff

theorem Orderly.neverSooner (hanswered : m.Answered uuid e)
    {h h' : NvComputer} (hget : m.hosts.get uuid = some h) (honline : h.state ≠ .CS_OFFLINE)
    (hget' : (m.handle parse e).hosts.get uuid = some h') (hoffline : h'.state = .CS_OFFLINE) :
    (∃ poll, (m.handle parse e).completedOf uuid = m.completedOf uuid ++ [poll]) ∧
      3 ≤ misses ((m.handle parse e).completedOf uuid) := by
  have hover : ∃ poll, (m.handle parse e).completedOf uuid = m.completedOf uuid ++ [poll] := by
    have hstep := (watchStep_handle parse hm.keyed hm.one hanswered).1
    have hhost : (m.watch uuid).host = some h := hget
    have hhost' : ((m.handle parse e).watch uuid).host = some h' := hget'
    have hlog : ((m.handle parse e).watch uuid).completed = (m.handle parse e).completedOf uuid :=
      rfl
    rw [← hlog]
    generalize (m.handle parse e).watch uuid = w' at hstep hhost'
    cases hstep with
    | still =>
      rw [hhost] at hhost'
      obtain rfl := Option.some.inj hhost'
      exact absurd hoffline honline
    | changed hh hkept =>
      rw [hhost] at hh
      obtain rfl := Option.some.inj hh
      obtain rfl := Option.some.inj hhost'
      exact absurd (hkept.offline hoffline) honline
    | gone index => cases hhost'
    | came hnone hnew =>
      rw [hhost] at hnone
      cases hnone
    | sent hh hpending =>
      rw [hhost] at hhost'
      obtain rfl := Option.some.inj hhost'
      exact absurd hoffline honline
    | finished arp hh hpending htold => exact ⟨_, rfl⟩
    | lost hnone =>
      rw [hhost] at hnone
      cases hnone
  obtain ⟨poll, hlog⟩ := hover
  obtain ⟨first, last, hfirst, hlast, -, hthree⟩ := hm.offline_iff hanswered hlog
  rw [hget] at hfirst
  rw [hget'] at hlast
  obtain rfl := Option.some.inj hfirst
  obtain rfl := Option.some.inj hlast
  exact ⟨⟨poll, hlog⟩, hthree hoffline honline⟩

theorem Orderly.backToTheAnswer (hanswered : m.Answered uuid e)
    {poll : CompletedPoll} {url : NvAddress} {m'' : ComputerManager}
    (hlog : (m.handle parse e).completedOf uuid = m.completedOf uuid ++ [poll])
    (hurl : poll.answered = some url)
    (hrun : Run (guarded (Answered uuid) (handles (handle parse))) (m.handle parse e) window m'')
    (hsteady : AllAlong (guarded (Answered uuid) (handles (handle parse)))
      (HasCandidates parse uuid addrs) (m.handle parse e) window)
    (hquiet : m''.completedOf uuid = (m.handle parse e).completedOf uuid) :
    (∀ h, m''.hosts.get uuid = some h → m''.pollAddressFor parse h = url) ∧
      ∀ address ∈ m''.pendingOf uuid, address = url := by
  obtain ⟨h, address, reply, arp, hget, hpending, htold, rfl, hwatch⟩ :=
    (watchStep_handle parse hm.keyed hm.one hanswered).1.finished_of_completed hlog
  have hby : answeredBy h reply = some url := hurl
  have hindex : ((m.handle parse e).watch uuid).index = 0 := by
    rw [hwatch]
    exact nextIndex_answered _ hby
  have hnone : (m.handle parse e).InStep parse uuid := by
    have hno : (m.handle parse e).pendingOf uuid = [] := congrArg Watch.pending hwatch
    intro host hhost address haddress
    rw [hno] at haddress
    cases haddress
  have hget' : (m.handle parse e).hosts.get uuid = some (h.polled reply arp).1 :=
    congrArg Watch.host hwatch
  -- the answer leads the candidates, and they stay the same
  have hlead : addrs.head? = some url := by
    obtain ⟨host, hhost, haddrs⟩ := hsteady [] window _ rfl Run.nil
    rw [hget'] at hhost
    obtain rfl := Option.some.inj hhost
    rw [← haddrs]
    exact (polled_answered parse arp hby).2.2
  have hpositive : 0 < addrs.length := by
    cases addrs with
    | nil => cases hlead
    | cons first others => exact Nat.succ_pos _
  have hfirst : addrs.getD 0 {} = url := by
    cases addrs with
    | nil => cases hlead
    | cons first others => exact Option.some.inj hlead
  obtain ⟨hm'', done, hgrown, hdone⟩ :=
    rotating_window hpositive (hm.step hanswered) hnone hrun hsteady
  have hsame : (m.handle parse e).completedOf uuid ++ done =
      (m.handle parse e).completedOf uuid := hgrown.symm.trans hquiet
  have hempty : done = [] := append_right_eq_self.mp hsame
  subst hempty
  obtain ⟨hstay, hasking, -⟩ := hdone (by simp)
  rw [hindex] at hstay hasking
  constructor
  · intro host hhost
    obtain ⟨host', hhost', haddrs⟩ := hsteady.last hrun
    rw [hhost] at hhost'
    obtain rfl := Option.some.inj hhost'
    rw [pollAddressFor, (hm''.keyed uuid host hhost).1, addressAt, haddrs]
    have hzero : ((m''.pollAddrIndex.get uuid).getD 0) % addrs.length = 0 :=
      hstay.trans (Nat.zero_mod _)
    rw [hzero, hfirst]
  · intro address haddress
    rcases hasking with hno | hone
    · have hno : m''.pendingOf uuid = [] := hno
      rw [hno] at haddress
      cases haddress
    · have hone : m''.pendingOf uuid =
          [addrs.getD ((0 + ([] : List CompletedPoll).length) % addrs.length) {}] := hone
      rw [hone, mem_singleton] at haddress
      rw [haddress, length_nil, Nat.add_zero, Nat.zero_mod, hfirst]

omit hm

/-- Polling finds a host again in every run in which no other host answers its polls and none
of them is given up while under way. -/
theorem polling_finds_again (uuid : QString) (m₀ : ComputerManager) (readable : Bool)
    (probe : NativeProbe) (labels : List Event) (m : ComputerManager)
    (hrun : Run (guarded (Answered uuid) (handles (handle parse))) (m₀.start readable probe)
      labels m) :
    FindsAgain parse (guarded (Answered uuid) (handles (handle parse))) uuid m := by
  have hm : m.Orderly uuid := by
    refine hrun.invariant (I := Orderly uuid) ?_ (orderly_start m₀ readable probe uuid)
    rintro s e t hs ⟨hanswered, rfl⟩
    exact hs.step hanswered
  constructor
  · intro window m' addrs done hwindow hsteady hpending hlog hlength
    exact hm.everyCandidate hwindow hsteady hpending hlog hlength
  · rintro e m' poll ⟨hanswered, rfl⟩ hlog hthree
    obtain ⟨h, h', -, hget', hoffline, -⟩ := hm.offline_iff hanswered hlog
    exact ⟨h', hget', hoffline hthree⟩
  · rintro e m' h h' ⟨hanswered, rfl⟩ hget honline hget' hoffline
    exact hm.neverSooner hanswered hget honline hget' hoffline
  · rintro e m' poll url window m'' addrs ⟨hanswered, rfl⟩ hlog hurl hwindow hsteady hquiet
    exact hm.backToTheAnswer hanswered hlog hurl hwindow hsteady hquiet

def answerOf (uuid : QString) : ServerInfo where
  getXmlString tag := if tag = qs "uniqueid" then uuid else []

def lanAddress : NvAddress := ⟨qs "192.168.1.20", 47989⟩

/-- A machine with no engine of its own. -/
def noEngine : NativeProbe where
  enabled := false
  available := false
  noDisplay := false
  capturePermission := false
  hostDisplayName := []
  codecModeSupport := 0

/-- A poll of the host that another host answers. -/
def foreignPoll (now : Nat) : List Event :=
  [.pollTick false now,
    .pollReplyFinished ⟨qs "A", lanAddress⟩ (.answered lanAddress rfl (answerOf (qs "B"))) []]

/-- The host is found, and three polls are answered by the host its address went on to. -/
def movedLease : List Event :=
  [.discovered (answerOf (qs "A")) lanAddress] ++ foreignPoll 0 ++ foreignPoll 10000 ++
    [.pollTick false 20000]

def afterMove : ComputerManager :=
  movedLease.foldl (handle fun _ => none) (({} : ComputerManager).start true noEngine)

def thirdForeign : Event :=
  .pollReplyFinished ⟨qs "A", lanAddress⟩ (.answered lanAddress rfl (answerOf (qs "B"))) []

/-- Three polls in a row are not answered by the host itself, and it is shown online. -/
theorem foreign_answers_stay_online :
    Run (handles (handle fun _ => none)) (({} : ComputerManager).start true noEngine) movedLease
      afterMove ∧
      ¬ FindsAgain (fun _ => none) (handles (handle fun _ => none)) (qs "A") afterMove := by
  refine ⟨(run_handles_iff _ _ _ _).mpr rfl, fun h => ?_⟩
  obtain ⟨host, hget, hoffline⟩ := h.offlineAfterThree thirdForeign _ ⟨lanAddress, none⟩ rfl
    (by decide) (by decide)
  have honline : ((afterMove.handle (fun _ => none) thirdForeign).hosts.get (qs "A")).map
      state = some .CS_ONLINE := by decide
  rw [hget, Option.map_some, hoffline] at honline
  exact absurd honline (by decide)

theorem polling_finds_again_discovered :
    FindsAgain (fun _ => none) (guarded (Answered (qs "A")) (handles (handle fun _ => none)))
      (qs "A") ((({} : ComputerManager).start true noEngine).handle (fun _ => none)
        (.discovered (answerOf (qs "A")) lanAddress)) :=
  polling_finds_again (qs "A") {} true noEngine
    [.discovered (answerOf (qs "A")) lanAddress] _ (Run.single ⟨trivial, rfl⟩)

end ComputerManager

end MoonlightWeb.Backend
