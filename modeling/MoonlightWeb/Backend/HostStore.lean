import MoonlightWeb.Backend.ComputerManager

/-! # The stored list of hosts

What a save writes is what a load gives back. The guard against writing an empty list looks
at all the hosts in memory, the native one among them, which is never written: a save with
no other host in memory empties the list.
-/

namespace MoonlightWeb.Backend.ComputerManager

open Js Lib Qt QString Streaming.LocalCandidates NvComputer JsMap List

def loaded (store : List StoredHost) : QHash QString NvComputer :=
  ({ store := store } : ComputerManager).loadHosts.hosts

/-- A load gives back every host that is not native, as far as hosts are persisted, and no
other. -/
def Restores (store : List StoredHost) (hosts : QHash QString NvComputer) : Prop :=
  ∀ uuid, (loaded store).get uuid =
    ((hosts.get uuid).filter fun h => !h.isNativeEngine).map persisted

variable (m : ComputerManager)

/-- What the last save wrote gives back the hosts that were in memory. -/
def Faithful : Prop := ∀ hosts, m.saved = some hosts → Restores m.store hosts

variable {h : NvComputer}

theorem get_loadHost_serialize (hosts : QHash QString NvComputer)
    (hnonempty : h.uuid ≠ []) (uuid : QString) :
    (loadHost hosts (h.serialize fun _ => none)).get uuid =
      if h.uuid = uuid then some h.persisted else hosts.get uuid := by
  have huuid : h.persisted.uuid = h.uuid := rfl
  simp only [loadHost, ofSettings_serialize, huuid]
  rw [if_neg fun hempty => hnonempty (isEmpty_iff.mp hempty)]
  split_ifs with hsame
  · rw [hsame, get_set_self]
  · exact get_set_of_ne _ _ fun h => hsame h.symm

theorem get_foldl_loadHost (hs : List NvComputer) (hosts : QHash QString NvComputer)
    (hnodup : (hs.map uuid).Nodup) (hnonempty : ∀ h ∈ hs, h.uuid ≠ []) (uuid : QString) :
    ((hs.map fun h => h.serialize fun _ => none).foldl loadHost hosts).get uuid =
      ((hs.find? fun h => h.uuid = uuid).map persisted).or (hosts.get uuid) := by
  induction hs generalizing hosts with
  | nil => rfl
  | cons h hs ih =>
    rw [map_cons, nodup_cons] at hnodup
    rw [map_cons, foldl_cons, ih _ hnodup.2 fun h' hh' =>
      hnonempty h' (mem_cons_of_mem _ hh'),
      get_loadHost_serialize _ (hnonempty h mem_cons_self), List.find?_cons]
    by_cases hsame : h.uuid = uuid
    · have hlater : hs.find? (fun h' => h'.uuid = uuid) = none := by
        rw [List.find?_eq_none]
        intro h' hh' heq
        apply hnodup.1
        rw [hsame, ← of_decide_eq_true heq]
        exact mem_map_of_mem hh'
      simp [hsame, hlater]
    · simp [hsame]

variable {hosts : QHash QString NvComputer}

theorem find_written (hkeyed : KeyedHosts hosts) (uuid : QString) :
    (hosts.values.filter fun h => !h.isNativeEngine).find? (fun h => h.uuid = uuid) =
      (hosts.get uuid).filter fun h => !h.isNativeEngine := by
  have hunder : ∀ h ∈ hosts.values, h.uuid = uuid → hosts.get uuid = some h := by
    intro h hh huuid
    obtain ⟨key, hget⟩ := (hosts.mem_values_iff h).mp hh
    rw [← huuid, (hkeyed key h hget).1]
    exact hget
  cases hfind : (hosts.values.filter fun h => !h.isNativeEngine).find?
      (fun h => h.uuid = uuid) with
  | some h =>
    have hmem := mem_filter.mp (mem_of_find?_eq_some hfind)
    have huuid : h.uuid = uuid := by simpa using List.find?_some hfind
    rw [hunder h hmem.1 huuid]
    exact (Option.filter_some_pos (p := fun h : NvComputer => !h.isNativeEngine) hmem.2).symm
  | none =>
    cases hget : hosts.get uuid with
    | none => rfl
    | some h =>
      cases hnative : h.isNativeEngine with
      | true =>
        rw [Option.filter_some_neg]
        rw [hnative]
        decide
      | false =>
        have hvalue : h ∈ hosts.values := (hosts.mem_values_iff h).mpr ⟨uuid, hget⟩
        have hmem : h ∈ hosts.values.filter fun h => !h.isNativeEngine :=
          mem_filter.mpr ⟨hvalue, by rw [hnative]; rfl⟩
        exact absurd (decide_eq_true (hkeyed uuid h hget).1)
          (List.find?_eq_none.mp hfind h hmem)

theorem restores_written (hkeyed : KeyedHosts hosts) :
    Restores (written hosts) hosts := by
  intro uuid
  have hvalues := hosts.nodup_values_key NvComputer.uuid fun key h hget => (hkeyed key h hget).1
  have hnodup : ((hosts.values.filter fun h => !h.isNativeEngine).map NvComputer.uuid).Nodup :=
    hvalues.sublist (filter_sublist.map NvComputer.uuid)
  have hnonempty : ∀ h ∈ hosts.values.filter fun h => !h.isNativeEngine, h.uuid ≠ [] := by
    intro h hh
    obtain ⟨key, hget⟩ := (hosts.mem_values_iff h).mp (mem_filter.mp hh).1
    rw [(hkeyed key h hget).1]
    exact (hkeyed key h hget).2
  have hfold : loaded (written hosts) =
      (((hosts.values.filter fun h => !h.isNativeEngine).map fun h =>
        h.serialize fun _ => none).foldl loadHost empty) := rfl
  rw [hfold, get_foldl_loadHost _ _ hnodup hnonempty, find_written hkeyed, get_empty,
    Option.or_none]

def Unwritten (m m' : ComputerManager) : Prop := m'.store = m.store ∧ m'.saved = m.saved

def Wrote : Prop := m.store = written m.hosts ∧ m.saved = some m.hosts

theorem saveHosts_wrote {m : ComputerManager} {allowEmpty : Bool}
    (h : m.hosts.entries ≠ [] ∨ allowEmpty = true) : (m.saveHosts allowEmpty).Wrote := by
  have hguard : ¬ (m.hosts.entries = [] ∧ !allowEmpty ∧ 0 < m.readArray.length) := by
    rintro ⟨hempty, hallow, -⟩
    rcases h with hhost | hallowed
    · exact hhost hempty
    · rw [hallowed] at hallow
      exact absurd hallow (by decide)
  rw [saveHosts, if_neg hguard]
  exact ⟨rfl, rfl⟩

variable {uuid : QString}

theorem entries_ne_nil (hget : hosts.get uuid = some h) : hosts.entries ≠ [] := by
  intro hempty
  have hmem := (hosts.mem_entries_iff uuid h).mpr hget
  rw [hempty] at hmem
  cases hmem

section

variable {m : ComputerManager} {uuid : QString} {h : NvComputer}
  {change : NvComputer → NvComputer × Bool}

theorem edit_of_none (hget : m.hosts.get uuid = none) : m.edit uuid change = m := by
  rw [edit, hget]

theorem edit_wrote (hget : m.hosts.get uuid = some h) (hsaves : (change h).2 = true) :
    (m.edit uuid change).Wrote := by
  simp only [edit, hget, if_pos hsaves]
  exact saveHosts_wrote (Or.inl (entries_ne_nil (get_set_self _ _ _)))

theorem edit_unwritten (hget : m.hosts.get uuid = some h) (hsaves : (change h).2 = false) :
    Unwritten m (m.edit uuid change) := by
  simp only [edit, hget, hsaves]
  exact ⟨rfl, rfl⟩

end

/-- The step saves: the handler finds a host and changes what is stored of it, or a host comes
or goes. -/
def Saves : Event → Prop
  | .pollReplyFinished poll reply arp =>
      poll ∈ m.pendingPolls ∧ ∃ h, m.hosts.get poll.uuid = some h ∧ (h.polled reply arp).2 = true
  | .discovered info addr =>
      let newHost := ofServerInfo info addr
      newHost.uuid ≠ [] ∧ ∀ h, m.hosts.get newHost.uuid = some h → (h.update newHost).2 = true
  | .addManualHost info nvAddr =>
      let newHost := ofServerInfo info nvAddr
      newHost.uuid ≠ [] ∧ ∀ h, m.hosts.get newHost.uuid = some h →
        (h.update newHost).2 = true ∨ (h.update newHost).1.manualAddress ≠ nvAddr
  | .deleteHost uuid => m.hosts.get uuid ≠ none
  | .changed uuid change => ∃ h, m.hosts.get uuid = some h ∧ (change.apply h).2 = true
  | .pollTick _ _ | .backupPollTick _ _ | .nativeProbed _ => False

variable {parse : QString → Option HostAddress} {m : ComputerManager}

variable (info : ServerInfo)

theorem addOrUpdateHost_store (addr : NvAddress) :
    ((m.Saves (.discovered info addr)) → (m.addOrUpdateHost info addr).Wrote) ∧
      (¬ m.Saves (.discovered info addr) → Unwritten m (m.addOrUpdateHost info addr)) := by
  simp only [addOrUpdateHost, Saves]
  split_ifs with hempty
  · have hnil := isEmpty_iff.mp hempty
    exact ⟨fun h => absurd hnil h.1, fun _ => ⟨rfl, rfl⟩⟩
  · have hnonempty : (ofServerInfo info addr).uuid ≠ [] :=
      fun h => hempty (isEmpty_iff.mpr h)
    cases hget : m.hosts.get (ofServerInfo info addr).uuid with
    | some existing =>
      constructor
      · intro h
        exact edit_wrote hget (h.2 existing rfl)
      · intro h
        apply edit_unwritten hget
        by_contra hsaves
        refine h ⟨hnonempty, fun host hhost => ?_⟩
        obtain rfl := Option.some.inj hhost
        exact Bool.eq_true_of_not_eq_false hsaves
    | none =>
      constructor
      · intro _
        exact saveHosts_wrote (Or.inl (entries_ne_nil (get_set_self _ _ _)))
      · intro h
        exact absurd ⟨hnonempty, fun host hhost => by cases hhost⟩ h

theorem addOrUpdateHost_get (addr : NvAddress)
    (hnonempty : (ofServerInfo info addr).uuid ≠ []) :
    (m.addOrUpdateHost info addr).hosts.get (ofServerInfo info addr).uuid =
      some (match m.hosts.get (ofServerInfo info addr).uuid with
        | some existing => (existing.update (ofServerInfo info addr)).1
        | none => ofServerInfo info addr) := by
  simp only [addOrUpdateHost]
  rw [if_neg fun h => hnonempty (isEmpty_iff.mp h)]
  cases hget : m.hosts.get (ofServerInfo info addr).uuid with
  | some existing =>
    dsimp only
    rw [edit_hosts, get_modify_self, hget, Option.map_some]
  | none =>
    dsimp only
    rw [saveHosts_hosts]
    exact get_set_self _ _ _

/-- A second change that finds nothing to do keeps what the first one wrote. -/
theorem Wrote.edit_same {change : NvComputer → NvComputer × Bool} (hwrote : m.Wrote)
    (hget : m.hosts.get uuid = some h) (hchange : change h = (h, false)) :
    (m.edit uuid change).Wrote := by
  simp only [edit, hget, hchange]
  rw [set_of_get hget]
  exact hwrote

theorem handleAddManualHost_store (hkeyed : KeyedHosts m.hosts) (info : ServerInfo)
    (nvAddr : NvAddress) :
    (m.Saves (.addManualHost info nvAddr) → (m.handleAddManualHost info nvAddr).Wrote) ∧
      (¬ m.Saves (.addManualHost info nvAddr) →
        Unwritten m (m.handleAddManualHost info nvAddr)) := by
  have hfirst := m.addOrUpdateHost_store info nvAddr
  unfold handleAddManualHost
  by_cases hempty : (ofServerInfo info nvAddr).uuid = []
  · have hsame : m.addOrUpdateHost info nvAddr = m := by
      simp only [addOrUpdateHost]
      rw [if_pos (isEmpty_iff.mpr hempty)]
    have hnone : m.hosts.get (ofServerInfo info nvAddr).uuid = none := by
      rw [hempty]
      by_contra hsome
      obtain ⟨h, hget⟩ := Option.ne_none_iff_exists'.mp hsome
      exact (hkeyed [] h hget).2 rfl
    rw [hsame, edit_of_none hnone]
    exact ⟨fun h => absurd hempty h.1, fun _ => ⟨rfl, rfl⟩⟩
  · have hget := m.addOrUpdateHost_get info nvAddr hempty
    generalize hfound : (match m.hosts.get (ofServerInfo info nvAddr).uuid with
      | some existing => (existing.update (ofServerInfo info nvAddr)).1
      | none => ofServerInfo info nvAddr) = host at hget
    by_cases haddress : host.manualAddress = nvAddr
    · -- the second change finds nothing to do: the step saves when the first one did
      have hchange : host.typedIn nvAddr = (host, false) := if_neg fun h => h haddress
      have hsaves : m.Saves (.addManualHost info nvAddr) → m.Saves (.discovered info nvAddr) := by
        rintro ⟨_, hall⟩
        refine ⟨hempty, fun existing hexisting => ?_⟩
        rw [hexisting] at hfound
        have hmanual : (existing.update (ofServerInfo info nvAddr)).1.manualAddress =
            nvAddr := by
          have heq : (existing.update (ofServerInfo info nvAddr)).1 = host := hfound
          rw [heq]
          exact haddress
        exact (hall existing hexisting).resolve_right fun h => h hmanual
      have hback : m.Saves (.discovered info nvAddr) → m.Saves (.addManualHost info nvAddr) :=
        fun h => ⟨h.1, fun existing hexisting => Or.inl (h.2 existing hexisting)⟩
      constructor
      · intro h
        exact (hfirst.1 (hsaves h)).edit_same hget hchange
      · intro h
        have hunwritten := hfirst.2 fun hdiscovered => h (hback hdiscovered)
        have hsnd : (host.typedIn nvAddr).2 = false := congrArg Prod.snd hchange
        have hsecond : Unwritten (m.addOrUpdateHost info nvAddr)
            ((m.addOrUpdateHost info nvAddr).edit (ofServerInfo info nvAddr).uuid
              fun host => host.typedIn nvAddr) := edit_unwritten hget hsnd
        exact ⟨hsecond.1.trans hunwritten.1, hsecond.2.trans hunwritten.2⟩
    · have hchange : host.typedIn nvAddr = ({ host with manualAddress := nvAddr }, true) :=
        if_pos haddress
      have hsaves : m.Saves (.addManualHost info nvAddr) := by
        refine ⟨hempty, fun existing hexisting => Or.inr ?_⟩
        rw [hexisting] at hfound
        have heq : (existing.update (ofServerInfo info nvAddr)).1 = host := hfound
        rw [heq]
        exact haddress
      exact ⟨fun _ => edit_wrote hget (congrArg Prod.snd hchange), fun h => absurd hsaves h⟩

theorem foldl_startPoll_store (now : Nat) (entries : List (QString × NvComputer))
    (m : ComputerManager) : Unwritten m (entries.foldl (startPoll parse now) m) := by
  induction entries generalizing m with
  | nil => exact ⟨rfl, rfl⟩
  | cons entry entries ih =>
    have hfirst : Unwritten m (startPoll parse now m entry) := by
      simp only [startPoll]
      split_ifs <;> exact ⟨rfl, rfl⟩
    have hrest := ih (startPoll parse now m entry)
    rw [foldl_cons]
    exact ⟨hrest.1.trans hfirst.1, hrest.2.trans hfirst.2⟩

theorem refreshNativeHost_store (m : ComputerManager) (probe : NativeProbe) :
    Unwritten m (m.refreshNativeHost probe) := by
  unfold refreshNativeHost
  cases m.hosts.get nativeUuid with
  | some existing =>
    dsimp only
    split_ifs <;> exact ⟨rfl, rfl⟩
  | none =>
    dsimp only
    split_ifs <;> exact ⟨rfl, rfl⟩

variable (parse) in
theorem handle_store (hkeyed : KeyedHosts m.hosts) (e : Event) :
    (m.Saves e → (m.handle parse e).Wrote) ∧ (¬ m.Saves e → Unwritten m (m.handle parse e)) := by
  cases e with
  | pollTick streamActive now =>
    refine ⟨fun h => h.elim, fun _ => ?_⟩
    simp only [handle, onPollTick]
    split_ifs
    · exact ⟨rfl, rfl⟩
    · exact foldl_startPoll_store now _ (m.cleanStalled now)
  | backupPollTick streamActive now =>
    refine ⟨fun h => h.elim, fun _ => ?_⟩
    simp only [handle, onBackupPollTick]
    split_ifs
    · exact ⟨rfl, rfl⟩
    · exact foldl_startPoll_store now _ m
  | pollReplyFinished poll reply arp =>
    simp only [handle, onPollReplyFinished, Saves]
    split_ifs with hpoll
    · cases hget : m.hosts.get poll.uuid with
      | none =>
        refine ⟨?_, fun _ => ⟨rfl, rfl⟩⟩
        rintro ⟨_, h, hh, _⟩
        cases hh
      | some h =>
        constructor
        · rintro ⟨_, host, hhost, hsaves⟩
          obtain rfl := Option.some.inj hhost
          exact edit_wrote hget hsaves
        · intro hnot
          have hsaves : (h.polled reply arp).2 = false := by
            by_contra htrue
            exact hnot ⟨hpoll, h, rfl, Bool.eq_true_of_not_eq_false htrue⟩
          dsimp only
          exact edit_unwritten (m := { m with
            pendingPolls := m.pendingPolls.erase poll
            pollingHosts := m.pollingHosts.erase poll.uuid
            pollStartedAt := m.pollStartedAt.delete poll.uuid
            pollAddrIndex := indexAfter parse m.pollAddrIndex poll.uuid h reply
            completed := m.completed.set poll.uuid ((m.completed.get poll.uuid).getD [] ++
              [⟨poll.address, answeredBy h reply⟩]) }) hget hsaves
    · exact ⟨fun h => absurd h.1 hpoll, fun _ => ⟨rfl, rfl⟩⟩
  | discovered info addr => exact addOrUpdateHost_store info addr
  | addManualHost info nvAddr => exact handleAddManualHost_store hkeyed info nvAddr
  | deleteHost uuid =>
    simp only [handle, handleDeleteHost, Saves]
    cases m.hosts.get uuid with
    | none => exact ⟨fun h => absurd rfl h, fun _ => ⟨rfl, rfl⟩⟩
    | some h => exact ⟨fun _ => saveHosts_wrote (Or.inr rfl), fun h => absurd (by simp) h⟩
  | nativeProbed probe => exact ⟨fun h => h.elim, fun _ => m.refreshNativeHost_store probe⟩
  | changed uuid change =>
    simp only [handle, Saves]
    cases hget : m.hosts.get uuid with
    | none =>
      rw [edit_of_none hget]
      refine ⟨?_, fun _ => ⟨rfl, rfl⟩⟩
      rintro ⟨h, hh, _⟩
      cases hh
    | some h =>
      constructor
      · rintro ⟨host, hhost, hsaves⟩
        obtain rfl := Option.some.inj hhost
        exact edit_wrote hget hsaves
      · intro hnot
        apply edit_unwritten hget
        by_contra hsaves
        exact hnot ⟨h, rfl, Bool.eq_true_of_not_eq_false hsaves⟩

/-- A host that is not native is in memory, at another uuid than `apart` if one is given. -/
def Listed (hosts : QHash QString NvComputer) (apart : Option QString) : Prop :=
  ∃ uuid h, hosts.get uuid = some h ∧ h.isNativeEngine = false ∧ apart ≠ some uuid

/-- The change leaves the host one that is not native. -/
def LeavesListed (h : NvComputer) : Change → Prop
  | .setBackend type _ _ _ _ => type ≠ qs "native"
  | .clearBackend => True
  | _ => h.isNativeEngine = false

/-- A host that is not native is in memory, and the step neither deletes it nor hands it to the
native engine; or the step brings one. -/
def KeepsOne (m : ComputerManager) : Event → Prop
  | .discovered info addr | .addManualHost info addr =>
      Listed m.hosts none ∨ m.hosts.get (ofServerInfo info addr).uuid = none
  | .deleteHost uuid => Listed m.hosts (some uuid)
  | .changed uuid change =>
      Listed m.hosts (some uuid) ∨ ∃ h, m.hosts.get uuid = some h ∧ LeavesListed h change
  | _ => Listed m.hosts none

/-- The step deletes the only host the list has. -/
def DeletesLast (m : ComputerManager) (e : Event) : Prop :=
  ∃ uuid, e = .deleteHost uuid ∧ m.hosts.get uuid ≠ none ∧
    ∀ s ∈ m.store, (ofSettings s).uuid = uuid

theorem written_eq_nil_iff (hosts : QHash QString NvComputer) :
    written hosts = [] ↔ ¬ Listed hosts none := by
  rw [written, map_eq_nil_iff, filter_eq_nil_iff]
  constructor
  · rintro hall ⟨uuid, h, hget, hnative, -⟩
    exact hall h ((hosts.mem_values_iff h).mpr ⟨uuid, hget⟩) (by rw [hnative]; rfl)
  · intro hnone h hh hlisted
    obtain ⟨uuid, hget⟩ := (hosts.mem_values_iff h).mp hh
    exact hnone ⟨uuid, h, hget, by simpa using hlisted, by simp⟩

theorem listed_modify (change : NvComputer → NvComputer) (hget : hosts.get uuid = some h) :
    Listed (hosts.modify uuid change) none ↔
      Listed hosts (some uuid) ∨ (change h).isNativeEngine = false := by
  constructor
  · rintro ⟨other, h', hget', hnative, -⟩
    rw [get_modify] at hget'
    split_ifs at hget' with hsame
    · rw [hsame, hget, Option.map_some, Option.some.injEq] at hget'
      exact Or.inr (hget' ▸ hnative)
    · exact Or.inl ⟨other, h', hget', hnative, fun heq => hsame (Option.some.inj heq).symm⟩
  · rintro (⟨other, h', hget', hnative, hother⟩ | hnative)
    · refine ⟨other, h', ?_, hnative, by simp⟩
      rw [get_modify_of_ne _ _ fun heq => hother (by rw [heq])]
      exact hget'
    · exact ⟨uuid, change h, by rw [get_modify_self, hget]; rfl, hnative, by simp⟩

theorem listed_modify_same {change : NvComputer → NvComputer} (hget : hosts.get uuid = some h)
    (hchange : (change h).isNativeEngine = h.isNativeEngine) :
    Listed (hosts.modify uuid change) none ↔ Listed hosts none := by
  rw [listed_modify change hget, hchange]
  constructor
  · rintro (⟨other, h', hget', hnative, -⟩ | hnative)
    · exact ⟨other, h', hget', hnative, by simp⟩
    · exact ⟨uuid, h, hget, hnative, by simp⟩
  · rintro ⟨other, h', hget', hnative, -⟩
    by_cases hsame : other = uuid
    · subst hsame
      rw [hget] at hget'
      exact Or.inr (Option.some.inj hget' ▸ hnative)
    · exact Or.inl ⟨other, h', hget', hnative, fun heq => hsame (Option.some.inj heq).symm⟩

theorem update_native (h that : NvComputer) :
    (h.update that).1.isNativeEngine = h.isNativeEngine := by
  unfold update
  split_ifs <;> rfl

theorem polled_native (h : NvComputer) (reply : Reply) (arp : QByteArray) :
    (h.polled reply arp).1.isNativeEngine = h.isNativeEngine := by
  have hfailure : ∀ h : NvComputer, h.registerFailure.1.isNativeEngine = h.isNativeEngine := by
    intro h
    unfold registerFailure
    split_ifs <;> rfl
  cases reply with
  | failed refused => exact hfailure { h with reachable := refused }
  | rejected => exact hfailure { h with reachable := true }
  | answered url host info =>
    simp only [polled]
    split_ifs
    · exact update_native _ _
    · exact update_native _ _
    · rfl

theorem apply_native {change : Change} (hsaves : (change.apply h).2 = true) :
    (change.apply h).1.isNativeEngine = false ↔ LeavesListed h change := by
  cases change with
  | setBackend type apiUrl apiToken pairUser pairPassword =>
    by_cases htype : type ∈ knownTypes
    · simp only [Change.apply, if_pos htype]
      exact decide_eq_false_iff_not
    · rw [Change.apply, if_neg htype] at hsaves
      cases hsaves
  | clearBackend =>
    simp only [LeavesListed, iff_true]
    rfl
  | multiSeatFound => cases hsaves
  | paired serverCertPem => rfl
  | pairLost =>
    simp only [Change.apply]
    split_ifs <;> rfl
  | renamed name =>
    simp only [Change.apply]
    split_ifs <;> rfl

theorem ofServerInfo_native (addr : NvAddress) :
    (ofServerInfo info addr).isNativeEngine = false := by
  have htype : (ofServerInfo info addr).backendType = [] := rfl
  rw [isNativeEngine, htype]
  rfl

theorem listed_addOrUpdateHost (addr : NvAddress)
    (hnonempty : (ofServerInfo info addr).uuid ≠ []) :
    Listed (m.addOrUpdateHost info addr).hosts none ↔ m.KeepsOne (.discovered info addr) := by
  simp only [addOrUpdateHost, KeepsOne]
  rw [if_neg fun h => hnonempty (isEmpty_iff.mp h)]
  cases hget : m.hosts.get (ofServerInfo info addr).uuid with
  | some existing =>
    dsimp only
    rw [edit_hosts, listed_modify_same hget (update_native _ _)]
    simp
  | none =>
    dsimp only
    rw [saveHosts_hosts]
    refine ⟨fun _ => Or.inr rfl, fun _ => ?_⟩
    exact ⟨_, _, get_set_self _ _ _, ofServerInfo_native info addr, by simp⟩

theorem listed_handle {e : Event} (hsaves : m.Saves e) :
    Listed (m.handle parse e).hosts none ↔ m.KeepsOne e := by
  cases e with
  | pollTick streamActive now => exact hsaves.elim
  | backupPollTick streamActive now => exact hsaves.elim
  | nativeProbed probe => exact hsaves.elim
  | pollReplyFinished poll reply arp =>
    obtain ⟨hpoll, h, hget, -⟩ := hsaves
    simp only [handle, onPollReplyFinished, if_pos hpoll, hget, edit_hosts]
    exact listed_modify_same hget (polled_native h reply arp)
  | discovered info addr => exact listed_addOrUpdateHost info addr hsaves.1
  | addManualHost info nvAddr =>
    have hget := m.addOrUpdateHost_get info nvAddr hsaves.1
    simp only [handle, handleAddManualHost]
    rw [edit_hosts, listed_modify_same hget, listed_addOrUpdateHost info nvAddr hsaves.1]
    · rfl
    · unfold typedIn
      split_ifs <;> rfl
  | deleteHost uuid =>
    obtain ⟨h, hget⟩ := Option.ne_none_iff_exists'.mp hsaves
    simp only [handle, handleDeleteHost, hget, saveHosts_hosts, removeHost, KeepsOne]
    constructor
    · rintro ⟨other, h', hget', hnative, -⟩
      have hother : other ≠ uuid := by
        rintro rfl
        rw [get_delete_self] at hget'
        cases hget'
      rw [get_delete_of_ne _ hother] at hget'
      exact ⟨other, h', hget', hnative, fun heq => hother (Option.some.inj heq).symm⟩
    · rintro ⟨other, h', hget', hnative, hother⟩
      refine ⟨other, h', ?_, hnative, by simp⟩
      rw [get_delete_of_ne _ fun heq => hother (by rw [heq])]
      exact hget'
  | changed uuid change =>
    obtain ⟨h, hget, hsaved⟩ := hsaves
    simp only [handle, edit_hosts, KeepsOne]
    rw [listed_modify _ hget, apply_native hsaved, hget]
    simp

/-- The process starts anew, or takes a step. -/
inductive Life
  | start (readable : Bool) (probe : NativeProbe)
  | event (e : Event)

def live (parse : QString → Option HostAddress) (m : ComputerManager) : Life → ComputerManager
  | .start readable probe => m.start readable probe
  | .event e => m.handle parse e

/-- A list that is not empty is emptied only by the deletion of the last host on it. -/
def Spares (m : ComputerManager) (l : Life) (m' : ComputerManager) : Prop :=
  m.store ≠ [] → m'.store = [] → ∃ e, l = .event e ∧ m.DeletesLast e

/-- A save over a list that is not empty finds a host to put in it, or follows the deletion of
the last host on it. -/
def Covered (m : ComputerManager) (l : Life) (_ : ComputerManager) : Prop :=
  ∀ e, l = .event e → m.store ≠ [] → m.Saves e → m.KeepsOne e ∨ m.DeletesLast e

structure Stored (m : ComputerManager) : Prop where
  keyed : KeyedHosts m.hosts
  faithful : m.Faithful

theorem start_store (m : ComputerManager) (readable : Bool) (probe : NativeProbe) :
    Unwritten m (m.start readable probe) :=
  refreshNativeHost_store _ probe

theorem Stored.step (hm : m.Stored) (l : Life) : (m.live parse l).Stored := by
  have hkept : ∀ {m'}, Unwritten m m' → m'.Faithful := by
    intro m' h hosts hsaved
    rw [h.1]
    rw [h.2] at hsaved
    exact hm.faithful hosts hsaved
  cases l with
  | start readable probe =>
    exact ⟨keyed_start m readable probe, hkept (m.start_store readable probe)⟩
  | event e =>
    have hkeyed : KeyedHosts (m.handle parse e).hosts := keyed_handle hm.keyed e
    refine ⟨hkeyed, ?_⟩
    obtain ⟨hwrites, hkeeps⟩ := handle_store parse hm.keyed e
    by_cases hsaves : m.Saves e
    · intro hosts hsaved
      obtain ⟨hstore, hmemory⟩ := hwrites hsaves
      obtain rfl := Option.some.inj (hmemory.symm.trans hsaved)
      show Restores (m.handle parse e).store _
      rw [hstore]
      exact restores_written hkeyed
    · exact hkept (hkeeps hsaves)

theorem Stored.spares_iff (hm : m.Stored) {l : Life} {m' : ComputerManager}
    (hstep : handles (live parse) m l m') : m.Spares l m' ↔ m.Covered l m' := by
  obtain rfl : m.live parse l = m' := hstep
  cases l with
  | start readable probe =>
    have hsame := (m.start_store readable probe).1
    constructor
    · intro _ e he
      cases he
    · intro _ hstore hempty
      exact absurd (hsame.symm.trans hempty) hstore
  | event e =>
    obtain ⟨hwrites, hkeeps⟩ := handle_store parse hm.keyed e
    constructor
    · intro hspares e' he hstore hsaves
      obtain rfl := Life.event.inj he
      by_contra hnot
      rw [not_or] at hnot
      have hempty : (m.handle parse e).store = [] := by
        rw [(hwrites hsaves).1, written_eq_nil_iff, listed_handle hsaves]
        exact hnot.1
      obtain ⟨last, hlast, hdeletes⟩ := hspares hstore hempty
      obtain rfl := Life.event.inj hlast
      exact hnot.2 hdeletes
    · intro hcovered hstore hempty
      have hempty : (m.handle parse e).store = [] := hempty
      by_cases hsaves : m.Saves e
      · rw [(hwrites hsaves).1, written_eq_nil_iff, listed_handle hsaves] at hempty
        exact ⟨e, rfl, (hcovered e rfl hstore hsaves).resolve_left hempty⟩
      · rw [(hkeeps hsaves).1] at hempty
        exact absurd hempty hstore

/-- In every run of lives a load gives back what a save wrote, and the stored list is spared
exactly when each save over it finds a host to put in it, or follows the deletion of the last
one. -/
theorem stored_list_survives_iff (parse : QString → Option HostAddress)
    (store : List StoredHost) (readable : Bool) (probe : NativeProbe) (lives : List Life) :
    AllAlong (handles (live parse)) Faithful
        (({ store := store } : ComputerManager).start readable probe) lives ∧
      (EachStep (handles (live parse)) Spares
          (({ store := store } : ComputerManager).start readable probe) lives ↔
        EachStep (handles (live parse)) Covered
          (({ store := store } : ComputerManager).start readable probe) lives) := by
  have hstart : (({ store := store } : ComputerManager).start readable probe).Stored := by
    refine ⟨keyed_start _ readable probe, fun hosts hsaved => ?_⟩
    rw [(start_store _ readable probe).2] at hsaved
    cases hsaved
  have hkeeps : ∀ m l m', m.Stored → handles (live parse) m l m' → m'.Stored := by
    rintro m l m' hm rfl
    exact hm.step l
  constructor
  · intro visited rest m _ hrun
    exact (hrun.invariant hkeeps hstart).faithful
  · exact eachStep_iff hkeeps (fun _ _ _ _ _ => trivial)
      (fun m l m' hm _ hstep => hm.spares_iff hstep) hstart trivial lives

def storedHost : StoredHost :=
  ({ name := qs "PC", uuid := qs "A" } : NvComputer).serialize fun _ => none

/-- The machine's own screen can be streamed. -/
def engine : NativeProbe where
  enabled := true
  available := true
  noDisplay := false
  capturePermission := false
  hostDisplayName := qs "This PC"
  codecModeSupport := 1

/-- The store could not be read when the process started, and the native host is renamed: the
list is written empty. -/
theorem rename_empties_the_list :
    ¬ EachStep (handles (live fun _ => none)) Spares
      (({ store := [storedHost] } : ComputerManager).start false engine)
      [.event (.changed nativeUuid (.renamed (qs "Desk")))] := by
  intro h
  obtain ⟨e, he, uuid, hdelete, -⟩ := h [] _ [] _ _ rfl Run.nil rfl (by decide) rfl
  obtain rfl := Life.event.inj he
  cases hdelete

end MoonlightWeb.Backend.ComputerManager
