import MoonlightWeb.Lib.Run
import MoonlightWeb.Qt.QHash
import MoonlightWeb.Backend.NvComputer

/-! # The manager of the hosts

`ComputerManager`: the hosts in memory, the store, and the polls under way. Hosts come from
the store, from discovery and by hand; each is polled at one of its candidate addresses at a
time. Most handlers change a host they find and save when they changed what is stored.
-/

namespace MoonlightWeb.Backend

open Js Lib Qt QString Streaming.LocalCandidates NvComputer

structure Poll where
  uuid : QString
  address : NvAddress
deriving DecidableEq

/-- How a poll ends: with a network error, with a status that is refused, or with an answer
from the machine at `url`. -/
inductive Reply
  | failed (refused : Bool)
  | rejected
  | answered (url : NvAddress) (host : url.isNull = false) (info : ServerInfo)

/-- A poll that is over: the address it went to, and where the host itself answered from. -/
structure CompletedPoll where
  address : NvAddress
  answered : Option NvAddress
deriving DecidableEq

def OFFLINE_FAILURE_THRESHOLD : Nat := 3

namespace NvComputer

def countFailure (h : NvComputer) : NvComputer :=
  { h with
    consecutivePollFailures :=
      if h.consecutivePollFailures < OFFLINE_FAILURE_THRESHOLD then h.consecutivePollFailures + 1
      else h.consecutivePollFailures }

/-- `registerFailure`, on the host. -/
def registerFailure (h : NvComputer) : NvComputer × Bool :=
  if OFFLINE_FAILURE_THRESHOLD ≤ h.countFailure.consecutivePollFailures ∧
      h.state ≠ .CS_OFFLINE then
    ({ h.countFailure with state := .CS_OFFLINE }, true)
  else (h.countFailure, false)

/-- The answer is the host's own. -/
def Own (h : NvComputer) (info : ServerInfo) : Prop := info.getXmlString (qs "uniqueid") = h.uuid

instance (h : NvComputer) (info : ServerInfo) : Decidable (h.Own info) :=
  inferInstanceAs (Decidable (_ = _))

/-- `onPollReplyFinished`, on the host; `arp` is the hardware address the ARP table has. -/
def polled (h : NvComputer) (reply : Reply) (arp : QByteArray) : NvComputer × Bool :=
  match reply with
  | .failed refused =>
      let r := { h with reachable := refused }.registerFailure
      (r.1, h.reachable ≠ refused || r.2)
  | .rejected =>
      let r := { h with reachable := true }.registerFailure
      (r.1, !h.reachable || r.2)
  | .answered url _ info =>
      if h.Own info then
        let r := { h with reachable := true, consecutivePollFailures := 0 }.update
          (ofServerInfo info url)
        if r.1.macAddress.isEmpty && !arp.isEmpty then ({ r.1 with macAddress := arp }, true)
        else r
      else ({ h with reachable := true }, !h.reachable)

end NvComputer

def NvComputer.typedIn (nvAddr : NvAddress) (h : NvComputer) : NvComputer × Bool :=
  if h.manualAddress ≠ nvAddr then ({ h with manualAddress := nvAddr }, true) else (h, false)

def kMaxHostNameLength : Nat := 64

def kMultiSeatApiPort : Nat := 9550

def knownTypes : List QString := [qs "native", qs "gamestream", qs "wolf", qs "multiseat"]

/-- What a handler does to a host it finds. -/
inductive Change
  | paired (serverCertPem : QByteArray)
  | pairLost
  | renamed (name : QString)
  | setBackend (type apiUrl apiToken pairUser pairPassword : QString)
  | clearBackend
  | multiSeatFound

/-- The host after the change, and whether it is saved. -/
def Change.apply (h : NvComputer) : Change → NvComputer × Bool
  | .paired serverCertPem =>
      ({ h with serverCertPem := serverCertPem, pairState := .PS_PAIRED, state := .CS_ONLINE },
        true)
  | .pairLost =>
      if h.pairState = .PS_PAIRED then
        ({ h with pairState := .PS_NOT_PAIRED, serverCertPem := [] }, true)
      else (h, false)
  | .renamed name =>
      let newName := (simplified name).take kMaxHostNameLength
      if newName = h.customName then (h, false) else ({ h with customName := newName }, true)
  | .setBackend type apiUrl apiToken pairUser pairPassword =>
      if type ∈ knownTypes then
        let effectiveUrl :=
          if apiUrl.isEmpty && decide (type = qs "multiseat") && h.multiSeatApiPresent &&
              !h.activeAddress.isNull then
            qs "http://" ++ h.activeAddress.address ++ qs ":" ++ number kMultiSeatApiPort
          else apiUrl
        ({ h with
            backendType := type
            backendApiUrl := effectiveUrl
            backendApiToken := if apiToken.isEmpty then h.backendApiToken else apiToken
            backendPairUser := pairUser
            backendPairPassword :=
              if pairPassword.isEmpty then h.backendPairPassword else pairPassword }, true)
      else (h, false)
  | .clearBackend =>
      ({ h with backendType := [], backendApiUrl := [], backendApiToken := [],
                backendPairUser := [], backendPairPassword := [] }, true)
  | .multiSeatFound => ({ h with multiSeatApiPresent := true }, false)

/-- What the machine's own engine says of itself. -/
structure NativeProbe where
  enabled : Bool
  available : Bool
  noDisplay : Bool
  capturePermission : Bool
  hostDisplayName : QString
  codecModeSupport : Int

def NativeProbe.shown (p : NativeProbe) : Bool :=
  p.enabled && (p.available || p.noDisplay || p.capturePermission)

def nativeUuid : QString := qs "moonlightweb-native-host"

/-- The manager. `completed` and `saved` are for the record: the polls over since each host
came, and the hosts at the last save that wrote. -/
structure ComputerManager where
  hosts : QHash QString NvComputer := .empty
  hostsLoaded : Bool := false
  store : List StoredHost := []
  storeReadable : Bool := true
  pollAddrIndex : QHash QString Nat := .empty
  pollingHosts : Finset QString := ∅
  pollStartedAt : QHash QString Nat := .empty
  pendingPolls : List Poll := []
  completed : QHash QString (List CompletedPoll) := .empty
  saved : Option (QHash QString NvComputer) := none

namespace ComputerManager

/-- An entry of the store goes to the hosts, unless it has no uuid. -/
def loadHost (hosts : QHash QString NvComputer) (s : StoredHost) : QHash QString NvComputer :=
  let computer := ofSettings s
  if computer.uuid.isEmpty then hosts else hosts.set computer.uuid computer

variable (parse : QString → Option HostAddress) (m : ComputerManager)

def readArray : List StoredHost := if m.storeReadable then m.store else []

def loadHosts : ComputerManager :=
  { m with hosts := m.readArray.foldl loadHost m.hosts, hostsLoaded := true }

def written (hosts : QHash QString NvComputer) : List StoredHost :=
  (hosts.values.filter fun h => !h.isNativeEngine).map fun h => h.serialize fun _ => none

def saveHosts (allowEmpty : Bool) : ComputerManager :=
  if m.hosts.entries = [] ∧ !allowEmpty ∧ 0 < m.readArray.length then m
  else { m with store := written m.hosts, saved := some m.hosts }

/-- A host that is found is changed, and saved when the change says so. -/
def edit (uuid : QString) (change : NvComputer → NvComputer × Bool) :
    ComputerManager :=
  match m.hosts.get uuid with
  | none => m
  | some h =>
      let r := change h
      let m := { m with hosts := m.hosts.set uuid r.1 }
      if r.2 then m.saveHosts false else m

/-- A host that was not there. -/
def insertHost (uuid : QString) (h : NvComputer) : ComputerManager :=
  { m with hosts := m.hosts.set uuid h, completed := m.completed.delete uuid }

def removeHost (uuid : QString) : ComputerManager :=
  { m with hosts := m.hosts.delete uuid, completed := m.completed.delete uuid }

def addOrUpdateHost (info : ServerInfo) (addr : NvAddress) :
    ComputerManager :=
  let newHost := ofServerInfo info addr
  if newHost.uuid.isEmpty then m
  else
    match m.hosts.get newHost.uuid with
    | some _ => m.edit newHost.uuid fun existing => existing.update newHost
    | none => (m.insertHost newHost.uuid newHost).saveHosts false

/-- `handleAddManualHost`, once the host has answered. -/
def handleAddManualHost (info : ServerInfo) (nvAddr : NvAddress) :
    ComputerManager :=
  (m.addOrUpdateHost info nvAddr).edit (ofServerInfo info nvAddr).uuid fun host =>
    host.typedIn nvAddr

def handleDeleteHost (uuid : QString) : ComputerManager :=
  match m.hosts.get uuid with
  | none => m
  | some _ =>
      { m.removeHost uuid with pollAddrIndex := m.pollAddrIndex.delete uuid }.saveHosts true

def nativeHost (probe : NativeProbe) (host : NvComputer) : NvComputer :=
  { host with
    name := probe.hostDisplayName
    backendType := qs "native"
    pairState := .PS_PAIRED
    state := .CS_ONLINE
    reachable := true
    serverCodecModeSupport := probe.codecModeSupport }

def refreshNativeHost (probe : NativeProbe) : ComputerManager :=
  match m.hosts.get nativeUuid with
  | some existing =>
      if probe.shown then
        { m with hosts := m.hosts.set nativeUuid (nativeHost probe existing) }
      else m.removeHost nativeUuid
  | none =>
      if probe.shown then m.insertHost nativeUuid (nativeHost probe { uuid := nativeUuid })
      else m

/-- The process starts, on the store the one before it left. -/
def start (readable : Bool) (probe : NativeProbe) : ComputerManager :=
  ({ store := m.store, storeReadable := readable, saved := m.saved : ComputerManager }.loadHosts
    ).refreshNativeHost probe

/-- `pollAddressFor`, by the index kept for the host. -/
def addressAt (index : Nat) (h : NvComputer) : NvAddress :=
  (h.uniqueAddresses parse).getD (index % (h.uniqueAddresses parse).length) {}

def pollAddressFor (h : NvComputer) : NvAddress :=
  addressAt parse ((m.pollAddrIndex.get h.uuid).getD 0) h

/-- A poll of a host goes out, unless one is under way or there is no address. -/
def startPoll (now : Nat) (m : ComputerManager) (entry : QString × NvComputer) :
    ComputerManager :=
  let addr := m.pollAddressFor parse entry.2
  if entry.1 ∈ m.pollingHosts ∨ addr.isNull = true then m
  else
    { m with
      pendingPolls := m.pendingPolls ++ [⟨entry.1, addr⟩]
      pollingHosts := insert entry.1 m.pollingHosts
      pollStartedAt := m.pollStartedAt.set entry.1 now }

/-- The poll of the host has been under way for more than 10 s. -/
def stalled (now : Nat) (uuid : QString) : Bool :=
  (m.pollStartedAt.get uuid).any fun startedAt => 10000 < now - startedAt

def cleanStalled (now : Nat) : ComputerManager :=
  { m with
    pollingHosts := m.pollingHosts.filter fun uuid => !m.stalled now uuid
    pollStartedAt := m.pollStartedAt.filter fun _ startedAt => !(10000 < now - startedAt) }

def onPollTick (streamActive : Bool) (now : Nat) : ComputerManager :=
  if streamActive then m
  else
    (m.hosts.entries.filter fun entry => !entry.2.isNativeEngine).foldl (startPoll parse now)
      (m.cleanStalled now)

def onBackupPollTick (streamActive : Bool) (now : Nat) : ComputerManager :=
  if streamActive then m else m.hosts.entries.foldl (startPoll parse now) m

/-- The index after a reply: the next candidate after a failure, the first after an answer of
the host's own. -/
def indexAfter (index : QHash QString Nat) (uuid : QString) (h : NvComputer) :
    Reply → QHash QString Nat
  | .answered _ _ info => if h.Own info then index.delete uuid else index
  | .failed _ | .rejected =>
      let candidates := (h.uniqueAddresses parse).length
      if 1 < candidates then index.set uuid (((index.get uuid).getD 0 + 1) % candidates)
      else index

def answeredBy (h : NvComputer) : Reply → Option NvAddress
  | .answered url _ info => if h.Own info then some url else none
  | .failed _ | .rejected => none

def onPollReplyFinished (poll : Poll) (reply : Reply) (arp : QByteArray) :
    ComputerManager :=
  if poll ∈ m.pendingPolls then
    let m := { m with
      pendingPolls := m.pendingPolls.erase poll
      pollingHosts := m.pollingHosts.erase poll.uuid
      pollStartedAt := m.pollStartedAt.delete poll.uuid }
    match m.hosts.get poll.uuid with
    | none => m
    | some h =>
        let ended : CompletedPoll := ⟨poll.address, answeredBy h reply⟩
        { m with
          pollAddrIndex := indexAfter parse m.pollAddrIndex poll.uuid h reply
          completed := m.completed.set poll.uuid ((m.completed.get poll.uuid).getD [] ++ [ended])
        }.edit poll.uuid fun h => h.polled reply arp
  else m

inductive Event
  | pollTick (streamActive : Bool) (now : Nat)
  | backupPollTick (streamActive : Bool) (now : Nat)
  | pollReplyFinished (poll : Poll) (reply : Reply) (arp : QByteArray)
  | discovered (info : ServerInfo) (addr : NvAddress)
  | addManualHost (info : ServerInfo) (nvAddr : NvAddress)
  | deleteHost (uuid : QString)
  | nativeProbed (probe : NativeProbe)
  | changed (uuid : QString) (change : Change)

def handle : Event → ComputerManager
  | .pollTick streamActive now => m.onPollTick parse streamActive now
  | .backupPollTick streamActive now => m.onBackupPollTick parse streamActive now
  | .pollReplyFinished poll reply arp => m.onPollReplyFinished parse poll reply arp
  | .discovered info addr => m.addOrUpdateHost info addr
  | .addManualHost info nvAddr => m.handleAddManualHost info nvAddr
  | .deleteHost uuid => m.handleDeleteHost uuid
  | .nativeProbed probe => m.refreshNativeHost probe
  | .changed uuid change => m.edit uuid fun h => change.apply h

section

variable (m : ComputerManager) (allowEmpty : Bool)

theorem saveHosts_eq : ∃ store saved,
    m.saveHosts allowEmpty = { m with store := store, saved := saved } := by
  unfold saveHosts
  split_ifs
  · exact ⟨m.store, m.saved, rfl⟩
  · exact ⟨_, _, rfl⟩

@[simp] theorem saveHosts_hosts : (m.saveHosts allowEmpty).hosts = m.hosts := by
  obtain ⟨store, saved, h⟩ := m.saveHosts_eq allowEmpty
  rw [h]

@[simp] theorem saveHosts_pollingHosts :
    (m.saveHosts allowEmpty).pollingHosts = m.pollingHosts := by
  obtain ⟨store, saved, h⟩ := m.saveHosts_eq allowEmpty
  rw [h]

@[simp] theorem saveHosts_pendingPolls :
    (m.saveHosts allowEmpty).pendingPolls = m.pendingPolls := by
  obtain ⟨store, saved, h⟩ := m.saveHosts_eq allowEmpty
  rw [h]

end

theorem edit_eq (uuid : QString) (change : NvComputer → NvComputer × Bool) :
    ∃ store saved, m.edit uuid change =
      { m with
        hosts := m.hosts.modify uuid fun h => (change h).1
        store := store
        saved := saved } := by
  unfold edit JsMap.modify
  cases m.hosts.get uuid with
  | none => exact ⟨m.store, m.saved, rfl⟩
  | some h =>
    dsimp only
    split_ifs
    · exact saveHosts_eq { m with hosts := m.hosts.set uuid (change h).1 } false
    · exact ⟨m.store, m.saved, rfl⟩

def KeyedHosts (hosts : QHash QString NvComputer) : Prop :=
  ∀ uuid h, hosts.get uuid = some h → h.uuid = uuid ∧ uuid ≠ []

variable {hosts : QHash QString NvComputer}

theorem KeyedHosts.set (hkeyed : KeyedHosts hosts)
    {uuid : QString} {h : NvComputer} (huuid : h.uuid = uuid) (hnonempty : uuid ≠ []) :
    KeyedHosts (hosts.set uuid h) := by
  intro other h' hget
  by_cases hother : other = uuid
  · rw [hother, JsMap.get_set_self, Option.some.injEq] at hget
    rw [← hget, hother]
    exact ⟨huuid, hnonempty⟩
  · rw [JsMap.get_set_of_ne _ _ hother] at hget
    exact hkeyed other h' hget

theorem KeyedHosts.delete (hkeyed : KeyedHosts hosts)
    (uuid : QString) : KeyedHosts (hosts.delete uuid) := by
  intro other h' hget
  by_cases hother : other = uuid
  · rw [hother, JsMap.get_delete_self] at hget
    cases hget
  · rw [JsMap.get_delete_of_ne _ hother] at hget
    exact hkeyed other h' hget

theorem KeyedHosts.modify (hkeyed : KeyedHosts hosts)
    (uuid : QString) {change : NvComputer → NvComputer} (hchange : ∀ h, (change h).uuid = h.uuid) :
    KeyedHosts (hosts.modify uuid change) := by
  intro other h' hget
  rw [JsMap.get_modify] at hget
  split_ifs at hget with hother
  · obtain ⟨h, hh, rfl⟩ := Option.map_eq_some_iff.mp hget
    rw [hchange]
    exact hkeyed other h hh
  · exact hkeyed other h' hget

theorem update_uuid (h that : NvComputer) : (h.update that).1.uuid = h.uuid := by
  unfold update
  split_ifs <;> rfl

theorem apply_uuid (change : Change) (h : NvComputer) : (change.apply h).1.uuid = h.uuid := by
  cases change <;> simp only [Change.apply] <;> split_ifs <;> rfl

theorem registerFailure_uuid (h : NvComputer) : h.registerFailure.1.uuid = h.uuid := by
  unfold registerFailure
  split_ifs <;> rfl

theorem polled_uuid (h : NvComputer) (reply : Reply) (arp : QByteArray) :
    (h.polled reply arp).1.uuid = h.uuid := by
  cases reply with
  | failed refused => exact registerFailure_uuid { h with reachable := refused }
  | rejected => exact registerFailure_uuid { h with reachable := true }
  | answered url host info =>
    simp only [polled]
    split_ifs
    · exact update_uuid _ _
    · exact update_uuid _ _
    · rfl

variable {parse}

theorem edit_hosts (uuid : QString)
    (change : NvComputer → NvComputer × Bool) :
    (m.edit uuid change).hosts = m.hosts.modify uuid fun h => (change h).1 := by
  obtain ⟨store, saved, h⟩ := m.edit_eq uuid change
  rw [h]

theorem foldl_startPoll_hosts (now : Nat) (entries : List (QString × NvComputer))
    (m : ComputerManager) : (entries.foldl (startPoll parse now) m).hosts = m.hosts := by
  induction entries generalizing m with
  | nil => rfl
  | cons entry entries ih =>
    rw [List.foldl_cons, ih]
    simp only [startPoll]
    split_ifs <;> rfl

variable {m : ComputerManager}

theorem keyed_addOrUpdateHost (hm : KeyedHosts m.hosts) (info : ServerInfo)
    (addr : NvAddress) : KeyedHosts (m.addOrUpdateHost info addr).hosts := by
  simp only [addOrUpdateHost]
  split_ifs with hempty
  · exact hm
  · cases m.hosts.get (ofServerInfo info addr).uuid with
    | some existing =>
      dsimp only
      rw [edit_hosts]
      exact hm.modify _ fun h => update_uuid h _
    | none =>
      rw [saveHosts_hosts]
      refine hm.set rfl fun hnil => hempty ?_
      rw [hnil]
      rfl

theorem keyed_refreshNativeHost (hm : KeyedHosts m.hosts)
    (probe : NativeProbe) : KeyedHosts (m.refreshNativeHost probe).hosts := by
  have hnonempty : nativeUuid ≠ [] := by decide
  unfold refreshNativeHost
  cases hget : m.hosts.get nativeUuid with
  | some existing =>
    dsimp only
    split_ifs
    · exact hm.set (hm nativeUuid existing hget).1 hnonempty
    · exact hm.delete nativeUuid
  | none =>
    dsimp only
    split_ifs
    · exact hm.set rfl hnonempty
    · exact hm

theorem keyed_foldl_loadHost (entries : List StoredHost)
    (hhosts : KeyedHosts hosts) : KeyedHosts (entries.foldl loadHost hosts) := by
  induction entries generalizing hosts with
  | nil => exact hhosts
  | cons s entries ih =>
    rw [List.foldl_cons]
    apply ih
    simp only [loadHost]
    split_ifs with hempty
    · exact hhosts
    · exact hhosts.set rfl fun hnil => hempty (by rw [hnil]; rfl)

theorem keyed_start (m : ComputerManager) (readable : Bool) (probe : NativeProbe) :
    KeyedHosts (m.start readable probe).hosts := by
  apply keyed_refreshNativeHost
  apply keyed_foldl_loadHost
  intro uuid h hget
  cases hget

theorem keyed_handle (hm : KeyedHosts m.hosts) (e : Event) :
    KeyedHosts (m.handle parse e).hosts := by
  cases e with
  | pollTick streamActive now =>
    simp only [handle, onPollTick]
    split_ifs
    · exact hm
    · rw [foldl_startPoll_hosts]
      exact hm
  | backupPollTick streamActive now =>
    simp only [handle, onBackupPollTick]
    split_ifs
    · exact hm
    · rw [foldl_startPoll_hosts]
      exact hm
  | pollReplyFinished poll reply arp =>
    simp only [handle, onPollReplyFinished]
    split_ifs
    · cases m.hosts.get poll.uuid with
      | none => exact hm
      | some h =>
        dsimp only
        rw [edit_hosts]
        exact hm.modify _ fun h => polled_uuid h reply arp
    · exact hm
  | discovered info addr => exact keyed_addOrUpdateHost hm info addr
  | addManualHost info nvAddr =>
    simp only [handle, handleAddManualHost]
    rw [edit_hosts]
    refine (keyed_addOrUpdateHost hm info nvAddr).modify _ fun h => ?_
    unfold typedIn
    split_ifs <;> rfl
  | deleteHost uuid =>
    simp only [handle, handleDeleteHost]
    cases m.hosts.get uuid with
    | none => exact hm
    | some h =>
      dsimp only
      rw [saveHosts_hosts]
      exact hm.delete uuid
  | nativeProbed probe => exact keyed_refreshNativeHost hm probe
  | changed uuid change =>
    simp only [handle]
    rw [edit_hosts]
    exact hm.modify _ fun h => apply_uuid change h

end ComputerManager

end MoonlightWeb.Backend
