import MoonlightWeb.Backend.NvHTTP
import MoonlightWeb.Streaming.LocalCandidates

/-! # A host

`NvComputer`: what the manager keeps of a host, read from a host's answer or from the store,
merged on every answer, and written to the store under twenty keys. An answer is what the
readers of its text return.
-/

namespace MoonlightWeb.Backend

open Qt QString NvHTTP Streaming.LocalCandidates

def MW_HTTP_PORT : UInt16 := 47989

def MW_HTTPS_PORT : UInt16 := 47989

structure NvAddress where
  address : QString := []
  port : UInt16 := 0
deriving DecidableEq

def NvAddress.isNull (a : NvAddress) : Bool := a.address.isEmpty

/-- `NetClassify::classify` of a text; `parse` is the library's reader of addresses. -/
def classifyText (parse : QString → Option HostAddress) (ip : QString) : Kind :=
  if equalsFolded ip (qs "localhost") then .Loopback
  else
    let bare := if startsWithFolded ip (qs "::ffff:") then ip.drop 7 else ip
    match parse bare with
    | none => .Public
    | some addr => classify addr

def exposureRank (parse : QString → Option HostAddress) (na : NvAddress) : Nat :=
  match classifyText parse na.address with
  | .Loopback => 0
  | .Private => 1
  | .Tunnel => 2
  | .Public => 3

/-- `toUShort`. -/
def toUShort (s : QString) : UInt16 :=
  if 0 ≤ toInt s ∧ toInt s ≤ 65535 then UInt16.ofNat (toInt s).toNat else 0

def hexDigit (u : UInt16) : Option Nat :=
  if isDigit u then some (u.toNat - 0x30)
  else if unit 'a' ≤ u ∧ u ≤ unit 'f' then some (u.toNat - 0x57)
  else if unit 'A' ≤ u ∧ u ≤ unit 'F' then some (u.toNat - 0x37)
  else none

/-- `toInt(nullptr, 16)`. -/
def toIntHex (s : QString) : Int :=
  let t := trimmed s
  let body := if t.head? = some (unit '-') ∨ t.head? = some (unit '+') then t.drop 1 else t
  let digits := if startsWithFolded body (qs "0x") then body.drop 2 else body
  let size : Int := ((digits.filterMap hexDigit).foldl (fun v d => v * 16 + d) 0 : Nat)
  let v : Int := if t.head? = some (unit '-') then -size else size
  if digits ≠ [] ∧ digits.all (fun u => (hexDigit u).isSome) ∧
      -2147483648 ≤ v ∧ v ≤ 2147483647 then v
  else 0

inductive PairState
  | PS_UNKNOWN
  | PS_PAIRED
  | PS_NOT_PAIRED
deriving DecidableEq

inductive ComputerState
  | CS_UNKNOWN
  | CS_ONLINE
  | CS_OFFLINE
deriving DecidableEq

structure NvComputer where
  state : ComputerState := .CS_UNKNOWN
  consecutivePollFailures : Nat := 0
  reachable : Bool := false
  pairState : PairState := .PS_UNKNOWN
  activeAddress : NvAddress := {}
  currentGameId : Int := 0
  gfeVersion : QString := []
  appVersion : QString := []
  gpuModel : QString := []
  serverCodecModeSupport : Int := 0
  maxLumaPixelsHEVC : Int := 0
  isNvidiaServerSoftware : Bool := false
  displayModes : List NvDisplayMode := []
  localAddress : NvAddress := {}
  remoteAddress : NvAddress := {}
  manualAddress : NvAddress := {}
  macAddress : QByteArray := []
  name : QString := []
  customName : QString := []
  uuid : QString := []
  serverCertPem : QByteArray := []
  activeHttpsPort : UInt16 := 0
  backendType : QString := []
  backendApiUrl : QString := []
  backendApiToken : QString := []
  backendPairUser : QString := []
  backendPairPassword : QString := []
  multiSeatApiPresent : Bool := false
deriving DecidableEq

def pairStateFromString (s : QString) : PairState :=
  if s = qs "1" ∨ s = qs "paired" then .PS_PAIRED
  else if s = qs "0" ∨ s = qs "not_paired" then .PS_NOT_PAIRED
  else .PS_UNKNOWN

def pairStateToString : PairState → QString
  | .PS_PAIRED => qs "paired"
  | .PS_NOT_PAIRED => qs "not_paired"
  | .PS_UNKNOWN => qs "unknown"

@[simp] theorem pairStateFromString_toString (ps : PairState) :
    pairStateFromString (pairStateToString ps) = ps := by
  cases ps <;> decide

/-- An answer, as the readers of `NvHTTP` give it. -/
structure ServerInfo where
  getXmlString : QString → QString
  getDisplayModeList : List NvDisplayMode := []

namespace ServerInfo

variable (info : ServerInfo)

def getCurrentGame : Int :=
  let state := info.getXmlString (qs "state")
  if !state.isEmpty && (qs "_SERVER_BUSY").isSuffixOf state then
    toInt (info.getXmlString (qs "currentgame"))
  else 0

/-- The address, colon-separated; all zeros is none. -/
def macAddress : QByteArray :=
  let macStr := info.getXmlString (qs "mac")
  if !macStr.isEmpty && macStr ≠ qs "00:00:00:00:00:00" then
    (macStr.splitOnP (· == unit ':')).map fun b => UInt8.ofNat (toIntHex b % 256).toNat
  else []

def localAddress (activeAddr : NvAddress) : NvAddress :=
  let localIp := info.getXmlString (qs "LocalIP")
  if !localIp.isEmpty && !(qs "127.").isPrefixOf localIp then ⟨localIp, activeAddr.port⟩ else {}

def remoteAddress (activeAddr : NvAddress) : NvAddress :=
  let externalIp := info.getXmlString (qs "ExternalIP")
  if externalIp.isEmpty then {}
  else
    let extPort := toUShort (info.getXmlString (qs "ExternalPort"))
    ⟨externalIp, if extPort = 0 then activeAddr.port else extPort⟩

def httpsPort : UInt16 :=
  let port := toUShort (info.getXmlString (qs "HttpsPort"))
  if port = 0 then MW_HTTPS_PORT else port

end ServerInfo

namespace NvComputer

/-- `NvComputer(serverInfo, activeAddr)`. -/
def ofServerInfo (info : ServerInfo) (activeAddr : NvAddress) : NvComputer where
  state := .CS_ONLINE
  activeAddress := activeAddr
  name :=
    let hostname := info.getXmlString (qs "hostname")
    if hostname.isEmpty then qs "UNKNOWN" else hostname
  uuid := info.getXmlString (qs "uniqueid")
  macAddress := info.macAddress
  pairState := pairStateFromString (info.getXmlString (qs "PairStatus"))
  isNvidiaServerSoftware := decide (qs "MJOLNIR" <:+: info.getXmlString (qs "state"))
  currentGameId := info.getCurrentGame
  gfeVersion := info.getXmlString (qs "GfeVersion")
  appVersion := info.getXmlString (qs "appversion")
  gpuModel := info.getXmlString (qs "gputype")
  serverCodecModeSupport :=
    let codecStr := info.getXmlString (qs "ServerCodecModeSupport")
    if codecStr.isEmpty then 1 else toInt codecStr
  maxLumaPixelsHEVC := toInt (info.getXmlString (qs "MaxLumaPixelsHEVC"))
  displayModes := info.getDisplayModeList
  localAddress := info.localAddress activeAddr
  remoteAddress := info.remoteAddress activeAddr
  activeHttpsPort := info.httpsPort

def isNativeEngine (h : NvComputer) : Bool := h.backendType = qs "native"

/-- `ASSIGN_IF_CHANGED_NONEMPTY`. -/
def nonEmptyOr {α : Type} (new old : List α) : List α := if new.isEmpty then old else new

def merged (h that : NvComputer) : NvComputer :=
  { h with
    state := that.state
    activeAddress := that.activeAddress
    currentGameId := that.currentGameId
    serverCodecModeSupport := that.serverCodecModeSupport
    maxLumaPixelsHEVC := that.maxLumaPixelsHEVC
    isNvidiaServerSoftware := that.isNvidiaServerSoftware
    activeHttpsPort := that.activeHttpsPort
    gfeVersion := nonEmptyOr that.gfeVersion h.gfeVersion
    appVersion := nonEmptyOr that.appVersion h.appVersion
    gpuModel := nonEmptyOr that.gpuModel h.gpuModel
    name := nonEmptyOr that.name h.name
    macAddress := nonEmptyOr that.macAddress h.macAddress
    localAddress := if that.localAddress.isNull then h.localAddress else that.localAddress
    remoteAddress := if h.remoteAddress.isNull && !that.remoteAddress.isNull then
      that.remoteAddress else h.remoteAddress
    displayModes := nonEmptyOr that.displayModes h.displayModes
    manualAddress := if that.manualAddress.isNull then h.manualAddress else that.manualAddress
    serverCertPem := nonEmptyOr that.serverCertPem h.serverCertPem }

/-- `update`: a field that differs is assigned, and makes the result true. -/
def update (h that : NvComputer) : NvComputer × Bool :=
  if h.uuid ≠ that.uuid then (h, false) else (h.merged that, h.merged that ≠ h)

def rest (h : NvComputer) : List NvAddress :=
  [h.localAddress, h.manualAddress, h.remoteAddress].filter fun na => !na.isNull

/-- `uniqueAddresses`: the active address first, the others the least exposed first, no
address twice. -/
def uniqueAddresses (parse : QString → Option HostAddress) (h : NvComputer) : List NvAddress :=
  let sorted := h.rest.insertionSort fun a b => exposureRank parse a ≤ exposureRank parse b
  sorted.foldl (fun addrs na => if addrs.contains na then addrs else addrs ++ [na])
    (if h.activeAddress.isNull then [] else [h.activeAddress])

end NvComputer

/-- A value of the settings. -/
inductive Variant
  | string (s : QString)
  | bytes (b : QByteArray)
  | uint (n : UInt32)
deriving DecidableEq

namespace Variant

def toString : Variant → QString
  | string s => s
  | bytes b => b.toQString
  | uint n => number n.toNat

def toByteArray : Variant → QByteArray
  | string s => s.toUtf8
  | bytes b => b
  | uint n => (number n.toNat).toUtf8

def toUInt : Variant → UInt32
  | string s => if 0 ≤ toInt s then UInt32.ofNat (toInt s).toNat else 0
  | bytes b => if 0 ≤ toInt b.toQString then UInt32.ofNat (toInt b.toQString).toNat else 0
  | uint n => n

end Variant

inductive HostKey
  | hostname
  | customName
  | uuid
  | mac
  | activeaddress
  | activeport
  | localaddress
  | localport
  | remoteaddress
  | remoteport
  | manualaddress
  | manualport
  | serverCert
  | httpsPort
  | pairState
  | backendType
  | backendApiUrl
  | backendApiToken
  | backendPairUser
  | backendPairPassword
deriving DecidableEq

abbrev StoredHost := HostKey → Option Variant

namespace StoredHost

variable (s : StoredHost)

def setValue (key : HostKey) (v : Variant) : StoredHost :=
  Function.update s key (some v)

/-- `value(key).toString()`. -/
def string (key : HostKey) : QString := ((s key).map Variant.toString).getD []

/-- `value(key).toByteArray()`. -/
def bytes (key : HostKey) : QByteArray :=
  ((s key).map Variant.toByteArray).getD []

/-- `value(key, port).toUInt()`, as a port. -/
def port (key : HostKey) (default : UInt16) : UInt16 :=
  ((s key).map fun v => v.toUInt.toUInt16).getD default

end StoredHost

namespace NvComputer

/-- `NvComputer(settings)`. -/
def ofSettings (s : StoredHost) : NvComputer where
  state := .CS_OFFLINE
  name := s.string .hostname
  customName := s.string .customName
  uuid := s.string .uuid
  macAddress := s.bytes .mac
  activeAddress := ⟨s.string .activeaddress, s.port .activeport MW_HTTP_PORT⟩
  localAddress := ⟨s.string .localaddress, s.port .localport MW_HTTP_PORT⟩
  remoteAddress := ⟨s.string .remoteaddress, s.port .remoteport MW_HTTP_PORT⟩
  manualAddress := ⟨s.string .manualaddress, s.port .manualport MW_HTTP_PORT⟩
  serverCertPem := s.bytes .serverCert
  activeHttpsPort := s.port .httpsPort MW_HTTPS_PORT
  pairState := pairStateFromString (s.string .pairState)
  backendType := s.string .backendType
  backendApiUrl := s.string .backendApiUrl
  backendApiToken := s.string .backendApiToken
  backendPairUser := s.string .backendPairUser
  backendPairPassword := s.string .backendPairPassword

/-- `serialize(settings)`. -/
def serialize (h : NvComputer) (s : StoredHost) : StoredHost :=
  let s := s.setValue .hostname (.string h.name)
  let s := s.setValue .customName (.string h.customName)
  let s := s.setValue .uuid (.string h.uuid)
  let s := s.setValue .mac (.bytes h.macAddress)
  let s := s.setValue .activeaddress (.string h.activeAddress.address)
  let s := s.setValue .activeport (.uint h.activeAddress.port.toUInt32)
  let s := s.setValue .localaddress (.string h.localAddress.address)
  let s := s.setValue .localport (.uint h.localAddress.port.toUInt32)
  let s := s.setValue .remoteaddress (.string h.remoteAddress.address)
  let s := s.setValue .remoteport (.uint h.remoteAddress.port.toUInt32)
  let s := s.setValue .manualaddress (.string h.manualAddress.address)
  let s := s.setValue .manualport (.uint h.manualAddress.port.toUInt32)
  let s := s.setValue .serverCert (.bytes h.serverCertPem)
  let s := s.setValue .httpsPort (.uint h.activeHttpsPort.toUInt32)
  let s := s.setValue .pairState (.string (pairStateToString h.pairState))
  let s := s.setValue .backendType (.string h.backendType)
  let s := s.setValue .backendApiUrl (.string h.backendApiUrl)
  let s := s.setValue .backendApiToken (.string h.backendApiToken)
  let s := s.setValue .backendPairUser (.string h.backendPairUser)
  s.setValue .backendPairPassword (.string h.backendPairPassword)

/-- What the store keeps of a host. -/
def persisted (h : NvComputer) : NvComputer where
  state := .CS_OFFLINE
  name := h.name
  customName := h.customName
  uuid := h.uuid
  macAddress := h.macAddress
  activeAddress := h.activeAddress
  localAddress := h.localAddress
  remoteAddress := h.remoteAddress
  manualAddress := h.manualAddress
  serverCertPem := h.serverCertPem
  activeHttpsPort := h.activeHttpsPort
  pairState := h.pairState
  backendType := h.backendType
  backendApiUrl := h.backendApiUrl
  backendApiToken := h.backendApiToken
  backendPairUser := h.backendPairUser
  backendPairPassword := h.backendPairPassword

/-- The twenty keys written are the twenty keys read. -/
theorem ofSettings_serialize (h : NvComputer) (s : StoredHost) :
    ofSettings (h.serialize s) = h.persisted := by
  simp [ofSettings, serialize, persisted, StoredHost.setValue, StoredHost.string,
    StoredHost.bytes, StoredHost.port, Function.update, Variant.toString, Variant.toByteArray,
    Variant.toUInt]

theorem foldl_distinct (found : List NvAddress) (addrs : List NvAddress) (h : addrs.Nodup) :
    (found.foldl (fun addrs na => if addrs.contains na then addrs else addrs ++ [na])
        addrs).Nodup ∧
      addrs <+: found.foldl (fun addrs na => if addrs.contains na then addrs else addrs ++ [na])
        addrs := by
  induction found generalizing addrs with
  | nil => exact ⟨h, List.prefix_refl _⟩
  | cons na found ih =>
    rw [List.foldl_cons]
    by_cases hna : na ∈ addrs
    · rw [if_pos (List.contains_iff_mem.mpr hna)]
      exact ih addrs h
    · rw [if_neg fun hmem => hna (List.contains_iff_mem.mp hmem)]
      have hnodup : (addrs ++ [na]).Nodup := by
        rw [List.nodup_append]
        refine ⟨h, List.nodup_singleton na, ?_⟩
        rintro a ha b hb rfl
        rw [List.mem_singleton.mp hb] at ha
        exact hna ha
      obtain ⟨hdistinct, hlead⟩ := ih (addrs ++ [na]) hnodup
      exact ⟨hdistinct, (List.prefix_append _ _).trans hlead⟩

variable (parse : QString → Option HostAddress)

theorem uniqueAddresses_nodup (h : NvComputer) : (h.uniqueAddresses parse).Nodup := by
  refine (foldl_distinct _ _ ?_).1
  split_ifs
  · exact List.nodup_nil
  · exact List.nodup_singleton _

theorem head_uniqueAddresses {h : NvComputer} (hactive : h.activeAddress.isNull = false) :
    (h.uniqueAddresses parse).head? = some h.activeAddress := by
  unfold uniqueAddresses
  rw [if_neg (by simp [hactive])]
  obtain ⟨rest, hrest⟩ := (foldl_distinct (h.rest.insertionSort fun a b =>
    exposureRank parse a ≤ exposureRank parse b) [h.activeAddress] (List.nodup_singleton _)).2
  rw [← hrest]
  rfl

end NvComputer

end MoonlightWeb.Backend
