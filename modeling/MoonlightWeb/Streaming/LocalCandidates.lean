import Mathlib
import MoonlightWeb.Qt.QString

/-! # What a relay tells of its own addresses

`RelayBase::emitLocalCandidate` with the address classes it goes by. While the router's
mapping is advertised a host candidate is rewritten to the public address, and the address
it had is for peers inside our network only. The rewrite is the library's and may fail.
-/

namespace MoonlightWeb.Streaming.LocalCandidates
open Qt

inductive HostAddress
  | v4 (a : BitVec 32)
  | v6 (a : BitVec 128)
deriving DecidableEq

namespace HostAddress

/-- The address an IPv4-mapped IPv6 address embeds, and any other address itself. -/
def unmapped : HostAddress → HostAddress
  | v4 a => v4 a
  | v6 a => if a.extractLsb' 32 96 = 0xFFFF then v4 (a.extractLsb' 0 32) else v6 a

/-- `toIPv4Address` of an address that is not mapped. -/
def toIPv4 : HostAddress → Option (BitVec 32)
  | v4 a => some a
  | v6 a => if a = 0 then some 0 else none

def isLoopback : HostAddress → Bool
  | v4 a => a &&& 0xFF000000 = 0x7F000000
  | v6 a => a = 1

def isV4 : HostAddress → Bool
  | v4 _ => true
  | v6 _ => false

end HostAddress

inductive Kind
  | Loopback
  | Private
  | Tunnel
  | Public
deriving DecidableEq

/-- The ranges of IPv4 addresses. -/
def classifyV4 (v4 : BitVec 32) : Kind :=
  if v4 &&& 0xFF000000 = 0x0A000000 then .Private
  else if v4 &&& 0xFFF00000 = 0xAC100000 then .Private
  else if v4 &&& 0xFFFF0000 = 0xC0A80000 then .Private
  else if v4 &&& 0xFFFF0000 = 0xA9FE0000 then .Private
  else if v4 &&& 0xFFC00000 = 0x64400000 then .Tunnel
  else .Public

/-- The ranges of IPv6 addresses, by their first two bytes. -/
def classifyV6 (a : BitVec 128) : Kind :=
  let raw0 := a.extractLsb' 120 8
  let raw1 := a.extractLsb' 112 8
  if raw0 &&& 0xFE = 0xFC then .Private
  else if raw0 = 0xFE ∧ raw1 &&& 0xC0 = 0x80 then .Private
  else .Public

/-- `NetClassify::classify` of the text of an address. -/
def classify (address : HostAddress) : Kind :=
  let addr := address.unmapped
  if addr.isLoopback then .Loopback
  else
    match addr.toIPv4, addr with
    | some v4, _ => classifyV4 v4
    | none, .v6 a => classifyV6 a
    | none, .v4 _ => .Public

def isTrustedPeer (k : Kind) : Bool :=
  k ≠ .Public

inductive CandidateType
  | Unknown
  | Host
  | ServerReflexive
  | PeerReflexive
  | Relayed
deriving DecidableEq

/-- A candidate: its line and stream, the address and the port in the line, and the address
once it is resolved. -/
structure Candidate where
  line : QString
  mid : QString
  type : CandidateType
  node : QString
  port : UInt16
  address : Option HostAddress
deriving DecidableEq

def looksIpv6 (line : QString) : Bool :=
  ((line.dropWhile (· ≠ unit ' ')).drop 1).contains (unit ':')

structure Relay where
  publicIP : QString := []
  publicPort : UInt16 := 0
  forceHostPublic : Bool := false
  suppressIPv6 : Bool := false
  emitLanCandidate : Bool := false

namespace Relay

def mapped (r : Relay) : Bool :=
  r.forceHostPublic && !r.publicIP.isEmpty && decide (0 < r.publicPort)

/-- The last step: an IPv6 address that is not global is for peers inside. -/
def emitLast (r : Relay) (isIpv4 : Bool) (kind : Kind) (modCandidate : Candidate) :
    List Candidate :=
  if r.suppressIPv6 ∧ !isIpv4 ∧ isTrustedPeer kind ∧ !r.emitLanCandidate then []
  else [modCandidate]

/-- The candidates the relay sends for one of its own. `changeAddress` is the library's: what
it leaves of a candidate, whether it throws or not. -/
def emitLocalCandidate (r : Relay) (changeAddress : Candidate → QString → UInt16 → Candidate)
    (candidate : Candidate) : List Candidate :=
  let isIpv4 : Bool :=
    match candidate.address with
    | some addr => addr.isV4
    | none => !looksIpv6 candidate.line
  let kind : Kind :=
    match candidate.address with
    | some addr => classify addr
    | none => .Public
  if r.mapped ∧ candidate.type = .Host then
    if kind = .Tunnel then
      if r.emitLanCandidate then [candidate] else []
    else if isIpv4 then
      (if r.emitLanCandidate then [candidate] else []) ++
        r.emitLast isIpv4 kind (changeAddress candidate r.publicIP r.publicPort)
    else r.emitLast isIpv4 kind candidate
  else r.emitLast isIpv4 kind candidate

end Relay

/-- The first `len` bits of the address. -/
def HasPrefix {w : Nat} (a : BitVec w) (len value : Nat) : Prop :=
  a.toNat / 2 ^ (w - len) = value

namespace HostAddress

/-- 10.0.0.0/8, 172.16.0.0/12 or 192.168.0.0/16. -/
def IsPrivate : HostAddress → Prop
  | v4 a => HasPrefix a 8 10 ∨ HasPrefix a 12 (172 * 16 + 1) ∨ HasPrefix a 16 (192 * 256 + 168)
  | v6 _ => False

/-- 169.254.0.0/16 or fe80::/10. -/
def IsLinkLocal : HostAddress → Prop
  | v4 a => HasPrefix a 16 (169 * 256 + 254)
  | v6 a => HasPrefix a 10 (0xFE80 / 64)

/-- fc00::/7. -/
def IsUniqueLocal : HostAddress → Prop
  | v4 _ => False
  | v6 a => HasPrefix a 7 (0xFC00 / 512)

/-- 100.64.0.0/10. -/
def IsMeshVpn : HostAddress → Prop
  | v4 a => HasPrefix a 10 (100 * 4 + 1)
  | v6 _ => False

/-- An address of our own network, written in IPv4, in IPv6, or mapped. -/
def IsInternal (a : HostAddress) : Prop :=
  a.unmapped.IsPrivate ∨ a.unmapped.IsLinkLocal ∨ a.unmapped.IsUniqueLocal ∨ a.unmapped.IsMeshVpn

end HostAddress

structure Relay.Advertises (r : Relay) : Prop where
  forced : r.forceHostPublic = true
  suppressing : r.suppressIPv6 = true
  address : r.publicIP ≠ []
  port : 0 < r.publicPort

/-- The candidate carries the public address and port. -/
def Relay.Rewritten (r : Relay) (s : Candidate) : Prop :=
  s.node = r.publicIP ∧ s.port = r.publicPort

variable (addr : HostAddress)

/-- An IPv4 address that is not a mesh VPN's. -/
def Rewritable : Prop :=
  addr.isV4 = true ∧ ¬ addr.unmapped.IsMeshVpn

/-- No peer outside learns an internal address; a peer inside learns the address once, and
the public one once if it is rewritten. -/
structure Relay.Discreet (r : Relay) (changeAddress : Candidate → QString → UInt16 → Candidate)
    (candidate : Candidate) (addr : HostAddress) : Prop where
  outside : r.emitLanCandidate = false → addr.IsInternal →
    ∀ s ∈ r.emitLocalCandidate changeAddress candidate, s.node ≠ candidate.node
  inside : r.emitLanCandidate = true → Rewritable addr →
    ∃ s, r.Rewritten s ∧ r.emitLocalCandidate changeAddress candidate = [candidate, s]
  insideAsItIs : r.emitLanCandidate = true → ¬ Rewritable addr →
    r.emitLocalCandidate changeAddress candidate = [candidate]

theorem masked_iff {w : Nat} {a mask v : BitVec w} {n k : Nat}
    (hmask : mask = BitVec.allOnes w <<< n) (hv : v.toNat = k * 2 ^ n) :
    a &&& mask = v ↔ a.toNat / 2 ^ n = k := by
  have hfits : a.toNat / 2 ^ n * 2 ^ n < 2 ^ w :=
    lt_of_le_of_lt (Nat.div_mul_le_self _ _) a.isLt
  have hkept : (a &&& mask).toNat = a.toNat / 2 ^ n * 2 ^ n := by
    rw [hmask, ← BitVec.shiftLeft_ushiftRight, BitVec.toNat_shiftLeft, BitVec.toNat_ushiftRight,
      Nat.shiftRight_eq_div_pow, Nat.shiftLeft_eq, Nat.mod_eq_of_lt hfits]
  rw [← BitVec.toNat_inj, hkept, hv]
  exact Nat.mul_left_inj (Nat.two_pow_pos n).ne'

/-- The five comparisons of an IPv4 address, as prefixes. -/
theorem classifyV4_eq (a : BitVec 32) : classifyV4 a =
    if a.toNat / 2 ^ 24 = 10 then .Private
    else if a.toNat / 2 ^ 20 = 2753 then .Private
    else if a.toNat / 2 ^ 16 = 49320 then .Private
    else if a.toNat / 2 ^ 16 = 43518 then .Private
    else if a.toNat / 2 ^ 22 = 401 then .Tunnel
    else .Public := by
  have h8 : a &&& 0xFF000000 = 0x0A000000 ↔ a.toNat / 2 ^ 24 = 10 :=
    masked_iff (by decide) (by decide)
  have h12 : a &&& 0xFFF00000 = 0xAC100000 ↔ a.toNat / 2 ^ 20 = 2753 :=
    masked_iff (by decide) (by decide)
  have h16 : a &&& 0xFFFF0000 = 0xC0A80000 ↔ a.toNat / 2 ^ 16 = 49320 :=
    masked_iff (by decide) (by decide)
  have hlink : a &&& 0xFFFF0000 = 0xA9FE0000 ↔ a.toNat / 2 ^ 16 = 43518 :=
    masked_iff (by decide) (by decide)
  have hmesh : a &&& 0xFFC00000 = 0x64400000 ↔ a.toNat / 2 ^ 22 = 401 :=
    masked_iff (by decide) (by decide)
  simp only [classifyV4, h8, h12, h16, hlink, hmesh]

theorem isLoopback_v4 (a : BitVec 32) :
    (HostAddress.v4 a).isLoopback = true ↔ a.toNat / 2 ^ 24 = 127 := by
  have hloop : a &&& 0xFF000000 = 0x7F000000 ↔ a.toNat / 2 ^ 24 = 127 :=
    masked_iff (by decide) (by decide)
  simp only [HostAddress.isLoopback, decide_eq_true_eq, hloop]

theorem classifyV6_private {a : BitVec 128}
    (h : (HostAddress.v6 a).IsLinkLocal ∨ (HostAddress.v6 a).IsUniqueLocal) :
    classifyV6 a = .Private := by
  have hfirst : (a.extractLsb' 120 8).toNat = a.toNat / 2 ^ 120 := by
    rw [BitVec.extractLsb'_toNat, Nat.shiftRight_eq_div_pow]
    have hlt := a.isLt
    omega
  have hsecond : (a.extractLsb' 112 8).toNat = a.toNat / 2 ^ 112 % 256 := by
    rw [BitVec.extractLsb'_toNat, Nat.shiftRight_eq_div_pow]
  have hunique : a.extractLsb' 120 8 &&& 0xFE = 0xFC ↔ (a.extractLsb' 120 8).toNat / 2 ^ 1 = 126 :=
    masked_iff (by decide) (by decide)
  have hlink : a.extractLsb' 112 8 &&& 0xC0 = 0x80 ↔ (a.extractLsb' 112 8).toNat / 2 ^ 6 = 2 :=
    masked_iff (by decide) (by decide)
  have hbyte : a.extractLsb' 120 8 = 0xFE ↔ (a.extractLsb' 120 8).toNat = 254 := by
    rw [← BitVec.toNat_inj]
    rfl
  simp only [classifyV6, hunique, hlink, hbyte, hfirst, hsecond]
  simp only [HostAddress.IsLinkLocal, HostAddress.IsUniqueLocal, HasPrefix] at h
  split_ifs
  · rfl
  · rfl
  · omega

theorem classify_v4 {b : BitVec 32} (h : addr.unmapped = .v4 b) :
    classify addr = if b.toNat / 2 ^ 24 = 127 then .Loopback else classifyV4 b := by
  simp only [classify, h, isLoopback_v4, HostAddress.toIPv4]

theorem classify_v6 {b : BitVec 128} (h : addr.unmapped = .v6 b) :
    classify addr = if b = 1 then .Loopback else if b = 0 then .Public else classifyV6 b := by
  have hzero : classifyV4 0 = .Public := by decide
  simp only [classify, h, HostAddress.isLoopback, HostAddress.toIPv4, decide_eq_true_eq]
  split_ifs
  · rfl
  · exact hzero
  · rfl

theorem classify_tunnel_iff :
    classify addr = .Tunnel ↔ addr.unmapped.IsMeshVpn := by
  cases h : addr.unmapped with
  | v4 b =>
    rw [classify_v4 addr h, classifyV4_eq]
    simp only [HostAddress.IsMeshVpn, HasPrefix]
    split_ifs <;> simp only [false_iff, true_iff] <;> omega
  | v6 b =>
    rw [classify_v6 addr h]
    have hnever : classifyV6 b ≠ .Tunnel := by
      simp only [classifyV6]
      split_ifs <;> decide
    simp only [HostAddress.IsMeshVpn, iff_false]
    split_ifs
    · decide
    · decide
    · exact hnever

theorem classify_internal {addr : HostAddress} (hinternal : addr.IsInternal) :
    classify addr ≠ .Public := by
  unfold HostAddress.IsInternal at hinternal
  cases h : addr.unmapped with
  | v4 b =>
    rw [h] at hinternal
    simp only [HostAddress.IsPrivate, HostAddress.IsLinkLocal, HostAddress.IsUniqueLocal,
      HostAddress.IsMeshVpn, HasPrefix, false_or] at hinternal
    rw [classify_v4 addr h, classifyV4_eq]
    split_ifs <;> first | decide | omega
  | v6 b =>
    rw [h] at hinternal
    simp only [HostAddress.IsPrivate, HostAddress.IsMeshVpn, false_or, or_false] at hinternal
    have hpositive : b ≠ 0 := by
      rintro rfl
      simp [HostAddress.IsLinkLocal, HostAddress.IsUniqueLocal, HasPrefix] at hinternal
    rw [classify_v6 addr h, classifyV6_private hinternal, if_neg hpositive]
    split_ifs <;> decide

theorem Relay.Advertises.mapped {r : Relay} (h : r.Advertises) : r.mapped = true := by
  simp [Relay.mapped, h.forced, h.address, h.port]

section

variable {r : Relay} {candidate : Candidate} {addr : HostAddress}

/-- A mesh VPN's address goes to peers inside, as it is. -/
theorem emit_mesh (hr : r.Advertises)
    (changeAddress : Candidate → QString → UInt16 → Candidate) (htype : candidate.type = .Host)
    (haddress : candidate.address = some addr) (hmesh : addr.unmapped.IsMeshVpn) :
    r.emitLocalCandidate changeAddress candidate =
      if r.emitLanCandidate then [candidate] else [] := by
  have hkind := (classify_tunnel_iff addr).mpr hmesh
  simp [Relay.emitLocalCandidate, haddress, hr.mapped, htype, hkind]

/-- Another IPv4 address is rewritten, and goes to peers inside as it is as well. -/
theorem emit_rewritable (hr : r.Advertises)
    (changeAddress : Candidate → QString → UInt16 → Candidate) (htype : candidate.type = .Host)
    (haddress : candidate.address = some addr) (hrewritable : Rewritable addr) :
    r.emitLocalCandidate changeAddress candidate =
      (if r.emitLanCandidate then [candidate] else []) ++
        [changeAddress candidate r.publicIP r.publicPort] := by
  have hkind : classify addr ≠ .Tunnel := fun h => hrewritable.2 ((classify_tunnel_iff addr).mp h)
  simp [Relay.emitLocalCandidate, Relay.emitLast, haddress, hr.mapped, htype, hkind,
    hrewritable.1]

/-- An IPv6 address goes out as it is, to peers outside when it is global. -/
theorem emit_v6 (hr : r.Advertises)
    (changeAddress : Candidate → QString → UInt16 → Candidate) (htype : candidate.type = .Host)
    (haddress : candidate.address = some addr) (hv6 : addr.isV4 = false)
    (hmesh : ¬ addr.unmapped.IsMeshVpn) :
    r.emitLocalCandidate changeAddress candidate =
      if classify addr ≠ .Public ∧ r.emitLanCandidate = false then [] else [candidate] := by
  have hkind : classify addr ≠ .Tunnel := fun h => hmesh ((classify_tunnel_iff addr).mp h)
  simp [Relay.emitLocalCandidate, Relay.emitLast, haddress, hr.mapped, htype, hkind, hv6,
    hr.suppressing, isTrustedPeer]

/-- The candidates are discreet exactly when the address is not rewritten, or the rewrite
gives the public address, for peers outside another node than the internal one. -/
theorem discreet_iff (hr : r.Advertises)
    (changeAddress : Candidate → QString → UInt16 → Candidate) (htype : candidate.type = .Host)
    (haddress : candidate.address = some addr) :
    r.Discreet changeAddress candidate addr ↔
      (Rewritable addr →
        (r.emitLanCandidate = true →
          r.Rewritten (changeAddress candidate r.publicIP r.publicPort)) ∧
        (r.emitLanCandidate = false → addr.IsInternal →
          (changeAddress candidate r.publicIP r.publicPort).node ≠ candidate.node)) := by
  constructor
  · intro h hrewritable
    have hsent := emit_rewritable hr changeAddress htype haddress hrewritable
    constructor
    · intro hlan
      obtain ⟨s, hs, hemitted⟩ := h.inside hlan hrewritable
      rw [hsent, if_pos hlan, List.singleton_append] at hemitted
      rwa [(List.cons.inj (List.cons.inj hemitted).2).1]
    · intro hlan hinternal
      refine h.outside hlan hinternal _ ?_
      rw [hsent]
      exact List.mem_append_right _ (List.mem_singleton_self _)
  · intro h
    by_cases hmesh : addr.unmapped.IsMeshVpn
    · have hsent := emit_mesh hr changeAddress htype haddress hmesh
      constructor
      · intro hlan _ s hs
        rw [hsent, hlan] at hs
        exact absurd hs (by simp)
      · intro _ hrewritable
        exact absurd hmesh hrewritable.2
      · intro hlan _
        rw [hsent, if_pos hlan]
    · cases hfamily : addr.isV4 with
      | true =>
          have hrewritable : Rewritable addr := ⟨hfamily, hmesh⟩
          have hsent := emit_rewritable hr changeAddress htype haddress hrewritable
          obtain ⟨hinside, houtside⟩ := h hrewritable
          constructor
          · intro hlan hinternal s hs
            rw [hsent, hlan] at hs
            obtain rfl : s = changeAddress candidate r.publicIP r.publicPort := by simpa using hs
            exact houtside hlan hinternal
          · intro hlan _
            exact ⟨_, hinside hlan, by rw [hsent, if_pos hlan, List.singleton_append]⟩
          · intro _ hnot
            exact absurd hrewritable hnot
      | false =>
          have hsent := emit_v6 hr changeAddress htype haddress hfamily hmesh
          constructor
          · intro hlan hinternal s hs
            rw [hsent, if_pos ⟨classify_internal hinternal, hlan⟩] at hs
            exact absurd hs List.not_mem_nil
          · intro _ hrewritable
            exact absurd hrewritable.1 (by simp [hfamily])
          · intro hlan _
            rw [hsent, if_neg (by simp [hlan])]

end

def outsideRelay : Relay :=
  { publicIP := qs "203.0.113.7", publicPort := 47998, forceHostPublic := true,
    suppressIPv6 := true }

def lanCandidate : Candidate :=
  { line := qs "candidate:1 1 UDP 2122317823 192.168.1.20 50000 typ host", mid := qs "0",
    type := .Host, node := qs "192.168.1.20", port := 50000,
    address := some (.v4 0xC0A80114) }

theorem outsideRelay_advertises : outsideRelay.Advertises :=
  { forced := rfl, suppressing := rfl, address := by decide, port := by decide }

theorem lan_internal : (HostAddress.v4 0xC0A80114).IsInternal :=
  Or.inl (Or.inr (Or.inr rfl))

/-- The rewrite throws and leaves the candidate as it was: the line with the private address
goes out. -/
theorem failed_rewrite_leaks :
    ¬ outsideRelay.Discreet (fun candidate _ _ => candidate) lanCandidate (.v4 0xC0A80114) :=
  fun h => h.outside rfl lan_internal lanCandidate (by decide) rfl

/-- A rewrite that succeeds. -/
def rewritten (candidate : Candidate) (node : QString) (port : UInt16) : Candidate :=
  { candidate with node := node, port := port, address := none }

theorem discreet_iff_lan :
    outsideRelay.Discreet rewritten lanCandidate (.v4 0xC0A80114) ↔
      (Rewritable (.v4 0xC0A80114) →
        (outsideRelay.emitLanCandidate = true → outsideRelay.Rewritten
          (rewritten lanCandidate outsideRelay.publicIP outsideRelay.publicPort)) ∧
        (outsideRelay.emitLanCandidate = false → (HostAddress.v4 0xC0A80114).IsInternal →
          (rewritten lanCandidate outsideRelay.publicIP outsideRelay.publicPort).node ≠
            lanCandidate.node)) :=
  discreet_iff outsideRelay_advertises rewritten rfl rfl

end MoonlightWeb.Streaming.LocalCandidates
