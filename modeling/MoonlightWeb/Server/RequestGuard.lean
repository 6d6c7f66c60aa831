import MoonlightWeb.Lib.Occurrences
import MoonlightWeb.Qt.Ascii

/-! # `RequestGuard`: whose request it is

The origin of a request is compared with the host it was addressed to by their normal
forms, and the name in the same `Host` header decides a redirect. The lower case of Qt and
its reading of a URL are parameters.
-/

namespace MoonlightWeb.Server.RequestGuard

open List
open Lib Qt QString

/-- What the guard takes from Qt: the lower case of a text, and the host and the port of a
URL, -1 when it has none. -/
structure Platform where
  toLower : QString → QString
  url : QString → QString × Int

structure Authority where
  host : QString := []
  port : QString := []
deriving DecidableEq

def contains (value text : QString) : Bool :=
  decide (text <:+: value)

def colon : UInt16 := unit ':'
def opening : UInt16 := unit '['
def closing : UInt16 := unit ']'

/-- The host and the port of a value that is no URL. -/
def splitBare (v : QString) : QString × QString :=
  match lastIdxOf? colon v with
  | none => (v, [])
  | some i => if v.idxOf? colon = some i then (v.take i, v.drop (i + 1)) else (v, [])

/-- The host in brackets, and the port that follows them. -/
def splitLiteral (v : QString) (close : Nat) : QString × QString :=
  let rest := v.drop (close + 1)
  ((v.take close).drop 1, if rest.head? = some colon then rest.drop 1 else [])

variable (p : Platform)

/-- The host and the port as they stand in the value, unless a bracket is not closed. -/
def splitParts (v : QString) : Option (QString × QString) :=
  if contains v (qs "://") then
    let (host, port) := p.url v
    some (host, if port > 0 then number port.toNat else [])
  else if v.head? = some opening then (v.idxOf? closing).map (splitLiteral v)
  else some (splitBare v)

def splitAuthority (value : QString) : Authority :=
  let v := trimmed value
  if v = [] then {}
  else
    match splitParts p v with
    | none => ⟨p.toLower v, []⟩
    | some (host, port) =>
        ⟨p.toLower host, if port = qs "80" ∨ port = qs "443" then [] else port⟩

def normalizeAuthority (value : QString) : QString :=
  let a := splitAuthority p value
  if a.host = [] then []
  else if a.port = [] then a.host
  else a.host ++ colon :: a.port

inductive Initiator
  | SameOrigin
  | CrossSite
  | Unknown
deriving DecidableEq

/-- `headers` gives the value of a header, empty when there is none. -/
def classifyInitiator (headers : QString → QString) : Initiator :=
  let site := p.toLower (trimmed (headers (qs "sec-fetch-site")))
  let origin := trimmed (headers (qs "origin"))
  let host := normalizeAuthority p (headers (qs "host"))
  if site ≠ [] then
    if site = qs "same-origin" ∨ site = qs "none" then .SameOrigin else .CrossSite
  else if origin = [] then .Unknown
  else if equalsFolded origin (qs "null") then .CrossSite
  else if host = [] then .Unknown
  else if normalizeAuthority p origin = host then .SameOrigin
  else .CrossSite

def isWebSocketOriginAllowed (origin hostHeader : QString) : Bool :=
  let host := normalizeAuthority p hostHeader
  if trimmed origin = [] then true
  else if equalsFolded origin (qs "null") then false
  else if host = [] then true
  else decide (normalizeAuthority p origin = host)

/-- The name `processRequest` takes from the header. -/
def hostname (host : QString) : QString :=
  match lastIdxOf? colon host with
  | none => host
  | some portSep => left host portSep

def isLoopbackHost (hostname : QString) : Bool :=
  equalsFolded hostname (qs "localhost") || hostname = qs "127.0.0.1" || hostname = qs "::1" ||
    hostname = qs "[::1]"

/-- What the redirect looks at beside the header. -/
structure Connection where
  ssl : Bool
  activeHttpsPort : Nat
  peerLocal : Bool
  isLanHost : QString → Bool

/-- `processRequest` answers with a redirect. -/
def redirects (c : Connection) (host : QString) : Bool :=
  !c.ssl && decide (c.activeHttpsPort > 0) &&
    !((c.peerLocal && !c.isLanHost (hostname host)) || isLoopbackHost (hostname host))

def slash : UInt16 := unit '/'

/-- A unit of a host: printable ASCII, and none of the delimiters around one. -/
def HostUnit (u : UInt16) : Prop :=
  Printable u ∧ u ≠ opening ∧ u ≠ closing ∧ u ≠ slash

instance : DecidablePred HostUnit := fun _ => inferInstanceAs (Decidable (_ ∧ _))

/-- A name or an IPv4 address has no colon, and an IPv6 address has several. -/
inductive Host
  | name (text : QString) (nonempty : text ≠ []) (units : ∀ u ∈ text, HostUnit u ∧ u ≠ colon)
  | literal (text : QString) (units : ∀ u ∈ text, HostUnit u) (colons : 2 ≤ text.count colon)

/-- A host, and a port when one is given. -/
structure Address where
  host : Host
  port : Option Nat
  port_range : ∀ n ∈ port, 0 < n ∧ n < 65536

namespace Host

def bare : Host → QString
  | name text _ _ => text
  | literal text _ _ => text

def text : Host → QString
  | name text _ _ => text
  | literal text _ _ => opening :: (text ++ [closing])

def lower (h : Host) : QString := h.bare.map fold

def IsLiteral : Host → Prop
  | name _ _ _ => False
  | literal _ _ _ => True

end Host

def portText : Option Nat → QString
  | none => []
  | some n => colon :: number n

namespace Address

def text (a : Address) : QString :=
  a.host.text ++ portText a.port

/-- The port, when it is not the default of a scheme. -/
def effectivePort (a : Address) : Option Nat :=
  a.port.filter fun n => n ≠ 80 ∧ n ≠ 443

/-- The two are one host, up to case, and one port, where 80, 443 and none are one. -/
def Same (a b : Address) : Prop :=
  a.host.lower = b.host.lower ∧ a.effectivePort = b.effectivePort

/-- One of the hosts the redirect knows as this machine. -/
def Loopback (a : Address) : Prop :=
  a.host.lower = qs "localhost" ∨ a.host.lower = qs "127.0.0.1" ∨ a.host.lower = qs "::1"

end Address

inductive Scheme
  | http
  | https

def Scheme.text : Scheme → QString
  | http => qs "http"
  | https => qs "https"

/-- What an `Origin` header names. -/
structure Origin where
  scheme : Scheme
  address : Address

def Origin.text (o : Origin) : QString :=
  o.scheme.text ++ qs "://" ++ o.address.text

/-- What is normalized: the value of a `Host` header or of an `Origin` header. -/
inductive Value
  | authority (a : Address)
  | origin (o : Origin)

namespace Value

def text : Value → QString
  | authority a => a.text
  | origin o => o.text

def address : Value → Address
  | authority a => a
  | origin o => o.address

end Value

/-- The URL of the origin has the host and the port the origin names. -/
def Origin.Read (o : Origin) : Prop :=
  p.url o.text = (o.address.host.lower, o.address.port.elim (-1) fun n => (n : Int))

def Value.Read (p : Platform) : Value → Prop
  | authority _ => True
  | origin o => o.Read p

def Platform.Ascii : Prop :=
  ∀ s : QString, (∀ u ∈ s, u < 128) → p.toLower s = s.map fold

/-- The host without its brackets. -/
def unbracketed (hostname : QString) : QString :=
  if hostname.head? = some opening ∧ hostname.getLast? = some closing then
    (hostname.drop 1).dropLast
  else hostname

/-- The normal form of a value is its own, and that of two values is one exactly when they
name one host and port; an origin is accepted when it names what the request was addressed
to; the redirect reads the host the guard reads, and spares a loopback host. -/
structure Faithful (p : Platform) (x y : Value) (o : Origin) (h : Address) : Prop where
  idempotent : normalizeAuthority p (normalizeAuthority p x.text) = normalizeAuthority p x.text
  normal_iff : normalizeAuthority p x.text = normalizeAuthority p y.text ↔
    x.address.Same y.address
  initiator : ∀ headers, headers (qs "sec-fetch-site") = [] → headers (qs "origin") = o.text →
    headers (qs "host") = h.text → classifyInitiator p headers = .SameOrigin → o.address.Same h
  webSocket : isWebSocketOriginAllowed p o.text h.text = true → o.address.Same h
  redirect_host : (unbracketed (hostname h.text)).map fold = (splitAuthority p h.text).host
  loopback : h.Loopback → ∀ c, redirects c h.text = false

/-- An IPv6 address with a port, and one without that ends as the port would. -/
def Glued (a b : Address) : Prop :=
  a.host.IsLiteral ∧ b.host.IsLiteral ∧ b.effectivePort = none ∧
    ∃ n ∈ a.effectivePort, b.host.lower = a.host.lower ++ colon :: number n

def Collide (a b : Address) : Prop :=
  Glued a b ∨ Glued b a

theorem caseless_colon : colon < unit 'A' ∨ unit 'Z' < colon ∧ colon < unit 'a' := by decide

theorem caseless_opening : opening < unit 'A' ∨ unit 'Z' < opening ∧ opening < unit 'a' := by
  decide

theorem caseless_closing : closing < unit 'A' ∨ unit 'Z' < closing ∧ closing < unit 'a' := by
  decide

theorem caseless_slash : slash < unit 'A' ∨ unit 'Z' < slash ∧ slash < unit 'a' := by decide

theorem HostUnit.fold {u : UInt16} (h : HostUnit u) : HostUnit (fold u) := by
  obtain ⟨hprintable, hopening, hclosing, hslash⟩ := h
  exact ⟨hprintable.fold, mt (fold_eq_iff caseless_opening).mp hopening,
    mt (fold_eq_iff caseless_closing).mp hclosing, mt (fold_eq_iff caseless_slash).mp hslash⟩

theorem isDigit_hostUnit {u : UInt16} (h : QString.isDigit u) : HostUnit u ∧ u ≠ colon := by
  have hrange : 48 ≤ u.toNat ∧ u.toNat ≤ 57 := by
    obtain ⟨hlow, hhigh⟩ := h
    rw [UInt16.le_iff_toNat_le] at hlow hhigh
    exact ⟨hlow, hhigh⟩
  have hne : ∀ c : UInt16, c.toNat < 48 ∨ 57 < c.toNat → u ≠ c := by
    intro c hc heq
    rw [heq] at hrange
    omega
  exact ⟨⟨h.printable, hne _ (by decide), hne _ (by decide), hne _ (by decide)⟩,
    hne _ (by decide)⟩

theorem colon_not_mem_number (n : Nat) : colon ∉ number n :=
  fun h => (isDigit_hostUnit (isDigit_of_mem_number h)).2 rfl

theorem count_fold_colon (t : QString) : (t.map fold).count colon = t.count colon := by
  induction t with
  | nil => rfl
  | cons u t ih =>
    have hcolon := fold_eq_iff (u := u) caseless_colon
    simp [count_cons, ih, hcolon]

namespace Host
variable (h : Host)

theorem bare_units : ∀ u ∈ h.bare, HostUnit u := by
  cases h with
  | name text nonempty units => exact fun u hu => (units u hu).1
  | literal text units colons => exact units

theorem bare_ne_nil : h.bare ≠ [] := by
  cases h with
  | name text nonempty units => exact nonempty
  | literal text units colons =>
    intro hnil
    have hnil : text = [] := hnil
    simp [hnil] at colons

theorem lower_ne_nil : h.lower ≠ [] := by
  unfold lower
  rw [Ne, map_eq_nil_iff]
  exact h.bare_ne_nil

theorem lower_units : ∀ u ∈ h.lower, HostUnit u := by
  intro u hu
  obtain ⟨v, hv, rfl⟩ := mem_map.mp hu
  exact (h.bare_units v hv).fold

theorem lower_fold : h.lower.map fold = h.lower := by
  unfold lower
  rw [map_map]
  exact map_congr_left fun u _ => fold_fold u

theorem count_lower : h.lower.count colon = h.bare.count colon :=
  count_fold_colon _

theorem count_name (hname : ¬ h.IsLiteral) : h.lower.count colon = 0 := by
  rw [count_lower]
  cases h with
  | name text nonempty units => exact count_eq_zero_of_not_mem fun hmem => (units _ hmem).2 rfl
  | literal text units colons => exact absurd trivial hname

theorem two_le_count (hliteral : h.IsLiteral) : 2 ≤ h.lower.count colon := by
  rw [count_lower]
  cases h with
  | name text nonempty units => exact hliteral.elim
  | literal text units colons => exact colons

theorem text_units : ∀ u ∈ h.text, Printable u ∧ u ≠ slash := by
  have hbracket : (Printable opening ∧ opening ≠ slash) ∧ Printable closing ∧ closing ≠ slash := by
    unfold Printable
    decide
  cases h with
  | name text nonempty units =>
    intro u hu
    obtain ⟨⟨hprintable, -, -, hslash⟩, -⟩ := units u hu
    exact ⟨hprintable, hslash⟩
  | literal text units colons =>
    intro u hu
    rcases mem_cons.mp hu with rfl | hu
    · exact hbracket.1
    · rcases mem_append.mp hu with hin | hlast
      · obtain ⟨hprintable, -, -, hslash⟩ := units u hin
        exact ⟨hprintable, hslash⟩
      · rw [mem_singleton.mp hlast]
        exact hbracket.2

end Host

theorem portText_units {port : Option Nat} : ∀ u ∈ portText port, Printable u ∧ u ≠ slash := by
  have hcolon : Printable colon ∧ colon ≠ slash := by
    unfold Printable
    decide
  intro u hu
  cases port with
  | none => simp [portText] at hu
  | some n =>
    rcases mem_cons.mp hu with rfl | hdigit
    · exact hcolon
    · obtain ⟨⟨hprintable, -, -, hslash⟩, -⟩ := isDigit_hostUnit (isDigit_of_mem_number hdigit)
      exact ⟨hprintable, hslash⟩

namespace Address
variable (a : Address)

theorem text_units : ∀ u ∈ a.text, Printable u ∧ u ≠ slash := by
  intro u hu
  rcases mem_append.mp hu with hhost | hport
  · exact a.host.text_units u hhost
  · exact portText_units u hport

theorem text_trimmed : trimmed a.text = a.text :=
  trimmed_of_printable fun u hu => (a.text_units u hu).1

theorem text_ne_nil : a.text ≠ [] := by
  unfold text
  cases a.host with
  | name text nonempty units => simp [Host.text, nonempty]
  | literal text units colons => simp [Host.text]

theorem text_no_scheme : contains a.text (qs "://") = false := by
  have hslash : slash ∈ qs "://" := by decide
  unfold contains
  rw [decide_eq_false_iff_not]
  intro hin
  exact (a.text_units slash (hin.subset hslash)).2 rfl

theorem splitBare_name {t : QString} (units : ∀ u ∈ t, HostUnit u ∧ u ≠ colon)
    (port : Option Nat) : splitBare (t ++ portText port) = (t, port.elim [] number) := by
  have hcolon : colon ∉ t := fun hmem => (units _ hmem).2 rfl
  unfold splitBare
  cases port with
  | none =>
    rw [portText, append_nil, lastIdxOf?_eq_none hcolon]
    rfl
  | some n =>
    rw [portText, lastIdxOf?_cut t (colon_not_mem_number n), idxOf?_cut _ hcolon]
    simp

theorem splitLiteral_text {t : QString} (units : ∀ u ∈ t, HostUnit u)
    (colons : 2 ≤ t.count colon) (port : Option Nat) :
    ((Host.literal t units colons).text ++ portText port).idxOf? closing = some (t.length + 1) ∧
      splitLiteral ((Host.literal t units colons).text ++ portText port) (t.length + 1) =
        (t, port.elim [] number) := by
  have hcut : (Host.literal t units colons).text ++ portText port =
      (opening :: t) ++ closing :: portText port := by
    simp [Host.text]
  have hclosing : closing ∉ opening :: t := by
    intro hmem
    rcases mem_cons.mp hmem with hfirst | hin
    · exact absurd hfirst (by decide)
    · exact (units _ hin).2.2.1 rfl
  rw [hcut]
  refine ⟨idxOf?_cut _ hclosing, ?_⟩
  have htake : ((opening :: t) ++ closing :: portText port).take (t.length + 1) = opening :: t := by
    simp
  have hdrop : ((opening :: t) ++ closing :: portText port).drop (t.length + 1 + 1) =
      portText port := by
    simp
  unfold splitLiteral
  rw [htake, hdrop]
  cases port with
  | none => rfl
  | some n => simp [portText]

theorem splitParts_text (p : Platform) :
    splitParts p a.text = some (a.host.bare, a.port.elim [] number) := by
  unfold splitParts
  rw [a.text_no_scheme]
  simp only [Bool.false_eq_true, if_false]
  unfold text
  cases hhost : a.host with
  | name t nonempty units =>
    have hhead : ((Host.name t nonempty units).text ++ portText a.port).head? ≠ some opening := by
      cases t with
      | nil => exact absurd rfl nonempty
      | cons u t =>
        intro hopening
        have hu : u = opening := by simpa [Host.text] using hopening
        exact (units u (mem_cons_self ..)).1.2.1 hu
    rw [if_neg hhead]
    exact congrArg some (splitBare_name units a.port)
  | literal t units colons =>
    have hhead : ((Host.literal t units colons).text ++ portText a.port).head? = some opening :=
      rfl
    obtain ⟨hindex, hsplit⟩ := splitLiteral_text units colons a.port
    rw [if_pos hhead, hindex, Option.map_some, hsplit]
    rfl

end Address

variable {p : Platform}

theorem Platform.Ascii.toLower_eq (hp : p.Ascii) {t : QString} (h : ∀ u ∈ t, HostUnit u) :
    p.toLower t = t.map fold :=
  hp t fun u hu => (h u hu).1.ascii

theorem cleared_port (port : Option Nat) :
    (if port.elim [] number = qs "80" ∨ port.elim [] number = qs "443" then []
      else port.elim [] number) = (port.filter fun n => n ≠ 80 ∧ n ≠ 443).elim [] number := by
  have h80 : qs "80" = number 80 := by decide
  have h443 : qs "443" = number 443 := by decide
  cases port with
  | none => simp
  | some n =>
    simp only [Option.elim_some, h80, h443, number_injective.eq_iff]
    by_cases hdefault : n = 80 ∨ n = 443
    · have hnone : (some n).filter (fun n => decide (n ≠ 80 ∧ n ≠ 443)) = none := by
        rcases hdefault with rfl | rfl <;> rfl
      rw [if_pos hdefault, hnone]
      rfl
    · have hsome : (some n).filter (fun n => decide (n ≠ 80 ∧ n ≠ 443)) = some n := by
        obtain ⟨h80, h443⟩ := not_or.mp hdefault
        simp [Option.filter, h80, h443]
      rw [if_neg hdefault, hsome]
      rfl

def Address.authority (a : Address) : Authority :=
  ⟨a.host.lower, a.effectivePort.elim [] number⟩

theorem splitAuthority_of_parts (hp : p.Ascii) {v t : QString} {port : Option Nat}
    (htrimmed : trimmed v = v) (hv : v ≠ []) (ht : ∀ u ∈ t, HostUnit u)
    (hparts : splitParts p v = some (t, port.elim [] number)) :
    splitAuthority p v =
      ⟨t.map fold, (port.filter fun n => n ≠ 80 ∧ n ≠ 443).elim [] number⟩ := by
  unfold splitAuthority
  simp only [htrimmed, if_neg hv, hparts, hp.toLower_eq ht, cleared_port]

theorem splitAuthority_address (hp : p.Ascii) (a : Address) :
    splitAuthority p a.text = a.authority :=
  splitAuthority_of_parts hp a.text_trimmed a.text_ne_nil a.host.bare_units (a.splitParts_text p)

namespace Origin
variable (o : Origin)

theorem text_printable : ∀ u ∈ o.text, Printable u := by
  have hscheme : ∀ u ∈ o.scheme.text ++ qs "://", Printable u := by
    have hhttp : Scheme.http.text ++ qs "://" = [104, 116, 116, 112, 58, 47, 47] := by decide
    have hhttps : Scheme.https.text ++ qs "://" = [104, 116, 116, 112, 115, 58, 47, 47] := by
      decide
    unfold Printable
    cases o.scheme with
    | http =>
      rw [hhttp]
      simp
    | https =>
      rw [hhttps]
      simp
  intro u hu
  have hu : u ∈ (o.scheme.text ++ qs "://") ++ o.address.text := hu
  rcases mem_append.mp hu with hfirst | haddress
  · exact hscheme u hfirst
  · exact (o.address.text_units u haddress).1

theorem text_contains : contains o.text (qs "://") = true := by
  unfold contains
  rw [decide_eq_true_eq]
  exact ⟨o.scheme.text, o.address.text, rfl⟩

theorem text_ne_nil : o.text ≠ [] := by
  intro hnil
  have hcontains := o.text_contains
  rw [hnil] at hcontains
  exact absurd hcontains (by decide)

theorem splitParts_text (ho : o.Read p) :
    splitParts p o.text = some (o.address.host.lower, o.address.port.elim [] number) := by
  unfold splitParts
  rw [if_pos o.text_contains, ho]
  cases hport : o.address.port with
  | none => rfl
  | some n =>
    have hpos : 0 < n := (o.address.port_range n hport).1
    simp [hpos]

end Origin

namespace Value

theorem splitAuthority_text (hp : p.Ascii) (x : Value) (hx : x.Read p) :
    splitAuthority p x.text = x.address.authority := by
  cases x with
  | authority a => exact splitAuthority_address hp a
  | origin o =>
    have hsplit := splitAuthority_of_parts hp (trimmed_of_printable o.text_printable)
      o.text_ne_nil o.address.host.lower_units (o.splitParts_text hx)
    rw [o.address.host.lower_fold] at hsplit
    exact hsplit

end Value

def Address.normal (a : Address) : QString :=
  a.host.lower ++ portText a.effectivePort

theorem normalizeAuthority_of_split {value : QString} {a : Address}
    (h : splitAuthority p value = a.authority) : normalizeAuthority p value = a.normal := by
  unfold normalizeAuthority Address.normal
  simp only [h, Address.authority, if_neg a.host.lower_ne_nil]
  cases a.effectivePort with
  | none => simp [portText]
  | some n =>
    have hport : (some n).elim [] number ≠ [] := number_ne_nil n
    rw [if_neg hport]
    rfl

theorem Value.normalizeAuthority_text (hp : p.Ascii) {x : Value} (hx : x.Read p) :
    normalizeAuthority p x.text = x.address.normal :=
  normalizeAuthority_of_split (x.splitAuthority_text hp hx)

theorem Address.normal_ne_nil (a : Address) : a.normal ≠ [] := by
  unfold normal
  simp [a.host.lower_ne_nil]

namespace Address
variable (a b : Address)

theorem count_normal : a.normal.count colon =
    a.host.lower.count colon + a.effectivePort.elim 0 fun _ => 1 := by
  unfold normal
  rw [count_append]
  cases a.effectivePort with
  | none => rfl
  | some n =>
    rw [portText, count_cons_self, count_eq_zero_of_not_mem (colon_not_mem_number n)]
    rfl

/-- Two normal forms of which one has a port and the other none. -/
theorem glued_of_normal {n : Nat} (h : a.normal = b.normal) (ha : a.effectivePort = some n)
    (hb : b.effectivePort = none) : Glued a b := by
  have hcount : a.host.lower.count colon + 1 = b.host.lower.count colon := by
    have := congrArg (List.count colon) h
    simpa [count_normal, ha, hb] using this
  have hbliteral : b.host.IsLiteral := by
    by_contra hname
    have := b.host.count_name hname
    omega
  have haliteral : a.host.IsLiteral := by
    by_contra hname
    have hzero := a.host.count_name hname
    have htwo := b.host.two_le_count hbliteral
    omega
  refine ⟨haliteral, hbliteral, hb, n, ha, ?_⟩
  unfold normal at h
  rw [ha, hb, portText, portText, append_nil] at h
  exact h.symm

theorem normal_eq_iff : a.normal = b.normal ↔ a.Same b ∨ Collide a b := by
  constructor
  · intro h
    cases ha : a.effectivePort with
    | none =>
      cases hb : b.effectivePort with
      | none =>
        refine .inl ⟨?_, by rw [ha, hb]⟩
        unfold normal at h
        rw [ha, hb] at h
        simpa [portText] using h
      | some m => exact .inr (.inr (b.glued_of_normal a h.symm hb ha))
    | some n =>
      cases hb : b.effectivePort with
      | none => exact .inr (.inl (a.glued_of_normal b h ha hb))
      | some m =>
        unfold normal at h
        rw [ha, hb] at h
        obtain ⟨hhost, hport⟩ :=
          last_cut_unique h (colon_not_mem_number n) (colon_not_mem_number m)
        refine .inl ⟨hhost, ?_⟩
        rw [ha, hb, number_injective hport]
  · intro h
    have hglued : ∀ {a b : Address}, Glued a b → a.normal = b.normal := by
      rintro a b ⟨-, -, hb, n, ha, hlower⟩
      unfold normal
      rw [hb, Option.mem_def.mp ha, hlower]
      simp [portText]
    rcases h with ⟨hhost, hport⟩ | hforth | hback
    · unfold normal
      rw [hhost, hport]
    · exact hglued hforth
    · exact (hglued hback).symm

/-- Addresses that collide are not the same. -/
theorem not_same_of_collide (h : Collide a b) : ¬ a.Same b := by
  rintro ⟨-, hport⟩
  rcases h with ⟨-, -, hb, n, ha, -⟩ | ⟨-, -, ha, n, hb, -⟩
  · rw [Option.mem_def.mp ha, hb] at hport
    cases hport
  · rw [ha, Option.mem_def.mp hb] at hport
    cases hport

theorem normal_iff_same : (a.normal = b.normal ↔ a.Same b) ↔ ¬ Collide a b := by
  rw [normal_eq_iff]
  have hapart := not_same_of_collide a b
  tauto

end Address

theorem hostUnit_colon : HostUnit colon := by
  unfold HostUnit Printable
  decide

namespace Address
variable (a : Address)

theorem normal_units : ∀ u ∈ a.normal, HostUnit u := by
  intro u hu
  rcases mem_append.mp hu with hhost | hport
  · exact a.host.lower_units u hhost
  · cases hn : a.effectivePort with
    | none => simp [hn, portText] at hport
    | some n =>
      rw [hn] at hport
      rcases mem_cons.mp hport with rfl | hdigit
      · exact hostUnit_colon
      · exact (isDigit_hostUnit (isDigit_of_mem_number hdigit)).1

theorem normal_fold : a.normal.map fold = a.normal := by
  have hcolon : fold colon = colon := by decide
  unfold normal
  rw [map_append, a.host.lower_fold]
  congr 1
  cases a.effectivePort with
  | none => rfl
  | some n =>
    have hdigits : (number n).map fold = number n :=
      (map_congr_left fun u hu => fold_of_isDigit (isDigit_of_mem_number hu)).trans
        (map_id _)
    rw [portText, map_cons, hcolon, hdigits]

/-- A text with several colons and no bracket is a host. -/
theorem splitParts_normal (p : Platform) (hliteral : a.host.IsLiteral) :
    splitParts p a.normal = some (a.normal, []) := by
  have hscheme : contains a.normal (qs "://") = false := by
    have hslash : slash ∈ qs "://" := by decide
    unfold contains
    rw [decide_eq_false_iff_not]
    intro hin
    exact (a.normal_units slash (hin.subset hslash)).2.2.2 rfl
  have hhead : a.normal.head? ≠ some opening := by
    intro hopening
    exact (a.normal_units opening (mem_of_mem_head? hopening)).2.1 rfl
  have hcount : 2 ≤ a.normal.count colon := by
    have := a.host.two_le_count hliteral
    rw [count_normal]
    omega
  obtain ⟨i, j, hi, hj, hne⟩ := lastIdxOf?_ne_idxOf? hcount
  unfold splitParts splitBare
  rw [hscheme, if_neg (by simp), if_neg hhead, hj]
  simp [hi, hne]

theorem effectivePort_range : ∀ n ∈ a.effectivePort, 0 < n ∧ n < 65536 :=
  fun n hn => a.port_range n (Option.mem_filter_iff.mp hn).1

theorem normalizeAuthority_normal (hp : p.Ascii) : normalizeAuthority p a.normal = a.normal := by
  cases hhost : a.host with
  | name t nonempty units =>
    -- The normal form is the text of the address in lower case, with its effective port.
    have hlower : ∀ u ∈ t.map fold, HostUnit u ∧ u ≠ colon := by
      intro u hu
      obtain ⟨v, hv, rfl⟩ := mem_map.mp hu
      exact ⟨(units v hv).1.fold, mt (fold_eq_iff caseless_colon).mp (units v hv).2⟩
    let b : Address := ⟨.name (t.map fold) (by simpa using nonempty) hlower, a.effectivePort,
      a.effectivePort_range⟩
    have hb : b.text = a.normal := by
      unfold normal
      rw [hhost]
      rfl
    have hnormal : b.normal = a.normal := by
      have hport : b.effectivePort = a.effectivePort := by
        unfold effectivePort
        simp [b, effectivePort, Option.filter_filter]
      have hfold : b.host.lower = a.host.lower := by
        have := a.host.lower_fold
        rw [hhost] at this ⊢
        exact this
      unfold normal
      rw [hport, hfold]
    rw [← hb, normalizeAuthority_of_split (splitAuthority_address hp b), hnormal, hb]
  | literal t units colons =>
    have hliteral : a.host.IsLiteral := by
      rw [hhost]
      trivial
    have htrimmed : trimmed a.normal = a.normal :=
      trimmed_of_printable fun u hu => (a.normal_units u hu).1
    have hparts : splitParts p a.normal = some (a.normal, (none : Option Nat).elim [] number) :=
      a.splitParts_normal p hliteral
    have hsplit := splitAuthority_of_parts hp htrimmed a.normal_ne_nil a.normal_units hparts
    rw [a.normal_fold] at hsplit
    unfold normalizeAuthority
    simp [hsplit, a.normal_ne_nil]

end Address

theorem Origin.text_not_null (o : Origin) : equalsFolded o.text (qs "null") = false := by
  have hslash : slash ∈ qs "://" := by decide
  have hfold : fold slash = slash := by decide
  have hmem : slash ∈ o.text.map fold := by
    have htext : slash ∈ o.text := mem_append_left _ (mem_append_right _ hslash)
    exact mem_map.mpr ⟨slash, htext, hfold⟩
  unfold equalsFolded
  rw [decide_eq_false_iff_not]
  intro heq
  rw [heq] at hmem
  exact absurd hmem (by decide)

theorem Platform.Ascii.toLower_nil (hp : p.Ascii) : p.toLower [] = [] :=
  hp [] (by simp)

section
variable {o : Origin} {h : Address}

/-- Without `Sec-Fetch-Site` the initiator is told by the normal forms. -/
theorem classifyInitiator_eq (hp : p.Ascii) (ho : o.Read p) {headers : QString → QString}
    (hsite : headers (qs "sec-fetch-site") = []) (horigin : headers (qs "origin") = o.text)
    (hhost : headers (qs "host") = h.text) :
    classifyInitiator p headers =
      if o.address.normal = h.normal then .SameOrigin else .CrossSite := by
  have hnormal : normalizeAuthority p o.text = o.address.normal :=
    Value.normalizeAuthority_text (x := .origin o) hp ho
  have hnormal' : normalizeAuthority p h.text = h.normal :=
    normalizeAuthority_of_split (splitAuthority_address hp h)
  have htrimmed : trimmed o.text = o.text := trimmed_of_printable o.text_printable
  have hempty : trimmed ([] : QString) = [] := rfl
  unfold classifyInitiator
  simp only [hsite, horigin, hhost, hempty, hp.toLower_nil, htrimmed, o.text_not_null,
    if_neg o.text_ne_nil, hnormal, hnormal', if_neg h.normal_ne_nil]
  simp

theorem isWebSocketOriginAllowed_eq (hp : p.Ascii) (ho : o.Read p) :
    isWebSocketOriginAllowed p o.text h.text = decide (o.address.normal = h.normal) := by
  have hnormal : normalizeAuthority p o.text = o.address.normal :=
    Value.normalizeAuthority_text (x := .origin o) hp ho
  have hnormal' : normalizeAuthority p h.text = h.normal :=
    normalizeAuthority_of_split (splitAuthority_address hp h)
  have htrimmed : trimmed o.text = o.text := trimmed_of_printable o.text_printable
  unfold isWebSocketOriginAllowed
  simp only [htrimmed, o.text_not_null, if_neg o.text_ne_nil, hnormal, hnormal',
    if_neg h.normal_ne_nil]
  simp

end

namespace Address
variable (h : Address)

/-- An IPv6 address without a port. -/
def BareLiteral : Prop :=
  h.host.IsLiteral ∧ h.port = none

theorem hostname_text (hbare : ¬ h.BareLiteral) : hostname h.text = h.host.text := by
  unfold text hostname
  cases hport : h.port with
  | some n =>
    rw [portText, lastIdxOf?_cut _ (colon_not_mem_number n)]
    simp [left]
  | none =>
    cases hhost : h.host with
    | name t nonempty units =>
      have hcolon : colon ∉ t := fun hmem => (units _ hmem).2 rfl
      rw [portText, append_nil, Host.text, lastIdxOf?_eq_none hcolon]
    | literal t units colons =>
      refine absurd ⟨?_, hport⟩ hbare
      rw [hhost]
      trivial

theorem unbracketed_text (host : Host) : unbracketed host.text = host.bare := by
  cases host with
  | name t nonempty units =>
    have hhead : t.head? ≠ some opening := by
      intro hopening
      exact (units opening (mem_of_mem_head? hopening)).1.2.1 rfl
    unfold unbracketed
    rw [if_neg fun hboth => hhead hboth.1]
    rfl
  | literal t units colons =>
    have hlast : (opening :: (t ++ [closing])).getLast? = some closing := by
      rw [← cons_append, List.getLast?_concat]
    unfold unbracketed Host.text
    rw [if_pos ⟨rfl, hlast⟩]
    simp [Host.bare]

/-- The redirect cuts an IPv6 address without a port at its last colon. -/
theorem hostname_bareLiteral (hbare : h.BareLiteral) :
    (unbracketed (hostname h.text)).map fold ≠ h.host.lower := by
  obtain ⟨hliteral, hport⟩ := hbare
  cases hhost : h.host with
  | name t nonempty units => simp [hhost, Host.IsLiteral] at hliteral
  | literal t units colons =>
    obtain ⟨before, after, rfl, hafter⟩ :=
      exists_last_cut (count_pos_iff.mp (by omega : 0 < t.count colon))
    have hcut : h.text = (opening :: before) ++ colon :: (after ++ [closing]) := by
      unfold text
      rw [hhost, hport]
      simp [Host.text, portText]
    have hrest : colon ∉ after ++ [closing] := by
      intro hmem
      rcases mem_append.mp hmem with hin | hlast
      · exact hafter hin
      · exact absurd (mem_singleton.mp hlast) (by decide)
    have hname : hostname h.text = opening :: before := by
      unfold hostname
      rw [hcut, lastIdxOf?_cut _ hrest]
      simp [left]
    have hlast : (opening :: before).getLast? ≠ some closing := by
      intro hclosing
      rcases mem_cons.mp (mem_of_mem_getLast? hclosing) with hfirst | hin
      · exact absurd hfirst (by decide)
      · exact (units _ (mem_append_left _ hin)).2.2.1 rfl
    have hkept : unbracketed (opening :: before) = opening :: before := by
      unfold unbracketed
      rw [if_neg fun hboth => hlast hboth.2]
    rw [hname, hkept]
    intro heq
    have hopening : opening ∈ (Host.literal (before ++ colon :: after) units colons).lower := by
      rw [← heq]
      exact mem_map.mpr ⟨opening, mem_cons_self .., by decide⟩
    exact (Host.lower_units _ opening hopening).2.1 rfl

end Address

/-- A text without letters is folded into by itself alone. -/
theorem eq_of_map_fold {t s : QString}
    (hs : ∀ c ∈ s, c < unit 'A' ∨ unit 'Z' < c ∧ c < unit 'a') (h : t.map fold = s) : t = s := by
  induction t generalizing s with
  | nil => exact h
  | cons u t ih =>
    subst h
    have hfirst := (fold_eq_iff (hs _ (mem_cons_self ..))).mp rfl
    have hrest := ih (fun c hc => hs c (mem_cons_of_mem _ hc)) rfl
    rw [map_cons, ← hfirst, ← hrest]

theorem isLoopbackHost_text (h : Address) (hloopback : h.Loopback) :
    isLoopbackHost h.host.text = true := by
  have hlocal : (qs "localhost").map fold = qs "localhost" := by decide
  have hlocalCount : (qs "localhost").count colon = 0 := by decide
  have hfourCount : (qs "127.0.0.1").count colon = 0 := by decide
  have hsixCount : (qs "::1").count colon = 2 := by decide
  unfold isLoopbackHost
  cases hhost : h.host with
  | name t nonempty units =>
    have hname : ¬ h.host.IsLiteral := by
      rw [hhost]
      exact id
    have hcount := h.host.count_name hname
    have hlower : h.host.lower = t.map fold := by
      rw [hhost]
      rfl
    rcases hloopback with hname | hfour | hsix
    · rw [hlower] at hname
      simp [Host.text, equalsFolded, hname, hlocal]
    · rw [hlower] at hfour
      have ht : t = qs "127.0.0.1" :=
        eq_of_map_fold (all_iff_forall_prop.mp (by decide)) hfour
      simp [Host.text, ht]
    · rw [hsix, hsixCount] at hcount
      omega
  | literal t units colons =>
    have hliteral : h.host.IsLiteral := by
      rw [hhost]
      trivial
    have hcount := h.host.two_le_count hliteral
    have hlower : h.host.lower = t.map fold := by
      rw [hhost]
      rfl
    rcases hloopback with hname | hfour | hsix
    · rw [hname, hlocalCount] at hcount
      omega
    · rw [hfour, hfourCount] at hcount
      omega
    · rw [hlower] at hsix
      have ht : t = qs "::1" := eq_of_map_fold (all_iff_forall_prop.mp (by decide)) hsix
      have hbrackets : opening :: (qs "::1" ++ [closing]) = qs "[::1]" := by decide
      simp [Host.text, ht, hbrackets]

theorem not_redirected (h : Address) (hbare : ¬ h.BareLiteral) (hloopback : h.Loopback)
    (c : Connection) : redirects c h.text = false := by
  unfold redirects
  rw [h.hostname_text hbare, isLoopbackHost_text h hloopback]
  simp

/-- The guard is faithful exactly when neither pair of addresses collides, and the `Host`
header is no IPv6 address without a port. -/
theorem guard_faithful_iff (hp : p.Ascii) (x y : Value) (o : Origin) (h : Address) (hx : x.Read p)
    (hy : y.Read p) (ho : o.Read p) :
    Faithful p x y o h ↔
      ¬ Collide x.address y.address ∧ ¬ Collide o.address h ∧ ¬ h.BareLiteral := by
  have hxnormal := Value.normalizeAuthority_text hp hx
  have hynormal := Value.normalizeAuthority_text hp hy
  have hhost := congrArg Authority.host (splitAuthority_address hp h)
  constructor
  · intro hfaithful
    refine ⟨?_, ?_, ?_⟩
    · have hiff := hfaithful.normal_iff
      rw [hxnormal, hynormal] at hiff
      exact (x.address.normal_iff_same y.address).mp hiff
    · intro hcollide
      have hnormal : o.address.normal = h.normal := (Address.normal_eq_iff _ _).mpr (.inr hcollide)
      have hallowed : isWebSocketOriginAllowed p o.text h.text = true := by
        rw [isWebSocketOriginAllowed_eq hp ho]
        exact decide_eq_true hnormal
      exact Address.not_same_of_collide _ _ hcollide (hfaithful.webSocket hallowed)
    · intro hbare
      exact h.hostname_bareLiteral hbare (hfaithful.redirect_host.trans hhost)
  · rintro ⟨hvalues, horigin, hbare⟩
    have hsame : o.address.normal = h.normal → o.address.Same h :=
      ((o.address.normal_iff_same h).mpr horigin).mp
    constructor
    case idempotent =>
      rw [hxnormal]
      exact x.address.normalizeAuthority_normal hp
    case normal_iff =>
      rw [hxnormal, hynormal]
      exact (x.address.normal_iff_same y.address).mpr hvalues
    case initiator =>
      intro headers hsite hheader hhostHeader haccepted
      rw [classifyInitiator_eq hp ho hsite hheader hhostHeader] at haccepted
      by_contra hother
      rw [if_neg (mt hsame hother)] at haccepted
      cases haccepted
    case webSocket =>
      intro hallowed
      rw [isWebSocketOriginAllowed_eq hp ho] at hallowed
      exact hsame (of_decide_eq_true hallowed)
    case redirect_host =>
      rw [hhost, h.hostname_text hbare, Address.unbracketed_text]
      rfl
    case loopback =>
      intro hloopback c
      exact not_redirected h hbare hloopback c

/-- `http://[::1]:8080`. -/
def loopbackOrigin : Origin where
  scheme := .http
  address :=
    ⟨.literal (qs "::1") (all_iff_forall_prop.mp (by decide)) (by decide), some 8080, by simp⟩

/-- `[::1:8080]`. -/
def gluedHost : Address :=
  ⟨.literal (qs "::1:8080") (all_iff_forall_prop.mp (by decide)) (by decide), none, by simp⟩

/-- `localhost:8080`. -/
def localHost : Address :=
  ⟨.name (qs "localhost") (by decide) (all_iff_forall_prop.mp (by decide)), some 8080, by simp⟩

def plainPlatform : Platform where
  toLower := List.map fold
  url v := if v = qs "http://[::1]:8080" then (qs "::1", 8080) else ([], -1)

theorem plainPlatform_ascii : plainPlatform.Ascii :=
  fun _ _ => rfl

theorem loopbackOrigin_read : loopbackOrigin.Read plainPlatform := by
  unfold Origin.Read
  decide

/-- A page from `http://[::1]:8080` passes for one from `[::1:8080]`, and a request to
`[::1]` is redirected. -/
theorem other_origin_accepted :
    isWebSocketOriginAllowed plainPlatform loopbackOrigin.text gluedHost.text = true ∧
      ¬ loopbackOrigin.address.Same gluedHost ∧
      redirects ⟨false, 443, false, fun _ => false⟩ (qs "[::1]") = true ∧
      ∃ p x y o h, p.Ascii ∧ x.Read p ∧ y.Read p ∧ o.Read p ∧ ¬ Faithful p x y o h := by
  have hallowed :
      isWebSocketOriginAllowed plainPlatform loopbackOrigin.text gluedHost.text = true := by
    decide +kernel
  have hother : ¬ loopbackOrigin.address.Same gluedHost := by
    unfold Address.Same
    decide +kernel
  refine ⟨hallowed, hother, by decide +kernel, plainPlatform, .authority gluedHost,
    .authority gluedHost, loopbackOrigin, gluedHost, plainPlatform_ascii, trivial, trivial,
    loopbackOrigin_read, ?_⟩
  intro hfaithful
  exact hother (hfaithful.webSocket hallowed)

theorem guard_faithful_iff_localHost :
    ¬ Faithful plainPlatform (.authority localHost) (.origin loopbackOrigin) loopbackOrigin
        gluedHost ∧
      Faithful plainPlatform (.authority localHost) (.origin loopbackOrigin) loopbackOrigin
        localHost := by
  have hread : (Value.origin loopbackOrigin).Read plainPlatform := loopbackOrigin_read
  constructor
  · intro hfaithful
    have happly := (guard_faithful_iff plainPlatform_ascii (.authority localHost)
      (.origin loopbackOrigin) loopbackOrigin gluedHost trivial hread hread).mp hfaithful
    exact happly.2.1 (.inl ⟨trivial, trivial, by decide, 8080, by decide, by decide⟩)
  · refine (guard_faithful_iff plainPlatform_ascii (.authority localHost) (.origin loopbackOrigin)
      loopbackOrigin localHost trivial hread hread).mpr ⟨?_, ?_, ?_⟩
    · exact fun hcollide => hcollide.elim (fun hglued => hglued.1) (fun hglued => hglued.2.1)
    · exact fun hcollide => hcollide.elim (fun hglued => hglued.2.1) (fun hglued => hglued.1)
    · exact fun hbare => hbare.1

end MoonlightWeb.Server.RequestGuard
