import Mathlib
import MoonlightWeb.Qt.QString

/-! # The certificate and its key

`CertManager` takes a certificate and a private key from the settings, from the environment and
from the PEM files of some directories, the one in a search of its own beside the other. A key
is checked to be one, never to belong to the certificate it is installed with.
-/

namespace MoonlightWeb.Server.CertManager

open Qt QString

structure Certificate (K : Type) where
  commonNames : List QString
  dnsNames : List QString
  publicKey : K
deriving DecidableEq

inductive Algorithm
  | rsa
  | ec

/-- What Qt reads in PEM text, a private key told by its public half, and its comparison of
texts whatever their case. -/
structure Reader (K : Type) where
  certificates : QByteArray → List (Certificate K)
  privateKey : Algorithm → QByteArray → Option K
  same : QString → QString → Bool

/-- The files that open, the `*.pem` files of a directory without and with those below it, in
the order an iterator lists them, and the directory a file is in. -/
structure Disk where
  files : QString → Option QByteArray
  listing : QString → Bool → List QString
  isDir : QString → Bool
  absolutePath : QString → QString

structure SslConfiguration (K : Type) where
  chain : List (Certificate K)
  privateKey : Option K
  verifyPeer : Bool
deriving DecidableEq

/-- The process around the manager. `written` is the self-signed pair, if one can be generated,
and `relisted` the order of the listings after it was written. -/
structure Surroundings (K : Type) where
  env : QString → QByteArray
  embeddedPem : QByteArray
  embeddedKey : QByteArray
  disk : Disk
  candidates : List QString
  appCertDir : QString
  written : Option (QByteArray × QByteArray)
  relisted : QString → Bool → List QString
  defaultConfiguration : SslConfiguration K

structure Manager (K : Type) where
  certPem : QString
  certKey : QString
  domain : QString
  sslConfig : SslConfiguration K

variable {K : Type} (qt : Reader K) (w : Surroundings K) (d : Disk) (m : Manager K)

/-- RSA is tried first. -/
def readKey (data : QByteArray) : Option K :=
  (qt.privateKey .rsa data).or (qt.privateKey .ec data)

def covers (domain name : QString) : Bool :=
  if name = [] then false
  else if (qs "*.").isPrefixOf name then
    let dot := domain.idxOf (unit '.')
    0 < dot && dot < domain.length && qt.same (domain.drop dot) (name.drop 1)
  else qt.same name domain

def certMatchesDomain (cert : Certificate K) (domain : QString) : Bool :=
  domain = [] || cert.commonNames.any (covers qt domain) || cert.dnsNames.any (covers qt domain)

variable (path : QString)

def readCertificates : List (Certificate K) :=
  ((d.files path).map qt.certificates).getD []

def certFileMatchesDomain (domain path : QString) : Bool :=
  match readCertificates qt d path with
  | [] => false
  | leaf :: _ => certMatchesDomain qt leaf domain

def isKeyFile : Bool :=
  !(qs "account_key.pem").isSuffixOf path &&
    match d.files path with
    | none => false
    | some content =>
        decide (QByteArray.ofAscii "PRIVATE KEY" <:+: content) && (readKey qt content).isSome

variable (dir : QString)

def findCert (subdirs : Bool) (domain : QString) : Option QString :=
  (d.listing dir subdirs).find? (certFileMatchesDomain qt d domain)

def scanCertInDir (dir domain : QString) : Option QString := findCert qt d dir true domain

def scanKeyInDir : Option QString := (d.listing dir true).find? (isKeyFile qt d)

def findCertByDomain (domain : QString) : Option QString :=
  (((w.candidates.filter d.isDir).flatMap fun root => d.listing root true).find? fun path =>
    certFileMatchesDomain qt d domain path && (scanKeyInDir qt d (d.absolutePath path)).isSome).map
      d.absolutePath

def findCertDir : Option QString :=
  (if m.domain = [] then none else findCertByDomain qt w d m.domain).or
    (w.candidates.find? fun dir =>
      (scanCertInDir qt d dir []).isSome && (scanKeyInDir qt d dir).isSome)

def orElseEmpty (data other : QByteArray) : QByteArray := if data = [] then other else data

def loadKeyFromEnv : Option K :=
  let data := orElseEmpty (w.env (qs "MW_CERT_KEY")) w.embeddedKey
  if data = [] then none else readKey qt data

def resolvePemValue (value : QString) : QByteArray :=
  if value = [] then [] else orElseEmpty (w.env value) ((d.files value).getD [])

def Manager.install (chain : List (Certificate K)) (key : K) : Manager K :=
  { m with sslConfig :=
    { w.defaultConfiguration with chain, privateKey := some key, verifyPeer := false } }

/-- Root directory before subdirectories, a match before any certificate. -/
def certPath : Option QString :=
  (findCert qt d dir false m.domain).or <| (findCert qt d dir false []).or <|
    (findCert qt d dir true m.domain).or (findCert qt d dir true [])

/-- The key of the first key file in the directory of a certificate and below. -/
def keyBeside : Option K :=
  ((scanKeyInDir qt d (d.absolutePath path)).bind d.files).bind (readKey qt)

def loadCertFiles : Bool × Manager K :=
  match certPath qt d m dir with
  | none => (false, m)
  | some path =>
      match (keyBeside qt d path).or (loadKeyFromEnv qt w) with
      | none => (false, m)
      | some key =>
          match readCertificates qt d path with
          | [] => (false, m)
          | leaf :: chain => (true, m.install w (leaf :: chain) key)

def loadCertFilesExplicit : Bool × Manager K :=
  match (loadKeyFromEnv qt w).or (keyBeside qt d path) with
  | none => (false, m)
  | some key =>
      match readCertificates qt d path with
      | [] => (false, m)
      | leaf :: chain => (true, m.install w (leaf :: chain) key)

/-- What `cert_pem` and `cert_key` resolve to, unless the certificate is for another domain. -/
def sources : Option (Certificate K × List (Certificate K) × K) :=
  let certData := orElseEmpty (resolvePemValue w d m.certPem) w.embeddedPem
  let keyData := orElseEmpty (resolvePemValue w d m.certKey) w.embeddedKey
  if certData = [] ∨ keyData = [] then none
  else
    match qt.certificates certData, readKey qt keyData with
    | leaf :: chain, some key =>
        if m.domain ≠ [] ∧ certMatchesDomain qt leaf m.domain = false then none
        else some (leaf, chain, key)
    | _, _ => none

def Surroundings.generated : Option Disk :=
  w.written.map fun (cert, key) =>
    { w.disk with
      listing := w.relisted
      files := Function.update (Function.update w.disk.files (w.appCertDir ++ qs "key.pem")
        (some key)) (w.appCertDir ++ qs "cert.pem") (some cert) }

def generateSelfSignedCert : Bool × Manager K :=
  match w.generated with
  | none => (false, m)
  | some d => loadCertFiles qt w d m w.appCertDir

def loadCert : Bool × Manager K :=
  match sources qt w w.disk m with
  | some (leaf, chain, key) => (true, m.install w (leaf :: chain) key)
  | none =>
      match findCertDir qt w w.disk m with
      | none => generateSelfSignedCert qt w m
      | some dir =>
          match loadCertFiles qt w w.disk m dir with
          | (true, m) => (true, m)
          | (false, m) => generateSelfSignedCert qt w m

def reloadTls : Bool × Manager K :=
  match sources qt w w.disk m with
  | some (leaf, chain, key) =>
      (true, { m with sslConfig :=
        { m.sslConfig with chain := leaf :: chain, privateKey := some key } })
  | none =>
      match findCertDir qt w w.disk m with
      | none => (false, m)
      | some dir => loadCertFiles qt w w.disk m dir

def SslConfiguration.Paired (c : SslConfiguration K) : Prop :=
  ∃ leaf chain, c.chain = leaf :: chain ∧ c.privateKey = some leaf.publicKey

/-- A loader that answers true installed a pair; one that answers false, nothing. -/
def Loads (r : Bool × Manager K) : Prop :=
  (r.1 = true → r.2.sslConfig.Paired) ∧ (r.1 = false → r.2.sslConfig = m.sslConfig)

/-- The first of a list with a property. -/
def First {α : Type} (l : List α) (p : α → Prop) (a : α) : Prop :=
  ∃ front back, l = front ++ a :: back ∧ p a ∧ ∀ b ∈ front, ¬ p b

/-- The certificate a directory is loaded with: the first one for the domain directly in it,
else the first one in it, else the first one for the domain below, else the first one below. -/
def Picked (dir path : QString) : Prop :=
  let Stage subdirs domain := First (d.listing dir subdirs)
    fun path => certFileMatchesDomain qt d domain path = true
  let Bare subdirs domain := ∀ path ∈ d.listing dir subdirs,
    certFileMatchesDomain qt d domain path = false
  Stage false m.domain path ∨ Bare false m.domain ∧ (Stage false [] path ∨
    Bare false [] ∧ (Stage true m.domain path ∨ Bare true m.domain ∧ Stage true [] path))

/-- The key in the first key file beside a certificate or below. -/
def Beside (key : K) : Prop :=
  ∃ file content, First (d.listing (d.absolutePath path) true)
    (fun file => isKeyFile qt d file = true) file ∧
      d.files file = some content ∧ readKey qt content = some key

def Keyless : Prop :=
  ∀ file ∈ d.listing (d.absolutePath path) true, isKeyFile qt d file = false

/-- The keys that may be installed with a certificate of a directory. -/
def Offered (key : K) : Prop :=
  Beside qt d path key ∨ Keyless qt d path ∧ loadKeyFromEnv qt w = some key

/-- The certificate picked in a directory is offered its own key. -/
def PairedIn : Prop :=
  ∀ path leaf chain key, Picked qt d m dir path →
    readCertificates qt d path = leaf :: chain → Offered qt w d path key → key = leaf.publicKey

def Usable : Prop := ∃ path key, Picked qt d m dir path ∧ Offered qt w d path key

def SourcesPaired : Prop :=
  ∀ leaf chain key, sources qt w w.disk m = some (leaf, chain, key) → key = leaf.publicKey

def ScanPaired : Prop :=
  sources qt w w.disk m = none → ∀ dir, findCertDir qt w w.disk m = some dir →
    PairedIn qt w w.disk m dir

/-- Where nothing else could be loaded, the directory of the pair just written is in order. -/
def GeneratedPaired : Prop :=
  sources qt w w.disk m = none →
    (∀ dir, findCertDir qt w w.disk m = some dir → ¬ Usable qt w w.disk m dir) →
    ∀ d, w.generated = some d → PairedIn qt w d m w.appCertDir

section

variable {qt w d m}

theorem find?_eq_some_iff_first {α : Type} {l : List α} {p : α → Bool} {a : α} :
    l.find? p = some a ↔ First l (fun a => p a = true) a := by
  rw [List.find?_eq_some_iff_append]
  constructor
  · rintro ⟨hp, front, back, rfl, hfront⟩
    exact ⟨front, back, rfl, hp, by simpa using hfront⟩
  · rintro ⟨front, back, rfl, hp, hfront⟩
    exact ⟨hp, front, back, rfl, by simpa using hfront⟩

theorem findCert_eq_none_iff {dir domain : QString} {subdirs : Bool} :
    findCert qt d dir subdirs domain = none ↔
      ∀ path ∈ d.listing dir subdirs, certFileMatchesDomain qt d domain path = false := by
  rw [findCert, List.find?_eq_none]
  simp

theorem certPath_eq_some_iff {dir path : QString} :
    certPath qt d m dir = some path ↔ Picked qt d m dir path := by
  unfold certPath Picked
  simp only [Option.or_eq_some_iff, findCert_eq_none_iff]
  simp only [findCert, find?_eq_some_iff_first]

theorem readKey_of_isKeyFile {file : QString} (h : isKeyFile qt d file = true) :
    ∃ content key, d.files file = some content ∧ readKey qt content = some key := by
  unfold isKeyFile at h
  cases hfile : d.files file with
  | none => simp [hfile] at h
  | some content =>
    simp only [hfile, Bool.and_eq_true] at h
    obtain ⟨key, hkey⟩ := Option.isSome_iff_exists.mp h.2.2
    exact ⟨content, key, rfl, hkey⟩

theorem keyBeside_eq_some_iff {path : QString} {key : K} :
    keyBeside qt d path = some key ↔ Beside qt d path key := by
  unfold keyBeside Beside
  simp only [Option.bind_eq_some_iff, scanKeyInDir, find?_eq_some_iff_first]
  constructor
  · rintro ⟨content, ⟨file, hfirst, hfile⟩, hkey⟩
    exact ⟨file, content, hfirst, hfile, hkey⟩
  · rintro ⟨file, content, hfirst, hfile, hkey⟩
    exact ⟨content, ⟨file, hfirst, hfile⟩, hkey⟩

theorem keyBeside_eq_none_iff {path : QString} :
    keyBeside qt d path = none ↔ Keyless qt d path := by
  have hscan : Keyless qt d path ↔ scanKeyInDir qt d (d.absolutePath path) = none := by
    simp [Keyless, scanKeyInDir, List.find?_eq_none]
  rw [hscan]
  unfold keyBeside
  cases hfound : scanKeyInDir qt d (d.absolutePath path) with
  | none => simp
  | some file =>
    obtain ⟨content, key, hfile, hkey⟩ := readKey_of_isKeyFile (List.find?_some hfound)
    simp [hfile, hkey]

theorem offered_iff {path : QString} {key : K} :
    (keyBeside qt d path).or (loadKeyFromEnv qt w) = some key ↔ Offered qt w d path key := by
  rw [Option.or_eq_some_iff, keyBeside_eq_some_iff, keyBeside_eq_none_iff, Offered]

theorem readCertificates_of_picked {dir path : QString} (h : Picked qt d m dir path) :
    ∃ leaf chain, readCertificates qt d path = leaf :: chain := by
  have hmatches : ∃ domain, certFileMatchesDomain qt d domain path = true := by
    rcases h with h | ⟨-, h | ⟨-, h | ⟨-, h⟩⟩⟩ <;> exact ⟨_, h.choose_spec.choose_spec.2.1⟩
  obtain ⟨domain, hmatches⟩ := hmatches
  cases hread : readCertificates qt d path with
  | nil => simp [certFileMatchesDomain, hread] at hmatches
  | cons leaf chain => exact ⟨leaf, chain, rfl⟩

theorem paired_install {leaf : Certificate K} {chain : List (Certificate K)} {key : K} :
    (m.install w (leaf :: chain) key).sslConfig.Paired ↔ key = leaf.publicKey := by
  simp [SslConfiguration.Paired, Manager.install]

theorem loads_true {m' : Manager K} : Loads m (true, m') ↔ m'.sslConfig.Paired := by
  simp [Loads]

theorem loads_false : Loads m (false, m) := by
  simp [Loads]

variable (qt w d m) in
/-- A directory is loaded from where it is usable, and then with what was picked. -/
theorem loadCertFiles_cases (dir : QString) :
    (¬ Usable qt w d m dir ∧ loadCertFiles qt w d m dir = (false, m)) ∨
      ∃ path leaf chain key, Picked qt d m dir path ∧
        readCertificates qt d path = leaf :: chain ∧ Offered qt w d path key ∧
        loadCertFiles qt w d m dir = (true, m.install w (leaf :: chain) key) := by
  unfold loadCertFiles
  cases hpath : certPath qt d m dir with
  | none =>
    refine Or.inl ⟨?_, rfl⟩
    rintro ⟨path, key, hpicked, -⟩
    rw [← certPath_eq_some_iff, hpath] at hpicked
    cases hpicked
  | some path =>
    have hpicked := certPath_eq_some_iff.mp hpath
    dsimp only
    cases hkey : (keyBeside qt d path).or (loadKeyFromEnv qt w) with
    | none =>
      refine Or.inl ⟨?_, rfl⟩
      rintro ⟨other, key, hother, hoffered⟩
      rw [← certPath_eq_some_iff, hpath] at hother
      cases hother
      rw [← offered_iff, hkey] at hoffered
      cases hoffered
    | some key =>
      obtain ⟨leaf, chain, hread⟩ := readCertificates_of_picked hpicked
      refine Or.inr ⟨path, leaf, chain, key, hpicked, hread, offered_iff.mp hkey, ?_⟩
      simp only [hread]

theorem pairedIn_of_not_usable {dir : QString} (h : ¬ Usable qt w d m dir) :
    PairedIn qt w d m dir :=
  fun path _ _ key hpicked _ hoffered => absurd ⟨path, key, hpicked, hoffered⟩ h

variable (qt w d m) in
theorem loads_loadCertFiles_iff (dir : QString) :
    Loads m (loadCertFiles qt w d m dir) ↔ PairedIn qt w d m dir := by
  rcases loadCertFiles_cases qt w d m dir with
    ⟨husable, heq⟩ | ⟨path, leaf, chain, key, hpicked, hread, hoffered, heq⟩
  · rw [heq]
    exact iff_of_true loads_false (pairedIn_of_not_usable husable)
  · rw [heq, loads_true, paired_install]
    constructor
    · rintro hpair path' leaf' chain' key' hpicked' hread' hoffered'
      obtain rfl : path = path' := Option.some.inj
        ((certPath_eq_some_iff.mpr hpicked).symm.trans (certPath_eq_some_iff.mpr hpicked'))
      obtain rfl : key = key' := Option.some.inj
        ((offered_iff.mpr hoffered).symm.trans (offered_iff.mpr hoffered'))
      obtain ⟨rfl, rfl⟩ := List.cons.inj (hread.symm.trans hread')
      exact hpair
    · exact fun h => h path leaf chain key hpicked hread hoffered

theorem loads_generateSelfSignedCert_iff :
    Loads m (generateSelfSignedCert qt w m) ↔
      ∀ d, w.generated = some d → PairedIn qt w d m w.appCertDir := by
  unfold generateSelfSignedCert
  cases w.generated with
  | none => exact iff_of_true loads_false (by simp)
  | some d => simp [loads_loadCertFiles_iff]

end

/-- PEM text of one line, whose last byte tells the key. -/
def oneLine : Reader UInt8 where
  certificates data :=
    if (QByteArray.ofAscii "CERTIFICATE").isPrefixOf data then [⟨[], [], data.getLastD 0⟩] else []
  privateKey _ data :=
    if (QByteArray.ofAscii "PRIVATE KEY").isPrefixOf data then some (data.getLastD 0) else none
  same := fun a b => a == b

/-- A certificate dropped in beside the self-signed pair, whose key is listed first. -/
def besideLocal : Surroundings UInt8 where
  env _ := []
  embeddedPem := []
  embeddedKey := []
  disk :=
    { files := fun path =>
        if path = qs "local-key.pem" then some (QByteArray.ofAscii "PRIVATE KEY 2")
        else if path = qs "fullchain.pem" then some (QByteArray.ofAscii "CERTIFICATE 1")
        else if path = qs "privkey.pem" then some (QByteArray.ofAscii "PRIVATE KEY 1")
        else if path = qs "local-cert.pem" then some (QByteArray.ofAscii "CERTIFICATE 2")
        else none
      listing := fun _ _ =>
        [qs "local-key.pem", qs "fullchain.pem", qs "privkey.pem", qs "local-cert.pem"]
      isDir := fun _ => true
      absolutePath := fun _ => qs "/cert" }
  candidates := [qs "/cert"]
  appCertDir := qs "/cert/"
  written := none
  relisted _ _ := []
  defaultConfiguration := ⟨[], none, true⟩

def unset : Manager UInt8 := ⟨[], [], [], ⟨[], none, true⟩⟩

end MoonlightWeb.Server.CertManager
