import MoonlightWeb.Qt.Ascii
import MoonlightWeb.Qt.Json

/-! # What a release payload is turned into

`UpdateChecker::applyResult`: from a release, as GitHub or the update relay answers it, the
version, the asset for this machine and the URLs. A payload of the relay is refused when the
URL of its download is off GitHub.
-/

namespace MoonlightWeb.Network.UpdateChecker

open Qt QString

/-- What `QUrl` reads in a text. -/
structure QUrl where
  scheme : QString
  host : QString
  path : QString
deriving DecidableEq

/-- What the machine and Qt are asked: the URL in a text, lower case, which characters are
decimal digits, and the endings of the assets this machine installs, the best first. -/
structure Platform where
  url : QString → QUrl
  toLower : QString → QString
  isDigit : UInt16 → Bool
  wanted : List QString

variable (p : Platform)

def isGitHubUrl (url : QString) : Bool :=
  if url = [] then false
  else
    let u := p.url url
    if u.scheme ≠ qs "https" then false
    else
      let host := p.toLower u.host
      host = qs "github.com" || (qs ".github.com").isSuffixOf host ||
        host = qs "objects.githubusercontent.com" || (qs ".githubusercontent.com").isSuffixOf host

/-- `toInt` of digits: other scripts' and what does not fit are 0. -/
def toInt (num : QString) : Nat :=
  if num.all (fun u => decide (QString.isDigit u)) ∧ value num ≤ 2147483647 then value num else 0

/-- `mid(1)` after a leading v. -/
def withoutV (s : QString) : QString :=
  if s.head? = some (unit 'v') ∨ s.head? = some (unit 'V') then s.drop 1 else s

/-- The numbers of a dotted version, each up to its first character that is no digit. -/
def parse (s : QString) : List Nat :=
  ((withoutV (trimmed s)).splitOn (unit '.')).map fun part => toInt (part.takeWhile p.isDigit)

def newer : List Nat → List Nat → Bool
  | [], [] => false
  | a :: as, [] => if a ≠ 0 then true else newer as []
  | [], b :: bs => if b ≠ 0 then false else newer [] bs
  | a :: as, b :: bs => if a ≠ b then decide (b < a) else newer as bs

def isNewer (latest current : QString) : Bool :=
  let a := parse p latest
  let b := parse p current
  if a.isEmpty then false
  else if b.all (fun v => v = 0) then false
  else newer a b

structure Picked where
  url : QString := []
  name : QString := []
  size : Int := 0
  digest : QString := []

/-- `endsWith(suffix, Qt::CaseInsensitive)`. -/
def endsWithFolded (name suffix : QString) : Bool := (suffix.map fold).isSuffixOf (name.map fold)

def assetName (v : QJsonValue) : QString := (v.toObject.value "name").toString

/-- The first asset with the ending. -/
def withSuffix (assets : List QJsonValue) (suffix : QString) : Option QJsonValue :=
  assets.find? fun v => endsWithFolded (assetName v) suffix

def pickAsset (assets : List QJsonValue) : Picked :=
  match p.wanted.findSome? (withSuffix assets) with
  | some v =>
      { url := (v.toObject.value "browser_download_url").toString
        name := assetName v
        size := (v.toObject.value "size").toInt64 0
        digest := (v.toObject.value "digest").toString }
  | none => {}

structure Checker where
  current : QString
  /-- `m_lastCheck` in the ISO format. -/
  lastCheck : QString
  result : QJsonObject

def releaseUrl (release : QJsonObject) : QString := (release.value "html_url").toString

/-- The URL of the asset, or of the page where there is none. -/
def downloadUrl (release : QJsonObject) : QString :=
  let picked := pickAsset p (release.value "assets").toArray
  if picked.url = [] then releaseUrl release else picked.url

/-- The release as it is stored, and whether it was accepted. -/
def applyResult (release : QJsonObject) (viaRelay : Bool) (c : Checker) :
    Bool × Checker :=
  let latest := withoutV (release.value "tag_name").toString
  let available := isNewer p latest c.current
  let picked := pickAsset p (release.value "assets").toArray
  if viaRelay && !isGitHubUrl p (downloadUrl p release) then (false, c)
  else
    (true, { c with
      result :=
        [(qs "current", .string c.current), (qs "latest", .string latest),
          (qs "update_available", .bool available),
          (qs "download_url", .string (downloadUrl p release)),
          (qs "release_url", .string (releaseUrl release)),
          (qs "asset_name", .string picked.name), (qs "asset_size", .number picked.size),
          (qs "asset_digest", .string picked.digest),
          (qs "checked_at", .string c.lastCheck)] })

/-- A piece of a path that stands for itself. -/
def IsSegment (s : QString) : Prop := s ≠ [] ∧ s ≠ qs "." ∧ s ≠ qs ".." ∧ unit '/' ∉ s

/-- The URL is of the project's releases on GitHub. -/
def InRepository (url kind rest : QString) : Prop :=
  (p.url url).scheme = qs "https" ∧ p.toLower (p.url url).host = qs "github.com" ∧
    (p.url url).path = qs "/BreadEpic/AllShareStreaming/releases/" ++ kind ++ unit '/' :: rest

def NamesAsset (url : QString) : Prop :=
  ∃ tag name, IsSegment tag ∧ IsSegment name ∧
    InRepository p url (qs "download") (tag ++ unit '/' :: name)

def NamesPage (url : QString) : Prop :=
  ∃ tag, IsSegment tag ∧ InRepository p url (qs "tag") tag

/-- The relay has no say in what is installed: what is accepted downloads an asset of the
project's releases, or their page, and shows a page on GitHub; what is refused changes
nothing. -/
structure Pinned (p : Platform) (release : QJsonObject) (c : Checker) : Prop where
  download : (applyResult p release true c).1 = true →
    isGitHubUrl p ((applyResult p release true c).2.result.value "download_url").toString = true
  own : (applyResult p release true c).1 = true →
    NamesAsset p ((applyResult p release true c).2.result.value "download_url").toString ∨
    (pickAsset p (release.value "assets").toArray).url = [] ∧
      NamesPage p ((applyResult p release true c).2.result.value "download_url").toString
  page : (applyResult p release true c).1 = true →
    isGitHubUrl p ((applyResult p release true c).2.result.value "release_url").toString = true
  refused : (applyResult p release true c).1 = false → (applyResult p release true c).2 = c

section

variable {p : Platform} {release : QJsonObject} {c : Checker}

theorem applyResult_refused (h : isGitHubUrl p (downloadUrl p release) = false) :
    applyResult p release true c = (false, c) := by
  simp [applyResult, h]

theorem applyResult_accepted (h : isGitHubUrl p (downloadUrl p release) = true) :
    (applyResult p release true c).1 = true ∧
    ((applyResult p release true c).2.result.value "download_url").toString =
      downloadUrl p release ∧
    ((applyResult p release true c).2.result.value "release_url").toString =
      releaseUrl release := by
  have hcurrent : qs "current" ≠ qs "download_url" ∧ qs "current" ≠ qs "release_url" := by decide
  have hlatest : qs "latest" ≠ qs "download_url" ∧ qs "latest" ≠ qs "release_url" := by decide
  have havailable : qs "update_available" ≠ qs "download_url" ∧
      qs "update_available" ≠ qs "release_url" := by decide
  have hdownload : qs "download_url" ≠ qs "release_url" := by decide
  simp [applyResult, h, QJsonObject.value, hcurrent, hlatest, havailable,
    hdownload, QJsonValue.toString]

end

def plainUrl (url : QString) : QUrl :=
  { scheme := url.takeWhile (· ≠ unit ':')
    host := ((url.dropWhile (· ≠ unit ':')).drop 3).takeWhile (· ≠ unit '/')
    path := ((url.dropWhile (· ≠ unit ':')).drop 3).dropWhile (· ≠ unit '/') }

def debian : Platform :=
  { url := plainUrl
    toLower := fun s => s.map fold
    isDigit := fun u => decide (QString.isDigit u)
    wanted := [qs ".deb", qs ".AppImage", qs ".rpm"] }

/-- A relay's answer: a newer version, with an installer from a repository of its own. -/
def foreignRelease : QJsonObject :=
  [(qs "tag_name", .string (qs "v9.9.9")),
    (qs "html_url", .string (qs "https://github.com/evil/evil/releases/tag/v9")),
    (qs "assets", .array [.object
      [(qs "name", .string (qs "x-linux-x64.deb")),
        (qs "browser_download_url",
          .string (qs "https://github.com/evil/evil/releases/download/v9/x.deb"))]])]

def checker : Checker := { current := qs "1.0.0", lastCheck := [], result := [] }

end MoonlightWeb.Network.UpdateChecker
