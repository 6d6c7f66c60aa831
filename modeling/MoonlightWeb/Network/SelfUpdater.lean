import Mathlib
import MoonlightWeb.Lib.Run

/-! # The self-updater

`SelfUpdater` downloads the installer of a release, checks it, runs it and waits to be
replaced. What an attempt leaves behind (replies, timers, the subscription to a re-check,
the installer's process) goes on to call the same members as the next attempt's. The
percentage, the log and the texts of commands are not part of the model; writes to the
staged file succeed, and names and digests are read as ASCII.
-/

namespace MoonlightWeb.Network.SelfUpdater

open Lib

abbrev Bytes := List UInt8

/-- What `UpdateChecker::statusJson` says when a download begins. -/
structure Info where
  updateAvailable : Bool
  assetName : String
  downloadUrl : String
  latest : String
  assetSize : Int
  assetDigest : String
deriving DecidableEq, Repr

structure Found where
  info : Info
  mkpath : Bool
  opens : Bool
deriving DecidableEq, Repr

/-- What a finished download finds: whether the staged file can be read again, and how the
launch of the installer goes; `taskError` is empty where the task runs. -/
structure Launching where
  errorString : String
  rereads : Bool
  taskError : String
  starts : Bool
deriving DecidableEq, Repr

inductive Platform
  | windows
  | macos
  | linux
deriving DecidableEq, Repr

/-- The machine: its platform, the way to elevate (`elevationMethod`, found once) and the
staging directory. -/
structure Host where
  platform : Platform
  elevationMethod : String
  stagingDir : String
deriving DecidableEq, Repr

inductive State
  | idle
  | downloading
  | installing
  | restarting
  | failed
deriving DecidableEq, Repr

def State.active : State → Bool
  | .downloading => true
  | .installing => true
  | .restarting => true
  | _ => false

/-- A reply of the network: the attempt and the metadata it was asked for with, the bytes
that came, those not read yet, and whether it finished, without an error. -/
structure Download where
  id : Nat
  attempt : Nat
  info : Info
  received : Bytes
  unread : Bytes
  finished : Option Bool
deriving DecidableEq, Repr

namespace Download

def receive (bytes : Bytes) (d : Download) : Download :=
  { d with received := d.received ++ bytes, unread := d.unread ++ bytes }

def read (d : Download) : Download := { d with unread := [] }

def finish (ok : Bool) (d : Download) : Download := { d with finished := some ok }

end Download

/-- An installer that was launched, the staged file as it was then, and its download. -/
structure Launch where
  attempt : Nat
  file : Option Bytes
  download : Download
deriving DecidableEq, Repr

/-- An object that a timer, a subscription or a process is, and the attempt it is of. -/
structure Owned where
  id : Nat
  attempt : Nat
  /-- The message a guard or a subscription was made with. -/
  reason : String
deriving DecidableEq, Repr

/-- The updater and the objects it made. `attempt` counts the starts that were accepted;
`replies`, `watchdogs`, `guards`, `waits` and `installers` are the objects that can still
call; `crashed`: a null pointer was followed. -/
structure Updater where
  attempt : Nat
  state : State
  error : String
  target : String
  method : String
  pkgPath : String
  expectedSize : Int
  expectedDigest : String
  recheckDone : Bool
  reply : Option Nat
  file : Option String
  watchdog : Option Nat
  recheckGuard : Option Nat
  recheckWait : Option Nat
  objects : Nat
  replies : List Download
  watchdogs : List Owned
  guards : List Owned
  waits : List Owned
  installers : List Owned
  disk : String → Option Bytes
  launches : List Launch
  crashed : Bool

def lower (s : List Char) : List Char := s.map Char.toLower

def trimmed (s : List Char) : List Char :=
  ((s.dropWhile Char.isWhitespace).reverse.dropWhile Char.isWhitespace).reverse

/-- The sha256 that a published digest gives, if it gives one. -/
def publishedSha256 (digest : String) : Option String :=
  if lower (digest.toList.take 7) = "sha256:".toList then
    if lower (trimmed (digest.toList.drop 7)) = [] then none
    else some (String.ofList (lower (trimmed (digest.toList.drop 7))))
  else none

def left (s : String) (n : Nat) : String := String.ofList (s.toList.take n)

/-- `QFileInfo(name).fileName()`. -/
def fileName (name : String) : String :=
  String.ofList (name.toList.reverse.takeWhile (· ≠ '/')).reverse

def endsWith (s suffix : String) : Bool := lower suffix.toList <:+ lower s.toList

namespace Host

variable (host : Host)

def stagedFileName (assetName : String) : String :=
  if host.platform = .windows then "MoonlightWeb-update.exe"
  else if fileName assetName = "" then "MoonlightWeb-update"
  else fileName assetName

end Host

namespace Updater

/-- The updater of a new process, whose staging directory was cleared. -/
def initial : Updater where
  attempt := 0
  state := .idle
  error := ""
  target := ""
  method := ""
  pkgPath := ""
  expectedSize := 0
  expectedDigest := ""
  recheckDone := false
  reply := none
  file := none
  watchdog := none
  recheckGuard := none
  recheckWait := none
  objects := 0
  replies := []
  watchdogs := []
  guards := []
  waits := []
  installers := []
  disk := fun _ => none
  launches := []
  crashed := false

variable (u : Updater)

/-- The objects without one that is stopped or deleted. -/
def dropped (objects : List Owned) (id : Option Nat) : List Owned :=
  objects.filter fun o => some o.id ≠ id

def crash : Updater := { u with crashed := true }

/-- `QFile::remove(m_pkgPath)`. -/
def remove (disk : String → Option Bytes) (path : String) : String → Option Bytes :=
  Function.update disk path none

def write (disk : String → Option Bytes) (path : String) (bytes : Bytes) :
    String → Option Bytes :=
  Function.update disk path (some ((disk path).getD [] ++ bytes))

def fail (message : String) (dropStaged : Bool) : Updater :=
  { u with
    watchdogs := dropped u.watchdogs u.watchdog
    watchdog := none
    file := none
    disk := if dropStaged then remove u.disk u.pkgPath else u.disk
    state := .failed
    error := message }

/-- The staged file is made anew and the reply asked for. -/
def fetch (path : String) (info : Info) : Updater :=
  { u with
    pkgPath := path
    file := some path
    disk := Function.update u.disk path (some [])
    target := info.latest
    expectedSize := info.assetSize
    expectedDigest := info.assetDigest
    error := ""
    state := .downloading
    reply := some u.objects
    objects := u.objects + 1
    replies := u.replies ++ [⟨u.objects, u.attempt, info, [], [], none⟩] }

/-- The updater and the error, empty on success. -/
def beginDownload (host : Host) (found : Found) : Updater × String :=
  if !found.info.updateAvailable then (u, "No update available")
  else if found.info.assetName = "" ∨ found.info.downloadUrl = "" then
    (u, "No installer published for this platform")
  else if !found.mkpath then (u, "Cannot create the update staging directory")
  else if !found.opens then
    ({ u with
        pkgPath := host.stagingDir ++ "/" ++ host.stagedFileName found.info.assetName
        disk := remove u.disk (host.stagingDir ++ "/" ++ host.stagedFileName found.info.assetName)
        file := none },
      "Cannot write to the update staging directory")
  else
    (u.fetch (host.stagingDir ++ "/" ++ host.stagedFileName found.info.assetName) found.info, "")

/-- What a start sets before its download begins. -/
def starting (host : Host) : Updater :=
  { u with method := host.elevationMethod, recheckDone := false, attempt := u.attempt + 1 }

/-- A start that is accepted is an attempt. The answer is the error, empty on success. -/
def start (host : Host) (found : Found) : Updater × String :=
  if u.state = .downloading ∨ u.state = .installing ∨ u.state = .restarting then
    (u, "An update is already in progress")
  else if host.elevationMethod = "" then
    (u, "This platform has no unattended update path — update MoonlightWeb on the host manually")
  else if ((u.starting host).beginDownload host found).2 = "" then
    (u.starting host).beginDownload host found
  else
    ({ ((u.starting host).beginDownload host found).1 with attempt := u.attempt },
      ((u.starting host).beginDownload host found).2)

variable (id : Nat)

def findReply : Option Download := u.replies.find? fun d => d.id = id

def changeReply (f : Download → Download) : Updater :=
  { u with replies := u.replies.map fun d => if d.id = id then f d else d }

/-- The slot on `readyRead`, which reads from `m_reply`. -/
def onReadyRead : Updater :=
  match u.file with
  | none => u
  | some path =>
      match u.reply.bind u.findReply with
      | none => u.crash
      | some d =>
          { u.changeReply d.id Download.read with disk := write u.disk path d.unread }

/-- Bytes of a reply that has not finished. -/
def data (bytes : Bytes) : Updater :=
  match u.findReply id with
  | none => u
  | some d =>
      if d.finished ≠ none then u
      else (u.changeReply id (Download.receive bytes)).onReadyRead

def armWatchdog : Updater :=
  { u with
    watchdog := some u.objects
    watchdogs := u.watchdogs ++ [⟨u.objects, u.attempt, ""⟩]
    objects := u.objects + 1 }

variable (d : Download)

/-- The installer runs. -/
def launched : Updater :=
  { u with
    launches := u.launches ++ [⟨u.attempt, u.disk u.pkgPath, d⟩]
    state := .restarting }

def restart : Updater := (u.launched d).armWatchdog

/-- The installer's process, which reports its exit. -/
def track : Updater :=
  { u with
    installers := u.installers ++ [⟨u.objects, u.attempt, ""⟩]
    objects := u.objects + 1 }

def runInstaller (host : Host) (launching : Launching) (d : Download) : Updater :=
  match host.platform with
  | .windows =>
      if u.method = "service" then
        if launching.taskError ≠ "" then u.fail launching.taskError true else u.restart d
      else if launching.starts then u.track.restart d
      else u.fail ("Could not launch the installer: " ++ launching.errorString) true
  | .macos =>
      if launching.starts then u.restart d else u.fail "Could not launch the installer" true
  | .linux =>
      if u.method ≠ "appimage" ∧ !endsWith u.pkgPath ".deb" ∧ !endsWith u.pkgPath ".rpm" then
        u.fail "Unsupported package type for an unattended update" true
      else if launching.starts then u.restart d
      else u.fail "Could not launch the installer" true

def waitForCheck (reason : String) : Updater :=
  { u with
    recheckDone := true
    recheckGuard := some u.objects
    guards := u.guards ++ [⟨u.objects, u.attempt, reason⟩]
    recheckWait := some (u.objects + 1)
    waits := u.waits ++ [⟨u.objects + 1, u.attempt, reason⟩]
    objects := u.objects + 2 }

/-- `retryOnStaleMetadata`, and the failure where it does not retry. -/
def retryOr (reason message : String) : Updater :=
  if u.recheckDone then u.fail message true else u.waitForCheck reason

/-- Empty when the staged file has the published sha256, or none is published. -/
def verifyDigest (sha256 : Bytes → String) (rereads : Bool) : String :=
  match publishedSha256 u.expectedDigest with
  | none => ""
  | some want =>
      match u.disk u.pkgPath with
      | none => "Cannot re-read the downloaded installer to verify it"
      | some bytes =>
          if !rereads then "Could not hash the downloaded installer"
          else if sha256 bytes ≠ want then
            "Downloaded installer does not match the published sha256 (" ++
              left (sha256 bytes) 12 ++ " vs " ++ left want 12 ++ ") — try again"
          else ""

def stagedSize : Int :=
  match u.file with
  | none => 0
  | some path => ((u.disk path).getD []).length

/-- The checks on a download that ended without an error. -/
def accept (host : Host) (sha256 : Bytes → String) (launching : Launching) (d : Download)
    (size : Int) : Updater :=
  if u.expectedSize > 0 ∧ size ≠ u.expectedSize then
    u.retryOr
      ("Downloaded installer is " ++ toString size ++ " bytes, expected " ++
        toString u.expectedSize)
      ("Downloaded installer is " ++ toString size ++ " bytes, expected " ++
        toString u.expectedSize ++ " — the published asset does not match what this download " ++
        "produced; install it manually from the releases page")
  else if u.expectedSize ≤ 0 ∧ size < 1024 * 1024 then
    u.fail ("Downloaded installer looks truncated (" ++ toString size ++ " bytes)") true
  else if u.verifyDigest sha256 launching.rereads ≠ "" then
    u.retryOr (u.verifyDigest sha256 launching.rereads) (u.verifyDigest sha256 launching.rereads)
  else { u with state := .installing }.runInstaller host launching d

/-- The rest of the reply is written and the file closed. -/
def drain : Updater :=
  match u.file with
  | none => u
  | some path => { u with disk := write u.disk path d.unread }

/-- `m_reply` is taken and deleted, whichever reply has finished. -/
def takeReply : Updater :=
  { u with reply := none, replies := u.replies.filter fun other => other.id ≠ d.id }.drain d

def onDownloadFinished (host : Host) (sha256 : Bytes → String) (launching : Launching) :
    Updater :=
  match u.reply.bind u.findReply with
  | none => u.crash
  | some d =>
      if d.finished = some false then
        (u.takeReply d).fail ("Download failed: " ++ launching.errorString) true
      else
        { u.takeReply d with file := none }.accept host sha256 launching d
          (u.takeReply d).stagedSize

/-- A reply finishes; `ok`: without an error. -/
def finish (host : Host) (sha256 : Bytes → String) (id : Nat) (ok : Bool)
    (launching : Launching) : Updater :=
  match u.findReply id with
  | none => u
  | some d =>
      if d.finished ≠ none then u
      else (u.changeReply id (Download.finish ok)).onDownloadFinished host sha256 launching

/-- The guard's slot: it drops the subscription, and the guard that is known. -/
def onGuard (reason : String) : Updater :=
  match u.recheckGuard with
  | none => u.crash
  | some g =>
      { u with
        waits := dropped u.waits u.recheckWait
        guards := dropped u.guards (some g)
        recheckGuard := none }.fail
          (reason ++ " — and the release could not be re-checked; try again") true

def guardTimeout : Updater :=
  match u.guards.find? fun o => o.id = id with
  | none => u
  | some o => { u with guards := dropped u.guards (some id) }.onGuard o.reason

def stopGuard (g : Nat) : Updater :=
  { u with guards := dropped u.guards (some g), recheckGuard := none }

/-- The slot on `checkFinished`. -/
def onChecked (host : Host) (found : Found) (reason : String) : Updater :=
  match u.recheckGuard with
  | none => u.crash
  | some g =>
      if ((u.stopGuard g).beginDownload host found).2 = "" then
        ((u.stopGuard g).beginDownload host found).1
      else
        ((u.stopGuard g).beginDownload host found).1.fail
          (reason ++ " — " ++ ((u.stopGuard g).beginDownload host found).2) true

/-- Every subscription is called, once. -/
def checkFinished (host : Host) (found : Found) : Updater :=
  u.waits.foldl (fun u o => if u.crashed then u else u.onChecked host found o.reason)
    { u with waits := [] }

def watchdogTimeout : Updater :=
  match u.watchdogs.find? fun o => o.id = id with
  | none => u
  | some _ =>
      { u with watchdogs := dropped u.watchdogs (some id) }.fail
        ("The installer did not go through — MoonlightWeb is still running the old version. " ++
          "Check the host PC.") false

def onInstallerFinished (exitCode : Int) (crashed : Bool) : Updater :=
  if crashed then u.fail "The installer crashed before applying the update" true
  else if exitCode ≠ 0 then
    u.fail ("The installer exited with code " ++ toString exitCode ++
      " without applying the update") true
  else u

def exited (exitCode : Int) (crashed : Bool) : Updater :=
  match u.installers.find? fun o => o.id = id with
  | none => u
  | some _ =>
      { u with installers := dropped u.installers (some id) }.onInstallerFinished exitCode crashed

end Updater

inductive Event
  | start (found : Found)
  | data (reply : Nat) (bytes : Bytes)
  | finish (reply : Nat) (ok : Bool) (launching : Launching)
  | checkFinished (found : Found)
  | guardTimeout (id : Nat)
  | watchdogTimeout (id : Nat)
  | exited (id : Nat) (exitCode : Int) (crashed : Bool)

namespace Updater

def next (host : Host) (sha256 : Bytes → String) (u : Updater) (e : Event) : Updater :=
  if u.crashed then u
  else
    match e with
    | .start found => (u.start host found).1
    | .data reply bytes => u.data reply bytes
    | .finish reply ok launching => u.finish host sha256 reply ok launching
    | .checkFinished found => u.checkFinished host found
    | .guardTimeout id => u.guardTimeout id
    | .watchdogTimeout id => u.watchdogTimeout id
    | .exited id exitCode crashed => u.exited id exitCode crashed

end Updater

/-- The installer ran on the whole of what its own attempt downloaded, of the size and the
sha256 that the metadata of the download publishes. -/
structure Launch.Sound (sha256 : Bytes → String) (l : Launch) : Prop where
  complete : l.download.finished = some true ∧ l.file = some l.download.received
  own : l.download.attempt = l.attempt
  size : 0 < l.download.info.assetSize → (l.download.received.length : Int) =
    l.download.info.assetSize
  digest : ∀ want, publishedSha256 l.download.info.assetDigest = some want →
    sha256 l.download.received = want

/-- An event of an object that an attempt made. -/
def Event.Of (u : Updater) (k : Nat) : Event → Prop
  | .start _ => False
  | .data reply _ => ∃ d ∈ u.replies, d.id = reply ∧ d.attempt = k
  | .finish reply _ _ => ∃ d ∈ u.replies, d.id = reply ∧ d.attempt = k
  | .checkFinished _ => ∃ o ∈ u.waits, o.attempt = k
  | .guardTimeout id => ∃ o ∈ u.guards, o.id = id ∧ o.attempt = k
  | .watchdogTimeout id => ∃ o ∈ u.watchdogs, o.id = id ∧ o.attempt = k
  | .exited id _ _ => ∃ o ∈ u.installers, o.id = id ∧ o.attempt = k

namespace Updater

/-- What still downloads, waits or watches is of the attempt that is active. -/
structure Single (u : Updater) : Prop where
  replies : ∀ d ∈ u.replies, d.attempt = u.attempt ∧ u.state.active = true
  watchdogs : ∀ o ∈ u.watchdogs, o.attempt = u.attempt ∧ u.state.active = true
  guards : ∀ o ∈ u.guards, o.attempt = u.attempt ∧ u.state.active = true
  waits : ∀ o ∈ u.waits, o.attempt = u.attempt ∧ u.state.active = true

/-- Attempts come one at a time and leave each other alone. -/
structure Separate (host : Host) (sha256 : Bytes → String) (u : Updater) (e : Event)
    (u' : Updater) : Prop where
  launches : ∀ l ∈ u'.launches, l.Sound sha256
  single : u'.Single
  refused : ∀ found, e = .start found → u.state.active = true →
    u' = u ∧ (u.start host found).2 = "An update is already in progress"
  ended : ∀ k, e.Of u k → k < u.attempt →
    u'.state = u.state ∧ u'.disk = u.disk ∧ u'.error = u.error ∧ u'.attempt = u.attempt

/-- The installer of an ended attempt exits without an error, once a later one began. -/
def Clean (u : Updater) (e : Event) (_ : Updater) : Prop :=
  match e with
  | .exited id exitCode crashed => ∀ o ∈ u.installers, o.id = id → o.attempt < u.attempt →
      exitCode = 0 ∧ crashed = false
  | _ => True

end Updater

end MoonlightWeb.Network.SelfUpdater
