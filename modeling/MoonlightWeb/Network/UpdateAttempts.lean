import MoonlightWeb.Network.SelfUpdater

/-! # Attempts of the self-updater

At each moment an attempt rests, downloads, waits for a re-check or waits to be replaced, and
what can still call the updater belongs to that. Only the process of an installer outlives
its attempt: while the installers of ended attempts exit without an error, attempts leave
each other alone along every run.
-/

namespace MoonlightWeb.Network.SelfUpdater

open Lib Download

namespace Updater

/-- No download and no re-check is under way. -/
structure Settled (u : Updater) : Prop where
  replies : u.replies = []
  guards : u.guards = []
  waits : u.waits = []

structure Resting (u : Updater) : Prop where
  settled : u.Settled
  watchdogs : u.watchdogs = []
  state : u.state.active = false

/-- What came of the download is in the staged file, or still to be read. -/
structure Fetching (u : Updater) (d : Download) : Prop where
  replies : u.replies = [d]
  guards : u.guards = []
  waits : u.waits = []
  watchdogs : u.watchdogs = []
  state : u.state = .downloading
  reply : u.reply = some d.id
  unfinished : d.finished = none
  current : d.attempt = u.attempt
  file : u.file = some u.pkgPath
  staged : ∃ bytes, u.disk u.pkgPath = some bytes ∧ bytes ++ d.unread = d.received
  size : u.expectedSize = d.info.assetSize
  digest : u.expectedDigest = d.info.assetDigest
  earlier : ∀ o ∈ u.installers, o.attempt < u.attempt

structure Rechecking (u : Updater) (g w : Owned) : Prop where
  replies : u.replies = []
  guards : u.guards = [g]
  waits : u.waits = [w]
  watchdogs : u.watchdogs = []
  state : u.state = .downloading
  guard : u.recheckGuard = some g.id
  wait : u.recheckWait = some w.id
  current : g.attempt = u.attempt ∧ w.attempt = u.attempt
  earlier : ∀ o ∈ u.installers, o.attempt < u.attempt

structure Restarting (u : Updater) (o : Owned) : Prop where
  settled : u.Settled
  watchdogs : u.watchdogs = [o]
  state : u.state = .restarting
  watchdog : u.watchdog = some o.id
  current : o.attempt = u.attempt

inductive Phase (u : Updater) : Prop
  | rest (h : u.Resting)
  | fetch (d : Download) (h : u.Fetching d)
  | recheck (g w : Owned) (h : u.Rechecking g w)
  | restart (o : Owned) (h : u.Restarting o)

structure Inv (sha256 : Bytes → String) (u : Updater) : Prop where
  alive : u.crashed = false
  phase : u.Phase
  installers : ∀ o ∈ u.installers, o.attempt ≤ u.attempt
  launches : ∀ l ∈ u.launches, l.Sound sha256

structure Between (sha256 : Bytes → String) (u : Updater) : Prop where
  alive : u.crashed = false
  settled : u.Settled
  watched : ∀ o ∈ u.watchdogs, some o.id = u.watchdog
  installers : ∀ o ∈ u.installers, o.attempt ≤ u.attempt
  launches : ∀ l ∈ u.launches, l.Sound sha256

variable {sha256 : Bytes → String} {u : Updater} {d : Download} {host : Host}

theorem inv_initial : Inv sha256 initial where
  alive := rfl
  phase := .rest ⟨⟨rfl, rfl, rfl⟩, rfl, rfl⟩
  installers := by
    intro o ho
    cases ho
  launches := by
    intro l hl
    cases hl

theorem Inv.single (h : Inv sha256 u) : u.Single := by
  cases h.phase with
  | rest hr =>
    exact ⟨by simp [hr.settled.replies], by simp [hr.watchdogs], by simp [hr.settled.guards],
      by simp [hr.settled.waits]⟩
  | fetch d hf =>
    exact ⟨by simp [hf.replies, hf.current, hf.state, State.active], by simp [hf.watchdogs],
      by simp [hf.guards], by simp [hf.waits]⟩
  | recheck g w hr =>
    exact ⟨by simp [hr.replies], by simp [hr.watchdogs],
      by simp [hr.guards, hr.current.1, hr.state, State.active],
      by simp [hr.waits, hr.current.2, hr.state, State.active]⟩
  | restart o hr =>
    exact ⟨by simp [hr.settled.replies],
      by simp [hr.watchdogs, hr.current, hr.state, State.active],
      by simp [hr.settled.guards], by simp [hr.settled.waits]⟩

theorem dropped_self {objects : List Owned} {id : Option Nat}
    (h : ∀ o ∈ objects, some o.id = id) : dropped objects id = [] := by
  unfold dropped
  rw [List.filter_eq_nil_iff]
  intro o ho
  simp [h o ho]

/-- A failure drops the watchdog, and nothing else is left. -/
theorem Between.fail (h : Between sha256 u) (message : String) (dropStaged : Bool) :
    Inv sha256 (u.fail message dropStaged) where
  alive := h.alive
  phase := .rest ⟨⟨h.settled.replies, h.settled.guards, h.settled.waits⟩,
    dropped_self h.watched, rfl⟩
  installers := h.installers
  launches := h.launches

theorem Resting.between (hr : u.Resting) (h : Inv sha256 u) : Between sha256 u where
  alive := h.alive
  settled := hr.settled
  watched := by simp [hr.watchdogs]
  installers := h.installers
  launches := h.launches

theorem Restarting.between {o : Owned} (hr : u.Restarting o) (h : Inv sha256 u) :
    Between sha256 u where
  alive := h.alive
  settled := hr.settled
  watched := by simp [hr.watchdogs, hr.watchdog]
  installers := h.installers
  launches := h.launches

/-- From nothing under way a download begins, or nothing does. -/
theorem beginDownload_cases (host : Host) (found : Found) :
    ((u.beginDownload host found).2 ≠ "" ∧
      ∃ path disk file, (u.beginDownload host found).1 =
        { u with pkgPath := path, disk := disk, file := file }) ∨
    ((u.beginDownload host found).2 = "" ∧
      ∃ path, (u.beginDownload host found).1 = u.fetch path found.info) := by
  unfold beginDownload
  split_ifs
  · exact Or.inl ⟨by simp, u.pkgPath, u.disk, u.file, rfl⟩
  · exact Or.inl ⟨by simp, u.pkgPath, u.disk, u.file, rfl⟩
  · exact Or.inl ⟨by simp, u.pkgPath, u.disk, u.file, rfl⟩
  · exact Or.inl ⟨by simp, _, _, _, rfl⟩
  · exact Or.inr ⟨rfl, _, rfl⟩

theorem Between.fetch (h : Between sha256 u) (hw : u.watchdogs = [])
    (hearlier : ∀ o ∈ u.installers, o.attempt < u.attempt) (path : String) (info : Info) :
    Inv sha256 (u.fetch path info) where
  alive := h.alive
  phase := .fetch ⟨u.objects, u.attempt, info, [], [], none⟩
    { replies := by simp [Updater.fetch, h.settled.replies]
      guards := h.settled.guards
      waits := h.settled.waits
      watchdogs := hw
      state := rfl
      reply := rfl
      unfinished := rfl
      current := rfl
      file := rfl
      staged := ⟨[], by simp [Updater.fetch], rfl⟩
      size := rfl
      digest := rfl
      earlier := hearlier }
  installers := h.installers
  launches := h.launches

theorem Inv.start (h : Inv sha256 u) (found : Found) : Inv sha256 (u.start host found).1 := by
  unfold Updater.start
  split_ifs with hactive hmethod hbegin
  · exact h
  · exact h
  · cases h.phase with
    | rest hr =>
      have hb : Between sha256 (u.starting host) :=
        { hr.between h with
          installers := fun o ho => Nat.le_succ_of_le (h.installers o ho)
          settled := ⟨hr.settled.replies, hr.settled.guards, hr.settled.waits⟩ }
      obtain ⟨hne, _⟩ | ⟨_, path, hfetch⟩ := (u.starting host).beginDownload_cases host found
      · exact absurd hbegin hne
      · rw [hfetch]
        exact hb.fetch hr.watchdogs (fun o ho => Nat.lt_succ_of_le (h.installers o ho)) _ _
    | fetch d hf => exact absurd (Or.inl hf.state) hactive
    | recheck g w hr => exact absurd (Or.inl hr.state) hactive
    | restart o hr => exact absurd (Or.inr (Or.inr hr.state)) hactive
  · cases h.phase with
    | rest hr =>
      obtain ⟨_, path, disk, file, hsame⟩ | ⟨hnone, _⟩ :=
        (u.starting host).beginDownload_cases host found
      · rw [hsame]
        exact
          { alive := h.alive
            phase := .rest ⟨⟨hr.settled.replies, hr.settled.guards, hr.settled.waits⟩,
              hr.watchdogs, hr.state⟩
            installers := h.installers
            launches := h.launches }
      · exact absurd hnone hbegin
    | fetch d hf => exact absurd (Or.inl hf.state) hactive
    | recheck g w hr => exact absurd (Or.inl hr.state) hactive
    | restart o hr => exact absurd (Or.inr (Or.inr hr.state)) hactive

theorem Fetching.findReply (hf : u.Fetching d) (id : Nat) :
    u.findReply id = if d.id = id then some d else none := by
  by_cases hid : d.id = id
  · simp [Updater.findReply, hf.replies, hid]
  · simp [Updater.findReply, hf.replies, hid]

theorem findReply_none (h : u.replies = []) (id : Nat) : u.findReply id = none := by
  simp [Updater.findReply, h]

theorem Fetching.changeReply (hf : u.Fetching d) (f : Download → Download) :
    (u.changeReply d.id f).replies = [f d] := by
  simp [Updater.changeReply, hf.replies]

theorem write_same (disk : String → Option Bytes) (path : String) (bytes : Bytes) :
    write disk path bytes path = some ((disk path).getD [] ++ bytes) :=
  Function.update_self _ _ _

/-- The bytes that came are written at once. -/
theorem Fetching.onReadyRead (hf : u.Fetching d) (bytes : Bytes) :
    (u.changeReply d.id (receive bytes)).onReadyRead =
      { (u.changeReply d.id (receive bytes)).changeReply d.id read with
        disk := write u.disk u.pkgPath (d.receive bytes).unread } := by
  have hreplies := hf.changeReply (receive bytes)
  have hfind : (u.changeReply d.id (receive bytes)).findReply d.id =
      some (d.receive bytes) := by
    simp [Updater.findReply, hreplies, receive]
  have hfile : (u.changeReply d.id (receive bytes)).file = some u.pkgPath := hf.file
  have hreply : (u.changeReply d.id (receive bytes)).reply = some d.id := hf.reply
  simp only [Updater.onReadyRead, hfile, hreply, Option.bind_some, hfind]
  rfl

theorem Fetching.data (hf : u.Fetching d) (bytes : Bytes) :
    ((u.changeReply d.id (Download.receive bytes)).onReadyRead).Fetching
      (d.receive bytes).read := by
  obtain ⟨staged, hdisk, hreceived⟩ := hf.staged
  have hreplies := hf.changeReply (Download.receive bytes)
  rw [hf.onReadyRead]
  exact
    { replies := by
        change ((u.changeReply d.id (Download.receive bytes)).replies.map fun d' =>
          if d'.id = d.id then Download.read d' else d') = _
        rw [hreplies]
        simp [Download.receive]
      guards := hf.guards
      waits := hf.waits
      watchdogs := hf.watchdogs
      state := hf.state
      reply := hf.reply
      unfinished := hf.unfinished
      current := hf.current
      file := hf.file
      staged := by
        refine ⟨staged ++ (d.unread ++ bytes), ?_, ?_⟩
        · change write u.disk u.pkgPath (d.receive bytes).unread u.pkgPath = _
          rw [write_same, hdisk]
          rfl
        · simp [Download.read, Download.receive, ← hreceived]
      size := hf.size
      digest := hf.digest
      earlier := hf.earlier }

theorem Inv.data (h : Inv sha256 u) (id : Nat) (bytes : Bytes) : Inv sha256 (u.data id bytes) := by
  unfold Updater.data
  cases h.phase with
  | rest hr =>
    rw [findReply_none hr.settled.replies]
    exact h
  | recheck g w hr =>
    rw [findReply_none hr.replies]
    exact h
  | restart o hr =>
    rw [findReply_none hr.settled.replies]
    exact h
  | fetch d hf =>
    rw [hf.findReply]
    by_cases hid : d.id = id
    · subst hid
      simp only [if_true, hf.unfinished, ne_eq, not_true_eq_false, if_false]
      have hnext := hf.data bytes
      have hread := hf.onReadyRead bytes
      exact
        { alive := by
            rw [hread]
            exact h.alive
          phase := .fetch _ hnext
          installers := fun o ho => (hnext.earlier o ho).le
          launches := by
            rw [hread]
            exact h.launches }
    · rw [if_neg hid]
      exact h

theorem Between.waitForCheck (h : Between sha256 u) (hw : u.watchdogs = [])
    (hstate : u.state = .downloading) (hearlier : ∀ o ∈ u.installers, o.attempt < u.attempt)
    (reason : String) : Inv sha256 (u.waitForCheck reason) where
  alive := h.alive
  phase := .recheck ⟨u.objects, u.attempt, reason⟩ ⟨u.objects + 1, u.attempt, reason⟩
    { replies := h.settled.replies
      guards := by simp [Updater.waitForCheck, h.settled.guards]
      waits := by simp [Updater.waitForCheck, h.settled.waits]
      watchdogs := hw
      state := hstate
      guard := rfl
      wait := rfl
      current := ⟨rfl, rfl⟩
      earlier := hearlier }
  installers := h.installers
  launches := h.launches

theorem Between.retryOr (h : Between sha256 u) (hw : u.watchdogs = [])
    (hstate : u.state = .downloading) (hearlier : ∀ o ∈ u.installers, o.attempt < u.attempt)
    (reason message : String) : Inv sha256 (u.retryOr reason message) := by
  unfold Updater.retryOr
  split_ifs
  · exact h.fail message true
  · exact h.waitForCheck hw hstate hearlier reason

/-- The staged file is what a download that finished received, and passed the checks. -/
structure Verified (sha256 : Bytes → String) (u : Updater) (d : Download) : Prop where
  finished : d.finished = some true
  own : d.attempt = u.attempt
  staged : u.disk u.pkgPath = some d.received
  size : 0 < d.info.assetSize → (d.received.length : Int) = d.info.assetSize
  digest : ∀ want, publishedSha256 d.info.assetDigest = some want → sha256 d.received = want

theorem Between.restart (h : Between sha256 u) (hw : u.watchdogs = [])
    (hv : u.Verified sha256 d) : Inv sha256 (u.restart d) where
  alive := h.alive
  phase := .restart ⟨u.objects, u.attempt, ""⟩
    { settled := ⟨h.settled.replies, h.settled.guards, h.settled.waits⟩
      watchdogs := by simp [Updater.restart, launched, armWatchdog, hw]
      state := rfl
      watchdog := rfl
      current := rfl }
  installers := h.installers
  launches := by
    intro l hl
    have hl : l ∈ u.launches ++ [⟨u.attempt, u.disk u.pkgPath, d⟩] := hl
    rcases List.mem_append.mp hl with hold | hnew
    · exact h.launches l hold
    · obtain rfl := List.mem_singleton.mp hnew
      exact ⟨⟨hv.finished, hv.staged⟩, hv.own, hv.size, hv.digest⟩

theorem Between.track (h : Between sha256 u) : Between sha256 u.track where
  alive := h.alive
  settled := ⟨h.settled.replies, h.settled.guards, h.settled.waits⟩
  watched := h.watched
  installers := by
    intro o ho
    have ho : o ∈ u.installers ++ [⟨u.objects, u.attempt, ""⟩] := ho
    rcases List.mem_append.mp ho with hold | hnew
    · exact h.installers o hold
    · obtain rfl := List.mem_singleton.mp hnew
      exact le_refl u.attempt
  launches := h.launches

theorem Between.runInstaller (h : Between sha256 u) (hw : u.watchdogs = [])
    (hv : u.Verified sha256 d) (launching : Launching) :
    Inv sha256 (u.runInstaller host launching d) := by
  have hrun : Inv sha256 (u.restart d) := h.restart hw hv
  have htracked : Inv sha256 (u.track.restart d) :=
    h.track.restart hw ⟨hv.finished, hv.own, hv.staged, hv.size, hv.digest⟩
  unfold Updater.runInstaller
  cases host.platform with
  | windows =>
    dsimp only
    split_ifs
    · exact h.fail _ _
    · exact hrun
    · exact htracked
    · exact h.fail _ _
  | macos =>
    dsimp only
    split_ifs
    · exact hrun
    · exact h.fail _ _
  | linux =>
    dsimp only
    split_ifs
    · exact h.fail _ _
    · exact hrun
    · exact h.fail _ _

/-- The staged file has the sha256 that is published, if it passes. -/
theorem sha256_of_verifyDigest {bytes : Bytes} {rereads : Bool}
    (hstaged : u.disk u.pkgPath = some bytes) (h : u.verifyDigest sha256 rereads = "") :
    ∀ want, publishedSha256 u.expectedDigest = some want → sha256 bytes = want := by
  intro want hwant
  unfold verifyDigest at h
  simp only [hwant, hstaged] at h
  split_ifs at h with hread hsame
  · simp at h
  · simp at h
  · exact not_not.mp hsame

/-- A download as its updater finds it once it finished without an error. -/
structure Arrived (u : Updater) (d : Download) : Prop where
  finished : d.finished = some true
  own : d.attempt = u.attempt
  staged : u.disk u.pkgPath = some d.received
  size : u.expectedSize = d.info.assetSize
  digest : u.expectedDigest = d.info.assetDigest

theorem Between.accept (h : Between sha256 u) (hw : u.watchdogs = [])
    (hstate : u.state = .downloading) (hearlier : ∀ o ∈ u.installers, o.attempt < u.attempt)
    (ha : u.Arrived d) (launching : Launching) :
    Inv sha256 (u.accept host sha256 launching d d.received.length) := by
  unfold Updater.accept
  split_ifs with hsize hsmall hdigest
  · exact h.retryOr hw hstate hearlier _ _
  · exact h.fail _ _
  · exact h.retryOr hw hstate hearlier _ _
  · have hv : u.Verified sha256 d :=
      { finished := ha.finished
        own := ha.own
        staged := ha.staged
        size := by
          intro hpos
          rw [← ha.size] at hpos ⊢
          exact not_not.mp fun hne => hsize ⟨hpos, hne⟩
        digest := by
          rw [← ha.digest]
          exact sha256_of_verifyDigest ha.staged (not_not.mp hdigest) }
    have hb : Between sha256 { u with state := .installing } :=
      ⟨h.alive, ⟨h.settled.replies, h.settled.guards, h.settled.waits⟩, h.watched,
        h.installers, h.launches⟩
    exact hb.runInstaller hw ⟨hv.finished, hv.own, hv.staged, hv.size, hv.digest⟩ launching

theorem drain_of_file (path : String) (h : u.file = some path) :
    u.drain d = { u with disk := write u.disk path d.unread } := by
  unfold drain
  split
  · rename_i hnone
    rw [h] at hnone
    cases hnone
  · rename_i path' hsome
    rw [h] at hsome
    obtain rfl := Option.some.inj hsome
    rfl

theorem stagedSize_of_file {bytes : Bytes} (path : String) (h : u.file = some path)
    (hdisk : u.disk path = some bytes) : u.stagedSize = bytes.length := by
  simp [stagedSize, h, hdisk]

/-- The reply is taken; what is left to read is written. -/
theorem Fetching.takeReply (hf : u.Fetching d) (ok : Bool) :
    (u.changeReply d.id (Download.finish ok)).takeReply (d.finish ok) =
      { u with reply := none, replies := [], disk := write u.disk u.pkgPath d.unread } := by
  have hreplies := hf.changeReply (Download.finish ok)
  have hdropped : ((u.changeReply d.id (Download.finish ok)).replies.filter fun other =>
      other.id ≠ (d.finish ok).id) = [] := by
    rw [hreplies]
    simp
  unfold Updater.takeReply
  rw [hdropped]
  exact drain_of_file u.pkgPath hf.file

theorem Inv.finish (h : Inv sha256 u) (id : Nat) (ok : Bool) (launching : Launching) :
    Inv sha256 (u.finish host sha256 id ok launching) := by
  unfold Updater.finish
  cases h.phase with
  | rest hr =>
    rw [findReply_none hr.settled.replies]
    exact h
  | recheck g w hr =>
    rw [findReply_none hr.replies]
    exact h
  | restart o hr =>
    rw [findReply_none hr.settled.replies]
    exact h
  | fetch d hf =>
    rw [hf.findReply]
    by_cases hid : d.id = id
    · subst hid
      simp only [if_true, hf.unfinished, ne_eq, not_true_eq_false, if_false]
      have hfind : (u.changeReply d.id (Download.finish ok)).findReply d.id =
          some (d.finish ok) := by
        simp [Updater.findReply, hf.changeReply, Download.finish]
      have hreply : (u.changeReply d.id (Download.finish ok)).reply = some d.id := hf.reply
      obtain ⟨staged, hdisk, hreceived⟩ := hf.staged
      have hwritten : write u.disk u.pkgPath d.unread u.pkgPath = some d.received := by
        rw [write_same, hdisk, ← hreceived]
        rfl
      have hb : Between sha256
          { u with reply := none, replies := [], disk := write u.disk u.pkgPath d.unread } :=
        { alive := h.alive
          settled := ⟨rfl, hf.guards, hf.waits⟩
          watched := by simp [hf.watchdogs]
          installers := h.installers
          launches := h.launches }
      unfold onDownloadFinished
      simp only [hreply, Option.bind_some, hfind, hf.takeReply]
      cases ok with
      | false => exact hb.fail _ _
      | true =>
        have hsize := stagedSize_of_file (u := { u with
          reply := none, replies := [], disk := write u.disk u.pkgPath d.unread })
          u.pkgPath hf.file hwritten
        have hclosed : Between sha256 { u with
            reply := none, replies := [], file := none,
            disk := write u.disk u.pkgPath d.unread } :=
          ⟨hb.alive, ⟨rfl, hf.guards, hf.waits⟩, hb.watched, hb.installers, hb.launches⟩
        rw [hsize, if_neg (by simp [Download.finish])]
        exact hclosed.accept (d := d.finish true) hf.watchdogs hf.state hf.earlier
          ⟨rfl, hf.current, hwritten, hf.size, hf.digest⟩ launching
    · rw [if_neg hid]
      exact h

theorem dropped_single {o : Owned} : dropped [o] (some o.id) = [] :=
  dropped_self fun o' ho' => by rw [List.mem_singleton.mp ho']

theorem Inv.guardTimeout (h : Inv sha256 u) (id : Nat) : Inv sha256 (u.guardTimeout id) := by
  unfold Updater.guardTimeout
  split
  · exact h
  · rename_i o hfound
    have hmem : o ∈ u.guards := List.mem_of_find?_eq_some hfound
    have hid : o.id = id := by simpa using List.find?_some hfound
    cases h.phase with
    | rest hr =>
      rw [hr.settled.guards] at hmem
      cases hmem
    | fetch d hf =>
      rw [hf.guards] at hmem
      cases hmem
    | restart w hr =>
      rw [hr.settled.guards] at hmem
      cases hmem
    | recheck g w hr =>
      rw [hr.guards] at hmem
      obtain rfl := List.mem_singleton.mp hmem
      have hb : Between sha256 { u with
          guards := dropped (dropped u.guards (some id)) (some o.id),
          waits := dropped u.waits u.recheckWait, recheckGuard := none } :=
        { alive := h.alive
          settled :=
            { replies := hr.replies
              guards := by
                change dropped (dropped u.guards (some id)) (some o.id) = []
                rw [hr.guards, ← hid, dropped_single]
                rfl
              waits := by
                change dropped u.waits u.recheckWait = []
                rw [hr.waits, hr.wait, dropped_single] }
          watched := by simp [hr.watchdogs]
          installers := h.installers
          launches := h.launches }
      unfold onGuard
      simp only [hr.guard]
      exact hb.fail _ _

/-- The subscription is called while its guard is known. -/
theorem Between.onChecked {g : Nat} (hb : Between sha256 (u.stopGuard g))
    (hg : u.recheckGuard = some g) (hw : u.watchdogs = [])
    (hearlier : ∀ o ∈ u.installers, o.attempt < u.attempt) (found : Found) (reason : String) :
    Inv sha256 (u.onChecked host found reason) := by
  unfold Updater.onChecked
  split
  · rename_i hnone
    rw [hg] at hnone
    cases hnone
  · rename_i g' hsome
    obtain rfl : g = g' := Option.some.inj (hg.symm.trans hsome)
    obtain ⟨hne, path, disk, file, hsame⟩ | ⟨hnone, path, hfetch⟩ :=
      (u.stopGuard g).beginDownload_cases host found
    · rw [if_neg hne, hsame]
      have hb' : Between sha256
          { u.stopGuard g with pkgPath := path, disk := disk, file := file } :=
        ⟨hb.alive, ⟨hb.settled.replies, hb.settled.guards, hb.settled.waits⟩, hb.watched,
          hb.installers, hb.launches⟩
      exact hb'.fail _ _
    · rw [if_pos hnone, hfetch]
      exact hb.fetch hw hearlier _ _

theorem Inv.checkFinished (h : Inv sha256 u) (found : Found) :
    Inv sha256 (u.checkFinished host found) := by
  unfold Updater.checkFinished
  cases h.phase with
  | rest hr =>
    rw [hr.settled.waits]
    exact ⟨h.alive, .rest ⟨⟨hr.settled.replies, hr.settled.guards, rfl⟩, hr.watchdogs,
      hr.state⟩, h.installers, h.launches⟩
  | fetch d hf =>
    rw [hf.waits]
    exact ⟨h.alive, .fetch d { hf with waits := rfl }, h.installers, h.launches⟩
  | restart w hr =>
    rw [hr.settled.waits]
    exact ⟨h.alive, .restart w { hr with
      settled := ⟨hr.settled.replies, hr.settled.guards, rfl⟩ }, h.installers, h.launches⟩
  | recheck g w hr =>
    have hb : Between sha256 (Updater.stopGuard { u with waits := [] } g.id) :=
      { alive := h.alive
        settled :=
          { replies := hr.replies
            guards := by
              change dropped u.guards (some g.id) = []
              rw [hr.guards, dropped_single]
            waits := rfl }
        watched := by
          change ∀ o ∈ u.watchdogs, _
          simp [hr.watchdogs]
        installers := h.installers
        launches := h.launches }
    rw [hr.waits]
    change Inv sha256 (if u.crashed = true then _ else
      Updater.onChecked { u with waits := [] } host found w.reason)
    rw [if_neg (by simp [h.alive])]
    exact hb.onChecked hr.guard hr.watchdogs hr.earlier found w.reason

theorem Inv.watchdogTimeout (h : Inv sha256 u) (id : Nat) : Inv sha256 (u.watchdogTimeout id) := by
  unfold Updater.watchdogTimeout
  split
  · exact h
  · rename_i o hfound
    have hmem : o ∈ u.watchdogs := List.mem_of_find?_eq_some hfound
    have hid : o.id = id := by simpa using List.find?_some hfound
    cases h.phase with
    | rest hr =>
      rw [hr.watchdogs] at hmem
      cases hmem
    | fetch d hf =>
      rw [hf.watchdogs] at hmem
      cases hmem
    | recheck g w hr =>
      rw [hr.watchdogs] at hmem
      cases hmem
    | restart w hr =>
      rw [hr.watchdogs] at hmem
      obtain rfl := List.mem_singleton.mp hmem
      have hb : Between sha256 { u with watchdogs := dropped u.watchdogs (some id) } :=
        { alive := h.alive
          settled := ⟨hr.settled.replies, hr.settled.guards, hr.settled.waits⟩
          watched := by
            change ∀ o' ∈ dropped u.watchdogs (some id), _
            rw [hr.watchdogs, ← hid, dropped_single]
            simp
          installers := h.installers
          launches := h.launches }
      exact hb.fail _ _

theorem Clean.exit {id : Nat} {exitCode : Int} {crashed : Bool} {u' : Updater} {o : Owned}
    (hclean : Clean u (.exited id exitCode crashed) u') (ho : o ∈ u.installers) (hid : o.id = id)
    (hlt : o.attempt < u.attempt) :
    u.exited id exitCode crashed = { u with installers := dropped u.installers (some id) } := by
  obtain ⟨hzero, hcrashed⟩ := hclean o ho hid hlt
  unfold Updater.exited onInstallerFinished
  subst hzero hcrashed
  split
  · rename_i hnone
    exact absurd (by simpa using hid) (List.find?_eq_none.mp hnone o ho)
  · simp

theorem Inv.forget (h : Inv sha256 u) (id : Nat) :
    Inv sha256 { u with installers := dropped u.installers (some id) } := by
  have hsub : ∀ o ∈ dropped u.installers (some id), o ∈ u.installers :=
    fun o ho => List.mem_of_mem_filter ho
  refine ⟨h.alive, ?_, fun o ho => h.installers o (hsub o ho), h.launches⟩
  cases h.phase with
  | rest hr =>
    exact .rest ⟨⟨hr.settled.replies, hr.settled.guards, hr.settled.waits⟩, hr.watchdogs,
      hr.state⟩
  | fetch d hf => exact .fetch d { hf with earlier := fun o ho => hf.earlier o (hsub o ho) }
  | recheck g w hr =>
    exact .recheck g w { hr with earlier := fun o ho => hr.earlier o (hsub o ho) }
  | restart w hr =>
    exact .restart w { hr with
      settled := ⟨hr.settled.replies, hr.settled.guards, hr.settled.waits⟩ }

theorem Between.onInstallerFinished (hb : Between sha256 u) (h : Inv sha256 u) (exitCode : Int)
    (crashed : Bool) : Inv sha256 (u.onInstallerFinished exitCode crashed) := by
  unfold Updater.onInstallerFinished
  split_ifs
  · exact hb.fail _ _
  · exact hb.fail _ _
  · exact h

theorem Inv.exited (h : Inv sha256 u) {u' : Updater} (id : Nat) (exitCode : Int) (crashed : Bool)
    (hclean : Clean u (.exited id exitCode crashed) u') :
    Inv sha256 (u.exited id exitCode crashed) := by
  by_cases hold : ∃ o ∈ u.installers, o.id = id ∧ o.attempt < u.attempt
  · obtain ⟨o, ho, hid, hlt⟩ := hold
    rw [hclean.exit ho hid hlt]
    exact h.forget id
  · -- the installer is of the current attempt, which neither downloads nor waits for a check
    unfold Updater.exited
    split
    · exact h
    · rename_i o hfound
      have hmem : o ∈ u.installers := List.mem_of_find?_eq_some hfound
      have hid : o.id = id := by simpa using List.find?_some hfound
      have hforgot := h.forget id
      cases h.phase with
      | rest hr =>
        have hr' : Resting { u with installers := dropped u.installers (some id) } :=
          ⟨⟨hr.settled.replies, hr.settled.guards, hr.settled.waits⟩, hr.watchdogs, hr.state⟩
        exact (hr'.between hforgot).onInstallerFinished hforgot _ _
      | restart w hr =>
        have hr' : Restarting { u with installers := dropped u.installers (some id) } w :=
          { hr with settled := ⟨hr.settled.replies, hr.settled.guards, hr.settled.waits⟩ }
        exact (hr'.between hforgot).onInstallerFinished hforgot _ _
      | fetch d hf => exact absurd ⟨o, hmem, hid, hf.earlier o hmem⟩ hold
      | recheck g w hr => exact absurd ⟨o, hmem, hid, hr.earlier o hmem⟩ hold

theorem Inv.next (h : Inv sha256 u) (e : Event) (hclean : Clean u e (u.next host sha256 e)) :
    Inv sha256 (next host sha256 u e) := by
  unfold Updater.next
  rw [h.alive]
  cases e with
  | start found => exact h.start found
  | data reply bytes => exact h.data reply bytes
  | finish reply ok launching => exact h.finish reply ok launching
  | checkFinished found => exact h.checkFinished found
  | guardTimeout id => exact h.guardTimeout id
  | watchdogTimeout id => exact h.watchdogTimeout id
  | exited id exitCode crashed => exact h.exited id exitCode crashed hclean

theorem Inv.separate (h : Inv sha256 u) (e : Event) (hclean : Clean u e (u.next host sha256 e)) :
    Separate host sha256 u e (u.next host sha256 e) where
  launches := (h.next e hclean).launches
  single := (h.next e hclean).single
  refused := by
    rintro found rfl hactive
    have hbusy : u.state = .downloading ∨ u.state = .installing ∨ u.state = .restarting := by
      cases hs : u.state with
      | downloading => exact Or.inl rfl
      | installing => exact Or.inr (Or.inl rfl)
      | restarting => exact Or.inr (Or.inr rfl)
      | idle => simp [hs, State.active] at hactive
      | failed => simp [hs, State.active] at hactive
    constructor
    · simp [Updater.next, h.alive, Updater.start, hbusy]
    · simp [Updater.start, hbusy]
  ended := by
    intro k hof hk
    have hs := h.single
    cases e with
    | start found => exact hof.elim
    | data reply bytes =>
      obtain ⟨d, hd, _, rfl⟩ := hof
      exact absurd hk (by rw [(hs.replies d hd).1]; exact lt_irrefl _)
    | finish reply ok launching =>
      obtain ⟨d, hd, _, rfl⟩ := hof
      exact absurd hk (by rw [(hs.replies d hd).1]; exact lt_irrefl _)
    | checkFinished found =>
      obtain ⟨o, ho, rfl⟩ := hof
      exact absurd hk (by rw [(hs.waits o ho).1]; exact lt_irrefl _)
    | guardTimeout id =>
      obtain ⟨o, ho, _, rfl⟩ := hof
      exact absurd hk (by rw [(hs.guards o ho).1]; exact lt_irrefl _)
    | watchdogTimeout id =>
      obtain ⟨o, ho, _, rfl⟩ := hof
      exact absurd hk (by rw [(hs.watchdogs o ho).1]; exact lt_irrefl _)
    | exited id exitCode crashed =>
      obtain ⟨o, ho, hid, rfl⟩ := hof
      have hsame := hclean.exit ho hid hk
      simp only [Updater.next, h.alive, Bool.false_eq_true, if_false, hsame, and_self]

/-- While the installers of ended attempts exit without an error, an installer runs on a
download that was checked, and attempts leave each other alone. -/
theorem separate_along (host : Host) (sha256 : Bytes → String) (labels : List Event)
    (hclean : EachStep (handles (next host sha256)) Clean initial labels) :
    EachStep (handles (next host sha256)) (Separate host sha256) initial labels := by
  intro visited e rest u u' hl hrun hstep
  have hinv : Inv sha256 u := by
    refine (hclean.take hl).invariant (fun t a w ht hta hC => ?_) inv_initial hrun
    obtain rfl : next host sha256 t a = w := hta
    exact ht.next a hC
  obtain rfl : next host sha256 u e = u' := hstep
  exact hinv.separate e (hclean visited e rest u _ hl hrun rfl)

/-- A release whose installer has three bytes, and no published digest. -/
def release : Info := ⟨true, "setup.exe", "/setup.exe", "2.0", 3, ""⟩

def elevated : Host := ⟨.windows, "direct", "staging"⟩

/-- An installer is launched; its process stays until after the watchdog gave up. -/
def abandoned : List Event :=
  [.start ⟨release, true, true⟩, .data 0 [1, 2, 3], .finish 0 true ⟨"", true, "", true⟩,
    .watchdogTimeout 2]

theorem separate_along_abandoned :
    EachStep (handles (next elevated fun _ => "")) (Separate elevated fun _ => "") initial
      abandoned :=
  separate_along elevated (fun _ => "") abandoned (by
    refine EachStep.cons fun t ht => ⟨trivial, ?_⟩
    refine EachStep.cons fun t ht => ⟨trivial, ?_⟩
    refine EachStep.cons fun t ht => ⟨trivial, ?_⟩
    refine EachStep.cons fun t ht => ⟨trivial, ?_⟩
    exact EachStep.nil)

def resumed : List Event := abandoned ++ [.start ⟨release, true, true⟩]

/-- The next attempt's download fails, and its file goes, when the installer of the attempt
before it exits with an error. -/
theorem failed_by_old_installer :
    ¬∀ (host : Host) (sha256 : Bytes → String) (labels : List Event),
      EachStep (handles (next host sha256)) (Separate host sha256) initial labels := by
  intro h
  have hsep := h elevated (fun _ => "") (resumed ++ [.exited 1 1 false]) resumed
    (.exited 1 1 false) [] _ _ rfl ((run_handles_iff _ _ _ _).mpr rfl) rfl
  have hof : Event.Of (resumed.foldl (next elevated fun _ => "") initial) 1
      (.exited 1 1 false) := by
    refine ⟨⟨1, 1, ""⟩, ?_, rfl, rfl⟩
    decide +kernel
  have hstate := (hsep.ended 1 hof (by decide +kernel)).1
  revert hstate
  decide +kernel

end Updater

end MoonlightWeb.Network.SelfUpdater
