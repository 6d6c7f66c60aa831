import MoonlightWeb.Js.Maps
import MoonlightWeb.Lib.Presence

/-! # Gamepads announced to the host

Pads enter and leave the set that is forwarded by events, polls, lost mappings, a preferred
pad and the end of the stream. Each way sends its own message, and together the messages
are a stream of connects, states and disconnects with the mask of who is connected.
-/

namespace MoonlightWeb.Frontend.GamepadManager

open Js
open Lib.Presence (Notice Stream)
open JsMap List

universe u

/-- A pad as the browser reports it, with what its buttons and axes hold. -/
structure Pad (I : Type u) where
  index : Nat
  id : String
  standard : Bool
  vibrationActuator : Bool
  input : I

inductive Platform
  | android
  | ios
  | win
  | mac
  | linux
  | other
deriving DecidableEq, Repr

inductive Source
  | user
  | standard
  | android
  | db
  | pending
deriving DecidableEq, Repr

/-- `bindings` null reads the pad as it is. -/
structure Resolution (B : Type u) where
  source : Option Source
  bindings : Option B
  key : String

structure Snapshot where
  buttons : Nat
  lt : Int
  rt : Int
  lx : Int
  ly : Int
  rx : Int
  ry : Int
deriving DecidableEq, Repr

inductive Profile
  | auto
  | x360
  | ds4
deriving DecidableEq, Repr

/-- What the manager is built with, and what it asks of texts, layouts and inputs. -/
structure Setup (I B D : Type u) where
  single : Bool
  profile : Profile
  platform : Platform
  padKey : String → String
  detectType : String → Nat
  androidFix : Pad I → Option B
  lookup : D → Platform → Pad I → Option B
  read : I → Option B → Snapshot

variable {I B D : Type u}

variable (c : Setup I B D)

/-- `db` is undefined until it is loaded, and null when it is unavailable. -/
def resolveMapping (user : String → Option B) (db : Option (Option D))
    (gp : Pad I) : Resolution B :=
  let key := c.padKey gp.id
  match user key with
  | some bindings => ⟨some .user, some bindings, key⟩
  | none =>
      if gp.standard then
        ⟨some .standard, none, key⟩
      else if c.platform = .android then
        ⟨some .android, c.androidFix gp, key⟩
      else if c.platform = .win ∨ c.platform = .mac ∨ c.platform = .linux then
        match db with
        | none => ⟨some .pending, none, key⟩
        | some none => ⟨none, none, key⟩
        | some (some found) =>
            match c.lookup found c.platform gp with
            | some bindings => ⟨some .db, some bindings, key⟩
            | none => ⟨none, none, key⟩
      else
        ⟨none, none, key⟩

structure Entry (B : Type u) where
  last : Option Snapshot
  sentAt : Int
  hasRumble : Bool
  bindings : Option B
  hostIndex : Nat
  key : String

/-- The messages, the masks being 32-bit integers. -/
inductive Message
  | gamepadconnect (index : Nat) (mask : BitVec 32) (ctype : Nat) (rumble : Bool)
  | gamepad (index : Nat) (mask : BitVec 32) (state : Snapshot)
  | gamepaddisconnect (index : Nat) (mask : BitVec 32)
deriving DecidableEq, Repr

structure Manager (B D : Type u) where
  preferredKey : Option String
  db : Option (Option D)
  dbLoading : Bool := false
  resolved : JsMap Nat (String × Resolution B) := empty
  paused : Bool := false
  running : Bool := false
  pads : JsMap Nat (Entry B) := empty
  sent : List Message := []

/-- `key || null`. -/
def orNull (key : Option String) : Option String :=
  key.filter (· ≠ "")

def initial (preferredKey : Option String) (db : Option (Option D)) : Manager B D where
  preferredKey := orNull preferredKey
  db := db

variable (pads : JsMap Nat (Entry B))

/-- `m |= 1 << entry.hostIndex` over the entries; a shift counts modulo 32. -/
def mask : BitVec 32 :=
  pads.entries.foldl (fun m e => m ||| 1#32 <<< (e.2.hostIndex % 32)) 0#32

variable (s : Manager B D)

def send (msg : Message) : Manager B D :=
  { s with sent := s.sent ++ [msg] }

/-- The host's type for a pad, `XBOX` and `PS` when it is forced. -/
def controllerType (gp : Pad I) : Nat :=
  match c.profile with
  | .x360 => 1
  | .ds4 => 2
  | .auto => c.detectType gp.id

def loadDb : Manager B D :=
  if s.dbLoading || s.db.isSome then s else { s with dbLoading := true }

/-- The database is in: every pad is resolved again. -/
def dbLoaded (db : Option D) : Manager B D :=
  if s.dbLoading then { s with db := some db, dbLoading := false, resolved := empty } else s

/-- The resolution of a pad not in the cache. -/
def resolveAnew (user : String → Option B) (s : Manager B D) (gp : Pad I) :
    Resolution B × Manager B D :=
  let res := resolveMapping c user s.db gp
  if res.source = some .pending then
    (res, loadDb s)
  else
    (res, { s with resolved := s.resolved.set gp.index (gp.id, res) })

def resolve (user : String → Option B) (s : Manager B D) (gp : Pad I) :
    Resolution B × Manager B D :=
  match s.resolved.get gp.index with
  | some cached => if cached.1 = gp.id then (cached.2, s) else resolveAnew c user s gp
  | none => resolveAnew c user s gp

def release (index : Nat) : Manager B D :=
  match s.pads.get index with
  | none => s
  | some entry =>
      let pads := s.pads.delete index
      send { s with pads := pads } (.gamepaddisconnect entry.hostIndex (mask pads))

def announce (s : Manager B D) (gp : Pad I) (res : Resolution B) :
    Option (Entry B) × Manager B D :=
  let hasRumble := gp.vibrationActuator
  let hostIndex := if c.single then 0 else gp.index
  let entry : Entry B := ⟨none, 0, hasRumble, res.bindings, hostIndex, res.key⟩
  let pads := s.pads.set gp.index entry
  (some entry,
    send { s with pads := pads }
      (.gamepadconnect hostIndex (mask pads) (controllerType c gp) hasRumble))

def consider (user : String → Option B) (s : Manager B D) (gp : Pad I) :
    Option (Entry B) × Manager B D :=
  let resolution := resolve c user s gp
  let res := resolution.1
  let s := resolution.2
  if res.source = some .pending then
    (none, s)
  else if res.source = none then
    (none, release s gp.index)
  else
    match s.pads.get gp.index with
    | some entry =>
        let entry := { entry with bindings := res.bindings }
        (some entry, { s with pads := s.pads.set gp.index entry })
    | none =>
        match (if c.single then s.pads.entries.head? else none) with
        | none => announce c s gp res
        | some (holder, held) =>
            let preferred := s.preferredKey = some res.key
            let holderPreferred := s.preferredKey = some held.key
            if ¬ preferred ∨ holderPreferred then (none, s)
            else announce c (release s holder) gp res

def isActive (x : Snapshot) : Bool :=
  x.buttons ≠ 0 || x.lt ≠ 0 || x.rt ≠ 0 || 4096 ≤ x.lx.natAbs || 4096 ≤ x.ly.natAbs ||
    4096 ≤ x.rx.natAbs || 4096 ≤ x.ry.natAbs

def reemitMs : Int := 500

/-- A pad of a poll, and the clock when it is read. -/
structure Sight (I : Type u) where
  gp : Pad I
  now : Int

def pollPad (user : String → Option B) (s : Manager B D) (sight : Sight I) :
    Manager B D :=
  match consider c user s sight.gp with
  | (none, s) => s
  | (some entry, s) =>
      if s.paused then
        s
      else
        let cur := c.read sight.gp.input entry.bindings
        if entry.last = some cur ∧ (¬ isActive cur ∨ sight.now - entry.sentAt < reemitMs) then
          s
        else
          let pads := s.pads.set sight.gp.index { entry with last := some cur, sentAt := sight.now }
          send { s with pads := pads } (.gamepad entry.hostIndex (mask pads) cur)

/-- The pads of `navigator.getGamepads()`, no index twice. -/
structure Sights (I : Type u) where
  list : List (Sight I)
  distinct : (list.map fun sight => sight.gp.index).Nodup

def poll (user : String → Option B) (s : Manager B D) (sights : Sights I) :
    Manager B D :=
  sights.list.foldl (pollPad c user) s

def changeAll (change : Entry B → Entry B) : JsMap Nat (Entry B) where
  entries := pads.entries.map fun e => (e.1, change e.2)
  nodup := by
    rw [map_map]
    exact pads.nodup

def resendAll : Manager B D :=
  { s with pads := changeAll s.pads fun e => { e with last := none, sentAt := 0 } }

def rest : Snapshot :=
  ⟨0, 0, 0, 0, 0, 0, 0⟩

def setPaused (paused : Bool) (now : Int) : Manager B D :=
  if paused = s.paused then
    s
  else
    let s := { s with paused := paused }
    if paused then
      { s with
        pads := changeAll s.pads fun e => { e with last := some rest, sentAt := now }
        sent := s.sent ++ s.pads.entries.map fun e => .gamepad e.2.hostIndex (mask s.pads) rest }
    else
      resendAll s

def setPreferredPad (s : Manager B D) (key : Option String) : Manager B D :=
  let s := { s with preferredKey := orNull key }
  if c.single then
    s.pads.entries.foldl
      (fun t e => if some e.2.key ≠ s.preferredKey then release t e.1 else t) s
  else
    s

def refreshMappings : Manager B D :=
  { s with resolved := empty }

def handleDisconnect (index : Nat) : Manager B D :=
  release { s with resolved := s.resolved.delete index } index

def start (user : String → Option B) (s : Manager B D) (sights : Sights I) :
    Manager B D :=
  if s.running then s else poll c user { s with running := true } sights

def stop : Manager B D :=
  if s.running then
    { s with
      running := false
      sent := s.sent ++ s.pads.entries.map fun e => .gamepaddisconnect e.2.hostIndex 0#32
      pads := empty
      resolved := empty }
  else
    s

/-- What happens to the manager. The events of the window are heard, and polls are made, while
it runs; `user` is what is saved of mappings then. -/
inductive Event (I B D : Type u)
  | start (user : String → Option B) (sights : Sights I)
  | poll (user : String → Option B) (sights : Sights I)
  | connect (user : String → Option B) (gp : Pad I)
  | disconnect (index : Nat)
  | refreshMappings
  | dbLoaded (db : Option D)
  | setPaused (paused : Bool) (now : Int)
  | setPreferredPad (key : Option String)
  | resendAll
  | stop

def handle (s : Manager B D) : Event I B D → Manager B D
  | .start user sights => start c user s sights
  | .poll user sights => if s.running then poll c user s sights else s
  | .connect user gp => if s.running then (consider c user s gp).2 else s
  | .disconnect index => if s.running then handleDisconnect s index else s
  | .refreshMappings => refreshMappings s
  | .dbLoaded db => dbLoaded s db
  | .setPaused paused now => setPaused s paused now
  | .setPreferredPad key => setPreferredPad c s key
  | .resendAll => resendAll s
  | .stop => stop s

def run (preferredKey : Option String) (db : Option (Option D))
    (events : List (Event I B D)) : Manager B D :=
  events.foldl (handle c) (initial preferredKey db)

def notice : Message → Notice Nat (BitVec 32)
  | .gamepadconnect index mask _ _ => .joins index mask
  | .gamepad index mask _ => .reports index mask
  | .gamepaddisconnect index mask => .leaves index mask

/-- The mask has a bit for every member, and no other. -/
def Shows (mask : BitVec 32) (there : Finset Nat) : Prop :=
  ∀ b < 32, mask.getLsbD b = decide (∃ i ∈ there, i % 32 = b)

/-- In single mode only controller 0 is announced. -/
def May (single : Bool) (index : Nat) : Prop :=
  single = true → index = 0

/-- Which index of the host each browser index has. -/
def spots : List (Nat × Nat) :=
  pads.entries.map fun e => (e.1, e.2.hostIndex)

def hosts : Finset Nat :=
  ((spots pads).map Prod.snd).toFinset

/-- Where the pads are: one at most, as controller 0, or each under its own index. -/
def Placed (single : Bool) (spots : List (Nat × Nat)) : Prop :=
  if single then spots.length ≤ 1 ∧ ∀ spot ∈ spots, spot.2 = 0
  else ∀ spot ∈ spots, spot.2 = spot.1

/-- What has been sent is a stream that leaves the forwarded indices connected. -/
structure Sound (single : Bool) (s : Manager B D) : Prop where
  placed : Placed single (spots s.pads)
  stream : Stream (May single) Shows 0#32 (s.sent.map notice) (hosts s.pads)

theorem getLsbD_foldl (l : List (Nat × Entry B)) (m : BitVec 32) {b : Nat} (hb : b < 32) :
    (l.foldl (fun m e => m ||| 1#32 <<< (e.2.hostIndex % 32)) m).getLsbD b =
      (m.getLsbD b || decide (∃ e ∈ l, e.2.hostIndex % 32 = b)) := by
  induction l generalizing m with
  | nil => simp
  | cons e l ih =>
    have hbit : (1#32 <<< (e.2.hostIndex % 32)).getLsbD b =
        decide (e.2.hostIndex % 32 = b) := by
      rw [BitVec.getLsbD_shiftLeft, BitVec.getLsbD_one]
      have hless : e.2.hostIndex % 32 < 32 := Nat.mod_lt _ (by norm_num)
      by_cases hsame : e.2.hostIndex % 32 = b
      · simp [hsame, hb]
      · have hsub : ¬ (b - e.2.hostIndex % 32 = 0 ∧ ¬ b < e.2.hostIndex % 32) := by omega
        simp only [hsame, decide_false]
        by_cases hlow : b < e.2.hostIndex % 32
        · simp [hlow]
        · have hne : b - e.2.hostIndex % 32 ≠ 0 := by omega
          simp [hne]
    rw [foldl_cons, ih, BitVec.getLsbD_or, hbit, Bool.or_assoc]
    simp only [mem_cons, exists_eq_or_imp, Bool.decide_or]

variable {pads : JsMap Nat (Entry B)}

theorem mem_hosts {i : Nat} :
    i ∈ hosts pads ↔ ∃ e ∈ pads.entries, e.2.hostIndex = i := by
  simp [hosts, spots]

theorem shows_mask (pads : JsMap Nat (Entry B)) : Shows (mask pads) (hosts pads) := by
  intro b hb
  unfold mask
  rw [getLsbD_foldl _ _ hb, BitVec.getLsbD_zero, Bool.false_or, decide_eq_decide]
  constructor
  · rintro ⟨e, he, hbit⟩
    exact ⟨e.2.hostIndex, mem_hosts.mpr ⟨e, he, rfl⟩, hbit⟩
  · rintro ⟨i, hi, hbit⟩
    obtain ⟨e, he, rfl⟩ := mem_hosts.mp hi
    exact ⟨e, he, hbit⟩

variable {k : Nat}

theorem spots_set {entry old : Entry B}
    (hold : pads.get k = some old) (hhost : entry.hostIndex = old.hostIndex) :
    spots (pads.set k entry) = spots pads := by
  unfold spots
  exact map_entries_set pads hold _ (by rw [hhost])

theorem spots_set_of_none (entry : Entry B) (hnone : pads.get k = none) :
    spots (pads.set k entry) = spots pads ++ [(k, entry.hostIndex)] := by
  unfold spots
  rw [entries_set_of_none pads entry hnone, map_append]
  rfl

theorem spots_delete (pads : JsMap Nat (Entry B)) (k : Nat) :
    spots (pads.delete k) = (spots pads).filter fun spot => decide (spot.1 ≠ k) := by
  unfold spots delete
  rw [filter_map]
  rfl

theorem spots_changeAll (pads : JsMap Nat (Entry B)) {change : Entry B → Entry B}
    (h : ∀ e, (change e).hostIndex = e.hostIndex) : spots (changeAll pads change) = spots pads := by
  unfold spots changeAll
  rw [map_map]
  exact map_congr_left fun e _ => by simp [h]

theorem spots_nodup (pads : JsMap Nat (Entry B)) : ((spots pads).map Prod.fst).Nodup := by
  unfold spots
  rw [map_map]
  exact pads.nodup

theorem hosts_congr {pads pads' : JsMap Nat (Entry B)} (h : spots pads = spots pads') :
    hosts pads = hosts pads' := by
  unfold hosts
  rw [h]

variable {single : Bool}

theorem Placed.nodup {spots : List (Nat × Nat)} (h : Placed single spots)
    (hkeys : (spots.map Prod.fst).Nodup) : (spots.map Prod.snd).Nodup := by
  unfold Placed at h
  cases single with
  | true =>
    have hlen : (spots.map Prod.snd).length ≤ 1 := by
      rw [length_map]
      exact h.1
    exact nodup_iff_sublist.mpr fun a hsub => by
      have htwo : 2 ≤ (spots.map Prod.snd).length := hsub.length_le
      omega
  | false =>
    have hsame : spots.map Prod.snd = spots.map Prod.fst :=
      map_congr_left fun spot hspot => h spot hspot
    rw [hsame]
    exact hkeys

theorem Placed.filter {spots : List (Nat × Nat)} (h : Placed single spots)
    (p : Nat × Nat → Bool) : Placed single (spots.filter p) := by
  unfold Placed at h ⊢
  cases single with
  | true =>
    refine ⟨(length_filter_le p spots).trans h.1, fun spot hspot => ?_⟩
    exact h.2 spot (mem_filter.mp hspot).1
  | false => exact fun spot hspot => h spot (mem_filter.mp hspot).1

variable {entry : Entry B}

theorem mem_spots_of_get (h : pads.get k = some entry) : (k, entry.hostIndex) ∈ spots pads :=
  mem_map.mpr ⟨(k, entry), (mem_entries_iff pads k entry).mpr h, rfl⟩

/-- With a pad its host index goes, and no other. -/
theorem hosts_delete (hplaced : Placed single (spots pads))
    (h : pads.get k = some entry) : hosts (pads.delete k) = (hosts pads).erase entry.hostIndex := by
  have hmem := mem_spots_of_get h
  have hnodup := hplaced.nodup (spots_nodup pads)
  have hkeys := spots_nodup pads
  ext i
  unfold hosts
  rw [spots_delete, Finset.mem_erase, mem_toFinset, mem_toFinset, mem_map,
    mem_map]
  constructor
  · rintro ⟨spot, hspot, rfl⟩
    obtain ⟨hin, hne⟩ := mem_filter.mp hspot
    refine ⟨fun hsame => ?_, spot, hin, rfl⟩
    have heq : spot = (k, entry.hostIndex) :=
      inj_on_of_nodup_map hnodup hin hmem hsame
    simp [heq] at hne
  · rintro ⟨hne, spot, hspot, rfl⟩
    refine ⟨spot, mem_filter.mpr ⟨hspot, ?_⟩, rfl⟩
    rw [decide_eq_true_eq]
    intro hkey
    have heq : spot = (k, entry.hostIndex) := inj_on_of_nodup_map hkeys hspot hmem hkey
    exact hne (by rw [heq])

theorem Sound.of_same {s t : Manager B D} (h : Sound single s)
    (hspots : spots t.pads = spots s.pads) (hsent : t.sent = s.sent) : Sound single t := by
  refine ⟨hspots ▸ h.placed, ?_⟩
  rw [hsent, hosts_congr hspots]
  exact h.stream

variable {s : Manager B D}

theorem release_sound (h : Sound single s) (k : Nat) :
    Sound single (release s k) := by
  unfold release
  cases hget : s.pads.get k with
  | none => exact h
  | some entry =>
    have hthere : entry.hostIndex ∈ hosts s.pads :=
      mem_toFinset.mpr (mem_map.mpr ⟨_, mem_spots_of_get hget, rfl⟩)
    have hhosts := hosts_delete h.placed hget
    constructor
    · show Placed single (spots (s.pads.delete k))
      rw [spots_delete]
      exact h.placed.filter _
    · show Stream _ _ _ ((s.sent ++ [_]).map notice) (hosts (s.pads.delete k))
      rw [map_append, hhosts]
      exact Stream.leaves h.stream hthere (hhosts ▸ shows_mask _)

theorem release_pads (s : Manager B D) (k : Nat) : (release s k).pads = s.pads.delete k := by
  unfold release
  cases hget : s.pads.get k with
  | some entry => rfl
  | none =>
    have hall : s.pads.entries.filter (fun e => decide (e.1 ≠ k)) = s.pads.entries := by
      rw [filter_eq_self]
      intro e he
      rw [decide_eq_true_eq]
      intro hkey
      have hthere := (mem_entries_iff s.pads k e.2).mp (by rw [← hkey]; exact he)
      rw [hget] at hthere
      cases hthere
    unfold delete
    simp only [hall]

theorem announce_sound (h : Sound c.single s) (gp : Pad I)
    (res : Resolution B) (habsent : s.pads.get gp.index = none)
    (hfree : c.single = true → s.pads.entries = []) :
    Sound c.single (announce c s gp res).2 := by
  have hspots := spots_set_of_none
    (⟨none, 0, gp.vibrationActuator, res.bindings, if c.single then 0 else gp.index, res.key⟩ :
      Entry B) habsent
  have hplaced := h.placed
  have hnew : (if c.single then 0 else gp.index) ∉ hosts s.pads := by
    intro hthere
    obtain ⟨e, he, hhost⟩ := mem_hosts.mp hthere
    cases hs : c.single with
    | true =>
      rw [hfree hs] at he
      cases he
    | false =>
      rw [hs] at hhost hplaced
      have hown := hplaced (e.1, e.2.hostIndex) (mem_map.mpr ⟨e, he, rfl⟩)
      have hkey : e.1 = gp.index := hown.symm.trans hhost
      have hget := (mem_entries_iff s.pads gp.index e.2).mp (by rw [← hkey]; exact he)
      rw [habsent] at hget
      cases hget
  constructor
  · show Placed c.single (spots (s.pads.set gp.index _))
    rw [hspots]
    unfold Placed at hplaced ⊢
    cases hs : c.single with
    | true =>
      have hnone : spots s.pads = [] := by simp [spots, hfree hs]
      rw [hnone]
      simp
    | false =>
      rw [hs] at hplaced
      intro spot hspot
      rcases mem_append.mp hspot with hold | hone
      · exact hplaced spot hold
      · rw [mem_singleton.mp hone]
        rfl
  · have hhosts : hosts (s.pads.set gp.index
        ⟨none, 0, gp.vibrationActuator, res.bindings, if c.single then 0 else gp.index, res.key⟩) =
        insert (if c.single then 0 else gp.index) (hosts s.pads) := by
      unfold hosts
      rw [hspots]
      ext i
      simp
    show Stream _ _ _ ((s.sent ++ [_]).map notice) (hosts (s.pads.set gp.index _))
    rw [map_append, hhosts]
    refine Stream.joins h.stream ?_ hnew (hhosts ▸ shows_mask _)
    intro hs
    rw [if_pos hs]

/-- A resolution changes neither the pads nor what was sent. -/
theorem resolve_same (user : String → Option B) (s : Manager B D) (gp : Pad I) :
    (resolve c user s gp).2.pads = s.pads ∧ (resolve c user s gp).2.sent = s.sent ∧
      (resolve c user s gp).2.running = s.running ∧
      (resolve c user s gp).2.preferredKey = s.preferredKey ∧
      (resolve c user s gp).2.db = s.db := by
  have hanew : (resolveAnew c user s gp).2.pads = s.pads ∧
      (resolveAnew c user s gp).2.sent = s.sent ∧
      (resolveAnew c user s gp).2.running = s.running ∧
      (resolveAnew c user s gp).2.preferredKey = s.preferredKey ∧
      (resolveAnew c user s gp).2.db = s.db := by
    unfold resolveAnew loadDb
    dsimp only
    split
    · split
      · exact ⟨rfl, rfl, rfl, rfl, rfl⟩
      · exact ⟨rfl, rfl, rfl, rfl, rfl⟩
    · exact ⟨rfl, rfl, rfl, rfl, rfl⟩
  unfold resolve
  split
  · split
    · exact ⟨rfl, rfl, rfl, rfl, rfl⟩
    · exact hanew
  · exact hanew

inductive Considered (c : Setup I B D) (s : Manager B D) (gp : Pad I) (res : Resolution B) :
    Option (Entry B) × Manager B D → Prop
  | pending (h : res.source = some .pending) : Considered c s gp res (none, s)
  | unmapped (h : res.source = none) : Considered c s gp res (none, release s gp.index)
  | kept (mapped : res.source ≠ some .pending ∧ res.source ≠ none) (entry : Entry B)
      (there : s.pads.get gp.index = some entry) :
      Considered c s gp res (some { entry with bindings := res.bindings },
        { s with pads := s.pads.set gp.index { entry with bindings := res.bindings } })
  | free (mapped : res.source ≠ some .pending ∧ res.source ≠ none)
      (absent : s.pads.get gp.index = none) (free : c.single = true → s.pads.entries = []) :
      Considered c s gp res (announce c s gp res)
  | refused (mapped : res.source ≠ some .pending ∧ res.source ≠ none)
      (absent : s.pads.get gp.index = none) (single : c.single = true) (holder : Nat)
      (held : Entry B) (first : s.pads.entries.head? = some (holder, held))
      (refuse : s.preferredKey ≠ some res.key ∨ s.preferredKey = some held.key) :
      Considered c s gp res (none, s)
  | replaces (mapped : res.source ≠ some .pending ∧ res.source ≠ none)
      (absent : s.pads.get gp.index = none) (single : c.single = true) (holder : Nat)
      (held : Entry B) (first : s.pads.entries.head? = some (holder, held))
      (preferred : s.preferredKey = some res.key) :
      Considered c s gp res (announce c (release s holder) gp res)

theorem consider_cases (user : String → Option B) (s : Manager B D) (gp : Pad I) :
    Considered c (resolve c user s gp).2 gp (resolve c user s gp).1 (consider c user s gp) := by
  unfold consider
  dsimp only
  generalize (resolve c user s gp).2 = t
  generalize (resolve c user s gp).1 = res
  split
  case isTrue hpending => exact .pending hpending
  case isFalse hready =>
      split
      case isTrue hnone => exact .unmapped hnone
      case isFalse hsome =>
          split
          case h_1 entry hget => exact .kept ⟨hready, hsome⟩ entry hget
          case h_2 hget =>
              cases hs : c.single with
              | false =>
                rw [if_neg (by simp)]
                exact .free ⟨hready, hsome⟩ hget (by simp [hs])
              | true =>
                rw [if_pos rfl]
                split
                case h_1 hhead =>
                    exact .free ⟨hready, hsome⟩ hget fun _ => List.head?_eq_none_iff.mp hhead
                case h_2 holder held hhead =>
                    split
                    case isTrue hrefuse =>
                        exact .refused ⟨hready, hsome⟩ hget hs holder held hhead hrefuse
                    case isFalse htake =>
                        have hpref : t.preferredKey = some res.key := by
                          by_contra hnot
                          exact htake (Or.inl hnot)
                        exact .replaces ⟨hready, hsome⟩ hget hs holder held hhead hpref

theorem Placed.nil_or_singleton (h : Placed true (spots pads)) :
    pads.entries = [] ∨ ∃ e, pads.entries = [e] := by
  have hlen : pads.entries.length ≤ 1 := by
    have := h.1
    rwa [spots, length_map] at this
  cases hentries : pads.entries with
  | nil => exact Or.inl rfl
  | cons e rest =>
    have hrest : rest = [] := by
      rw [hentries, length_cons] at hlen
      exact eq_nil_of_length_eq_zero (by omega)
    exact Or.inr ⟨e, by rw [hrest]⟩

/-- The only pad's place is free once it is released. -/
theorem release_holder (h : Placed true (spots s.pads)) {holder : Nat}
    {held : Entry B} (hfirst : s.pads.entries.head? = some (holder, held)) :
    (release s holder).pads.entries = [] := by
  rw [release_pads]
  show s.pads.entries.filter (fun e => decide (e.1 ≠ holder)) = []
  rcases h.nil_or_singleton with hnil | ⟨e, hone⟩
  · rw [hnil]
    rfl
  · rw [hone] at hfirst ⊢
    obtain rfl : e = (holder, held) := by simpa using hfirst
    simp

theorem consider_sound (user : String → Option B)
    (h : Sound c.single s) (gp : Pad I) : Sound c.single (consider c user s gp).2 := by
  obtain ⟨hpads, hsent, -⟩ := resolve_same c user s gp
  have ht : Sound c.single (resolve c user s gp).2 := h.of_same (by rw [hpads]) hsent
  have hcases := consider_cases c user s gp
  generalize (resolve c user s gp).2 = t at ht hcases
  generalize (resolve c user s gp).1 = res at hcases
  generalize consider c user s gp = out at hcases
  cases hcases with
  | pending _ => exact ht
  | unmapped _ => exact release_sound ht gp.index
  | kept _ entry hget => exact ht.of_same (spots_set hget rfl) rfl
  | free _ habsent hfree => exact announce_sound c ht gp res habsent hfree
  | refused _ _ _ _ _ _ _ => exact ht
  | replaces _ habsent hs holder held hfirst _ =>
    have hplaced := ht.placed
    rw [hs] at hplaced
    have hempty := release_holder hplaced hfirst
    refine announce_sound c (release_sound ht holder) gp res ?_ fun _ => hempty
    unfold JsMap.get
    rw [hempty]
    rfl

theorem consider_get (user : String → Option B) (s : Manager B D) (gp : Pad I)
    (h : (consider c user s gp).1 = some entry) :
    (consider c user s gp).2.pads.get gp.index = some entry := by
  have hcases := consider_cases c user s gp
  generalize (resolve c user s gp).2 = t at hcases
  generalize (resolve c user s gp).1 = res at hcases
  generalize consider c user s gp = out at h hcases
  cases hcases with
  | pending _ => cases h
  | unmapped _ => cases h
  | kept _ old hget =>
    obtain rfl := Option.some.inj h
    exact get_set_self ..
  | free _ _ _ =>
    obtain rfl := Option.some.inj h
    exact get_set_self ..
  | refused _ _ _ _ _ _ _ => cases h
  | replaces _ _ _ _ _ _ _ =>
    obtain rfl := Option.some.inj h
    exact get_set_self ..

theorem pollPad_sound (user : String → Option B)
    (h : Sound c.single s) (sight : Sight I) : Sound c.single (pollPad c user s sight) := by
  have hconsidered := consider_sound c user h sight.gp
  have hget := fun entry (h : (consider c user s sight.gp).1 = some entry) =>
    consider_get c user s sight.gp h
  unfold pollPad
  generalize consider c user s sight.gp = out at hconsidered hget
  obtain ⟨found, t⟩ := out
  cases found with
  | none => exact hconsidered
  | some entry =>
    have hentry := hget entry rfl
    dsimp only at hconsidered hentry ⊢
    split
    · exact hconsidered
    · split
      · exact hconsidered
      · have hspots : spots (t.pads.set sight.gp.index
            { entry with
              last := some (c.read sight.gp.input entry.bindings), sentAt := sight.now }) =
            spots t.pads := spots_set hentry rfl
        have hthere : entry.hostIndex ∈ hosts t.pads :=
          mem_toFinset.mpr (mem_map.mpr ⟨_, mem_spots_of_get hentry, rfl⟩)
        constructor
        · show Placed c.single (spots (t.pads.set _ _))
          rw [hspots]
          exact hconsidered.placed
        · show Stream _ _ _ ((t.sent ++ [_]).map notice) (hosts (t.pads.set _ _))
          rw [map_append, hosts_congr hspots]
          refine Stream.reports hconsidered.stream hthere ?_
          rw [← hosts_congr hspots]
          exact shows_mask _

theorem poll_sound (user : String → Option B)
    (h : Sound c.single s) (sights : List (Sight I)) :
    Sound c.single (sights.foldl (pollPad c user) s) := by
  induction sights generalizing s with
  | nil => exact h
  | cons sight sights ih => exact ih (pollPad_sound c user h sight)

theorem resendAll_sound (h : Sound single s) :
    Sound single (resendAll s) :=
  h.of_same (spots_changeAll s.pads fun _ => rfl) rfl

variable (entries : List (Nat × Entry B))

theorem stream_reports (hthere : ∀ e ∈ entries, e.2.hostIndex ∈ hosts pads)
    {sent : List Message} (h : Stream (May single) Shows 0#32 (sent.map notice) (hosts pads)) :
    Stream (May single) Shows 0#32
      ((sent ++ entries.map fun e => Message.gamepad e.2.hostIndex (mask pads) rest).map notice)
      (hosts pads) := by
  induction entries generalizing sent with
  | nil => simpa using h
  | cons e entries ih =>
    have hfirst := Stream.reports h (hthere e (mem_cons_self ..)) (shows_mask pads)
    have hnext : Stream (May single) Shows 0#32
        ((sent ++ [Message.gamepad e.2.hostIndex (mask pads) rest]).map notice) (hosts pads) := by
      rw [map_append]
      exact hfirst
    have hrest := ih (fun e' he' => hthere e' (mem_cons_of_mem _ he')) hnext
    rwa [append_assoc] at hrest

theorem setPaused_sound (h : Sound single s) (paused : Bool)
    (now : Int) : Sound single (setPaused s paused now) := by
  unfold setPaused
  split
  · exact h
  · split
    · have hspots : spots (changeAll s.pads fun e => { e with last := some rest, sentAt := now }) =
          spots s.pads := spots_changeAll s.pads fun _ => rfl
      constructor
      · show Placed single (spots (changeAll s.pads _))
        rw [hspots]
        exact h.placed
      · show Stream _ _ _ _ (hosts (changeAll s.pads _))
        rw [hosts_congr hspots]
        exact stream_reports _ (fun e he => mem_hosts.mpr ⟨e, he, rfl⟩) h.stream
    · exact resendAll_sound (s := { s with paused := paused }) (h.of_same rfl rfl)

theorem releases_sound
    (unwanted : Nat × Entry B → Prop) [DecidablePred unwanted] (h : Sound single s) :
    Sound single (entries.foldl (fun t e => if unwanted e then release t e.1 else t) s) := by
  induction entries generalizing s with
  | nil => exact h
  | cons e entries ih =>
    rw [foldl_cons]
    split
    · exact ih (release_sound h e.1)
    · exact ih h

theorem stop_sound (h : Sound single s) :
    Sound single (stop s) := by
  unfold stop
  split
  · constructor
    · show Placed single (spots empty)
      unfold Placed
      cases single <;> simp [spots, empty]
    · have hclosing : (s.pads.entries.map fun e => Message.gamepaddisconnect e.2.hostIndex 0#32).map
          notice = ((spots s.pads).map Prod.snd).map fun i => Notice.leaves i 0#32 := by
        simp [spots, Function.comp_def, notice]
      have hempty : hosts (empty : JsMap Nat (Entry B)) = ∅ := rfl
      show Stream _ _ _ ((s.sent ++ _).map notice) (hosts empty)
      rw [map_append, hclosing, hempty]
      exact Stream.closes _ h.stream (h.placed.nodup (spots_nodup s.pads)) rfl
  · exact h

theorem handle_sound (h : Sound c.single s)
    (event : Event I B D) : Sound c.single (handle c s event) := by
  cases event with
  | start user sights =>
    show Sound c.single (start c user s sights)
    unfold start
    split
    · exact h
    · exact poll_sound c user (s := { s with running := true }) (h.of_same rfl rfl) sights.list
  | poll user sights =>
    show Sound c.single (if s.running then poll c user s sights else s)
    split
    · exact poll_sound c user h sights.list
    · exact h
  | connect user gp =>
    show Sound c.single (if s.running then (consider c user s gp).2 else s)
    split
    · exact consider_sound c user h gp
    · exact h
  | disconnect index =>
    show Sound c.single (if s.running then handleDisconnect s index else s)
    split
    · exact release_sound (s := { s with resolved := s.resolved.delete index })
        (h.of_same rfl rfl) index
    · exact h
  | refreshMappings => exact h.of_same rfl rfl
  | dbLoaded db =>
    show Sound c.single (dbLoaded s db)
    unfold dbLoaded
    split
    · exact h.of_same rfl rfl
    · exact h
  | setPaused paused now => exact setPaused_sound h paused now
  | setPreferredPad key =>
    show Sound c.single (setPreferredPad c s key)
    unfold setPreferredPad
    dsimp only
    split
    · exact releases_sound s.pads.entries (fun e => some e.2.key ≠ orNull key)
        (s := { s with preferredKey := orNull key }) (h.of_same rfl rfl)
    · exact h.of_same rfl rfl
  | resendAll => exact resendAll_sound h
  | stop => exact stop_sound h

theorem initial_sound (single : Bool) (preferredKey : Option String) (db : Option (Option D)) :
    Sound single (initial preferredKey db : Manager B D) := by
  constructor
  · unfold Placed
    cases single <;> simp [spots, initial, empty]
  · exact Stream.nil

theorem run_sound (preferredKey : Option String) (db : Option (Option D))
    (events : List (Event I B D)) : Sound c.single (run c preferredKey db events) := by
  unfold run
  induction events using List.reverseRecOn with
  | nil => exact initial_sound c.single preferredKey db
  | append_singleton events event ih =>
    rw [foldl_append]
    exact handle_sound c ih event

theorem release_running (s : Manager B D) (k : Nat) : (release s k).running = s.running := by
  unfold release
  split <;> rfl

theorem releases_running
    (unwanted : Nat × Entry B → Prop) [DecidablePred unwanted] (s : Manager B D) :
    (entries.foldl (fun t e => if unwanted e then release t e.1 else t) s).running =
      s.running := by
  induction entries generalizing s with
  | nil => rfl
  | cons e entries ih =>
    rw [foldl_cons, ih]
    split
    · exact release_running s e.1
    · rfl

theorem consider_running (user : String → Option B) (s : Manager B D)
    (gp : Pad I) : (consider c user s gp).2.running = s.running := by
  obtain ⟨-, -, hrunning, -⟩ := resolve_same c user s gp
  have hcases := consider_cases c user s gp
  rw [← hrunning]
  generalize (resolve c user s gp).2 = t at hcases
  generalize (resolve c user s gp).1 = res at hcases
  generalize consider c user s gp = out at hcases
  cases hcases with
  | pending _ => rfl
  | unmapped _ => exact release_running t gp.index
  | kept _ _ _ => rfl
  | free _ _ _ => rfl
  | refused _ _ _ _ _ _ _ => rfl
  | replaces _ _ _ holder _ _ _ => exact release_running t holder

theorem pollPad_running (user : String → Option B) (s : Manager B D)
    (sight : Sight I) : (pollPad c user s sight).running = s.running := by
  have hconsidered := consider_running c user s sight.gp
  unfold pollPad
  split
  case h_1 t heq => rw [← hconsidered, heq]
  case h_2 entry t heq =>
      rw [heq] at hconsidered
      split
      · exact hconsidered
      · dsimp only
        split
        · exact hconsidered
        · exact hconsidered

theorem poll_running (user : String → Option B) (s : Manager B D)
    (sights : List (Sight I)) : (sights.foldl (pollPad c user) s).running = s.running := by
  induction sights generalizing s with
  | nil => rfl
  | cons sight sights ih => rw [foldl_cons, ih, pollPad_running]

theorem handle_running (h : s.running = true)
    {event : Event I B D} (hstop : event ≠ .stop) : (handle c s event).running = true := by
  cases event with
  | start user sights =>
    show (start c user s sights).running = true
    unfold start
    rw [if_pos h]
    exact h
  | poll user sights =>
    show (if s.running then poll c user s sights else s).running = true
    rw [if_pos h]
    exact (poll_running c user s sights.list).trans h
  | connect user gp =>
    show (if s.running then (consider c user s gp).2 else s).running = true
    rw [if_pos h]
    exact (consider_running c user s gp).trans h
  | disconnect index =>
    show (if s.running then handleDisconnect s index else s).running = true
    rw [if_pos h]
    exact (release_running _ index).trans h
  | refreshMappings => exact h
  | dbLoaded db =>
    show (dbLoaded s db).running = true
    unfold dbLoaded
    split <;> exact h
  | setPaused paused now =>
    show (setPaused s paused now).running = true
    unfold setPaused resendAll
    dsimp only
    split
    · exact h
    · split <;> exact h
  | setPreferredPad key =>
    show (setPreferredPad c s key).running = true
    unfold setPreferredPad
    dsimp only
    split
    · exact (releases_running _ _ _).trans h
    · exact h
  | resendAll => exact h
  | stop => exact absurd rfl hstop

/-- Nothing is forwarded but while the manager runs. -/
theorem handle_stopped (h : s.running = false → s.pads.entries = []) (event : Event I B D) :
    (handle c s event).running = false → (handle c s event).pads.entries = [] := by
  intro hstopped
  cases hrun : s.running with
  | true =>
    by_cases hstop : event = .stop
    · rw [hstop]
      show (stop s).pads.entries = []
      unfold stop
      rw [if_pos hrun]
      rfl
    · rw [handle_running c hrun hstop] at hstopped
      cases hstopped
  | false =>
    have hnone := h hrun
    have hnot : ¬ s.running = true := by simp [hrun]
    cases event with
    | start user sights =>
      have hstarted : (handle c s (.start user sights)).running = true := by
        show (start c user s sights).running = true
        unfold start
        rw [if_neg hnot]
        exact poll_running c user _ sights.list
      rw [hstarted] at hstopped
      cases hstopped
    | poll user sights =>
      show (if s.running then poll c user s sights else s).pads.entries = []
      rw [if_neg hnot, hnone]
    | connect user gp =>
      show (if s.running then (consider c user s gp).2 else s).pads.entries = []
      rw [if_neg hnot, hnone]
    | disconnect index =>
      show (if s.running then handleDisconnect s index else s).pads.entries = []
      rw [if_neg hnot, hnone]
    | refreshMappings => exact hnone
    | dbLoaded db =>
      show (dbLoaded s db).pads.entries = []
      unfold dbLoaded
      split <;> exact hnone
    | setPaused paused now =>
      show (setPaused s paused now).pads.entries = []
      unfold setPaused resendAll changeAll
      dsimp only
      split
      · exact hnone
      · split <;> simp [hnone]
    | setPreferredPad key =>
      show (setPreferredPad c s key).pads.entries = []
      unfold setPreferredPad
      dsimp only
      rw [hnone]
      split <;> exact hnone
    | resendAll =>
      show s.pads.entries.map _ = []
      rw [hnone]
      rfl
    | stop =>
      show (stop s).pads.entries = []
      unfold stop
      rw [if_neg hnot, hnone]

theorem run_stopped (preferredKey : Option String) (db : Option (Option D))
    (events : List (Event I B D)) (h : (run c preferredKey db events).running = false) :
    (run c preferredKey db events).pads.entries = [] := by
  have hall : (run c preferredKey db events).running = false →
      (run c preferredKey db events).pads.entries = [] := by
    clear h
    unfold run
    induction events using List.reverseRecOn with
    | nil => exact fun _ => rfl
    | append_singleton events event ih =>
      rw [foldl_append]
      exact handle_stopped c ih event
  exact hall h

/-- The one pad forwarded is of the preferred key, or at this index. -/
def Holds (s : Manager B D) (index : Nat) : Prop :=
  ∃ k e, s.pads.entries = [(k, e)] ∧ (s.preferredKey = some e.key ∨ k = index)

/-- What the part of a poll about another pad leaves of one. -/
structure Left (s t : Manager B D) (index : Nat) : Prop where
  db : t.db = s.db
  preferredKey : t.preferredKey = s.preferredKey
  resolved : t.resolved.get index = s.resolved.get index
  pad : t.pads.get index = s.pads.get index ∨ t.pads.get index = none

variable {index : Nat}

theorem Left.trans {s t w : Manager B D} (h : Left s t index)
    (h' : Left t w index) : Left s w index where
  db := h'.db.trans h.db
  preferredKey := h'.preferredKey.trans h.preferredKey
  resolved := h'.resolved.trans h.resolved
  pad := by
    rcases h'.pad with hsame | hnone
    · rw [hsame]
      exact h.pad
    · exact Or.inr hnone

theorem Left.refl (s : Manager B D) (index : Nat) : Left s s index :=
  ⟨rfl, rfl, rfl, Or.inl rfl⟩

theorem release_left (s : Manager B D) (k index : Nat) : Left s (release s k) index := by
  have hpads : (release s k).pads.get index = s.pads.get index ∨
      (release s k).pads.get index = none := by
    rw [release_pads]
    by_cases hk : index = k
    · rw [hk]
      exact Or.inr (get_delete_self ..)
    · exact Or.inl (get_delete_of_ne _ hk)
  refine ⟨?_, ?_, ?_, hpads⟩
  all_goals
    unfold release
    split <;> rfl

theorem announce_left (s : Manager B D) (gp : Pad I) (res : Resolution B)
    (h : index ≠ gp.index) : Left s (announce c s gp res).2 index :=
  ⟨rfl, rfl, rfl, Or.inl (get_set_of_ne _ _ h)⟩

theorem resolve_left (user : String → Option B) (s : Manager B D) (gp : Pad I)
    (h : index ≠ gp.index) : Left s (resolve c user s gp).2 index := by
  obtain ⟨hpads, -, -, hkey, hdb⟩ := resolve_same c user s gp
  refine ⟨hdb, hkey, ?_, Or.inl (by rw [hpads])⟩
  have hanew : (resolveAnew c user s gp).2.resolved.get index = s.resolved.get index := by
    unfold resolveAnew loadDb
    dsimp only
    split
    · split <;> rfl
    · exact get_set_of_ne _ _ h
  unfold resolve
  split
  · split
    · rfl
    · exact hanew
  · exact hanew

theorem consider_left (user : String → Option B) (s : Manager B D) (gp : Pad I)
    (h : index ≠ gp.index) : Left s (consider c user s gp).2 index := by
  have hresolved := resolve_left c user s gp h
  have hcases := consider_cases c user s gp
  generalize (resolve c user s gp).2 = t at hresolved hcases
  generalize (resolve c user s gp).1 = res at hcases
  generalize consider c user s gp = out at hcases
  refine hresolved.trans ?_
  cases hcases with
  | pending _ => exact Left.refl t index
  | unmapped _ => exact release_left t gp.index index
  | kept _ entry _ => exact ⟨rfl, rfl, rfl, Or.inl (get_set_of_ne _ _ h)⟩
  | free _ _ _ => exact announce_left c t gp res h
  | refused _ _ _ _ _ _ _ => exact Left.refl t index
  | replaces _ _ _ holder _ _ _ =>
    exact (release_left t holder index).trans (announce_left c _ gp res h)

/-- The body of the loop sends a state or nothing once the pad was considered. -/
theorem pollPad_cases (user : String → Option B) (s : Manager B D)
    (sight : Sight I) :
    pollPad c user s sight = (consider c user s sight.gp).2 ∨
      ∃ entry last sentAt msg, (consider c user s sight.gp).2.pads.get sight.gp.index = some entry ∧
        pollPad c user s sight = send { (consider c user s sight.gp).2 with
          pads := (consider c user s sight.gp).2.pads.set sight.gp.index
            { entry with last := last, sentAt := sentAt } } msg := by
  have hget := fun entry (h : (consider c user s sight.gp).1 = some entry) =>
    consider_get c user s sight.gp h
  unfold pollPad
  generalize consider c user s sight.gp = out at hget
  obtain ⟨found, t⟩ := out
  cases found with
  | none => exact Or.inl rfl
  | some entry =>
    have hentry := hget entry rfl
    dsimp only at hentry ⊢
    split
    · exact Or.inl rfl
    · split
      · exact Or.inl rfl
      · exact Or.inr ⟨entry, _, _, _, hentry, rfl⟩

theorem pollPad_left (user : String → Option B) (s : Manager B D)
    (sight : Sight I) (h : index ≠ sight.gp.index) :
    Left s (pollPad c user s sight) index := by
  have hconsidered := consider_left c user s sight.gp h
  rcases pollPad_cases c user s sight with hsame | ⟨entry, last, sentAt, msg, -, hsent⟩
  · rw [hsame]
    exact hconsidered
  · rw [hsent]
    exact hconsidered.trans ⟨rfl, rfl, rfl, Or.inl (get_set_of_ne _ _ h)⟩

theorem poll_left (user : String → Option B) (s : Manager B D)
    (sights : List (Sight I)) (h : index ∉ sights.map fun sight => sight.gp.index) :
    Left s (sights.foldl (pollPad c user) s) index := by
  induction sights generalizing s with
  | nil => exact Left.refl s index
  | cons sight sights ih =>
    rw [map_cons, mem_cons, not_or] at h
    exact (pollPad_left c user s sight h.1).trans (ih _ h.2)

theorem resolve_congr (user : String → Option B) {s t : Manager B D}
    {gp : Pad I} (h : Left s t gp.index) :
    (resolve c user t gp).1 = (resolve c user s gp).1 := by
  have hanew : (resolveAnew c user t gp).1 = (resolveAnew c user s gp).1 := by
    unfold resolveAnew
    dsimp only
    rw [h.db]
    split <;> rfl
  unfold resolve
  rw [h.resolved]
  split
  · split
    · rfl
    · exact hanew
  · exact hanew

/-- A pad that stays looks to `Holds` as it did. -/
theorem Holds.of_set {s t : Manager B D} {index k : Nat} {entry old : Entry B}
    (h : Holds s index) (hold : s.pads.get k = some old) (hpads : t.pads = s.pads.set k entry)
    (hkey : entry.key = old.key) (hpref : t.preferredKey = s.preferredKey) : Holds t index := by
  obtain ⟨k', e, hentries, hwho⟩ := h
  have hmem : (k, old) ∈ s.pads.entries := (mem_entries_iff s.pads k old).mpr hold
  rw [hentries, mem_singleton] at hmem
  obtain ⟨rfl, rfl⟩ := Prod.mk.inj hmem
  refine ⟨k, entry, ?_, by rw [hpref, hkey]; exact hwho⟩
  rw [hpads]
  show setEntries k entry s.pads.entries = [(k, entry)]
  rw [hentries]
  simp [setEntries]

theorem announce_entries (gp : Pad I) (res : Resolution B)
    (hempty : s.pads.entries = []) :
    ∃ e, (announce c s gp res).2.pads.entries = [(gp.index, e)] ∧ e.key = res.key := by
  refine ⟨⟨none, 0, gp.vibrationActuator, res.bindings, if c.single then 0 else gp.index, res.key⟩,
    ?_, rfl⟩
  show setEntries gp.index _ s.pads.entries = _
  rw [hempty]
  rfl

/-- Considering the preferred pad, when it is mapped, gives it the place or leaves it to a pad
of its key. -/
theorem consider_holds (user : String → Option B)
    (hs : c.single = true) (h : Sound c.single s) (gp : Pad I)
    (hmapped : (resolve c user s gp).1.source ≠ none)
    (hready : (resolve c user s gp).1.source ≠ some .pending)
    (hpref : s.preferredKey = some (resolve c user s gp).1.key) :
    Holds (consider c user s gp).2 gp.index := by
  obtain ⟨hpads, hsent, -, hkey, -⟩ := resolve_same c user s gp
  have ht : Sound c.single (resolve c user s gp).2 := h.of_same (by rw [hpads]) hsent
  have hcases := consider_cases c user s gp
  rw [← hkey] at hpref
  generalize (resolve c user s gp).2 = t at ht hcases hpref
  generalize (resolve c user s gp).1 = res at hcases hmapped hready hpref
  generalize consider c user s gp = out at hcases
  have hplaced := ht.placed
  rw [hs] at hplaced
  have hfew := hplaced.nil_or_singleton
  cases hcases with
  | pending hpending => exact absurd hpending hready
  | unmapped hnone => exact absurd hnone hmapped
  | kept _ entry hget =>
    have hmem := (mem_entries_iff t.pads gp.index entry).mpr hget
    rcases hfew with hnil | ⟨e, hone⟩
    · rw [hnil] at hmem
      cases hmem
    · rw [hone, mem_singleton] at hmem
      have hheld : Holds t gp.index := ⟨gp.index, entry, by rw [hone, hmem], Or.inr rfl⟩
      exact hheld.of_set hget rfl rfl rfl
  | free _ _ hfree =>
    obtain ⟨e, hentries, -⟩ := announce_entries c gp res (hfree hs)
    exact ⟨gp.index, e, hentries, Or.inr rfl⟩
  | refused _ _ _ holder held hfirst hrefuse =>
    have hheld : t.preferredKey = some held.key := by
      rcases hrefuse with hother | hsame
      · exact absurd hpref hother
      · exact hsame
    rcases hfew with hnil | ⟨e, hone⟩
    · rw [hnil] at hfirst
      cases hfirst
    · rw [hone] at hfirst
      obtain rfl : e = (holder, held) := by simpa using hfirst
      exact ⟨holder, held, hone, Or.inl hheld⟩
  | replaces _ _ _ holder held hfirst _ =>
    obtain ⟨e, hentries, -⟩ := announce_entries c gp res (release_holder hplaced hfirst)
    exact ⟨gp.index, e, hentries, Or.inr rfl⟩

/-- Considering another pad leaves the place to the preferred one, unless that other pad has
it and lost its mapping. -/
theorem consider_keeps (user : String → Option B)
    (hs : c.single = true) (h : Sound c.single s) (gp : Pad I)
    (hne : index ≠ gp.index) (hheld : Holds s index)
    (hmapped : ∀ e, s.pads.get gp.index = some e → s.preferredKey = some e.key →
      (resolve c user s gp).1.source ≠ none) :
    Holds (consider c user s gp).2 index := by
  obtain ⟨hpads, hsent, -, hkey, -⟩ := resolve_same c user s gp
  have ht : Sound c.single (resolve c user s gp).2 := h.of_same (by rw [hpads]) hsent
  have hcases := consider_cases c user s gp
  have hheld' : Holds (resolve c user s gp).2 index := by
    unfold Holds
    rw [hpads, hkey]
    exact hheld
  rw [← hpads, ← hkey] at hmapped
  generalize (resolve c user s gp).2 = t at ht hcases hheld' hmapped
  generalize (resolve c user s gp).1 = res at hcases hmapped
  generalize consider c user s gp = out at hcases
  have hplaced := ht.placed
  rw [hs] at hplaced
  cases hcases with
  | pending _ => exact hheld'
  | unmapped hnone =>
    obtain ⟨k, e, hentries, hwho⟩ := hheld'
    by_cases hk : k = gp.index
    · have hget : t.pads.get gp.index = some e :=
        (mem_entries_iff t.pads gp.index e).mp (by rw [hentries, hk]; simp)
      rcases hwho with hpref | hindex
      · exact absurd hnone (hmapped e hget hpref)
      · exact absurd (hindex.symm.trans hk) hne
    · refine ⟨k, e, ?_, ?_⟩
      · rw [release_pads]
        show t.pads.entries.filter _ = _
        rw [hentries]
        simp [hk]
      · rw [(release_left t gp.index index).preferredKey]
        exact hwho
  | kept _ entry hget => exact hheld'.of_set hget rfl rfl rfl
  | free _ _ hfree =>
    obtain ⟨k, e, hentries, -⟩ := hheld'
    rw [hfree hs] at hentries
    cases hentries
  | refused _ _ _ _ _ _ _ => exact hheld'
  | replaces _ _ _ holder held hfirst hpref =>
    obtain ⟨e, hentries, hkey'⟩ := announce_entries c gp res (release_holder hplaced hfirst)
    refine ⟨gp.index, e, hentries, Or.inl ?_⟩
    show (release t holder).preferredKey = some e.key
    rw [(release_left t holder index).preferredKey, hkey']
    exact hpref

theorem pollPad_holds (user : String → Option B)
    (sight : Sight I) (h : Holds (consider c user s sight.gp).2 index) :
    Holds (pollPad c user s sight) index := by
  rcases pollPad_cases c user s sight with hsame | ⟨entry, last, sentAt, msg, hget, hsent⟩
  · rw [hsame]
    exact h
  · rw [hsent]
    exact h.of_set hget rfl rfl rfl

/-- The rest of a poll leaves the place to the preferred pad. -/
theorem poll_keeps (user : String → Option B)
    (hs : c.single = true) (h : Sound c.single s) (sights : List (Sight I))
    (hother : index ∉ sights.map fun sight => sight.gp.index)
    (hdistinct : (sights.map fun sight => sight.gp.index).Nodup) (hheld : Holds s index)
    (hmapped : ∀ sight ∈ sights, ∀ e, s.pads.get sight.gp.index = some e →
      s.preferredKey = some e.key → (resolve c user s sight.gp).1.source ≠ none) :
    Holds (sights.foldl (pollPad c user) s) index := by
  induction sights generalizing s with
  | nil => exact hheld
  | cons sight sights ih =>
    rw [map_cons, mem_cons, not_or] at hother
    rw [map_cons, nodup_cons] at hdistinct
    rw [foldl_cons]
    have hconsidered := consider_keeps c user hs h sight.gp hother.1 hheld
      (hmapped sight (mem_cons_self ..))
    refine ih (pollPad_sound c user h sight) hother.2 hdistinct.2
      (pollPad_holds c user sight hconsidered) ?_
    intro later hlater e hget hpref
    have hne : later.gp.index ≠ sight.gp.index := fun hsame =>
      hdistinct.1 (hsame ▸ mem_map_of_mem hlater)
    have hleft := pollPad_left c user s sight hne
    rw [resolve_congr c user hleft]
    refine hmapped later (mem_cons_of_mem _ hlater) e ?_ (hleft.preferredKey ▸ hpref)
    rcases hleft.pad with hsame | hnone
    · rw [← hsame]
      exact hget
    · rw [hnone] at hget
      cases hget

/-- A poll that sees the preferred pad mapped gives it the place, unless a pad of its key has
it: one that this poll does not find without a mapping. -/
theorem poll_holds (user : String → Option B)
    (hs : c.single = true) (h : Sound c.single s) (sights : Sights I) {sight : Sight I}
    (hseen : sight ∈ sights.list) (hmapped : (resolve c user s sight.gp).1.source ≠ none)
    (hready : (resolve c user s sight.gp).1.source ≠ some .pending)
    (hpref : s.preferredKey = some (resolve c user s sight.gp).1.key)
    (hothers : ∀ other ∈ sights.list, ∀ e, s.pads.get other.gp.index = some e →
      s.preferredKey = some e.key → (resolve c user s other.gp).1.source ≠ none) :
    Holds (poll c user s sights) sight.gp.index := by
  obtain ⟨before, after, hsplit⟩ := append_of_mem hseen
  have hdistinct := sights.distinct
  rw [hsplit, map_append, map_cons] at hdistinct
  obtain ⟨-, hlater, hapart⟩ := nodup_append.mp hdistinct
  obtain ⟨hafter, hafterNodup⟩ := nodup_cons.mp hlater
  have hbefore : sight.gp.index ∉ before.map fun other => other.gp.index := fun hin =>
    hapart _ hin _ (mem_cons_self ..) rfl
  unfold poll
  rw [hsplit, foldl_append, foldl_cons]
  have hsound := poll_sound c user h before
  have hleft := poll_left c user s before hbefore
  have hcongr := resolve_congr c user hleft
  have htaken := consider_holds c user hs hsound sight.gp (hcongr ▸ hmapped) (hcongr ▸ hready)
    (by rw [hleft.preferredKey, hcongr]; exact hpref)
  refine poll_keeps c user hs (pollPad_sound c user hsound sight) after hafter hafterNodup
    (pollPad_holds c user sight htaken) ?_
  intro other hother e hget hkey
  have hin : other.gp.index ∈ after.map fun sight => sight.gp.index := mem_map_of_mem hother
  have hne : other.gp.index ≠ sight.gp.index := fun hsame => hafter (hsame ▸ hin)
  have hnot : other.gp.index ∉ before.map fun sight => sight.gp.index := fun hb =>
    hapart _ hb _ (mem_cons_of_mem _ hin) rfl
  have hboth := (poll_left c user s before hnot).trans (pollPad_left c user _ sight hne)
  rw [resolve_congr c user hboth]
  refine hothers other ?_ e ?_ (hboth.preferredKey ▸ hkey)
  · rw [hsplit]
    exact mem_append_right _ (mem_cons_of_mem _ hother)
  · rcases hboth.pad with hsame | hnone
    · rw [← hsame]
      exact hget
    · rw [hnone] at hget
      cases hget

/-- A manager for pads whose ids are their keys, and which rest. -/
def plain (single : Bool) : Setup Unit Unit Unit where
  single := single
  profile := .auto
  platform := .ios
  padKey := id
  detectType := fun _ => 0
  androidFix := fun _ => none
  lookup := fun _ _ _ => none
  read := fun _ _ => rest

def padAt (index : Nat) (id : String) (standard : Bool) : Pad Unit :=
  ⟨index, id, standard, false, ()⟩

def twoPads : Sights Unit :=
  ⟨[⟨padAt 0 "a" true, 0⟩, ⟨padAt 1 "b" true, 0⟩], by decide⟩

/-- The key preferred, and the keys of the pads forwarded. -/
def preference (s : Manager B D) : Option String × List (Nat × String) :=
  (s.preferredKey, s.pads.entries.map fun e => (e.1, e.2.key))

end MoonlightWeb.Frontend.GamepadManager
