import Mathlib
import MoonlightWeb.Lib.Run

/-! # Muting the host for a session

`HostMute` mutes the sink the host listens to, on its card's route or on its node, or moves the
playback to a silent output, and takes back at the end what it wrote, if it still stands. A
write may take effect or not and, apart from that, be reported done or not.
-/

namespace MoonlightWeb.NativeHost.HostMute

open Lib

inductive Output (S : Type)
  | unset
  | sink (name : S)
  | silent
deriving DecidableEq

/-- What can be set: the mute and the soft mute of a sink's node, the mute of its card's route,
and the default output. -/
inductive Key (S : Type)
  | node (sink : S)
  | route (sink : S)
  | output
deriving DecidableEq

abbrev Value (S : Type) : Key S → Type
  | .node _ => Bool × Bool
  | .route _ => Bool
  | .output => Output S

abbrev Settings (S : Type) := (k : Key S) → Value S k

structure Write where
  takes : Bool
  done : Bool

variable {S : Type}

def Write.ask (write : Write) (change : Settings S → Settings S) (st : Settings S) : Settings S :=
  if write.takes then change st else st

variable [DecidableEq S]

def writeRouteMute (sink : S) (muted : Bool) (st : Settings S) : Settings S :=
  Function.update (Function.update st (.node sink) (muted, muted)) (.route sink) muted

def writeMute (sink : S) (muted : Bool × Bool) (st : Settings S) : Settings S :=
  Function.update st (.node sink) muted

def writeDefaultSink (value : Output S) (st : Settings S) : Settings S :=
  Function.update st .output value

/-- What the server is like in an engage. Where it publishes no mute of the node, what the
members held before is read. -/
structure Server where
  connects : Bool
  sinkFound : Bool
  monitorCarriesVolume : Bool
  hasRoute : Bool
  published : Bool
  nodeMuted : Bool × Bool
  muteWrite : Write
  created : Bool
  outputWrite : Write

/-- The strategy, what was written for it, and the values saved. -/
inductive Strategy (S : Type)
  | none
  | alreadyMuted
  | sinkMute (sink : S) (useRoute : Bool) (saved : Bool × Bool)
  | nullSink (saved : Output S)

def write (sink : S) (useRoute : Bool) (muted : Bool × Bool) : Settings S → Settings S :=
  if useRoute then writeRouteMute sink muted.1 else writeMute sink muted

def engageNullSink (server : Server) (st : Settings S) : Settings S × Strategy S :=
  if server.created = false then (st, .none)
  else
    (server.outputWrite.ask (writeDefaultSink .silent) st,
      if server.outputWrite.done then .nullSink (st .output) else .none)

/-- The mutes an engage reads. -/
def survey (server : Server) (sink : S) (st : Settings S) : Bool × Bool :=
  let read := if server.published then st (.node sink) else server.nodeMuted
  (if server.hasRoute then st (.route sink) else read.1, read.2)

/-- The engage of a `HostMute` that is released. -/
def engage (server : Server) (st : Settings S) : Settings S × Strategy S :=
  match st .output with
  | .sink sink =>
      let saved := survey server sink st
      if server.connects = false ∨ server.sinkFound = false then (st, .none)
      else if server.monitorCarriesVolume then engageNullSink server st
      else if (server.hasRoute ∨ server.published) ∧ saved.1 then (st, .alreadyMuted)
      else
        let st := server.muteWrite.ask (write sink server.hasRoute (true, true)) st
        if server.muteWrite.done then (st, .sinkMute sink server.hasRoute saved)
        else engageNullSink server st
  | _ => (st, .none)

/-- What comes of the read and of the write of a release. -/
structure Undo where
  read : Bool
  write : Write

def release (h : Strategy S) (undo : Undo) (st : Settings S) : Settings S :=
  match h with
  | .sinkMute sink useRoute saved =>
      if undo.read ∧ (if useRoute then st (.route sink) else (st (.node sink)).1) then
        undo.write.ask (write sink useRoute saved) st
      else st
  | .nullSink saved =>
      if undo.read ∧ st .output = .silent then undo.write.ask (writeDefaultSink saved) st else st
  | _ => st

/-- The settings now, and as the last engage found and left them. -/
structure World (S : Type) where
  settings : Settings S
  mute : Strategy S
  before : Settings S
  left : Settings S

inductive Event (S : Type)
  | user (settings : Settings S)
  | engage (undo : Undo) (server : Server)
  | release (undo : Undo)

def Event.undo : Event S → Option Undo
  | .user _ => none
  | .engage undo _ => some undo
  | .release undo => some undo

def handle (w : World S) : Event S → World S
  | .user settings => { w with settings := settings }
  | .engage undo server =>
      let st := release w.mute undo w.settings
      ⟨(engage server st).1, (engage server st).2, st, (engage server st).1⟩
  | .release undo =>
      let st := release w.mute undo w.settings
      ⟨st, .none, st, st⟩

def start (settings : Settings S) : World S := ⟨settings, .none, settings, settings⟩

def Restored (before left now after : Settings S) : Prop :=
  ∀ k, (now k = left k → after k = before k) ∧ (now k ≠ left k → after k = now k)

structure Kept (w : World S) (e : Event S) (w' : World S) : Prop where
  engaged : ∀ undo server, e = .engage undo server → w'.mute = .none → w'.settings = w'.before
  released : ∀ undo ∈ e.undo, undo.read → undo.write.takes → undo.write.done →
    Restored w.before w.left w.settings (release w.mute undo w.settings)

def Mirrored (sink : S) (st : Settings S) : Prop :=
  st (.node sink) = (st (.route sink), st (.route sink))

/-- Writes take effect exactly as reported, a mute that is written over is known, a route is
mirrored, and what the user mutes on a node is muted in both ways. -/
structure Plain (w : World S) (e : Event S) : Prop where
  reported : ∀ undo server, e = .engage undo server →
    server.muteWrite.takes = server.muteWrite.done ∧
      server.outputWrite.takes = server.outputWrite.done
  known : ∀ undo server, e = .engage undo server → server.monitorCarriesVolume = false →
    ∀ sink, release w.mute undo w.settings .output = .sink sink →
      if server.hasRoute then Mirrored sink (release w.mute undo w.settings) else server.published
  both : ∀ undo ∈ e.undo, ∀ sink useRoute saved, w.mute = .sinkMute sink useRoute saved →
    if useRoute then Mirrored sink w.settings
    else (w.settings (.node sink)).1 → (w.settings (.node sink)).2

/-- What an engage leaves, in terms of what it found. -/
def Left (h : Strategy S) (before left : Settings S) : Prop :=
  match h with
  | .sinkMute sink useRoute saved => left = write sink useRoute (true, true) before ∧
      if useRoute then before (.route sink) = saved.1 ∧ Mirrored sink before
      else before (.node sink) = saved
  | .nullSink saved => left = writeDefaultSink .silent before ∧ before .output = saved
  | _ => left = before

variable {before left now : Settings S} {sink : S}

omit [DecidableEq S] in
/-- What was written is put back while all of it stands. -/
theorem restored_write {C : Key S → Prop} {put : Settings S} {P : Prop} [Decidable P]
    (hleft : ∀ k, ¬ C k → left k = before k) (hput : ∀ k, ¬ C k → put k = now k)
    (hback : ∀ k, C k → put k = before k) (hstands : ∀ k, C k → (P ↔ now k = left k)) :
    Restored before left now (if P then put else now) := by
  intro k
  by_cases hk : C k
  · have hstands := hstands k hk
    split_ifs with hP
    · exact ⟨fun _ => hback k hk, fun hne => absurd (hstands.mp hP) hne⟩
    · exact ⟨fun heq => absurd (hstands.mpr heq) hP, fun _ => rfl⟩
  · split_ifs
    · rw [hput k hk, hleft k hk]
      exact ⟨id, fun _ => rfl⟩
    · rw [hleft k hk]
      exact ⟨id, fun _ => rfl⟩

theorem restored_update {k : Key S} {value saved : Value S k} {P : Prop} [Decidable P]
    (hleft : left = Function.update before k value) (hsaved : before k = saved)
    (hstands : P ↔ now k = value) : Restored before left now
      (if P then Function.update now k saved else now) := by
  subst hleft hsaved
  refine restored_write (C := (· = k)) ?_ ?_ ?_ ?_
  · exact fun k' hk => Function.update_of_ne hk _ _
  · exact fun k' hk => Function.update_of_ne hk _ _
  · rintro _ rfl
    exact Function.update_self ..
  · rintro _ rfl
    rwa [Function.update_self]

theorem writeRouteMute_node (muted : Bool) (st : Settings S) :
    writeRouteMute sink muted st (.node sink) = (muted, muted) := by
  rw [writeRouteMute, Function.update_of_ne (by simp), Function.update_self]

theorem writeRouteMute_route (muted : Bool) (st : Settings S) :
    writeRouteMute sink muted st (.route sink) = muted :=
  Function.update_self ..

theorem writeRouteMute_other {k : Key S} (hk : ¬ (k = .route sink ∨ k = .node sink))
    (muted : Bool) (st : Settings S) : writeRouteMute sink muted st k = st k := by
  rw [not_or] at hk
  rw [writeRouteMute, Function.update_of_ne hk.1, Function.update_of_ne hk.2]

theorem restored_route {saved : Bool} (hleft : left = writeRouteMute sink true before)
    (hsaved : before (.route sink) = saved) (hbefore : Mirrored sink before)
    (hnow : Mirrored sink now) : Restored before left now
      (if now (.route sink) then writeRouteMute sink saved now else now) := by
  subst hleft hsaved
  unfold Mirrored at hbefore hnow
  refine restored_write (C := fun k => k = .route sink ∨ k = .node sink) ?_ ?_ ?_ ?_
  · exact fun k hk => writeRouteMute_other hk _ _
  · exact fun k hk => writeRouteMute_other hk _ _
  · rintro k (rfl | rfl)
    · exact writeRouteMute_route ..
    · rw [writeRouteMute_node]
      exact hbefore.symm
  · rintro k (rfl | rfl)
    · rw [writeRouteMute_route]
    · rw [writeRouteMute_node, hnow]
      simp

theorem restored_release {h : Strategy S} (hleft : Left h before left) {undo : Undo}
    (hread : undo.read = true) (htakes : undo.write.takes = true)
    (hboth : ∀ sink useRoute saved, h = .sinkMute sink useRoute saved →
      if useRoute then Mirrored sink now else (now (.node sink)).1 → (now (.node sink)).2) :
    Restored before left now (release h undo now) := by
  have hask : ∀ change : Settings S → Settings S, undo.write.ask change now = change now :=
    fun change => if_pos htakes
  cases h with
  | none =>
    obtain rfl : left = before := hleft
    exact fun _ => ⟨id, fun _ => rfl⟩
  | alreadyMuted =>
    obtain rfl : left = before := hleft
    exact fun _ => ⟨id, fun _ => rfl⟩
  | nullSink saved =>
    obtain ⟨hleft, hsaved⟩ := hleft
    simp only [release, hread, hask, true_and]
    exact restored_update hleft hsaved Iff.rfl
  | sinkMute sink useRoute saved =>
    obtain ⟨hleft, hsaved⟩ := hleft
    have hboth := hboth sink useRoute saved rfl
    simp only [release, hread, hask, true_and]
    cases useRoute with
    | true => exact restored_route hleft hsaved.1 hsaved.2 hboth
    | false =>
      refine restored_update hleft hsaved ⟨fun hmute => ?_, fun heq => ?_⟩
      · exact Prod.ext hmute (hboth hmute)
      · exact congrArg Prod.fst heq

theorem left_engageNullSink {server : Server} (st : Settings S)
    (hreported : server.outputWrite.takes = server.outputWrite.done) :
    Left (engageNullSink server st).2 st (engageNullSink server st).1 := by
  unfold engageNullSink
  split_ifs with hcreated hdone
  · rfl
  · rw [← hreported] at hdone
    exact ⟨if_pos hdone, rfl⟩
  · rw [← hreported] at hdone
    exact if_neg hdone

theorem left_sinkMute {server : Server} {st : Settings S} (htakes : server.muteWrite.takes = true)
    (hknown : if server.hasRoute then Mirrored sink st else server.published) :
    Left (.sinkMute sink server.hasRoute (survey server sink st)) st
      (server.muteWrite.ask (write sink server.hasRoute (true, true)) st) := by
  refine ⟨if_pos htakes, ?_⟩
  unfold survey
  cases hroute : server.hasRoute with
  | true =>
    rw [hroute] at hknown
    exact ⟨rfl, hknown⟩
  | false =>
    rw [hroute] at hknown
    have hpublished : server.published = true := hknown
    rw [hpublished]
    rfl

theorem left_engage {server : Server} (st : Settings S)
    (hmute : server.muteWrite.takes = server.muteWrite.done)
    (houtput : server.outputWrite.takes = server.outputWrite.done)
    (hknown : server.monitorCarriesVolume = false → ∀ sink, st .output = .sink sink →
      if server.hasRoute then Mirrored sink st else server.published) :
    Left (engage server st).2 st (engage server st).1 := by
  unfold engage
  split
  · next sink hsink =>
      dsimp only
      split_ifs with hfound hcarries hmuted hdone
      · rfl
      · exact left_engageNullSink st houtput
      · rfl
      · rw [← hmute] at hdone
        exact left_sinkMute hdone (hknown (by simpa using hcarries) sink hsink)
      · rw [← hmute] at hdone
        have hst : server.muteWrite.ask (write sink server.hasRoute (true, true)) st = st :=
          if_neg hdone
        rw [hst]
        exact left_engageNullSink st houtput
  · rfl

variable {w w' : World S} {e : Event S}

def Inv (w : World S) : Prop := Left w.mute w.before w.left

theorem left_handle {undo : Undo} {server : Server} (h : Plain w (.engage undo server)) :
    Inv (handle w (.engage undo server)) :=
  left_engage _ (h.reported _ _ rfl).1 (h.reported _ _ rfl).2 (h.known _ _ rfl)

theorem inv_step (h : Inv w) (hstep : handles handle w e w') (hplain : Plain w e) : Inv w' := by
  obtain rfl : handle w e = w' := hstep
  cases e with
  | user settings => exact h
  | engage undo server => exact left_handle hplain
  | release undo => exact rfl

theorem kept_step (h : Inv w) (hstep : handles handle w e w') (hplain : Plain w e) :
    Kept w e w' := by
  obtain rfl : handle w e = w' := hstep
  constructor
  · rintro undo server rfl hnone
    have hleft := left_handle hplain
    rw [Inv, hnone] at hleft
    exact hleft
  · intro undo hundo hread htakes _
    exact restored_release h hread htakes (hplain.both undo hundo)

/-- In a run whose steps are all plain, what is silenced is put back as it was found. -/
theorem kept_of_plain (settings : Settings S) (events : List (Event S))
    (h : EachStep (handles handle) (fun w e _ => Plain w e) (start settings) events) :
    EachStep (handles handle) Kept (start settings) events := by
  intro visited e rest w w' hl hrun hstep
  refine kept_step ?_ hstep (h visited e rest w w' hl hrun hstep)
  exact (h.take hl).invariant (I := Inv) (fun _ _ _ hw hstep => inv_step hw hstep) rfl hrun

/-- Speakers that are not muted. -/
def speakers : Settings Unit
  | .node _ => (false, false)
  | .route _ => false
  | .output => .sink ()

/-- A server that does what it is asked to, for a sink of no card. -/
def daemon : Server where
  connects := true
  sinkFound := true
  monitorCarriesVolume := false
  hasRoute := false
  published := true
  nodeMuted := (false, false)
  muteWrite := ⟨true, true⟩
  created := true
  outputWrite := ⟨true, true⟩

def undone : Undo := ⟨true, ⟨true, true⟩⟩

theorem kept_session : EachStep (handles handle) Kept (start speakers)
    [.engage undone daemon, .release undone] := by
  refine kept_of_plain speakers _ ?_
  rw [eachStep_handles_cons, eachStep_handles_cons]
  refine ⟨⟨?_, ?_, ?_⟩, ⟨?_, ?_, ?_⟩, EachStep.nil⟩
  · rintro _ _ ⟨⟩
    exact ⟨rfl, rfl⟩
  · rintro _ _ ⟨⟩ _ _ _
    exact rfl
  · rintro _ _ _ _ _ ⟨⟩
  · rintro _ _ ⟨⟩
  · rintro _ _ ⟨⟩
  · rintro _ _ _ _ _ ⟨⟩
    exact fun _ => rfl

/-- The mute takes effect after it is given up on, and no silent output is created instead. -/
def late : Server := { daemon with muteWrite := ⟨true, false⟩, created := false }

theorem unreported_mute_stays :
    (handle (start speakers) (.engage undone late)).mute = .none ∧
      (handle (start speakers) (.engage undone late)).settings (.node ()) = (true, true) ∧
      ¬ EachStep (handles handle) Kept (start speakers) [.engage undone late] := by
  refine ⟨rfl, rfl, fun h => ?_⟩
  have hkept := (h [] _ [] _ _ rfl Run.nil rfl).engaged undone late rfl rfl
  have hnode : ((true, true) : Bool × Bool) = (false, false) := congrFun hkept (.node ())
  cases hnode

end MoonlightWeb.NativeHost.HostMute
