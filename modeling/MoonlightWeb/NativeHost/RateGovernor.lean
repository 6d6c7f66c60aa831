import Mathlib
import MoonlightWeb.Lib.Run

/-! # The rate governor

`RateGovernor` turns what the receiver reports of the link into the bitrate to
encode at: a cut at once on overuse or silence, a slow way back through quiet, and
a faster one below the last rate the link has proven. The rates are positive, so
their percentages divide as the code's integers do. Whether a call changed the
target, which the code returns, shows in `changes`.
-/

namespace MoonlightWeb.NativeHost.RateGovernor

open Lib

/-- What the governor reads of a report. -/
structure LinkFeedback where
  owdRiseMs : Int
  gaps : Int
  evictions : Int
  resumed : Bool
deriving DecidableEq, Repr

/-- The members; `lastFastRaiseMs` is `none` for `kNever`. -/
structure Governor where
  setting : Int
  target : Int
  quietSinceMs : Int
  lastReportMs : Int
  holdUntilMs : Int
  silenceCut : Bool
  targetBeforeSilence : Int
  good : Int
  goodSample : Int
  goodSampleMs : Int
  climbStart : Int
  lastFastRaiseMs : Option Int
  lastRaiseFast : Bool
  overuses : Nat
  silences : Nat
  changes : Nat
deriving DecidableEq, Repr

def overuseMs : Int := 30
def quietMs : Int := 10
def cutPercent : Int := 20
def raisePercent : Int := 5
def floorPercent : Int := 20
def floorMinKbps : Int := 2000
def holdAfterCutMs : Int := 2000
def quietBeforeRaiseMs : Int := 3000
def silenceMs : Int := 4000
def fastRaisePercent : Int := 25
def goodHoldMs : Int := 5000
def probeGraceMs : Int := 5000

def Governor.fresh : Governor where
  setting := 20000
  target := 20000
  quietSinceMs := 0
  lastReportMs := 0
  holdUntilMs := 0
  silenceCut := false
  targetBeforeSilence := 0
  good := 0
  goodSample := 0
  goodSampleMs := 0
  climbStart := 0
  lastFastRaiseMs := none
  lastRaiseFast := false
  overuses := 0
  silences := 0
  changes := 0

def floorOf (settingKbps : Int) : Int :=
  let pct := settingKbps * floorPercent / 100
  if pct > floorMinKbps then pct else floorMinKbps

variable (g : Governor)

def floorKbps : Int := floorOf g.setting

def rearmGoodSample (nowMs : Int) : Governor :=
  { g with goodSample := g.target, goodSampleMs := nowMs }

def cutTo : Int :=
  let next := g.target - g.target * cutPercent / 100
  let next := if next < floorKbps g then floorKbps g else next
  if next > g.setting then g.setting else next

def cut : Governor :=
  if cutTo g = g.target then g else { g with target := cutTo g, changes := g.changes + 1 }

def start (settingKbps nowMs : Int) : Governor :=
  let setting := if settingKbps > 0 then settingKbps else 20000
  rearmGoodSample
    { g with
      setting
      target := setting
      quietSinceMs := nowMs
      lastReportMs := nowMs
      holdUntilMs := 0
      silenceCut := false
      good := 0
      climbStart := 0
      lastFastRaiseMs := none
      lastRaiseFast := false } nowMs

def setSetting (settingKbps : Int) : Governor :=
  if settingKbps ≤ 0 then g
  else
    { g with
      setting := settingKbps
      target := if g.target > settingKbps then settingKbps else g.target
      good := if g.good > settingKbps then settingKbps else g.good
      goodSample := if g.goodSample > settingKbps then settingKbps else g.goodSample }

/-- The first fast step of a climb remembers where it left from. -/
def fastStep (nowMs : Int) : Governor :=
  { g with
    climbStart := if g.lastFastRaiseMs = none then g.target else g.climbStart
    lastFastRaiseMs := some nowMs
    lastRaiseFast := true }

def raise (nowMs : Int) : Governor :=
  if g.target ≥ g.setting then g
  else
    let (g, next) :=
      if g.target < g.good then
        let next := g.target + g.target * fastRaisePercent / 100
        (fastStep g nowMs, if next > g.good then g.good else next)
      else (g, g.target + g.target * raisePercent / 100)
    let next := if next > g.setting then g.setting else next
    let next := if next = g.target then g.setting else next
    { g with target := next, changes := g.changes + 1 }

def overuse (fb : LinkFeedback) : Bool :=
  decide (fb.owdRiseMs ≥ overuseMs) || decide (fb.gaps > 0) || decide (fb.evictions > 0)

def quiet (fb : LinkFeedback) : Bool :=
  decide (fb.owdRiseMs < quietMs) && decide (fb.gaps = 0) && decide (fb.evictions = 0)

def reportResumed (nowMs : Int) : Governor :=
  let restore := g.silenceCut && decide (g.targetBeforeSilence > g.target)
  let g := { g with silenceCut := false, quietSinceMs := nowMs }
  if !restore then g
  else
    { g with
      target := if g.targetBeforeSilence < g.setting then g.targetBeforeSilence else g.setting
      holdUntilMs := 0
      changes := g.changes + 1 }

/-- A fast climb is under way or on probation. -/
def probing (nowMs : Int) : Bool :=
  g.lastFastRaiseMs.any fun last => decide (nowMs - last < probeGraceMs)

def reportOveruse (nowMs : Int) : Governor :=
  rearmGoodSample
    (cut
      { g with
        quietSinceMs := nowMs
        holdUntilMs := nowMs + holdAfterCutMs
        overuses := g.overuses + 1
        good := if probing g nowMs then g.climbStart else g.good
        lastFastRaiseMs := none }) nowMs

/-- The window of a sample the link carried all through ends. -/
def closeWindow (nowMs : Int) : Governor :=
  if nowMs - g.goodSampleMs ≥ goodHoldMs then
    rearmGoodSample { g with good := if g.goodSample > g.good then g.goodSample else g.good } nowMs
  else g

def reportClean (fb : LinkFeedback) (nowMs : Int) : Governor :=
  let g := closeWindow g nowMs
  if !quiet fb then { g with quietSinceMs := nowMs }
  else if nowMs < g.holdUntilMs then g
  else if nowMs - g.quietSinceMs < quietBeforeRaiseMs then g
  else raise g nowMs

def report (fb : LinkFeedback) (nowMs : Int) : Governor :=
  let g := { g with lastReportMs := nowMs, lastRaiseFast := false }
  if fb.resumed then reportResumed g nowMs
  else
    let g := { g with silenceCut := false }
    if overuse fb then reportOveruse g nowMs else reportClean g fb nowMs

def declares (nowMs : Int) : Bool :=
  !(g.silenceCut || decide (nowMs - g.lastReportMs < silenceMs))

def tick (nowMs : Int) : Governor :=
  if !declares g nowMs then g
  else
    rearmGoodSample
      (cut
        { g with
          silenceCut := true
          targetBeforeSilence := g.target
          holdUntilMs := nowMs + holdAfterCutMs
          quietSinceMs := nowMs
          silences := g.silences + 1
          lastRaiseFast := false
          lastFastRaiseMs := none }) nowMs

inductive Event
  | start (settingKbps nowMs : Int)
  | setSetting (settingKbps : Int)
  | report (fb : LinkFeedback) (nowMs : Int)
  | tick (nowMs : Int)

def Event.nowMs : Event → Option Int
  | .start _ nowMs => some nowMs
  | .setSetting _ => none
  | .report _ nowMs => some nowMs
  | .tick nowMs => some nowMs

def handle : Event → Governor
  | .start settingKbps nowMs => start g settingKbps nowMs
  | .setSetting settingKbps => setSetting g settingKbps
  | .report fb nowMs => report g fb nowMs
  | .tick nowMs => tick g nowMs

end MoonlightWeb.NativeHost.RateGovernor
