import Mathlib
import MoonlightWeb.Lib.Run

/-! # The recentre detector

The detector looks at where the pointer is before each placement. A pointer that keeps
turning up at one spot of the display is put back there by a game, and the client's
positions then go in as deltas. The laws are about any sequence of calls: what the
detector was shown before it entered relative mode, what it emits while there, and what
it was shown before it left.
-/

namespace MoonlightWeb.NativeHost.RecentreDetector

/-- One client position about to be applied, and where the pointer was found. -/
structure Request where
  haveFound : Bool
  foundX : Int
  foundY : Int
  wantX : Int
  wantY : Int
  nowUs : Int
deriving DecidableEq, Repr

structure Verdict where
  relative : Bool := false
  deltaX : Int := 0
  deltaY : Int := 0
  changed : Bool := false
deriving DecidableEq, Repr

structure Detector where
  dispLeft : Int := 0
  dispTop : Int := 0
  dispRight : Int := 0
  dispBottom : Int := 0
  haveLast : Bool := false
  lastX : Int := 0
  lastY : Int := 0
  relative : Bool := false
  haveAnchor : Bool := false
  anchorX : Int := 0
  anchorY : Int := 0
  hits : Nat := 0
  missSinceUs : Int := -1
deriving DecidableEq, Repr

def kTolerance : Nat := 2
def kHitsToEnter : Nat := 3
def kMissToLeaveUs : Int := 300000

def within (x y toX toY : Int) : Bool :=
  decide ((x - toX).natAbs ≤ kTolerance) && decide ((y - toY).natAbs ≤ kTolerance)

variable (d : Detector)

def leave : Detector :=
  { d with relative := false, haveAnchor := false, hits := 0, missSinceUs := -1 }

def onDisplay (x y : Int) : Bool :=
  if d.dispRight ≤ d.dispLeft ∨ d.dispBottom ≤ d.dispTop then
    true
  else
    decide (d.dispLeft ≤ x ∧ x < d.dispRight ∧ d.dispTop ≤ y ∧ y < d.dispBottom)

/-- What a pointer off its placement counts towards. -/
def count (x y : Int) : Detector :=
  if d.haveAnchor && within x y d.anchorX d.anchorY then
    { d with hits := d.hits + 1 }
  else if onDisplay d x y then
    { d with anchorX := x, anchorY := y, haveAnchor := true, hits := 1 }
  else
    { d with haveAnchor := false, hits := 0 }

/-- The first half of `observe`: the verdict on the pointer, and whether it flipped. -/
def judge (r : Request) : Detector × Bool :=
  if r.haveFound && d.haveLast then
    if !d.relative then
      if !within r.foundX r.foundY d.lastX d.lastY then
        let counted := count d r.foundX r.foundY
        if kHitsToEnter ≤ counted.hits then
          ({ counted with relative := true, missSinceUs := -1 }, true)
        else
          (counted, false)
      else
        ({ d with hits := 0, haveAnchor := false }, false)
    else if within r.foundX r.foundY d.anchorX d.anchorY then
      ({ d with missSinceUs := -1 }, false)
    else if d.missSinceUs < 0 then
      ({ d with missSinceUs := r.nowUs }, false)
    else if kMissToLeaveUs ≤ r.nowUs - d.missSinceUs then
      (leave d, true)
    else
      (d, false)
  else
    (d, false)

def answer (changed : Bool) (r : Request) : Verdict :=
  if d.relative && d.haveLast then
    { relative := true, deltaX := r.wantX - d.lastX, deltaY := r.wantY - d.lastY,
      changed := changed }
  else
    { changed := changed }

def observe (r : Request) : Detector × Verdict :=
  let judged := judge d r
  ({ judged.1 with lastX := r.wantX, lastY := r.wantY, haveLast := true },
    answer judged.1 judged.2 r)

def reset : Detector :=
  { leave d with haveLast := false }

def setDisplay (left top right bottom : Int) : Detector :=
  reset { d with dispLeft := left, dispTop := top, dispRight := right, dispBottom := bottom }

inductive Call
  | observe (r : Request)
  | setDisplay (left top right bottom : Int)
  | reset
deriving DecidableEq, Repr

def call : Call → Detector
  | .observe r => (observe d r).1
  | .setDisplay left top right bottom => setDisplay d left top right bottom
  | .reset => reset d

variable (calls : List Call)

def after : Detector :=
  calls.foldl call {}

@[simp] theorem after_nil : after [] = {} := rfl

@[simp] theorem after_snoc (c : Call) :
    after (calls ++ [c]) = call (after calls) c := by
  simp [after]

/-! ## What was seen

Read off the calls alone: where the last position asked for was, and the looks at the
pointer since the detector last forgot everything.
-/

/-- A look at the pointer, and the placement it should have been found at. -/
structure Sighting where
  foundX : Int
  foundY : Int
  placedX : Int
  placedY : Int
  atUs : Int
deriving DecidableEq, Repr

/-- The position asked for last and the sightings so far, oldest first. -/
structure Seen where
  placed : Option (Int × Int) := none
  sightings : List Sighting := []

def sighting (placed : Option (Int × Int)) (r : Request) : List Sighting :=
  match r.haveFound, placed with
  | true, some p => [⟨r.foundX, r.foundY, p.1, p.2, r.nowUs⟩]
  | _, _ => []

def Seen.note (s : Seen) : Call → Seen
  | .observe r => ⟨some (r.wantX, r.wantY), s.sightings ++ sighting s.placed r⟩
  | .setDisplay .. => {}
  | .reset => {}

def seen : Seen :=
  calls.foldl Seen.note {}

@[simp] theorem seen_snoc (c : Call) :
    seen (calls ++ [c]) = (seen calls).note c := by
  simp [seen]

/-- The pointer was not where it had been placed. -/
def Sighting.Off (s : Sighting) : Prop :=
  within s.foundX s.foundY s.placedX s.placedY = false

/-- The pointer was at the spot. -/
def Sighting.At (s : Sighting) (x y : Int) : Prop :=
  within s.foundX s.foundY x y = true

/-- The last sightings, `n` of them, were off their placement and at one spot. -/
def Returns (sightings : List Sighting) (n : Nat) (x y : Int) : Prop :=
  ∃ earlier last, sightings = earlier ++ last ∧ last.length = n ∧
    ∀ s ∈ last, s.Off ∧ s.At x y

/-- The last sightings were all away from the spot, the first of them at `since`. -/
def Misses (sightings : List Sighting) (since x y : Int) : Prop :=
  ∃ earlier first later, sightings = earlier ++ first :: later ∧ first.atUs = since ∧
    ∀ s ∈ first :: later, ¬ s.At x y

theorem within_self (x y : Int) : within x y x y = true := by
  simp [within, kTolerance]

variable {sightings : List Sighting} {x y : Int}

theorem Returns.first {s : Sighting} (hoff : s.Off)
    (hat : s.At x y) : Returns (sightings ++ [s]) 1 x y := by
  refine ⟨sightings, [s], rfl, rfl, ?_⟩
  intro t ht
  obtain rfl : t = s := by simpa using ht
  exact ⟨hoff, hat⟩

theorem Returns.more {n : Nat} {s : Sighting}
    (h : Returns sightings n x y) (hoff : s.Off) (hat : s.At x y) :
    Returns (sightings ++ [s]) (n + 1) x y := by
  obtain ⟨earlier, last, hsplit, hlen, hall⟩ := h
  refine ⟨earlier, last ++ [s], by simp [hsplit], by simp [hlen], ?_⟩
  intro t ht
  rcases List.mem_append.mp ht with hold | hnew
  · exact hall t hold
  · obtain rfl : t = s := by simpa using hnew
    exact ⟨hoff, hat⟩

theorem Misses.first {s : Sighting} (hat : ¬ s.At x y) :
    Misses (sightings ++ [s]) s.atUs x y := by
  refine ⟨sightings, s, [], rfl, rfl, ?_⟩
  intro t ht
  obtain rfl : t = s := by simpa using ht
  exact hat

theorem Misses.more {since : Int} {s : Sighting}
    (h : Misses sightings since x y) (hat : ¬ s.At x y) :
    Misses (sightings ++ [s]) since x y := by
  obtain ⟨earlier, first, later, hsplit, hat₀, hall⟩ := h
  refine ⟨earlier, first, later ++ [s], by simp [hsplit], hat₀, ?_⟩
  intro t ht
  rcases List.mem_append.mp (show t ∈ (first :: later) ++ [s] from ht) with hold | hnew
  · exact hall t hold
  · obtain rfl : t = s := by simpa using hnew
    exact hat

def verdicts (d : Detector) : List Request → List Verdict
  | [] => []
  | r :: rest => (observe d r).2 :: verdicts (observe d r).1 rest

theorem count_last (x y : Int) :
    (count d x y).haveLast = d.haveLast ∧ (count d x y).lastX = d.lastX ∧
      (count d x y).lastY = d.lastY := by
  unfold count
  split
  · simp
  · split <;> simp

theorem judge_last (r : Request) :
    (judge d r).1.haveLast = d.haveLast ∧ (judge d r).1.lastX = d.lastX ∧
      (judge d r).1.lastY = d.lastY := by
  have hcount := count_last d r.foundX r.foundY
  unfold judge leave
  dsimp only
  split_ifs <;> simp [hcount]

theorem observe_last (r : Request) :
    (observe d r).1.haveLast = true ∧ (observe d r).1.lastX = r.wantX ∧
      (observe d r).1.lastY = r.wantY :=
  ⟨rfl, rfl, rfl⟩

variable {d : Detector} {r : Request}

/-- A relative verdict is the step from the last position asked for. -/
theorem observe_delta (h : (observe d r).2.relative = true) :
    d.haveLast = true ∧ (observe d r).2.deltaX = r.wantX - d.lastX ∧
      (observe d r).2.deltaY = r.wantY - d.lastY := by
  obtain ⟨hhave, hx, hy⟩ := judge_last d r
  unfold observe answer at h ⊢
  dsimp only at h ⊢
  by_cases hrel : ((judge d r).1.relative && (judge d r).1.haveLast) = true
  · have hlast : (judge d r).1.haveLast = true := (Bool.and_eq_true _ _ ▸ hrel).2
    rw [if_pos hrel]
    exact ⟨hhave ▸ hlast, by rw [hx], by rw [hy]⟩
  · simp [hrel] at h

/-- Deltas add up to the way from the last position to the newest. -/
theorem sum_verdicts (d : Detector) (r : Request) (rest : List Request)
    (h : ∀ v ∈ verdicts d (r :: rest), v.relative = true) :
    d.haveLast = true ∧
      ((verdicts d (r :: rest)).map Verdict.deltaX).sum =
        ((r :: rest).getLast (by simp)).wantX - d.lastX ∧
      ((verdicts d (r :: rest)).map Verdict.deltaY).sum =
        ((r :: rest).getLast (by simp)).wantY - d.lastY := by
  induction rest generalizing d r with
  | nil =>
    have hone := observe_delta (h _ (List.mem_cons_self ..))
    simpa [verdicts] using hone
  | cons next rest ih =>
    have hfirst := observe_delta (h _ (List.mem_cons_self ..))
    have hrest := ih (observe d r).1 next fun v hv => h v (List.mem_cons_of_mem _ hv)
    obtain ⟨-, hx, hy⟩ := hrest
    obtain ⟨-, hlastX, hlastY⟩ := observe_last d r
    refine ⟨hfirst.1, ?_, ?_⟩
    · rw [verdicts, List.map_cons, List.sum_cons, hx, hfirst.2.1, hlastX,
        List.getLast_cons_cons]
      omega
    · rw [verdicts, List.map_cons, List.sum_cons, hy, hfirst.2.2, hlastY,
        List.getLast_cons_cons]
      omega

/-- The detector's counters say no more than what was seen. -/
structure Knows (d : Detector) (s : Seen) : Prop where
  placed : s.placed = if d.haveLast then some (d.lastX, d.lastY) else none
  searching : d.relative = false → d.hits < kHitsToEnter
  unmarked : d.relative = false → d.haveAnchor = false → d.hits = 0
  marked : d.relative = false → d.haveAnchor = true →
    onDisplay d d.anchorX d.anchorY = true ∧ Returns s.sightings d.hits d.anchorX d.anchorY
  missing : d.relative = true → 0 ≤ d.missSinceUs →
    Misses s.sightings d.missSinceUs d.anchorX d.anchorY
  held : d.relative = true → d.haveLast = true

theorem knows_forgotten (hlast : d.haveLast = false) (hrel : d.relative = false)
    (hanchor : d.haveAnchor = false) (hhits : d.hits = 0) : Knows d {} where
  placed := by simp [hlast]
  searching := fun _ => by simp [hhits, kHitsToEnter]
  unmarked := fun _ _ => hhits
  marked := fun _ h => by simp [hanchor] at h
  missing := fun h => by simp [hrel] at h
  held := fun h => by simp [hrel] at h

variable {s : Seen}

/-- Counting a pointer off its placement records a return to the spot learnt. -/
theorem count_returns (hk : Knows d s) (hrel : d.relative = false)
    {look : Sighting} (hoff : look.Off) :
    (count d look.foundX look.foundY).relative = false ∧
      (count d look.foundX look.foundY).hits ≤ kHitsToEnter ∧
      ((count d look.foundX look.foundY).haveAnchor = false →
        (count d look.foundX look.foundY).hits = 0) ∧
      ((count d look.foundX look.foundY).haveAnchor = true →
        onDisplay d (count d look.foundX look.foundY).anchorX
            (count d look.foundX look.foundY).anchorY = true ∧
          Returns (s.sightings ++ [look]) (count d look.foundX look.foundY).hits
            (count d look.foundX look.foundY).anchorX
            (count d look.foundX look.foundY).anchorY) := by
  have hhits := hk.searching hrel
  unfold count
  split
  case isTrue hagain =>
      obtain ⟨hanchor, hat⟩ := Bool.and_eq_true _ _ ▸ hagain
      obtain ⟨hon, hreturns⟩ := hk.marked hrel hanchor
      refine ⟨hrel, hhits, ?_, ?_⟩
      · intro hnone
        simp [hanchor] at hnone
      · intro _
        exact ⟨hon, hreturns.more hoff hat⟩
  case isFalse =>
      split
      case isTrue hon =>
          refine ⟨hrel, by simp [kHitsToEnter], by simp, ?_⟩
          intro _
          exact ⟨hon, Returns.first hoff (within_self _ _)⟩
      case isFalse =>
          exact ⟨hrel, by simp, fun _ => rfl, by simp⟩

/-- What judging a look at the pointer says of the state it leads to. -/
structure Judged (d d' : Detector) (sightings : List Sighting) (nowUs : Int) : Prop where
  searching : d'.relative = false → d'.hits < kHitsToEnter
  unmarked : d'.relative = false → d'.haveAnchor = false → d'.hits = 0
  marked : d'.relative = false → d'.haveAnchor = true →
    onDisplay d d'.anchorX d'.anchorY = true ∧ Returns sightings d'.hits d'.anchorX d'.anchorY
  missing : d'.relative = true → 0 ≤ d'.missSinceUs →
    Misses sightings d'.missSinceUs d'.anchorX d'.anchorY
  display : ∀ x y, onDisplay d' x y = onDisplay d x y
  enters : d.relative = false → d'.relative = true →
    onDisplay d d'.anchorX d'.anchorY = true ∧
      Returns sightings kHitsToEnter d'.anchorX d'.anchorY
  keeps : d.relative = true → d'.relative = true →
    d'.anchorX = d.anchorX ∧ d'.anchorY = d.anchorY
  leaves : d.relative = true → d'.relative = false →
    ∃ since, Misses sightings since d.anchorX d.anchorY ∧ kMissToLeaveUs ≤ nowUs - since

variable (hk : Knows d s)

include hk

theorem judged_blind (nowUs : Int) :
    Judged d d s.sightings nowUs where
  searching := hk.searching
  unmarked := hk.unmarked
  marked := hk.marked
  missing := hk.missing
  display := fun _ _ => rfl
  enters := fun h h' => by simp [h] at h'
  keeps := fun _ _ => ⟨rfl, rfl⟩
  leaves := fun h h' => by simp [h] at h'

/-- A look while positions are placed. -/
theorem judged_searching
    (hlook : (r.haveFound && d.haveLast) = true) (hrel : d.relative = false) :
    Judged d (judge d r).1
      (s.sightings ++ [⟨r.foundX, r.foundY, d.lastX, d.lastY, r.nowUs⟩]) r.nowUs := by
  unfold judge
  rw [if_pos hlook, if_pos (by simp [hrel])]
  cases hat : within r.foundX r.foundY d.lastX d.lastY with
  | true =>
    rw [if_neg (by simp)]
    constructor <;> simp [hrel, onDisplay, kHitsToEnter]
  | false =>
    have hoff : (⟨r.foundX, r.foundY, d.lastX, d.lastY, r.nowUs⟩ : Sighting).Off := hat
    have hcount := count_returns hk hrel hoff
    obtain ⟨hsearch, hle, hzero, hreturns⟩ := hcount
    have hsame : ∀ x y, onDisplay (count d r.foundX r.foundY) x y = onDisplay d x y := by
      intro x y
      unfold count
      split
      · rfl
      · split <;> rfl
    rw [if_pos (by simp)]
    dsimp only at hsearch hle hzero hreturns ⊢
    by_cases hthree : kHitsToEnter ≤ (count d r.foundX r.foundY).hits
    · have hexact : (count d r.foundX r.foundY).hits = kHitsToEnter := by omega
      have hmarked : (count d r.foundX r.foundY).haveAnchor = true := by
        by_contra hnone
        have hnil := hzero (by simpa using hnone)
        simp [hexact, kHitsToEnter] at hnil
      rw [if_pos hthree]
      constructor
      case enters =>
          intro _ _
          have hspot := hreturns hmarked
          rw [hexact] at hspot
          exact hspot
      case display => exact hsame
      all_goals simp [hrel]
    · rw [if_neg hthree]
      constructor
      case searching => exact fun _ => Nat.lt_of_not_le hthree
      case unmarked => exact fun _ => hzero
      case marked => exact fun _ => hreturns
      case display => exact hsame
      all_goals simp [hrel, hsearch]

/-- A look while deltas are sent. -/
theorem judged_relative
    (hlook : (r.haveFound && d.haveLast) = true) (hrel : d.relative = true) :
    Judged d (judge d r).1
      (s.sightings ++ [⟨r.foundX, r.foundY, d.lastX, d.lastY, r.nowUs⟩]) r.nowUs := by
  unfold judge
  rw [if_pos hlook, if_neg (by simp [hrel])]
  cases hat : within r.foundX r.foundY d.anchorX d.anchorY with
  | true =>
    rw [if_pos rfl]
    constructor <;> simp [hrel, onDisplay]
  | false =>
    have haway : ¬ (⟨r.foundX, r.foundY, d.lastX, d.lastY, r.nowUs⟩ : Sighting).At
        d.anchorX d.anchorY := by
      simp [Sighting.At, hat]
    rw [if_neg (by simp)]
    by_cases hnew : d.missSinceUs < 0
    · rw [if_pos hnew]
      constructor
      case missing => exact fun _ _ => Misses.first haway
      case display => exact fun _ _ => rfl
      all_goals simp [hrel]
    · have hmisses := (hk.missing hrel (by omega)).more haway
      rw [if_neg hnew]
      by_cases hlong : kMissToLeaveUs ≤ r.nowUs - d.missSinceUs
      · rw [if_pos hlong]
        constructor
        case leaves => exact fun _ _ => ⟨d.missSinceUs, hmisses, hlong⟩
        case display => exact fun _ _ => rfl
        all_goals simp [leave, kHitsToEnter, hrel]
      · rw [if_neg hlong]
        constructor
        case missing => exact fun _ _ => hmisses
        case display => exact fun _ _ => rfl
        all_goals simp [hrel]

theorem judged (r : Request) :
    Judged d (judge d r).1 (s.sightings ++ sighting s.placed r) r.nowUs := by
  by_cases hlook : (r.haveFound && d.haveLast) = true
  · obtain ⟨hfound, hlast⟩ := Bool.and_eq_true _ _ ▸ hlook
    have hsight : sighting s.placed r = [⟨r.foundX, r.foundY, d.lastX, d.lastY, r.nowUs⟩] := by
      simp [sighting, hk.placed, hfound, hlast]
    rw [hsight]
    cases hrel : d.relative with
    | false => exact judged_searching hk hlook hrel
    | true => exact judged_relative hk hlook hrel
  · have hsight : sighting s.placed r = [] := by
      rw [hk.placed]
      cases hfound : r.haveFound <;> cases hlast : d.haveLast <;>
        simp_all [sighting]
    have hsame : (judge d r).1 = d := by
      unfold judge
      rw [if_neg hlook]
    rw [hsight, hsame, List.append_nil]
    exact judged_blind hk r.nowUs

theorem knows_call (c : Call) :
    Knows (call d c) (s.note c) := by
  cases c with
  | observe r =>
    have hj := judged hk r
    exact
      { placed := rfl
        searching := hj.searching
        unmarked := hj.unmarked
        marked := fun hrel hanchor =>
          ⟨(hj.display _ _).trans (hj.marked hrel hanchor).1, (hj.marked hrel hanchor).2⟩
        missing := hj.missing
        held := fun _ => rfl }
  | setDisplay left top right bottom => exact knows_forgotten rfl rfl rfl rfl
  | reset => exact knows_forgotten rfl rfl rfl rfl

omit hk

theorem knows_after : Knows (after calls) (seen calls) := by
  induction calls using List.reverseRecOn with
  | nil => exact knows_forgotten rfl rfl rfl rfl
  | append_singleton calls c ih =>
    rw [after_snoc, seen_snoc]
    exact knows_call ih c

/-- Deltas are sent in relative mode and there alone. The mode is entered on three returns
in a row to one spot of the display, which stays the spot while the mode lasts, and is left
on misses of that spot alone, the first of them at least `kMissToLeaveUs` ago. -/
structure Verdicts (calls : List Call) (r : Request) : Prop where
  mode : (observe (after calls) r).2.relative = (observe (after calls) r).1.relative
  enters : (after calls).relative = false → (observe (after calls) r).1.relative = true →
    onDisplay (after calls) (observe (after calls) r).1.anchorX
        (observe (after calls) r).1.anchorY = true ∧
      Returns (seen (calls ++ [.observe r])).sightings kHitsToEnter
        (observe (after calls) r).1.anchorX (observe (after calls) r).1.anchorY
  keeps : (after calls).relative = true → (observe (after calls) r).1.relative = true →
    (observe (after calls) r).1.anchorX = (after calls).anchorX ∧
      (observe (after calls) r).1.anchorY = (after calls).anchorY
  leaves : (after calls).relative = true → (observe (after calls) r).1.relative = false →
    ∃ since, Misses (seen (calls ++ [.observe r])).sightings since (after calls).anchorX
        (after calls).anchorY ∧ kMissToLeaveUs ≤ r.nowUs - since

/-- The deltas sent for positions that all went in as deltas add up to the way from the
position asked for before them to the last of them. -/
def Telescopes (r : Request) (rest : List Request) : Prop :=
  (∀ v ∈ verdicts (after calls) (r :: rest), v.relative = true) →
    ∃ px py, (seen calls).placed = some (px, py) ∧
      ((verdicts (after calls) (r :: rest)).map Verdict.deltaX).sum =
        ((r :: rest).getLast (List.cons_ne_nil r rest)).wantX - px ∧
      ((verdicts (after calls) (r :: rest)).map Verdict.deltaY).sum =
        ((r :: rest).getLast (List.cons_ne_nil r rest)).wantY - py

theorem judge_held (h : d.relative = true → d.haveLast = true) (r : Request) :
    (judge d r).1.relative = true → (judge d r).1.haveLast = true := by
  intro hrel
  rw [(judge_last d r).1]
  by_cases hlook : (r.haveFound && d.haveLast) = true
  · exact (Bool.and_eq_true _ _ ▸ hlook).2
  · unfold judge at hrel
    rw [if_neg hlook] at hrel
    exact h hrel

theorem verdicts_after (r : Request) : Verdicts calls r := by
  have hj := judged (knows_after calls) r
  have hseen : (seen (calls ++ [.observe r])).sightings =
      (seen calls).sightings ++ sighting (seen calls).placed r := by
    rw [seen_snoc]
    rfl
  constructor
  case mode =>
      have hheld := judge_held (knows_after calls).held r
      change (answer _ _ r).relative = (judge (after calls) r).1.relative
      unfold answer
      cases hrel : (judge (after calls) r).1.relative with
      | false => simp
      | true => simp [hheld hrel]
  case enters =>
      rw [hseen]
      exact hj.enters
  case keeps => exact hj.keeps
  case leaves =>
      rw [hseen]
      exact hj.leaves

theorem telescopes_after (r : Request) (rest : List Request) :
    Telescopes calls r rest := by
  intro h
  obtain ⟨hlast, hx, hy⟩ := sum_verdicts _ _ _ h
  refine ⟨(after calls).lastX, (after calls).lastY, ?_, hx, hy⟩
  rw [(knows_after calls).placed, if_pos hlast]

/-- The recentre detector over every sequence of calls, clocks in any order included. -/
theorem recentre_lawful (calls : List Call) (r : Request) (rest : List Request) :
    Verdicts calls r ∧ Telescopes calls r rest :=
  ⟨verdicts_after calls r, telescopes_after calls r rest⟩

end MoonlightWeb.NativeHost.RecentreDetector
