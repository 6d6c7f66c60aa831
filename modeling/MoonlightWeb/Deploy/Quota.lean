import MoonlightWeb.Lib.SlidingWindow
import MoonlightWeb.Qt.QHash

/-! # The per-address budget

The rendezvous and the proxy bound what one address may ask for by the same sliding
window. A call prunes what aged out of the address's list; now and then it sweeps the
lists of all addresses first. Times are nanoseconds of a clock that does not go back.
-/

namespace MoonlightWeb.Deploy.Budget

open Js Lib SlidingWindow List

def minute : Int := 60000000000
def hour : Int := 60 * minute

def quotaSweepEvery : Int := 15 * minute
def quotaSweepEntries : Nat := 4096

structure Quota where
  max : Int
  window : Int
  hits : JsMap String (List Int)
  lastSweep : Int

def newQuota (max window now : Int) : Quota := ⟨max, window, .empty, now⟩

/-- `newQuota` of the proxy, whose window is fixed. -/
def newProxyQuota (max now : Int) : Quota := newQuota max hour now

/-- The attempts that have not aged out. -/
def live (cut : Int) (ts : List Int) : List Int := ts.filter fun t => decide (cut < t)

variable (q : Quota)

def sweep (now : Int) : Quota :=
  { q with
    hits := (q.hits.mapEntries fun _ ts => live (now - q.window) ts).filter fun _ ts => !ts.isEmpty
    lastSweep := now }

/-- Whether a call sweeps first. -/
def sweepDue (now : Int) : Bool :=
  decide (now - q.lastSweep ≥ quotaSweepEvery) || decide (q.hits.entries.length ≥ quotaSweepEntries)

/-- The attempts recorded for an address. -/
def hitsOf (ip : String) : List Int := (q.hits.get ip).getD []

def allow (ip : String) (now : Int) : Quota × Bool :=
  if q.max ≤ 0 then (q, true)
  else
    let q := if sweepDue q now then sweep q now else q
    let kept := live (now - q.window) (hitsOf q ip)
    if (kept.length : Int) ≥ q.max then ({ q with hits := q.hits.set ip kept }, false)
    else ({ q with hits := q.hits.set ip (kept ++ [now]) }, true)

/-- A request of an address, or a sweep at any other moment. -/
inductive Event
  | request (ip : String) (now : Int)
  | sweep (now : Int)
deriving DecidableEq, Repr

def Event.time : Event → Int
  | .request _ now => now
  | .sweep now => now

variable (events : List Event)

def requests : List (String × Int) :=
  events.filterMap fun
    | .request ip now => some (ip, now)
    | .sweep _ => none

def Chronological : Prop :=
  events.Pairwise fun e e' => e.time ≤ e'.time

/-- The quota, what was allowed, and the answers given. -/
structure Served where
  quota : Quota
  ledger : Ledger String

def step (s : Served) : Event → Served
  | .request ip now =>
      { quota := (allow s.quota ip now).1
        ledger :=
          { log := if (allow s.quota ip now).2 then s.ledger.log ++ [(ip, now)] else s.ledger.log
            answers := s.ledger.answers ++ [(allow s.quota ip now).2] } }
  | .sweep now => { s with quota := sweep s.quota now }

def run (events : List Event) : Served := events.foldl step ⟨q, .empty⟩

theorem run_snoc (events : List Event) (e : Event) :
    run q (events ++ [e]) = step (run q events) e := by
  simp [run]

theorem requests_snoc_request (ip : String) (now : Int) :
    requests (events ++ [.request ip now]) = requests events ++ [(ip, now)] := by
  simp [requests]

theorem requests_snoc_sweep (now : Int) :
    requests (events ++ [.sweep now]) = requests events := by
  simp [requests]

theorem time_le_of_mem_requests {events : List Event} {now : Int}
    (h : ∀ e ∈ events, e.time ≤ now) {r : String × Int} (hr : r ∈ requests events) :
    r.2 ≤ now := by
  obtain ⟨e, he, hsome⟩ := mem_filterMap.mp hr
  have hle := h e he
  cases e with
  | request ip time =>
    obtain rfl := Option.some.inj hsome
    exact hle
  | sweep time => cases hsome

theorem live_live {cut cut' : Int} (h : cut ≤ cut') (ts : List Int) :
    live cut' (live cut ts) = live cut' ts := by
  unfold live
  rw [filter_filter]
  apply filter_congr
  intro t _
  have hcut : cut' < t → cut < t := by omega
  by_cases hlive : cut' < t <;> simp [hlive, hcut]

theorem live_append (cut : Int) (ts ts' : List Int) :
    live cut (ts ++ ts') = live cut ts ++ live cut ts' :=
  filter_append ts ts'

theorem live_hitsOf_sweep {now cut : Int} (h : now - q.window ≤ cut) (ip : String) :
    live cut (hitsOf (sweep q now) ip) = live cut (hitsOf q ip) := by
  unfold hitsOf sweep
  simp only [JsMap.get_filter, JsMap.get_mapEntries]
  cases q.hits.get ip with
  | none => rfl
  | some ts =>
    simp only [Option.map_some, Option.getD_some]
    cases hempty : (live (now - q.window) ts).isEmpty with
    | false =>
      rw [Option.filter_some_pos (by simp [hempty])]
      exact live_live h ts
    | true =>
      have hnone := isEmpty_iff.mp hempty
      rw [← live_live h ts, hnone]
      rfl

/-- What a call did, with a sweep or without. -/
structure Called (q : Quota) (ip : String) (now : Int) (q' : Quota) (allowed : Bool) : Prop where
  limit : q'.max = q.max
  length : q'.window = q.window
  answer : allowed = decide ((live (now - q.window) (hitsOf q ip)).length < q.max.toNat)
  self : ∀ cut, now - q.window ≤ cut → live cut (hitsOf q' ip) =
    live cut (hitsOf q ip) ++ if allowed then live cut [now] else []
  other : ∀ cut, now - q.window ≤ cut → ∀ ip', ip' ≠ ip →
    live cut (hitsOf q' ip') = live cut (hitsOf q ip')

/-- A call whose quota sweeps or not first does the same. -/
theorem called_of_live {q swept : Quota} {ip : String} {now : Int} (hmax : 0 < q.max)
    (hsame : swept.max = q.max ∧ swept.window = q.window)
    (hlive : ∀ cut, now - q.window ≤ cut → ∀ ip, live cut (hitsOf swept ip) = live cut (hitsOf q ip)) :
    let kept := live (now - swept.window) (hitsOf swept ip)
    let result := if (kept.length : Int) ≥ swept.max then
        ({ swept with hits := swept.hits.set ip kept }, false)
      else ({ swept with hits := swept.hits.set ip (kept ++ [now]) }, true)
    Called q ip now result.1 result.2 := by
  intro kept
  have hkept : kept = live (now - q.window) (hitsOf q ip) := by
    rw [show kept = live (now - swept.window) (hitsOf swept ip) from rfl, hsame.2]
    exact hlive _ (le_refl _) ip
  have hself : ∀ ts, hitsOf { swept with hits := swept.hits.set ip ts } ip = ts := by
    intro ts
    simp [hitsOf]
  have hother : ∀ ts ip', ip' ≠ ip →
      hitsOf { swept with hits := swept.hits.set ip ts } ip' = hitsOf swept ip' := by
    intro ts ip' hne
    simp [hitsOf, JsMap.get_set_of_ne _ _ hne]
  have hold : ∀ cut, now - q.window ≤ cut → live cut kept = live cut (hitsOf q ip) := by
    intro cut hcut
    rw [hkept, live_live hcut]
  by_cases hfull : (kept.length : Int) ≥ swept.max
  · simp only [if_pos hfull]
    refine ⟨hsame.1, hsame.2, ?_, ?_, ?_⟩
    · rw [← hkept]
      exact (decide_eq_false (by omega)).symm
    · intro cut hcut
      rw [hself, hold cut hcut]
      simp
    · intro cut hcut ip' hne
      rw [hother _ _ hne, hlive cut hcut]
  · simp only [if_neg hfull]
    refine ⟨hsame.1, hsame.2, ?_, ?_, ?_⟩
    · rw [← hkept]
      exact (decide_eq_true (by omega)).symm
    · intro cut hcut
      rw [hself, live_append, hold cut hcut]
      simp
    · intro cut hcut ip' hne
      rw [hother _ _ hne, hlive cut hcut]

theorem called_allow {q : Quota} (hmax : 0 < q.max) (ip : String) (now : Int) :
    Called q ip now (allow q ip now).1 (allow q ip now).2 := by
  unfold allow
  rw [if_neg (by omega)]
  cases sweepDue q now with
  | false => exact called_of_live hmax ⟨rfl, rfl⟩ fun _ _ _ => rfl
  | true =>
    exact @called_of_live q (sweep q now) ip now hmax ⟨rfl, rfl⟩ fun _ hcut ip =>
      live_hitsOf_sweep q hcut ip

variable (log : List (String × Int))

def timesOf (ip : String) : List Int :=
  (log.filter fun r => decide (r.1 = ip)).map Prod.snd

theorem timesOf_snoc (ip ip' : String) (now : Int) :
    timesOf (log ++ [(ip', now)]) ip = timesOf log ip ++ if ip' = ip then [now] else [] := by
  unfold timesOf
  by_cases hip : ip' = ip <;> simp [filter_append, hip]

theorem length_within (ip : String) (cut : Int) :
    (within log ip fun t => decide (cut < t)).length =
      (live cut (timesOf log ip)).length := by
  induction log with
  | nil => rfl
  | cons r rest ih =>
    simp only [within, timesOf, live] at ih ⊢
    by_cases hip : r.1 = ip
    · by_cases hcut : cut < r.2 <;> simp [hip, hcut, ih]
    · simp [hip, ih]

/-- The quota serves the requests of a run like the sliding window, and what its lists
hold is what the log does, as long as it matters. -/
structure Serves (max window : Int) (events : List Event) (s : Served) : Prop where
  limit : s.quota.max = max
  length : s.quota.window = window
  ledger : s.ledger = serveAll max.toNat window (requests events)
  hits : ∀ ip cut, (∀ e ∈ events, e.time - window ≤ cut) →
    live cut (hitsOf s.quota ip) = live cut (timesOf s.ledger.log ip)

theorem serves_run {max : Int} (hmax : 0 < max) (window created : Int) {events : List Event}
    (hsorted : Chronological events) :
    Serves max window events (run (newQuota max window created) events) := by
  induction events using List.reverseRecOn with
  | nil => exact ⟨rfl, rfl, rfl, fun _ _ _ => rfl⟩
  | append_singleton events e ih =>
    obtain ⟨hbefore, _, hlast⟩ := pairwise_append.mp hsorted
    have h := ih hbefore
    have htime : ∀ e' ∈ events, e'.time ≤ e.time :=
      fun e' he' => hlast e' he' e (mem_singleton.mpr rfl)
    rw [run_snoc]
    cases e with
    | sweep now =>
      refine ⟨h.limit, h.length, ?_, ?_⟩
      · rw [requests_snoc_sweep]
        exact h.ledger
      · intro ip cut hcut
        have hnow : now - window ≤ cut := hcut (.sweep now) (by simp)
        simp only [step]
        rw [live_hitsOf_sweep _ (by rwa [h.length])]
        exact h.hits ip cut fun e' he' => hcut e' (mem_append_left _ he')
    | request ip now =>
      have hcalled := called_allow (q := (run (newQuota max window created) events).quota)
        (by rw [h.limit]; exact hmax) ip now
      have hlive := h.hits ip (now - window) (by
        intro e' he'
        have hle := htime e' he'
        simp only [Event.time] at hle ⊢
        omega)
      have hanswer : (allow (run (newQuota max window created) events).quota ip now).2 =
          admits max.toNat window
            (run (newQuota max window created) events).ledger.log (ip, now) := by
        rw [hcalled.answer, h.limit, h.length, hlive]
        simp only [admits, length_within]
      refine ⟨hcalled.limit.trans h.limit, hcalled.length.trans h.length, ?_, ?_⟩
      · rw [requests_snoc_request, serveAll_snoc, ← h.ledger]
        simp only [step, serve, hanswer]
      · intro ip' cut hcut
        have hnow : now - window ≤ cut := hcut (.request ip now) (by simp)
        have hnow' : now - (run (newQuota max window created) events).quota.window ≤ cut := by
          rwa [h.length]
        have hold := h.hits ip' cut fun e' he' => hcut e' (mem_append_left _ he')
        simp only [step]
        by_cases hip : ip' = ip
        · subst hip
          rw [hcalled.self cut hnow', hold]
          cases (allow (run (newQuota max window created) events).quota ip' now).2 with
          | false => simp
          | true => simp [timesOf_snoc, live_append]
        · have hip' : ¬ ip = ip' := fun h => hip h.symm
          rw [hcalled.other cut hnow' ip' hip, hold]
          cases (allow (run (newQuota max window created) events).quota ip now).2 with
          | false => simp
          | true => simp [timesOf_snoc, hip']

theorem answers_disabled {max : Int} (hmax : max ≤ 0) (window created : Int) (events : List Event) :
    (run (newQuota max window created) events).quota.max = max ∧
      (run (newQuota max window created) events).ledger.answers =
        (requests events).map fun _ => true := by
  induction events using List.reverseRecOn with
  | nil => exact ⟨rfl, rfl⟩
  | append_singleton events e ih =>
    obtain ⟨hsame, hanswers⟩ := ih
    rw [run_snoc]
    cases e with
    | sweep now => exact ⟨hsame, by rw [requests_snoc_sweep]; exact hanswers⟩
    | request ip now =>
      have hallow : allow (run (newQuota max window created) events).quota ip now =
          ((run (newQuota max window created) events).quota, true) := by
        unfold allow
        rw [hsame, if_pos hmax]
      simp only [step, hallow, requests_snoc_request, hanswers, map_append]
      exact ⟨hsame, rfl⟩

/-- A positive budget bounds what an address is allowed in every window of its length,
open at one end, and refuses only where the budget is spent; a budget of zero refuses
nothing. Sweeps change no answer. -/
theorem budget_kept (max window created : Int) (events : List Event)
    (hsorted : Chronological events) :
    (0 < max →
      (∀ ip start, ((within (run (newQuota max window created) events).ledger.log ip
          fun t => decide (start < t ∧ t ≤ start + window)).length : Int) ≤ max ∧
        ((within (run (newQuota max window created) events).ledger.log ip
          fun t => decide (start ≤ t ∧ t < start + window)).length : Int) ≤ max) ∧
      ∀ before ip now after, events = before ++ .request ip now :: after →
        (allow (run (newQuota max window created) before).quota ip now).2 = false →
        ((within (run (newQuota max window created) before).ledger.log ip
          fun t => decide (now - window < t ∧ t ≤ now)).length : Int) = max) ∧
    (max ≤ 0 → ∀ answer ∈ (run (newQuota max window created) events).ledger.answers,
      answer = true) ∧
    ∀ events', Chronological events' → requests events' = requests events →
      (run (newQuota max window created) events').ledger.answers =
        (run (newQuota max window created) events).ledger.answers := by
  refine ⟨fun hmax => ⟨fun ip start => ?_, ?_⟩, fun hmax => ?_, ?_⟩
  · rw [(serves_run hmax window created hsorted).ledger]
    have hafter := length_within_serveAll_le max.toNat window (requests events) ip
      (p := fun t => decide (start < t ∧ t ≤ start + window)) (by
        intro t t' ht ht'
        simp only [decide_eq_true_eq] at ht ht'
        omega)
    have hbefore := length_within_serveAll_le max.toNat window (requests events) ip
      (p := fun t => decide (start ≤ t ∧ t < start + window)) (by
        intro t t' ht ht'
        simp only [decide_eq_true_eq] at ht ht'
        omega)
    omega
  · rintro before ip now after rfl hrefused
    have hfront : Chronological (before ++ [.request ip now]) := by
      rw [List.append_cons] at hsorted
      exact (List.pairwise_append.mp hsorted).1
    obtain ⟨hearlier, _, hlast⟩ := List.pairwise_append.mp hfront
    have htime : ∀ e ∈ before, e.time ≤ now :=
      fun e he => hlast e he (.request ip now) (List.mem_singleton.mpr rfl)
    have h := serves_run hmax window created hearlier
    have hcalled := called_allow (q := (run (newQuota max window created) before).quota)
      (by rw [h.limit]; exact hmax) ip now
    have hlive := h.hits ip (now - window) (by
      intro e he
      have hle := htime e he
      omega)
    have hspent := hcalled.answer
    rw [hrefused, h.limit, h.length, hlive, ← length_within] at hspent
    have hspent := of_decide_eq_false hspent.symm
    have hroom := length_within_serveAll_le max.toNat window (requests before) ip
      (p := fun t => decide (now - window < t ∧ t ≤ now)) (by
        intro t t' ht ht'
        simp only [decide_eq_true_eq] at ht ht'
        omega)
    rw [h.ledger] at hspent ⊢
    have hpast : within
          (serveAll max.toNat window (requests before)).log ip
          (fun t => decide (now - window < t ∧ t ≤ now)) =
        within (serveAll max.toNat window (requests before)).log ip
          fun t => decide (now - window < t) := by
      apply within_congr
      intro r hr
      have hle := time_le_of_mem_requests htime (mem_of_mem_log _ _ hr)
      simp [hle]
    rw [hpast] at hroom ⊢
    omega
  · intro answer hanswer
    rw [(answers_disabled hmax window created events).2] at hanswer
    obtain ⟨_, _, rfl⟩ := List.mem_map.mp hanswer
    rfl
  · intro events' hsorted' hsame
    by_cases hmax : 0 < max
    · rw [(serves_run hmax window created hsorted').ledger,
        (serves_run hmax window created hsorted).ledger, hsame]
    · rw [(answers_disabled (by omega) window created events').2,
        (answers_disabled (by omega) window created events).2, hsame]

/-- Two requests at once where one is allowed, with a sweep in between. -/
theorem budget_kept_burst :
    (run (newQuota 1 minute 0) [.request "a" 1, .request "a" 1]).ledger.answers =
      (run (newQuota 1 minute 0) [.request "a" 1, .sweep 1, .request "a" 1]).ledger.answers :=
  (budget_kept 1 minute 0 [.request "a" 1, .sweep 1, .request "a" 1] (by
    simp [Chronological, Event.time])).2.2 [.request "a" 1, .request "a" 1] (by
      simp [Chronological, Event.time]) rfl

/-- A budget of zero allows a request. -/
theorem zero_budget_allows :
    ¬ ∀ (max window created : Int) (events : List Event), Chronological events →
      ∀ ip start, ((within (run (newQuota max window created) events).ledger.log ip
        fun t => decide (start < t ∧ t ≤ start + window)).length : Int) ≤ max := by
  intro hall
  have hnone := hall 0 minute 0 [.request "a" 1] (List.pairwise_singleton _ _) "a" 0
  exact absurd hnone (by decide)

end MoonlightWeb.Deploy.Budget
