import MoonlightWeb.Lib.Seeking

/-! # The port search of `HttpServer::start`

A preferred port, a ladder of fixed ports, then scans with a 16-bit counter whose bounds
are the top of its own range or close below it. The outcome of the attempts is any set of
ports that can be bound.
-/

namespace MoonlightWeb.Server.PortSearch
open Lib.Turns Lib.Seeking

namespace PortFallback

def kHttps : List UInt16 := [8443, 18443, 28443]

def kHttp : List UInt16 := [8080, 18080, 28080]

end PortFallback

/-- `for (quint16 p = first; p <= last; p += step)`, left at the first success. -/
def scan (tryPort : UInt16 → Bool) (first last step : UInt16) (turns : Nat) :
    Option (Sought UInt16) :=
  seek (fun p => decide (p ≤ last)) tryPort (fun p => p + step) turns first

/-- What the listening calls answer. A TLS server that listens has the port the system gave
it, which is the port asked for unless that is zero. -/
structure Attempts where
  listen : UInt16 → Bool
  createHttpsServer : UInt16 → Option UInt16

variable (net : Attempts)

/-- `found` is `m_HttpPort` when a port was bound, and nothing when `m_HttpServer` is given up. -/
def startHttp (httpPort : UInt16) (turns : Nat) : Option (Sought UInt16) :=
  if net.listen httpPort then
    some ⟨[], some httpPort⟩
  else
    match PortFallback.kHttp.find? net.listen with
    | some p => some ⟨[], some p⟩
    | none => scan net.listen 49080 65535 1 turns

/-- The ports the two scans tried, and the port of `m_HttpsServer`. -/
structure HttpsSearch where
  range1 : List UInt16
  range2 : List UInt16
  activeHttpsPort : Option UInt16
  deriving DecidableEq

def startHttps (preferredHttpsPort : UInt16) (turns : Nat) :
    Option HttpsSearch :=
  let tryHttpsPort := fun port => (net.createHttpsServer port).isSome
  match net.createHttpsServer preferredHttpsPort with
  | some serverPort => some ⟨[], [], some serverPort⟩
  | none =>
      match PortFallback.kHttps.find? tryHttpsPort with
      | some p => some ⟨[], [], some p⟩
      | none =>
          (scan tryHttpsPort 49443 65443 1000 turns).bind (fun range1 =>
            match range1.found with
            | some p => some ⟨range1.tried, [], some p⟩
            | none =>
                (scan tryHttpsPort 49152 65535 1 turns).map (fun range2 =>
                  ⟨range1.tried, range2.tried, range2.found⟩))

structure Started where
  http : Sought UInt16
  https : Option HttpsSearch
  deriving DecidableEq

def start (httpPort preferredHttpsPort : UInt16) (hasHttps : Bool)
    (turns : Nat) : Option Started :=
  (startHttp net httpPort turns).bind (fun http =>
    if hasHttps then
      (startHttps net preferredHttpsPort turns).map (fun https => ⟨http, some https⟩)
    else
      some ⟨http, none⟩)

/-- The ports from `first` to `last` by `step`. -/
def InRange (first last step : Nat) (p : UInt16) : Prop :=
  ∃ k, p.toNat = first + k * step ∧ p.toNat ≤ last

def Orderly (first last step : Nat) (tried : List UInt16) : Prop :=
  tried.Nodup ∧ ∀ p ∈ tried, InRange first last step p

/-- The search ends, its scans keep to their ranges without a second try, and it says so
when every port is refused. -/
def SearchEnds (httpPort preferredHttpsPort : UInt16) (hasHttps : Bool) : Prop :=
  ∃ started, Returns (start net httpPort preferredHttpsPort hasHttps) started ∧
    Orderly 49080 65535 1 started.http.tried ∧
    ((∀ p, net.listen p = false) → started.http.found = none) ∧
    ∀ https, started.https = some https →
      Orderly 49443 65443 1000 https.range1 ∧ Orderly 49152 65535 1 https.range2 ∧
        ((∀ p, net.createHttpsServer p = none) → https.activeHttpsPort = none)

/-- Some port the search for an HTTP port is meant to try can be bound. -/
def HttpBindable (httpPort : UInt16) : Prop :=
  ∃ p, (p = httpPort ∨ p ∈ PortFallback.kHttp ∨ InRange 49080 65535 1 p) ∧ net.listen p = true

/-- The same for HTTPS, of the ports up to its first scan. -/
def HttpsBindable (preferredHttpsPort : UInt16) : Prop :=
  ∃ p, (p = preferredHttpsPort ∨ p ∈ PortFallback.kHttps ∨ InRange 49443 65443 1000 p) ∧
    (net.createHttpsServer p).isSome = true

theorem toNat_iterate {first step : UInt16} {k : Nat} (hk : first.toNat + k * step.toNat < 65536) :
    ((fun p => p + step)^[k] first).toNat = first.toNat + k * step.toNat := by
  induction k with
  | zero => rw [Function.iterate_zero_apply, Nat.zero_mul, Nat.add_zero]
  | succ k ih =>
    rw [Nat.succ_mul] at hk ⊢
    rw [Function.iterate_succ_apply', UInt16.toNat_add, ih (by omega)]
    omega

/-- The place after the last one below the wrap. -/
theorem wrapped_iterate {first step wrapped : UInt16} {n : Nat}
    (hn : first.toNat + n * step.toNat < 65536)
    (hwrapped : (first.toNat + n * step.toNat + step.toNat) % 65536 = wrapped.toNat) :
    (fun p => p + step)^[n + 1] first = wrapped := by
  apply UInt16.toNat_inj.mp
  rw [Function.iterate_succ_apply', UInt16.toNat_add, toNat_iterate hn]
  exact hwrapped

section
variable {first last step : UInt16} {n : Nat}

theorem orderly_iterate (hstep : 0 < step.toNat) (hn : first.toNat + n * step.toNat ≤ last.toNat) :
    Orderly first.toNat last.toNat step.toNat (List.iterate (fun p => p + step) first (n + 1)) := by
  have hlast : last.toNat < 65536 := last.toNat_lt
  have hplace : ∀ k, k < n + 1 → first.toNat + k * step.toNat ≤ last.toNat := by
    intro k hk
    have hle : k * step.toNat ≤ n * step.toNat := Nat.mul_le_mul_right _ (Nat.le_of_lt_succ hk)
    omega
  constructor
  · refine nodup_iterate (fun i j hij hj heq => ?_)
    have hlt : i * step.toNat < j * step.toNat := Nat.mul_lt_mul_of_pos_right hij hstep
    have hports := congrArg UInt16.toNat heq
    rw [toNat_iterate (by have := hplace i (by omega); omega),
      toNat_iterate (by have := hplace j hj; omega)] at hports
    omega
  · intro p hp
    obtain ⟨k, hk, rfl⟩ := List.mem_iterate.mp hp
    have hle := hplace k hk
    exact ⟨k, toNat_iterate (by omega), by rw [toNat_iterate (by omega)]; exact hle⟩

theorem goes_iterate {k : Nat} (hk : first.toNat + k * step.toNat ≤ last.toNat) :
    decide ((fun p => p + step)^[k] first ≤ last) = true := by
  have hlast : last.toNat < 65536 := last.toNat_lt
  rw [decide_eq_true_iff, UInt16.le_iff_toNat_le, toNat_iterate (by omega)]
  exact hk

theorem scan_returns {tryPort : UInt16 → Bool} (hstep : 0 < step.toNat) {p : UInt16}
    (hrange : InRange first.toNat last.toNat step.toNat p) (hp : tryPort p = true) :
    ∃ sought, Returns (scan tryPort first last step) sought ∧
      Orderly first.toNat last.toNat step.toNat sought.tried ∧
      ∃ q, sought.found = some q ∧ tryPort q = true := by
  obtain ⟨m, hm, hle⟩ := hrange
  rw [hm] at hle
  have hlast : last.toNat < 65536 := last.toNat_lt
  have hplace : ∀ k ≤ m, first.toNat + k * step.toNat ≤ last.toNat := by
    intro k hk
    have := Nat.mul_le_mul_right step.toNat hk
    omega
  have hport : (fun p => p + step)^[m] first = p := by
    apply UInt16.toNat_inj.mp
    rw [toNat_iterate (by omega), hm]
  have hgoes : ∀ k < m + 1, decide ((fun p => p + step)^[k] first ≤ last) = true :=
    fun k hk => goes_iterate (hplace k (Nat.le_of_lt_succ hk))
  have hfirst := @missed_or_first _ (fun p => decide (p ≤ last)) tryPort (fun p => p + step) _ _
    hgoes
  rcases hfirst with hmissed | ⟨k, hk, hmissed, hhit⟩
  · have hfree := (hmissed m (Nat.lt_succ_self m)).2
    rw [hport, hp] at hfree
    cases hfree
  · have hbound := hplace k (Nat.le_of_lt_succ hk)
    exact ⟨_, seek_returns hmissed (goes_iterate hbound) hhit, orderly_iterate hstep hbound,
      _, rfl, hhit⟩

end

theorem tried_past {tryPort : UInt16 → Bool} {first last step wrapped : UInt16} {n : Nat}
    (hn : first.toNat + n * step.toNat ≤ last.toNat)
    (hwrapped : (fun p => p + step)^[n + 1] first = wrapped) (hgoes : wrapped ≤ last)
    (hrefused : ∀ p, InRange first.toNat last.toNat step.toNat p → tryPort p = false)
    {turns : Nat} {sought : Sought UInt16}
    (hsought : scan tryPort first last step turns = some sought) : wrapped ∈ sought.tried := by
  have hlast : last.toNat < 65536 := last.toNat_lt
  have hmissed : Missed (fun p => decide (p ≤ last)) tryPort (fun p => p + step) (n + 1) first := by
    intro k hk
    have hle : k * step.toNat ≤ n * step.toNat := Nat.mul_le_mul_right _ (Nat.le_of_lt_succ hk)
    have hport : ((fun p => p + step)^[k] first).toNat = first.toNat + k * step.toNat :=
      toNat_iterate (by omega)
    exact ⟨goes_iterate (by omega), hrefused _ ⟨k, hport, by omega⟩⟩
  have htried := tried_of_missed hmissed (by rw [hwrapped]; exact decide_eq_true hgoes) hsought
  rwa [hwrapped] at htried

section
variable {net : Attempts}

theorem startHttp_ends {httpPort : UInt16} (hbind : HttpBindable net httpPort) :
    ∃ http, Returns (startHttp net httpPort) http ∧ Orderly 49080 65535 1 http.tried ∧
      ∃ q, http.found = some q ∧ net.listen q = true := by
  have hnone : Orderly 49080 65535 1 [] := ⟨List.nodup_nil, by simp⟩
  by_cases hpreferred : net.listen httpPort = true
  · refine ⟨⟨[], some httpPort⟩, Returns.of_eq (fun turns => ?_), hnone, httpPort, rfl, hpreferred⟩
    rw [startHttp, if_pos hpreferred]
  · cases hladder : PortFallback.kHttp.find? net.listen with
    | some p =>
      refine ⟨⟨[], some p⟩, Returns.of_eq (fun turns => ?_), hnone, p, rfl,
        List.find?_some hladder⟩
      rw [startHttp, if_neg hpreferred, hladder]
    | none =>
      obtain ⟨p, hp, hlisten⟩ := hbind
      have hrange : InRange 49080 65535 1 p := by
        rcases hp with rfl | hrung | hrange
        · exact absurd hlisten hpreferred
        · exact absurd hlisten (List.find?_eq_none.mp hladder p hrung)
        · exact hrange
      obtain ⟨sought, hret, horderly, hfound⟩ := @scan_returns 49080 65535 1 net.listen
        (by decide) p hrange hlisten
      refine ⟨sought, ?_, horderly, hfound⟩
      have hscan : startHttp net httpPort = scan net.listen 49080 65535 1 := by
        funext turns
        rw [startHttp, if_neg hpreferred, hladder]
      rwa [hscan]

theorem zero_tried {httpPort : UInt16} (hbind : ¬ HttpBindable net httpPort) {turns : Nat}
    {http : Sought UInt16} (hhttp : startHttp net httpPort turns = some http) :
    0 ∈ http.tried := by
  have hrefused : ∀ p, (p = httpPort ∨ p ∈ PortFallback.kHttp ∨ InRange 49080 65535 1 p) →
      net.listen p = false := by
    intro p hp
    by_contra hlisten
    exact hbind ⟨p, hp, Bool.eq_true_of_not_eq_false hlisten⟩
  have hladder : PortFallback.kHttp.find? net.listen = none := by
    rw [List.find?_eq_none]
    intro p hp
    rw [hrefused p (Or.inr (Or.inl hp))]
    exact Bool.false_ne_true
  rw [startHttp, hrefused httpPort (Or.inl rfl), if_neg Bool.false_ne_true, hladder] at hhttp
  exact @tried_past net.listen 49080 65535 1 0 16455 (by decide)
    (wrapped_iterate (by decide) (by decide)) (by decide)
    (fun p hp => hrefused p (Or.inr (Or.inr hp))) turns http hhttp

theorem startHttps_ends {preferredHttpsPort : UInt16}
    (hbind : HttpsBindable net preferredHttpsPort) :
    ∃ https, Returns (startHttps net preferredHttpsPort) https ∧
      Orderly 49443 65443 1000 https.range1 ∧ https.range2 = [] ∧
      ∃ q, (net.createHttpsServer q).isSome = true := by
  have hnone : Orderly 49443 65443 1000 [] := ⟨List.nodup_nil, by simp⟩
  cases hpreferred : net.createHttpsServer preferredHttpsPort with
  | some serverPort =>
    refine ⟨⟨[], [], some serverPort⟩, Returns.of_eq (fun turns => ?_), hnone, rfl,
      preferredHttpsPort, by rw [hpreferred]; rfl⟩
    rw [startHttps, hpreferred]
  | none =>
    cases hladder : PortFallback.kHttps.find? (fun port => (net.createHttpsServer port).isSome) with
    | some p =>
      refine ⟨⟨[], [], some p⟩, Returns.of_eq (fun turns => ?_), hnone, rfl, p, ?_⟩
      · rw [startHttps, hpreferred]
        dsimp only
        rw [hladder]
      · exact @List.find?_some _ (fun port => (net.createHttpsServer port).isSome) _ _ hladder
    | none =>
      obtain ⟨p, hp, hserver⟩ := hbind
      have hrange : InRange 49443 65443 1000 p := by
        rcases hp with rfl | hrung | hrange
        · rw [hpreferred] at hserver
          cases hserver
        · exact absurd hserver (List.find?_eq_none.mp hladder p hrung)
        · exact hrange
      obtain ⟨sought, hret, horderly, q, hfound, hq⟩ := @scan_returns 49443 65443 1000
        (fun port => (net.createHttpsServer port).isSome) (by decide) p hrange hserver
      refine ⟨⟨sought.tried, [], some q⟩, ?_, horderly, rfl, q, hq⟩
      have hthen := hret.bind (g := fun turns range1 =>
        match range1.found with
        | some p => some (HttpsSearch.mk range1.tried [] (some p))
        | none =>
          (scan (fun port => (net.createHttpsServer port).isSome) 49152 65535 1 turns).map
            (fun range2 => ⟨range1.tried, range2.tried, range2.found⟩))
        (b := ⟨sought.tried, [], some q⟩) (Returns.of_eq (fun turns => by rw [hfound]))
      have hsearch : startHttps net preferredHttpsPort = fun turns =>
          (scan (fun port => (net.createHttpsServer port).isSome) 49443 65443 1000 turns).bind
            (fun range1 =>
              match range1.found with
              | some p => some ⟨range1.tried, [], some p⟩
              | none =>
                (scan (fun port => (net.createHttpsServer port).isSome) 49152 65535 1 turns).map
                  (fun range2 => ⟨range1.tried, range2.tried, range2.found⟩)) := by
        funext turns
        rw [startHttps, hpreferred]
        dsimp only
        rw [hladder]
      rwa [hsearch]

theorem wrapped_tried {preferredHttpsPort : UInt16}
    (hbind : ¬ HttpsBindable net preferredHttpsPort) {turns : Nat} {https : HttpsSearch}
    (hhttps : startHttps net preferredHttpsPort turns = some https) : 907 ∈ https.range1 := by
  have hrefused : ∀ p, (p = preferredHttpsPort ∨ p ∈ PortFallback.kHttps ∨
      InRange 49443 65443 1000 p) → (net.createHttpsServer p).isSome = false := by
    intro p hp
    by_contra hserver
    exact hbind ⟨p, hp, Bool.eq_true_of_not_eq_false hserver⟩
  have hpreferred : net.createHttpsServer preferredHttpsPort = none := by
    simpa using hrefused preferredHttpsPort (Or.inl rfl)
  have hladder :
      PortFallback.kHttps.find? (fun port => (net.createHttpsServer port).isSome) = none := by
    rw [List.find?_eq_none]
    intro p hp
    rw [hrefused p (Or.inr (Or.inl hp))]
    exact Bool.false_ne_true
  rw [startHttps, hpreferred] at hhttps
  dsimp only at hhttps
  rw [hladder] at hhttps
  obtain ⟨range1, hrange1, hthen⟩ := Option.bind_eq_some_iff.mp hhttps
  have htried : 907 ∈ range1.tried :=
    @tried_past (fun port => (net.createHttpsServer port).isSome) 49443 65443 1000 907 16
      (by decide) (wrapped_iterate (by decide) (by decide)) (by decide)
      (fun p hp => hrefused p (Or.inr (Or.inr hp))) turns range1 hrange1
  cases hfound : range1.found with
  | some p =>
    rw [hfound] at hthen
    cases hthen
    exact htried
  | none =>
    rw [hfound] at hthen
    obtain ⟨range2, -, rfl⟩ := Option.map_eq_some_iff.mp hthen
    exact htried

end

theorem not_inRange_zero : ¬ InRange 49080 65535 1 0 := by
  rintro ⟨k, hk, -⟩
  rw [UInt16.toNat_zero] at hk
  omega

theorem not_inRange_wrapped : ¬ InRange 49443 65443 1000 907 := by
  rintro ⟨k, hk, -⟩
  have h907 : (907 : UInt16).toNat = 907 := rfl
  omega

/-- The search ends as documented exactly when it finds a port before a counter wraps. -/
theorem searchEnds_iff (net : Attempts) (httpPort preferredHttpsPort : UInt16) (hasHttps : Bool) :
    SearchEnds net httpPort preferredHttpsPort hasHttps ↔
      HttpBindable net httpPort ∧ (hasHttps = true → HttpsBindable net preferredHttpsPort) := by
  constructor
  · rintro ⟨started, ⟨enough, hret⟩, hhttp, -, hhttps⟩
    have hstart := hret enough (Nat.le_refl enough)
    obtain ⟨http, hfirst, hthen⟩ := Option.bind_eq_some_iff.mp hstart
    cases hasHttps with
    | false =>
      cases hthen
      refine ⟨?_, (nomatch ·)⟩
      by_contra hbind
      exact not_inRange_zero (hhttp.2 0 (zero_tried hbind hfirst))
    | true =>
      obtain ⟨https, hsecond, rfl⟩ := Option.map_eq_some_iff.mp hthen
      constructor
      · by_contra hbind
        exact not_inRange_zero (hhttp.2 0 (zero_tried hbind hfirst))
      · intro _
        by_contra hbind
        exact not_inRange_wrapped ((hhttps https rfl).1.2 907 (wrapped_tried hbind hsecond))
  · rintro ⟨hhttpBind, hhttpsBind⟩
    obtain ⟨http, hretHttp, horderly, q, hfound, hq⟩ := startHttp_ends hhttpBind
    have hgivenUp : (∀ p, net.listen p = false) → http.found = none := by
      intro hall
      rw [hall q] at hq
      cases hq
    cases hasHttps with
    | false =>
      exact ⟨⟨http, none⟩, hretHttp.bind (Returns.of_eq (fun _ => rfl)), horderly, hgivenUp,
        fun https hhttps => nomatch hhttps⟩
    | true =>
      obtain ⟨https, hretHttps, hrange1, hrange2, p, hp⟩ := startHttps_ends (hhttpsBind rfl)
      refine ⟨⟨http, some https⟩, hretHttp.bind (hretHttps.map _), horderly, hgivenUp, ?_⟩
      rintro https' hhttps
      cases hhttps
      refine ⟨hrange1, ?_, fun hall => ?_⟩
      · rw [hrange2]
        exact ⟨List.nodup_nil, by simp⟩
      · rw [hall p] at hp
        cases hp

theorem startHttp_hangs (createHttpsServer : UInt16 → Option UInt16) (httpPort : UInt16)
    (turns : Nat) : startHttp ⟨fun _ => false, createHttpsServer⟩ httpPort turns = none := by
  rw [startHttp, if_neg Bool.false_ne_true]
  exact seek_eq_none (fun p => decide_eq_true (UInt16.le_iff_toNat_le.mpr
    (Nat.le_of_lt_succ p.toNat_lt))) (fun _ => rfl) turns 49080

theorem every_port_refused :
    ¬ SearchEnds ⟨fun _ => false, fun _ => none⟩ 80 443 true := by
  rintro ⟨started, ⟨enough, hret⟩, -⟩
  have hstart := hret enough (Nat.le_refl enough)
  rw [start, startHttp_hangs] at hstart
  cases hstart

end MoonlightWeb.Server.PortSearch
