import MoonlightWeb.Server.ConnectionGuard

/-! # Every address alone

What the guard answers about an address is what one state would answer that saw the calls
about it and no purge. The limits and the bans are read off that state.
-/

namespace MoonlightWeb.Server.ConnectionGuard

open Lib Qt Js
open RecentTimes (trim Log)
open List

variable (calls : List Call)

/-- The clock starts at zero and never goes back. -/
def Ordered : Prop :=
  (0 :: calls.map Call.nowMs).Pairwise (· ≤ ·)

def lastMs : Int :=
  (calls.getLast?.map Call.nowMs).getD 0

theorem lastMs_snoc (c : Call) : lastMs (calls ++ [c]) = c.nowMs := by
  unfold lastMs
  rw [List.getLast?_concat]
  rfl

theorem Ordered.left {calls calls' : List Call} (h : Ordered (calls ++ calls')) :
    Ordered calls := by
  unfold Ordered at h ⊢
  rw [map_append, ← cons_append, pairwise_append] at h
  exact h.1

variable {calls : List Call}

theorem Ordered.le_of_mem {c : Call} (h : Ordered (calls ++ [c])) {x : Call}
    (hx : x ∈ calls) : x.nowMs ≤ c.nowMs := by
  unfold Ordered at h
  rw [map_append, ← cons_append, pairwise_append] at h
  exact h.2.2 _ (mem_cons_of_mem _ (mem_map_of_mem hx)) _ (mem_singleton.mpr rfl)

theorem Ordered.nonneg (h : Ordered calls) {x : Call} (hx : x ∈ calls) :
    0 ≤ x.nowMs :=
  rel_of_pairwise_cons h (mem_map_of_mem hx)

theorem Ordered.last_le {c : Call} (h : Ordered (calls ++ [c])) :
    lastMs calls ≤ c.nowMs := by
  unfold lastMs
  cases hlast : calls.getLast? with
  | none => exact h.nonneg (mem_append_right _ (mem_singleton.mpr rfl))
  | some x => exact h.le_of_mem (mem_of_getLast? hlast)

theorem Ordered.filter (h : Ordered calls) (p : Call → Bool) :
    Ordered (calls.filter p) := by
  unfold Ordered at h ⊢
  exact h.sublist ((filter_sublist.map _).cons_cons _)

/-- The address a call is about; a purge is about none. -/
def Op.ip : Op → Option QString
  | .allowConnection ip => some ip
  | .reportAuthFailure ip => some ip
  | .isBanned ip => some ip
  | .banSecondsRemaining ip => some ip
  | .purge => none

def about (ip : QString) (c : Call) : Bool :=
  c.op.ip = some ip

section

variable (exempt : QString → Bool)

def ownStep (ip : QString) (s : IpState) (c : Call) : IpState :=
  if exempt ip then s
  else
    match c.op with
    | .allowConnection _ => (connect s c.nowMs).2
    | .reportAuthFailure _ => fail s c.nowMs
    | _ => s

def ownAnswer (ip : QString) (s : IpState) (c : Call) : Option Answer :=
  match c.op with
  | .allowConnection _ => some (.allowed (exempt ip || (connect s c.nowMs).1))
  | .reportAuthFailure _ => none
  | .isBanned _ => some (.banned (c.nowMs < s.bannedUntilMs))
  | .banSecondsRemaining _ =>
      some (.seconds (if c.nowMs ≥ s.bannedUntilMs then 0
        else (s.bannedUntilMs - c.nowMs + 999).tdiv 1000))
  | .purge => none

/-- The address's own state after a run. -/
def own (ip : QString) (calls : List Call) : IpState :=
  (calls.filter (about ip)).foldl (ownStep exempt ip) {}

theorem own_snoc_about {ip : QString} (calls : List Call) {c : Call} (h : about ip c = true) :
    own exempt ip (calls ++ [c]) = ownStep exempt ip (own exempt ip calls) c := by
  unfold own
  rw [filter_append, filter_cons_of_pos h, foldl_append]
  rfl

theorem own_snoc_other {ip : QString} (calls : List Call) {c : Call} (h : ¬ about ip c = true) :
    own exempt ip (calls ++ [c]) = own exempt ip calls := by
  unfold own
  rw [filter_append, filter_cons_of_neg h, filter_nil, append_nil]

end

/-- A state of the table tells from `now` on what the own state does: what it lacks of the
times is older than any window, and a ban it does not know is over. -/
structure Agrees (now : Int) (found : Option IpState) (s : IpState) : Prop where
  conn : ∃ old, s.connTimes = old ++ (found.getD {}).connTimes ∧
    ∀ x ∈ old, x < now - CONN_WINDOW_MS
  fails : ∃ old, s.authFailTimes = old ++ (found.getD {}).authFailTimes ∧
    ∀ x ∈ old, x < now - AUTHFAIL_WINDOW_MS
  until_eq : (found.getD {}).bannedUntilMs = s.bannedUntilMs ∨
    ((found.getD {}).bannedUntilMs ≤ now ∧ s.bannedUntilMs ≤ now)
  le : ∀ x, x ∈ s.connTimes ∨ x ∈ s.authFailTimes → x ≤ now
  seen : ∀ t, found = some t → ∀ x, x ∈ s.connTimes ∨ x ∈ s.authFailTimes → x ≤ t.lastSeenMs

theorem agrees_start : Agrees 0 none {} where
  conn := ⟨[], rfl, fun _ hx => absurd hx not_mem_nil⟩
  fails := ⟨[], rfl, fun _ hx => absurd hx not_mem_nil⟩
  until_eq := Or.inl rfl
  le _ hx := (hx.elim (absurd · not_mem_nil) (absurd · not_mem_nil))
  seen _ h := nomatch h

theorem old_of_le {old : List Int} {now now' window : Int} (h : ∀ x ∈ old, x < now - window)
    (hle : now ≤ now') : ∀ x ∈ old, x < now' - window := by
  intro x hx
  have := h x hx
  omega

section

variable {now now' : Int} {found : Option IpState} {s : IpState}

variable (h : Agrees now found s)

include h

theorem Agrees.later (hle : now ≤ now') : Agrees now' found s where
  conn := by
    obtain ⟨old, hconn, hold⟩ := h.conn
    exact ⟨old, hconn, old_of_le hold hle⟩
  fails := by
    obtain ⟨old, hfails, hold⟩ := h.fails
    exact ⟨old, hfails, old_of_le hold hle⟩
  until_eq := h.until_eq.imp id fun hover => ⟨hover.1.trans hle, hover.2.trans hle⟩
  le x hx := (h.le x hx).trans hle
  seen := h.seen

theorem Agrees.banned_iff (hle : now ≤ now') :
    now' < (found.getD {}).bannedUntilMs ↔ now' < s.bannedUntilMs := by
  rcases h.until_eq with hsame | hover
  · rw [hsame]
  · omega

/-- Once trimmed, a new time added, both have the same connections. -/
theorem Agrees.trim_conn (hle : now ≤ now') :
    trimWindow ((found.getD {}).connTimes ++ [now']) now' CONN_WINDOW_MS =
      trimWindow (s.connTimes ++ [now']) now' CONN_WINDOW_MS := by
  obtain ⟨old, hconn, hold⟩ := h.conn
  unfold trimWindow
  rw [hconn, append_assoc, RecentTimes.trim_append_old (old_of_le hold hle)]

theorem Agrees.trim_fails (hle : now ≤ now') :
    trimWindow ((found.getD {}).authFailTimes ++ [now']) now' AUTHFAIL_WINDOW_MS =
      trimWindow (s.authFailTimes ++ [now']) now' AUTHFAIL_WINDOW_MS := by
  obtain ⟨old, hfails, hold⟩ := h.fails
  unfold trimWindow
  rw [hfails, append_assoc, RecentTimes.trim_append_old (old_of_le hold hle)]

omit h

theorem mem_trimWindow {q : List Int} {t window x : Int} (hq : ∀ x ∈ q, x ≤ t)
    (hx : x ∈ trimWindow (q ++ [t]) t window) : x ≤ t := by
  have hmem : x ∈ q ++ [t] := (dropWhile_sublist _).subset hx
  rcases mem_append.mp hmem with hold | hnew
  · exact hq x hold
  · exact (mem_singleton.mp hnew).le

theorem Agrees.connect (h : Agrees now found s) (hle : now ≤ now') :
    (connect (found.getD {}) now').1 = (connect s now').1 ∧
      Agrees now' (some (connect (found.getD {}) now').2) (connect s now').2 := by
  have hlater := h.later hle
  have hban := h.banned_iff hle
  have htrim := h.trim_conn hle
  have hin : ∀ x ∈ trimWindow (s.connTimes ++ [now']) now' CONN_WINDOW_MS, x ≤ now' :=
    fun x hx => mem_trimWindow (fun y hy => hlater.le y (Or.inl hy)) hx
  unfold ConnectionGuard.connect
  dsimp only
  by_cases hbanned : now' < s.bannedUntilMs
  · rw [if_pos hbanned, if_pos (hban.mpr hbanned)]
    exact ⟨rfl, hlater.conn, hlater.fails, hlater.until_eq, hlater.le,
      fun t ht x hx => by cases ht; exact hlater.le x hx⟩
  · rw [if_neg hbanned, if_neg (fun hfound => hbanned (hban.mp hfound)), htrim]
    by_cases hflood : (trimWindow (s.connTimes ++ [now']) now' CONN_WINDOW_MS).length >
        CONN_MAX_PER_WINDOW
    · have hfew : ∀ x, x ∈ ([] : List Int) ∨ x ∈ s.authFailTimes → x ≤ now' :=
        fun x hx => hx.elim (absurd · not_mem_nil) fun hx => hlater.le x (Or.inr hx)
      rw [if_pos hflood, if_pos hflood]
      exact ⟨rfl, ⟨[], rfl, fun _ hx => absurd hx not_mem_nil⟩, hlater.fails, Or.inl rfl,
        hfew, fun t ht x hx => by cases ht; exact hfew x hx⟩
    · have hfew : ∀ x, x ∈ trimWindow (s.connTimes ++ [now']) now' CONN_WINDOW_MS ∨
          x ∈ s.authFailTimes → x ≤ now' :=
        fun x hx => hx.elim (hin x) fun hx => hlater.le x (Or.inr hx)
      rw [if_neg hflood, if_neg hflood]
      exact ⟨rfl, ⟨[], rfl, fun _ hx => absurd hx not_mem_nil⟩, hlater.fails,
        hlater.until_eq, hfew, fun t ht x hx => by cases ht; exact hfew x hx⟩

theorem Agrees.fail (h : Agrees now found s) (hle : now ≤ now') :
    Agrees now' (some (fail (found.getD {}) now')) (fail s now') := by
  have hlater := h.later hle
  have htrim := h.trim_fails hle
  have hin : ∀ x ∈ trimWindow (s.authFailTimes ++ [now']) now' AUTHFAIL_WINDOW_MS, x ≤ now' :=
    fun x hx => mem_trimWindow (fun y hy => hlater.le y (Or.inr hy)) hx
  unfold ConnectionGuard.fail
  dsimp only
  rw [htrim]
  by_cases hmany : (trimWindow (s.authFailTimes ++ [now']) now' AUTHFAIL_WINDOW_MS).length ≥
      AUTHFAIL_MAX
  · have hfew : ∀ x, x ∈ s.connTimes ∨ x ∈ ([] : List Int) → x ≤ now' :=
      fun x hx => hx.elim (fun hx => hlater.le x (Or.inl hx)) (absurd · not_mem_nil)
    rw [if_pos hmany, if_pos hmany]
    exact ⟨hlater.conn, ⟨[], rfl, fun _ hx => absurd hx not_mem_nil⟩, Or.inl rfl, hfew,
      fun t ht x hx => by cases ht; exact hfew x hx⟩
  · have hfew : ∀ x, x ∈ s.connTimes ∨
        x ∈ trimWindow (s.authFailTimes ++ [now']) now' AUTHFAIL_WINDOW_MS → x ≤ now' :=
      fun x hx => hx.elim (fun hx => hlater.le x (Or.inl hx)) (hin x)
    rw [if_neg hmany, if_neg hmany]
    exact ⟨hlater.conn, ⟨[], rfl, fun _ hx => absurd hx not_mem_nil⟩, hlater.until_eq, hfew,
      fun t ht x hx => by cases ht; exact hfew x hx⟩

/-- A purge drops a state only when every ban is over and every window has passed. -/
theorem Agrees.purge (h : Agrees now found s) (hle : now ≤ now') (hstarted : 0 ≤ now') :
    Agrees now' (found.filter fun t => !(!decide (now' < t.bannedUntilMs) &&
      decide (now' - t.lastSeenMs > IDLE_PURGE_MS))) s := by
  have hlater := h.later hle
  cases found with
  | none => exact hlater
  | some t =>
    rw [Option.filter_some]
    split
    · exact hlater
    · rename_i hdropped
      simp only [Bool.not_eq_true', Bool.and_eq_false_iff, Bool.not_eq_false',
        decide_eq_true_eq, decide_eq_false_iff_not, not_or, Int.not_lt] at hdropped
      obtain ⟨hover, hidle⟩ := hdropped
      have hseen := h.seen t rfl
      have hban := h.banned_iff hle
      have hunban : ¬ now' < s.bannedUntilMs := fun hs => absurd (hban.mpr hs) (by simpa using hover)
      unfold IDLE_PURGE_MS at hidle
      refine ⟨⟨s.connTimes, (append_nil _).symm, fun x hx => ?_⟩,
        ⟨s.authFailTimes, (append_nil _).symm, fun x hx => ?_⟩, ?_, hlater.le, ?_⟩
      · have := hseen x (Or.inl hx)
        unfold CONN_WINDOW_MS
        omega
      · have := hseen x (Or.inr hx)
        unfold AUTHFAIL_WINDOW_MS
        omega
      · exact Or.inr ⟨hstarted, by omega⟩
      · intro t' ht'
        cases ht'

end

section

variable {exempt : QString → Bool} {m : Table} {ip : QString} {now : Int} {s : IpState} {c : Call}

variable (h : Agrees now (m.get ip) s)

include h

theorem Agrees.about (hle : now ≤ c.nowMs) (hc : c.op.ip = some ip) :
    Agrees c.nowMs ((handle exempt m c).get ip) (ownStep exempt ip s c) := by
  have hlater := h.later hle
  unfold handle ownStep
  cases hop : c.op with
  | allowConnection ip' =>
    obtain rfl : ip' = ip := by simpa [hop, Op.ip] using hc
    dsimp only
    unfold allowConnection
    split
    · exact hlater
    · rw [JsMap.get_set_self]
      exact (h.connect hle).2
  | reportAuthFailure ip' =>
    obtain rfl : ip' = ip := by simpa [hop, Op.ip] using hc
    dsimp only
    unfold reportAuthFailure
    split
    · exact hlater
    · rw [JsMap.get_set_self]
      exact h.fail hle
  | isBanned ip' => simpa only [ite_self] using hlater
  | banSecondsRemaining ip' => simpa only [ite_self] using hlater
  | purge => simp [hop, Op.ip] at hc

/-- A call about another address, or a purge. -/
theorem Agrees.other (hle : now ≤ c.nowMs) (hstarted : 0 ≤ c.nowMs)
    (hc : c.op.ip ≠ some ip) : Agrees c.nowMs ((handle exempt m c).get ip) s := by
  have hlater := h.later hle
  unfold handle
  cases hop : c.op with
  | allowConnection ip' =>
    have hne : ip ≠ ip' := fun heq => hc (by rw [hop, heq]; rfl)
    dsimp only
    unfold allowConnection
    split
    · exact hlater
    · rwa [JsMap.get_set_of_ne _ _ hne]
  | reportAuthFailure ip' =>
    have hne : ip ≠ ip' := fun heq => hc (by rw [hop, heq]; rfl)
    dsimp only
    unfold reportAuthFailure
    split
    · exact hlater
    · rwa [JsMap.get_set_of_ne _ _ hne]
  | isBanned ip' => exact hlater
  | banSecondsRemaining ip' => exact hlater
  | purge =>
    dsimp only
    unfold ConnectionGuard.purge
    rw [JsMap.get_filter]
    exact h.purge hle hstarted

theorem Agrees.isBanned {t : Int} (hle : now ≤ t) (hstarted : 0 ≤ t) :
    isBanned m ip t = decide (t < s.bannedUntilMs) := by
  have hban := h.banned_iff hle
  unfold ConnectionGuard.isBanned
  cases hget : m.get ip with
  | none =>
    rw [hget] at hban
    exact (decide_eq_false fun hs => absurd (hban.mpr hs) (by simpa using hstarted)).symm
  | some t' =>
    rw [hget] at hban
    exact decide_eq_decide.mpr hban

theorem Agrees.banSecondsRemaining {t : Int} (hle : now ≤ t)
    (hstarted : 0 ≤ t) :
    banSecondsRemaining m ip t =
      if t ≥ s.bannedUntilMs then 0 else (s.bannedUntilMs - t + 999).tdiv 1000 := by
  have hban := h.banned_iff hle
  have huntil := h.until_eq
  unfold ConnectionGuard.banSecondsRemaining
  cases hget : m.get ip with
  | none =>
    rw [hget] at hban
    have hover : ¬ t < s.bannedUntilMs := fun hs => absurd (hban.mpr hs) (by simpa using hstarted)
    rw [if_pos (by omega)]
  | some t' =>
    rw [hget] at huntil
    rcases huntil with hsame | ⟨hfound, hown⟩
    · rw [← hsame]
      rfl
    · have hfound : t'.bannedUntilMs ≤ now := hfound
      dsimp only
      rw [if_pos (by omega), if_pos (by omega)]

omit h

end

section

variable (exempt : QString → Bool)

variable {calls : List Call}

variable (ip : QString)

/-- After any run the table tells of an address what its own state does. -/
theorem agrees (h : Ordered calls) :
    Agrees (lastMs calls) ((run exempt calls).get ip) (own exempt ip calls) := by
  induction calls using List.reverseRecOn with
  | nil => exact agrees_start
  | append_singleton calls c ih =>
    have hbefore := ih h.left
    have hle := h.last_le
    have hstarted := h.nonneg (mem_append_right _ (mem_singleton.mpr rfl))
    rw [run_snoc, lastMs_snoc]
    by_cases hc : c.op.ip = some ip
    · rw [own_snoc_about exempt calls (decide_eq_true hc)]
      exact hbefore.about hle hc
    · rw [own_snoc_other exempt calls (by simpa [about] using hc)]
      exact hbefore.other hle hstarted hc

/-- Each answer is the one its address's own state gives. -/
theorem answer_eq {ip : QString} {c : Call} (h : Ordered (calls ++ [c])) (hc : c.op.ip = some ip) :
    answer exempt (run exempt calls) c = ownAnswer exempt ip (own exempt ip calls) c := by
  have hbefore := agrees exempt ip h.left
  have hle := h.last_le
  have hstarted := h.nonneg (mem_append_right _ (mem_singleton.mpr rfl))
  unfold answer ownAnswer
  cases hop : c.op with
  | allowConnection ip' =>
    obtain rfl : ip' = ip := by simpa [hop, Op.ip] using hc
    dsimp only
    unfold allowConnection
    cases hexempt : exempt ip' with
    | true => rfl
    | false =>
      rw [if_neg (by decide), Bool.false_or]
      exact congrArg (fun b => some (Answer.allowed b)) (hbefore.connect hle).1
  | reportAuthFailure ip' => rfl
  | isBanned ip' =>
    obtain rfl : ip' = ip := by simpa [hop, Op.ip] using hc
    exact congrArg (fun b => some (Answer.banned b)) (hbefore.isBanned hle hstarted)
  | banSecondsRemaining ip' =>
    obtain rfl : ip' = ip := by simpa [hop, Op.ip] using hc
    exact congrArg (fun n => some (Answer.seconds n)) (hbefore.banSecondsRemaining hle hstarted)
  | purge => rfl

def ownAnswersFrom (ip : QString) : IpState → List Call → List (Call × Answer)
  | _, [] => []
  | s, c :: rest =>
      ((ownAnswer exempt ip s c).map fun a => (c, a)).toList ++
        ownAnswersFrom ip (ownStep exempt ip s c) rest

theorem ownAnswersFrom_append (s : IpState) (calls calls' : List Call) :
    ownAnswersFrom exempt ip s (calls ++ calls') =
      ownAnswersFrom exempt ip s calls ++
        ownAnswersFrom exempt ip (calls.foldl (ownStep exempt ip) s) calls' := by
  induction calls generalizing s with
  | nil => rfl
  | cons c rest ih =>
    rw [cons_append, ownAnswersFrom, ownAnswersFrom, ih, append_assoc,
      foldl_cons]

def answersTo (calls : List Call) : List (Call × Answer) :=
  (answers exempt calls).filter fun a => about ip a.1

theorem answersTo_snoc (calls : List Call) (c : Call) :
    answersTo exempt ip (calls ++ [c]) =
      answersTo exempt ip calls ++
        if about ip c then ((answer exempt (run exempt calls) c).map fun a => (c, a)).toList
        else [] := by
  unfold answersTo
  rw [answers_snoc, filter_append]
  congr 1
  cases answer exempt (run exempt calls) c with
  | none => simp
  | some a => simp [filter_cons]

theorem answersTo_eq (h : Ordered calls) :
    answersTo exempt ip calls = ownAnswersFrom exempt ip {} (calls.filter (about ip)) := by
  induction calls using List.reverseRecOn with
  | nil => rfl
  | append_singleton calls c ih =>
    rw [answersTo_snoc, ih h.left, filter_append]
    by_cases hc : about ip c = true
    · have hop : c.op.ip = some ip := of_decide_eq_true hc
      rw [if_pos hc, filter_cons_of_pos hc, ownAnswersFrom_append, answer_eq exempt h hop]
      exact congrArg _ (append_nil _).symm
    · rw [if_neg hc, filter_cons_of_neg hc, filter_nil, append_nil,
        append_nil]

/-- Calls about other addresses, and purges, leave the answers about an address alone. -/
theorem answersTo_congr {calls calls' : List Call} (h : Ordered calls)
    (h' : Ordered calls') (hsame : calls.filter (about ip) = calls'.filter (about ip)) :
    answersTo exempt ip calls = answersTo exempt ip calls' := by
  rw [answersTo_eq exempt ip h, answersTo_eq exempt ip h', hsame]

def notPurge (c : Call) : Bool :=
  c.op ≠ .purge

theorem about_notPurge {ip : QString} {c : Call} (h : about ip c = true) : notPurge c = true := by
  unfold about at h
  unfold notPurge
  cases hop : c.op <;> simp [hop, Op.ip] at h ⊢

theorem own_notPurge (calls : List Call) :
    own exempt ip (calls.filter notPurge) = own exempt ip calls := by
  unfold own
  rw [filter_filter]
  congr 1
  refine filter_congr fun c _ => ?_
  cases hc : about ip c with
  | false => rfl
  | true => rw [about_notPurge hc]; rfl

theorem answers_notPurge (h : Ordered calls) :
    answers exempt calls = answers exempt (calls.filter notPurge) := by
  induction calls using List.reverseRecOn with
  | nil => rfl
  | append_singleton calls c ih =>
    have hfilter := h.filter notPurge
    rw [filter_append] at hfilter ⊢
    rw [answers_snoc, ih h.left]
    by_cases hc : notPurge c = true
    · rw [filter_cons_of_pos hc, filter_nil] at hfilter ⊢
      rw [answers_snoc]
      have hsame : answer exempt (run exempt calls) c =
          answer exempt (run exempt (calls.filter notPurge)) c := by
        cases hip : c.op.ip with
        | none => cases hop : c.op <;> simp [hop, Op.ip, notPurge] at hip hc
        | some ip => rw [answer_eq exempt h hip, answer_eq exempt hfilter hip, own_notPurge]
      rw [hsame]
    · have hnone : answer exempt (run exempt calls) c = none := by
        unfold notPurge at hc
        have hpurge : c.op = .purge := by simpa using hc
        unfold answer
        rw [hpurge]
      rw [filter_cons_of_neg hc, hnone, filter_nil, append_nil]
      exact append_nil _

/-- Purges put in or taken out anywhere change no answer. -/
theorem answers_congr {calls calls' : List Call} (h : Ordered calls) (h' : Ordered calls')
    (hsame : calls.filter notPurge = calls'.filter notPurge) :
    answers exempt calls = answers exempt calls' := by
  rw [answers_notPurge exempt h, answers_notPurge exempt h', hsame]

end

end MoonlightWeb.Server.ConnectionGuard
