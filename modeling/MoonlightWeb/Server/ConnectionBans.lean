import MoonlightWeb.Server.ConnectionLimits

/-! # How many connections, and when a ban begins

The own state of an address keeps the recent ends of two logs: its allowed connections and
its failures. What the logs lost is older than a window, or covered by the ban in force.
-/

namespace MoonlightWeb.Server.ConnectionGuard

open Lib Qt Js
open RecentTimes (trim Log)
open List

/-- A time that counts no more: it has left the window, or a ban made since is in force until
it has. -/
def Covered (window until_ now x : Int) : Prop :=
  x < now - window ∨ x + BAN_MS ≤ until_

theorem Covered.later {window until_ until' now now' x : Int} (h : Covered window until_ now x)
    (hle : now ≤ now') (huntil : until_ ≤ until') : Covered window until' now' x := by
  unfold Covered at h ⊢
  omega

def since (start window : Int) (x : Int) : Bool :=
  start ≤ x ∧ x ≤ start + window

structure Tracked (now : Int) (s : IpState) (allowed fails : List Int) : Prop where
  conn : Log (Covered CONN_WINDOW_MS s.bannedUntilMs now) allowed s.connTimes
  failed : Log (Covered AUTHFAIL_WINDOW_MS s.bannedUntilMs now) fails s.authFailTimes
  allowed_le : ∀ x ∈ allowed, x ≤ now
  fails_le : ∀ x ∈ fails, x ≤ now
  until_le : s.bannedUntilMs ≤ now + BAN_MS
  few : ∀ start, (allowed.filter (since start CONN_WINDOW_MS)).length ≤ CONN_MAX_PER_WINDOW

theorem tracked_start : Tracked 0 {} [] [] where
  conn := Log.nil
  failed := Log.nil
  allowed_le _ hx := absurd hx not_mem_nil
  fails_le _ hx := absurd hx not_mem_nil
  until_le := by decide
  few _ := Nat.zero_le _

section

variable {now t : Int} {s : IpState} {allowed fails : List Int}

theorem Tracked.later (h : Tracked now s allowed fails) (hle : now ≤ t) :
    Tracked t s allowed fails where
  conn := h.conn.mono fun _ _ hx => hx.later hle (Int.le_refl _)
  failed := h.failed.mono fun _ _ hx => hx.later hle (Int.le_refl _)
  allowed_le x hx := (h.allowed_le x hx).trans hle
  fails_le x hx := (h.fails_le x hx).trans hle
  until_le := h.until_le.trans (by omega)
  few := h.few

theorem Tracked.trimmed_conn (h : Tracked t s allowed fails) :
    Log (Covered CONN_WINDOW_MS s.bannedUntilMs t) (allowed ++ [t])
      (trimWindow (s.connTimes ++ [t]) t CONN_WINDOW_MS) :=
  (h.conn.add h.allowed_le).trim fun _ hx => Or.inl hx

theorem Tracked.trimmed_fails (h : Tracked t s allowed fails) :
    Log (Covered AUTHFAIL_WINDOW_MS s.bannedUntilMs t) (fails ++ [t])
      (trimWindow (s.authFailTimes ++ [t]) t AUTHFAIL_WINDOW_MS) :=
  (h.failed.add h.fails_le).trim fun _ hx => Or.inl hx

theorem le_snoc {l : List Int} (h : ∀ x ∈ l, x ≤ t) : ∀ x ∈ l ++ [t], x ≤ t := by
  intro x hx
  rcases mem_append.mp hx with hold | hnew
  · exact h x hold
  · exact (mem_singleton.mp hnew).le

/-- One more admitted connection, of at most as many as the trimmed queue may hold. -/
theorem Tracked.few_snoc (h : Tracked t s allowed fails) (hfree : ¬ t < s.bannedUntilMs)
    (hroom : ¬ (trimWindow (s.connTimes ++ [t]) t CONN_WINDOW_MS).length > CONN_MAX_PER_WINDOW)
    (start : Int) :
    ((allowed ++ [t]).filter (since start CONN_WINDOW_MS)).length ≤ CONN_MAX_PER_WINDOW := by
  by_cases hin : since start CONN_WINDOW_MS t = true
  · -- The newest counts, so all that count with it are in the window before it.
    have hrecent := h.trimmed_conn.recent_le (p := since start CONN_WINDOW_MS) (by
      intro x hx hgone
      unfold since CONN_WINDOW_MS at hx hin
      unfold Covered CONN_WINDOW_MS BAN_MS at hgone
      simp only [decide_eq_true_eq] at hx hin
      omega)
    omega
  · rw [filter_append, filter_cons_of_neg hin, filter_nil, append_nil]
    exact h.few start

theorem Tracked.connect (h : Tracked now s allowed fails) (hle : now ≤ t) :
    Tracked t (connect s t).2 (allowed ++ if (connect s t).1 then [t] else []) fails := by
  have hlater := h.later hle
  unfold ConnectionGuard.connect
  dsimp only
  by_cases hbanned : t < s.bannedUntilMs
  · rw [if_pos hbanned, if_neg Bool.false_ne_true, append_nil]
    exact ⟨hlater.conn, hlater.failed, hlater.allowed_le, hlater.fails_le, hlater.until_le,
      hlater.few⟩
  · have hgrows : s.bannedUntilMs ≤ t + BAN_MS := by
      unfold BAN_MS
      omega
    rw [if_neg hbanned]
    by_cases hflood : (trimWindow (s.connTimes ++ [t]) t CONN_WINDOW_MS).length >
        CONN_MAX_PER_WINDOW
    · rw [if_pos hflood, if_neg Bool.false_ne_true, append_nil]
      refine ⟨(hlater.conn.mono fun x _ hx => hx.later (Int.le_refl _) hgrows).clear fun x hx => ?_,
        hlater.failed.mono fun x _ hx => hx.later (Int.le_refl _) hgrows, hlater.allowed_le,
        hlater.fails_le, Int.le_refl _, hlater.few⟩
      have := hlater.allowed_le x (hlater.conn.mem hx)
      exact Or.inr (by omega)
    · rw [if_neg hflood, if_pos rfl]
      exact ⟨hlater.trimmed_conn, hlater.failed, le_snoc hlater.allowed_le, hlater.fails_le,
        hlater.until_le, hlater.few_snoc hbanned hflood⟩

theorem Tracked.fail (h : Tracked now s allowed fails) (hle : now ≤ t) :
    Tracked t (fail s t) allowed (fails ++ [t]) := by
  have hlater := h.later hle
  unfold ConnectionGuard.fail
  dsimp only
  by_cases hmany : (trimWindow (s.authFailTimes ++ [t]) t AUTHFAIL_WINDOW_MS).length ≥ AUTHFAIL_MAX
  · have hgrows := hlater.until_le
    rw [if_pos hmany]
    refine ⟨hlater.conn.mono fun x _ hx => hx.later (Int.le_refl _) hgrows,
      (hlater.trimmed_fails.mono fun x _ hx => hx.later (Int.le_refl _) hgrows).clear
        fun x hx => ?_, hlater.allowed_le, le_snoc hlater.fails_le, Int.le_refl _, hlater.few⟩
    have := le_snoc hlater.fails_le x (hlater.trimmed_fails.mem hx)
    exact Or.inr (by omega)
  · rw [if_neg hmany]
    exact ⟨hlater.conn, hlater.trimmed_fails, hlater.allowed_le, le_snoc hlater.fails_le,
      hlater.until_le, hlater.few⟩

variable (h : Tracked now s allowed fails)

include h

theorem Tracked.fail_bans (hle : now ≤ t)
    (hmany : AUTHFAIL_MAX ≤ ((fails ++ [t]).filter fun x => t - AUTHFAIL_WINDOW_MS ≤ x).length) :
    t < (ConnectionGuard.fail s t).bannedUntilMs := by
  have hlater := h.later hle
  unfold ConnectionGuard.fail
  dsimp only
  split
  · show t < t + BAN_MS
    unfold BAN_MS
    omega
  · rename_i hroom
    show t < s.bannedUntilMs
    by_contra hfree
    have hrecent := hlater.trimmed_fails.recent_le
      (p := fun x => decide (t - AUTHFAIL_WINDOW_MS ≤ x)) (by
        intro x hx hgone
        unfold AUTHFAIL_WINDOW_MS at hx
        unfold Covered AUTHFAIL_WINDOW_MS BAN_MS at hgone
        simp only [decide_eq_true_eq] at hx
        omega)
    omega

/-- A failure that bans makes the limit within the window, and the ban runs from it. -/
theorem Tracked.banned_of_fail (hle : now ≤ t) {later : Int}
    (hafter : later < (ConnectionGuard.fail s t).bannedUntilMs)
    (hbefore : ¬ later < s.bannedUntilMs) :
    (ConnectionGuard.fail s t).bannedUntilMs = t + BAN_MS ∧
      AUTHFAIL_MAX ≤ ((fails ++ [t]).filter fun x => t - AUTHFAIL_WINDOW_MS ≤ x).length := by
  have hlog := (h.later hle).trimmed_fails
  unfold ConnectionGuard.fail at hafter ⊢
  dsimp only at hafter ⊢
  split at hafter
  · rename_i hmany
    have hsorted := ((h.later hle).failed.add (h.later hle).fails_le).sorted_kept
    have hwithin := hlog.length_le (p := fun x => decide (t - AUTHFAIL_WINDOW_MS ≤ x))
      fun x hx => decide_eq_true (RecentTimes.le_of_mem_trim hsorted hx)
    rw [if_pos hmany]
    exact ⟨rfl, by omega⟩
  · exact absurd hafter hbefore

/-- A connection that bans is one over the limit within the window. -/
theorem Tracked.banned_of_connect (hle : now ≤ t) {later : Int}
    (hafter : later < (ConnectionGuard.connect s t).2.bannedUntilMs)
    (hbefore : ¬ later < s.bannedUntilMs) :
    (ConnectionGuard.connect s t).2.bannedUntilMs = t + BAN_MS ∧
      CONN_MAX_PER_WINDOW ≤ (allowed.filter fun x => t - CONN_WINDOW_MS ≤ x).length := by
  have hlog := (h.later hle).trimmed_conn
  unfold ConnectionGuard.connect at hafter ⊢
  dsimp only at hafter ⊢
  split at hafter
  · exact absurd hafter hbefore
  · rename_i hfree
    rw [if_neg hfree]
    split at hafter
    · rename_i hflood
      have hsorted := ((h.later hle).conn.add (h.later hle).allowed_le).sorted_kept
      have hwithin := hlog.length_le (p := fun x => decide (t - CONN_WINDOW_MS ≤ x))
        fun x hx => decide_eq_true (RecentTimes.le_of_mem_trim hsorted hx)
      rw [filter_append, length_append] at hwithin
      have hone := length_filter_le (fun x => decide (t - CONN_WINDOW_MS ≤ x)) [t]
      rw [length_singleton] at hone
      rw [if_pos hflood]
      exact ⟨rfl, by omega⟩
    · exact absurd hafter hbefore

omit h

theorem connect_until_le (s : IpState) (t : Int) :
    s.bannedUntilMs ≤ (ConnectionGuard.connect s t).2.bannedUntilMs := by
  unfold ConnectionGuard.connect
  dsimp only
  split
  · exact Int.le_refl _
  · split
    · show s.bannedUntilMs ≤ t + BAN_MS
      unfold BAN_MS
      omega
    · exact Int.le_refl _

theorem Tracked.fail_until_le (h : Tracked now s allowed fails) (hle : now ≤ t) :
    s.bannedUntilMs ≤ (ConnectionGuard.fail s t).bannedUntilMs := by
  have huntil := (h.later hle).until_le
  unfold ConnectionGuard.fail
  dsimp only
  split
  · exact huntil
  · exact Int.le_refl _

end

section

variable (exempt : QString → Bool)

variable (ip : QString)

def allowedTimes (answers : List (Call × Answer)) : List Int :=
  (answers.filter fun a => a.1.op = .allowConnection ip ∧ a.2 = .allowed true).map fun a => a.1.nowMs

/-- When an address had a request refused. -/
def failureTimes (calls : List Call) : List Int :=
  (calls.filter fun c => c.op = .reportAuthFailure ip).map Call.nowMs

theorem allowedTimes_snoc (calls : List Call) (c : Call) :
    allowedTimes ip (answers exempt (calls ++ [c])) =
      allowedTimes ip (answers exempt calls) ++
        if c.op = .allowConnection ip ∧
          answer exempt (run exempt calls) c = some (.allowed true) then [c.nowMs] else [] := by
  unfold allowedTimes
  rw [answers_snoc, filter_append, map_append]
  congr 1
  cases answer exempt (run exempt calls) c with
  | none => simp
  | some a =>
    simp only [Option.map_some, Option.toList_some, Option.some.injEq, filter_cons,
      decide_eq_true_eq, filter_nil]
    split <;> rfl

theorem failureTimes_snoc (calls : List Call) (c : Call) :
    failureTimes ip (calls ++ [c]) =
      failureTimes ip calls ++ if c.op = .reportAuthFailure ip then [c.nowMs] else [] := by
  unfold failureTimes
  rw [filter_append, map_append]
  congr 1
  by_cases hop : c.op = .reportAuthFailure ip
  · rw [if_pos hop, filter_cons_of_pos (by simpa using hop)]
    rfl
  · rw [if_neg hop, filter_cons_of_neg (by simpa using hop)]
    rfl

variable {exempt} {ip : QString}

variable {calls : List Call}

theorem tracked (hip : exempt ip = false) (h : Ordered calls) :
    Tracked (lastMs calls) (own exempt ip calls) (allowedTimes ip (answers exempt calls))
      (failureTimes ip calls) := by
  induction calls using List.reverseRecOn with
  | nil => exact tracked_start
  | append_singleton calls c ih =>
    have hbefore := ih h.left
    have hle := h.last_le
    have hlater := hbefore.later hle
    rw [allowedTimes_snoc, failureTimes_snoc, lastMs_snoc]
    by_cases hc : c.op.ip = some ip
    · have hanswer := answer_eq exempt h hc
      rw [own_snoc_about exempt calls (decide_eq_true hc), hanswer]
      unfold ownStep ownAnswer
      rw [hip, if_neg Bool.false_ne_true]
      cases hop : c.op with
      | allowConnection ip' =>
        obtain rfl : ip' = ip := by simpa [hop, Op.ip] using hc
        have hconnect := hbefore.connect hle
        simpa using hconnect
      | reportAuthFailure ip' =>
        obtain rfl : ip' = ip := by simpa [hop, Op.ip] using hc
        have hfail := hbefore.fail hle
        simpa using hfail
      | isBanned ip' => simpa using hlater
      | banSecondsRemaining ip' => simpa using hlater
      | purge => simp [hop, Op.ip] at hc
    · have hallow : ¬ c.op = .allowConnection ip := fun hop => hc (by rw [hop]; rfl)
      have hfail : ¬ c.op = .reportAuthFailure ip := fun hop => hc (by rw [hop]; rfl)
      rw [own_snoc_other exempt calls (by simpa [about] using hc), if_neg hfail,
        if_neg (fun hboth => hallow hboth.1), append_nil, append_nil]
      exact hlater

theorem isBanned_run (ip : QString) (h : Ordered calls) {t : Int}
    (hle : lastMs calls ≤ t) (hstarted : 0 ≤ t) :
    isBanned (run exempt calls) ip t = decide (t < (own exempt ip calls).bannedUntilMs) :=
  (agrees exempt ip h).isBanned hle hstarted

/-- The call bans the address: from now on, at some time, it is banned and was not to be. -/
def Bans (exempt : QString → Bool) (ip : QString) (calls : List Call) (c : Call) : Prop :=
  ∃ t ≥ c.nowMs, isBanned (run exempt (calls ++ [c])) ip t = true ∧
    isBanned (run exempt calls) ip t = false

def MakesLimit (ip : QString) (calls : List Call) (c : Call) : Prop :=
  c.op = .reportAuthFailure ip ∧
    AUTHFAIL_MAX ≤ ((failureTimes ip (calls ++ [c])).filter fun x =>
      c.nowMs - AUTHFAIL_WINDOW_MS ≤ x).length

def OverLimit (exempt : QString → Bool) (ip : QString) (calls : List Call) (c : Call) : Prop :=
  c.op = .allowConnection ip ∧
    CONN_MAX_PER_WINDOW ≤ ((allowedTimes ip (answers exempt calls)).filter fun x =>
      c.nowMs - CONN_WINDOW_MS ≤ x).length

variable (hip : exempt ip = false)

include hip

theorem banned_of_makesLimit {c : Call}
    (h : Ordered (calls ++ [c])) (hlimit : MakesLimit ip calls c) :
    isBanned (run exempt (calls ++ [c])) ip c.nowMs = true := by
  obtain ⟨hop, hmany⟩ := hlimit
  have habout : about ip c = true := decide_eq_true (by rw [hop]; rfl)
  have hstarted := h.nonneg (mem_append_right _ (mem_singleton.mpr rfl))
  rw [failureTimes_snoc, if_pos hop] at hmany
  have hbans := (tracked hip h.left).fail_bans h.last_le hmany
  rw [isBanned_run ip h (lastMs_snoc calls c).le hstarted, own_snoc_about exempt calls habout]
  unfold ownStep
  rw [hip, if_neg Bool.false_ne_true, hop]
  exact decide_eq_true hbans

/-- Only such a failure or a connection over the limit bans, and the ban runs from it. -/
theorem Bans.cause {c : Call}
    (h : Ordered (calls ++ [c])) (hbans : Bans exempt ip calls c) :
    (MakesLimit ip calls c ∨ OverLimit exempt ip calls c) ∧
      (own exempt ip (calls ++ [c])).bannedUntilMs = c.nowMs + BAN_MS := by
  obtain ⟨t, ht, hafter, hbefore⟩ := hbans
  have hlast := h.last_le
  have htracked := tracked hip h.left
  have hstarted := h.nonneg (mem_append_right _ (mem_singleton.mpr rfl))
  rw [isBanned_run ip h (by rw [lastMs_snoc]; exact ht) (hstarted.trans ht),
    decide_eq_true_eq] at hafter
  rw [isBanned_run ip h.left (hlast.trans ht) (hstarted.trans ht), decide_eq_false_iff_not]
    at hbefore
  by_cases hc : c.op.ip = some ip
  · rw [own_snoc_about exempt calls (decide_eq_true hc)] at hafter ⊢
    unfold ownStep at hafter ⊢
    rw [hip, if_neg Bool.false_ne_true] at hafter ⊢
    unfold MakesLimit OverLimit
    cases hop : c.op with
    | allowConnection ip' =>
      obtain rfl : ip' = ip := by simpa [hop, Op.ip] using hc
      rw [hop] at hafter
      obtain ⟨huntil, hmany⟩ := htracked.banned_of_connect hlast hafter hbefore
      exact ⟨Or.inr ⟨rfl, hmany⟩, huntil⟩
    | reportAuthFailure ip' =>
      obtain rfl : ip' = ip := by simpa [hop, Op.ip] using hc
      rw [hop] at hafter
      obtain ⟨huntil, hmany⟩ := htracked.banned_of_fail hlast hafter hbefore
      refine ⟨Or.inl ⟨rfl, ?_⟩, huntil⟩
      rwa [failureTimes_snoc, if_pos hop]
    | isBanned ip' =>
      rw [hop] at hafter
      exact absurd hafter hbefore
    | banSecondsRemaining ip' =>
      rw [hop] at hafter
      exact absurd hafter hbefore
    | purge =>
      rw [hop] at hafter
      exact absurd hafter hbefore
  · rw [own_snoc_other exempt calls (by simpa [about] using hc)] at hafter
    exact absurd hafter hbefore

theorem own_until_le (calls : List Call) {calls' : List Call}
    (h : Ordered (calls ++ calls')) :
    (own exempt ip calls).bannedUntilMs ≤ (own exempt ip (calls ++ calls')).bannedUntilMs := by
  induction calls' using List.reverseRecOn with
  | nil => rw [append_nil]
  | append_singleton calls' c ih =>
    rw [← append_assoc] at h ⊢
    refine (ih h.left).trans ?_
    by_cases hc : about ip c = true
    · rw [own_snoc_about exempt _ hc]
      unfold ownStep
      rw [hip, if_neg Bool.false_ne_true]
      split
      · exact connect_until_le _ _
      · exact (tracked hip h.left).fail_until_le h.last_le
      · exact Int.le_refl _
    · rw [own_snoc_other exempt _ hc]

theorem Bans.refused {calls between : List Call} {c : Call} {t : Int}
    (h : Ordered (calls ++ [c] ++ between ++ [⟨t, .allowConnection ip⟩]))
    (hbans : Bans exempt ip calls c) (ht : t < c.nowMs + BAN_MS) :
    answer exempt (run exempt (calls ++ [c] ++ between)) ⟨t, .allowConnection ip⟩ =
      some (.allowed false) := by
  obtain ⟨-, huntil⟩ := hbans.cause hip h.left.left
  have hlonger := own_until_le hip (calls ++ [c]) h.left
  have hbanned : t < (own exempt ip (calls ++ [c] ++ between)).bannedUntilMs := by omega
  rw [answer_eq exempt h rfl]
  unfold ownAnswer ConnectionGuard.connect
  dsimp only
  rw [if_pos hbanned, hip]
  rfl

omit hip

end

/-- Of an address that is not exempt, in any run with a clock that does not go back: no window
has more allowed connections than the limit; the failure that makes the limit leaves it
banned; only such a failure or a connection over the limit bans it, and then it is refused
until the ban is over; calls about other addresses do not change what it is answered, and
purges change no answer at all. -/
theorem guard_lawful {exempt : QString → Bool} {ip : QString} (hip : exempt ip = false)
    {calls : List Call} (h : Ordered calls) :
    (∀ start, ((allowedTimes ip (answers exempt calls)).filter
      (since start CONN_WINDOW_MS)).length ≤ CONN_MAX_PER_WINDOW) ∧
    (∀ before c after, calls = before ++ [c] ++ after →
      (MakesLimit ip before c → isBanned (run exempt (before ++ [c])) ip c.nowMs = true) ∧
      (Bans exempt ip before c → MakesLimit ip before c ∨ OverLimit exempt ip before c) ∧
      (Bans exempt ip before c → ∀ between t rest,
        after = between ++ [⟨t, .allowConnection ip⟩] ++ rest → t < c.nowMs + BAN_MS →
          answer exempt (run exempt (before ++ [c] ++ between)) ⟨t, .allowConnection ip⟩ =
            some (.allowed false))) ∧
    (∀ calls', Ordered calls' → calls.filter (about ip) = calls'.filter (about ip) →
      answersTo exempt ip calls = answersTo exempt ip calls') ∧
    (∀ calls', Ordered calls' → calls.filter notPurge = calls'.filter notPurge →
      answers exempt calls = answers exempt calls') := by
  refine ⟨(tracked hip h).few, ?_, fun calls' h' hsame => answersTo_congr exempt ip h h' hsame,
    fun calls' h' hsame => answers_congr exempt h h' hsame⟩
  rintro before c after rfl
  refine ⟨banned_of_makesLimit hip h.left, fun hbans => (hbans.cause hip h.left).1, ?_⟩
  rintro hbans between t rest rfl ht
  have hordered : Ordered (before ++ [c] ++ between ++ [⟨t, .allowConnection ip⟩] ++ rest) := by
    simpa [List.append_assoc] using h
  exact hbans.refused hip hordered.left ht

def tenFailures : List Call :=
  List.replicate 10 ⟨0, .reportAuthFailure [0x61]⟩

theorem guard_lawful_tenFailures : isBanned (run (fun _ => false) tenFailures) [0x61] 0 = true :=
  ((@guard_lawful (fun _ => false) [0x61] rfl tenFailures (by
    unfold Ordered
    decide)).2.1 (List.replicate 9 ⟨0, .reportAuthFailure [0x61]⟩)
      ⟨0, .reportAuthFailure [0x61]⟩ [] rfl).1 ⟨rfl, by decide⟩

end MoonlightWeb.Server.ConnectionGuard
