import MoonlightWeb.Js.Text
import MoonlightWeb.Js.Maps
import MoonlightWeb.Lib.Run

/-! # The cookie jars of a host's tabs

`CookieJar` of `tunnel.js`. Every tab keeps its own map, read when its jar is
built, and writes the whole of it back after each `absorb`: what expires to the
storage all tabs share, the rest to the tab's own.
-/

namespace MoonlightWeb.Bootstrap.CookieJar

open Qt Js Lib Function

/-- `expires` is null for a session cookie. -/
structure Cookie where
  value : JsString
  expires : Option Nat
  deriving DecidableEq

/-- `rec.expires`, as a condition. -/
def Cookie.persistent (rec : Cookie) : Bool := rec.expires.any (· ≠ 0)

/-- `rec.expires && rec.expires <= now`. -/
def Cookie.expired (rec : Cookie) (now : Nat) : Bool :=
  rec.persistent && rec.expires.any (· ≤ now)

abbrev Jar := JsMap JsString Cookie

/-- The entries an item of a storage holds. -/
abbrev Saved := List (JsString × Cookie)

def load (now : Nat) (jar : Jar) (saved : Option Saved) : Jar :=
  (saved.getD []).foldl
    (fun jar entry => if entry.2.expired now then jar else jar.set entry.1 entry.2) jar

def save (jar : Jar) : Saved × Saved :=
  (jar.entries.filter fun entry => !entry.2.persistent,
    jar.entries.filter fun entry => entry.2.persistent)

def header (now : Nat) (jar : Jar) : Option JsString :=
  let live := jar.entries.filter fun entry => !entry.2.persistent || !entry.2.expired now
  if live.length = 0 then none
  else some ((qs "; ").intercalate (live.map fun entry => entry.1 ++ qs "=" ++ entry.2.value))

/-- `parseInt(s, 10)`; `none` is NaN. -/
def parseInt (s : JsString) : Option Int :=
  let s := s.dropWhile JsString.isWhiteSpace
  let negative := s.head? = some (unit '-')
  let s := if negative ∨ s.head? = some (unit '+') then s.drop 1 else s
  let digits := s.takeWhile fun u => unit '0' ≤ u && u ≤ unit '9'
  if digits = [] then none
  else
    let n := digits.foldl (fun (n : Nat) u => n * 10 + (u.toNat - 48)) 0
    some (if negative then -(n : Int) else n)

section

/- `new Date(s).getTime()`; `none` is NaN. -/
variable (parseDate : JsString → Option Int)

/-- One attribute: when the cookie expires and whether it is deleted, so far. -/
def readAttribute (now : Nat) (state : Option Nat × Bool) (attr : JsString) : Option Nat × Bool :=
  let t := JsString.toLowerCase (JsString.trim attr)
  if (qs "max-age=").isPrefixOf t then
    match parseInt (t.drop 8) with
    | none => state
    | some seconds =>
        if seconds ≤ 0 then (state.1, true) else (some (now + seconds.toNat * 1000), state.2)
  else if (qs "expires=").isPrefixOf t then
    match parseDate ((JsString.trim attr).drop 8) with
    | none => state
    | some time => if time ≤ now then (state.1, true) else (some time.toNat, state.2)
  else state

/-- What a line does: nothing, or delete (`none`) or set the cookie of a name. -/
def directive (now : Nat) (line : JsString) : Option (JsString × Option Cookie) :=
  match line.splitOn (unit ';') with
  | [] => none
  | pair :: attrs =>
      let eq := pair.idxOf (unit '=')
      if eq = 0 ∨ eq = pair.length then none
      else
        let name := JsString.trim (pair.take eq)
        let value := JsString.trim (pair.drop (eq + 1))
        let state := attrs.foldl (readAttribute parseDate now) (none, false)
        if state.2 ∨ value = [] then some (name, none) else some (name, some ⟨value, state.1⟩)

def apply (jar : Jar) : JsString × Option Cookie → Jar
  | (name, none) => jar.delete name
  | (name, some rec) => jar.set name rec

/-- The loop of `absorb`. -/
def absorb (now : Nat) (jar : Jar) (setCookie : List JsString) : Jar :=
  (setCookie.filterMap (directive parseDate now)).foldl apply jar

end

structure Browser (Tab : Type) where
  now : Nat
  localStorage : Option Saved
  sessionStorage : Tab → Option Saved
  jars : Tab → Option Jar

inductive Event (Tab : Type)
  /-- A page of the tab builds its `CookieJar`. -/
  | construct (tab : Tab)
  | absorb (tab : Tab) (setCookie : List JsString)
  | header (tab : Tab)
  | close (tab : Tab)
  | tick (ms : Nat)

section

variable {Tab : Type} [DecidableEq Tab] (parseDate : JsString → Option Int)

def step (b : Browser Tab) : Event Tab → Browser Tab
  | .construct tab =>
      let jar := load b.now (load b.now JsMap.empty (b.sessionStorage tab)) b.localStorage
      { b with jars := update b.jars tab (some jar) }
  | .absorb tab setCookie =>
      match b.jars tab with
      | none => b
      | some jar =>
          let jar := absorb parseDate b.now jar setCookie
          { b with
            jars := update b.jars tab (some jar)
            sessionStorage := update b.sessionStorage tab (some (save jar).1)
            localStorage := some (save jar).2 }
  | .header _ => b
  | .close tab =>
      { b with
        jars := update b.jars tab none
        sessionStorage := update b.sessionStorage tab none }
  | .tick ms => { b with now := b.now + ms }

/-- A browser together with the persistent cookie last set under each name by
any tab, and neither deleted nor replaced since. -/
structure Watched (Tab : Type) where
  browser : Browser Tab
  kept : JsString → Option Cookie

def note (kept : JsString → Option Cookie) : JsString × Option Cookie → JsString → Option Cookie
  | (name, rec) => update kept name (rec.filter Cookie.persistent)

variable (w : Watched Tab)

def watch (e : Event Tab) : Watched Tab where
  browser := step parseDate w.browser e
  kept :=
    match e with
    | .absorb tab setCookie =>
        if w.browser.jars tab = none then w.kept
        else (setCookie.filterMap (directive parseDate w.browser.now)).foldl note w.kept
    | _ => w.kept

def fresh (now : Nat) : Watched Tab where
  browser := ⟨now, none, fun _ => none, fun _ => none⟩
  kept := fun _ => none

/-- Every persistent cookie set and not expired is in the shared storage. -/
def Kept : Prop :=
  ∀ name rec, w.kept name = some rec → rec.expired w.browser.now = false →
    (name, rec) ∈ w.browser.localStorage.getD []

/-- The jar that absorbs holds every cookie set and not expired that the lines
do not set or delete themselves. -/
def UpToDate : Event Tab → Prop
  | .absorb tab setCookie =>
      ∀ jar, w.browser.jars tab = some jar → ∀ name rec, w.kept name = some rec →
        rec.expired w.browser.now = false →
          (∀ d ∈ setCookie.filterMap (directive parseDate w.browser.now), d.1 ≠ name) →
            jar.get name = some rec
  | _ => True

end

variable {name : JsString}

theorem apply_get_of_ne (jar : Jar) {d : JsString × Option Cookie}
    (h : d.1 ≠ name) : (apply jar d).get name = jar.get name := by
  obtain ⟨other, rec⟩ := d
  cases rec with
  | none => exact JsMap.get_delete_of_ne jar (Ne.symm h)
  | some rec => exact JsMap.get_set_of_ne jar rec (Ne.symm h)

theorem apply_get_self (jar : Jar) (d : JsString × Option Cookie) :
    (apply jar d).get d.1 = d.2 := by
  obtain ⟨name, rec⟩ := d
  cases rec with
  | none => exact JsMap.get_delete_self jar name
  | some rec => exact JsMap.get_set_self jar name rec

theorem foldl_untouched (ds : List (JsString × Option Cookie))
    (h : ∀ d ∈ ds, d.1 ≠ name) (jar : Jar) (kept : JsString → Option Cookie) :
    (ds.foldl apply jar).get name = jar.get name ∧ ds.foldl note kept name = kept name := by
  induction ds generalizing jar kept with
  | nil => exact ⟨rfl, rfl⟩
  | cons d ds ih =>
    have hd := h d (by simp)
    obtain ⟨hjar, hkept⟩ := ih (fun d' hd' => h d' (List.mem_cons_of_mem d hd')) (apply jar d)
      (note kept d)
    rw [List.foldl_cons, List.foldl_cons, hjar, hkept]
    exact ⟨apply_get_of_ne jar hd, update_of_ne (Ne.symm hd) _ _⟩

theorem foldl_touched (ds : List (JsString × Option Cookie))
    (h : ∃ d ∈ ds, d.1 = name) (jar : Jar) (kept : JsString → Option Cookie) :
    ds.foldl note kept name = ((ds.foldl apply jar).get name).filter Cookie.persistent := by
  induction ds using List.reverseRecOn with
  | nil => simp at h
  | append_singleton ds d ih =>
    rw [List.foldl_append, List.foldl_append, List.foldl_cons, List.foldl_nil, List.foldl_cons,
      List.foldl_nil]
    by_cases hd : d.1 = name
    · subst hd
      rw [apply_get_self]
      exact update_self _ _ _
    · rw [apply_get_of_ne _ hd, ← ih]
      · exact update_of_ne (Ne.symm hd) _ _
      · obtain ⟨d', hd', hname⟩ := h
        rcases List.mem_append.mp hd' with hmem | hmem
        · exact ⟨d', hmem, hname⟩
        · exact absurd (List.mem_singleton.mp hmem ▸ hname) hd

theorem mem_save {jar : Jar} {rec : Cookie} :
    (name, rec) ∈ (save jar).2 ↔ jar.get name = some rec ∧ rec.persistent = true := by
  rw [save, List.mem_filter, JsMap.mem_entries_iff]

section

variable {Tab : Type} [DecidableEq Tab] (parseDate : JsString → Option Int)

/-- Only persistent cookies are on record. -/
def Recorded (w : Watched Tab) : Prop :=
  ∀ name rec, w.kept name = some rec → rec.persistent = true

theorem foldl_note_persistent (ds : List (JsString × Option Cookie))
    (kept : JsString → Option Cookie)
    (h : ∀ name rec, kept name = some rec → rec.persistent = true) :
    ∀ name rec, ds.foldl note kept name = some rec → rec.persistent = true := by
  induction ds generalizing kept with
  | nil => exact h
  | cons d ds ih =>
    apply ih
    intro name rec hrec
    by_cases hname : name = d.1
    · subst hname
      have hself : note kept d d.1 = d.2.filter Cookie.persistent := update_self _ _ _
      rw [hself] at hrec
      exact (Option.filter_eq_some_iff.mp hrec).2
    · have hother : note kept d name = kept name := update_of_ne hname _ _
      exact h name rec (hother ▸ hrec)

variable {w : Watched Tab}

theorem watch_recorded (h : Recorded w) (e : Event Tab) :
    Recorded (watch parseDate w e) := by
  cases e with
  | absorb tab setCookie =>
    unfold watch
    by_cases hclosed : w.browser.jars tab = none
    · simp only [if_pos hclosed]
      exact h
    · simp only [if_neg hclosed]
      exact foldl_note_persistent _ _ h
  | construct tab => exact h
  | header tab => exact h
  | close tab => exact h
  | tick ms => exact h

theorem expired_later {rec : Cookie} {now ms : Nat} (h : rec.expired (now + ms) = false) :
    rec.expired now = false := by
  cases hnow : rec.expired now with
  | false => rfl
  | true =>
    simp only [Cookie.expired, Bool.and_eq_true] at hnow
    cases hexpires : rec.expires with
    | none => simp [hexpires] at hnow
    | some time =>
      have htime : time ≤ now := by simpa [hexpires] using hnow.2
      have hlater : time ≤ now + ms := by omega
      simp [Cookie.expired, hnow.1, hexpires, hlater] at h

/-- After an absorb the shared storage holds every cookie set exactly when the
jar was up to date. -/
theorem absorb_kept_iff (hrecorded : Recorded w) {tab : Tab} {jar : Jar}
    (hjar : w.browser.jars tab = some jar) (setCookie : List JsString) :
    Kept (watch parseDate w (.absorb tab setCookie)) ↔
      UpToDate parseDate w (.absorb tab setCookie) := by
  have hopen : ¬ w.browser.jars tab = none := by simp [hjar]
  have hstorage : (step parseDate w.browser (.absorb tab setCookie)).localStorage =
      some (save (absorb parseDate w.browser.now jar setCookie)).2 := by
    simp [step, hjar]
  have hnow : (step parseDate w.browser (.absorb tab setCookie)).now = w.browser.now := by
    simp [step, hjar]
  have hafter : ∀ name rec, (watch parseDate w (.absorb tab setCookie)).kept name = some rec →
      ((name, rec) ∈ (watch parseDate w (.absorb tab setCookie)).browser.localStorage.getD [] ↔
        (absorb parseDate w.browser.now jar setCookie).get name = some rec) := by
    intro name rec hrec
    have hpersistent := watch_recorded parseDate hrecorded (.absorb tab setCookie) name rec hrec
    simp only [watch, hstorage, Option.getD_some]
    rw [mem_save]
    exact and_iff_left hpersistent
  constructor
  · intro hkept other hother name rec hrec hlive huntouched
    obtain rfl : jar = other := Option.some.inj (hjar.symm.trans hother)
    obtain ⟨hget, hnote⟩ := foldl_untouched _ huntouched jar w.kept
    have hrec' : (watch parseDate w (.absorb tab setCookie)).kept name = some rec := by
      simp only [watch, if_neg hopen]
      exact hnote.trans hrec
    have hmem := hkept name rec hrec' (by simpa only [watch, hnow] using hlive)
    exact hget.symm.trans ((hafter name rec hrec').mp hmem)
  · intro hupToDate name rec hrec hlive
    rw [hafter name rec hrec]
    simp only [watch, if_neg hopen] at hrec
    by_cases htouched : ∃ d ∈ setCookie.filterMap (directive parseDate w.browser.now), d.1 = name
    · rw [foldl_touched _ htouched jar w.kept] at hrec
      exact (Option.filter_eq_some_iff.mp hrec).1
    · have huntouched : ∀ d ∈ setCookie.filterMap (directive parseDate w.browser.now),
          d.1 ≠ name := fun d hd hname => htouched ⟨d, hd, hname⟩
      obtain ⟨hget, hnote⟩ := foldl_untouched _ huntouched jar w.kept
      rw [hnote] at hrec
      exact hget.trans (hupToDate jar hjar name rec hrec
        (by simpa only [watch, hnow] using hlive) huntouched)

/-- One event keeps the cookies set in the shared storage exactly when the jar
that absorbs in it, if any, is up to date. -/
theorem watch_kept_iff (hrecorded : Recorded w) (hkept : Kept w)
    (e : Event Tab) : Kept (watch parseDate w e) ↔ UpToDate parseDate w e := by
  cases e with
  | absorb tab setCookie =>
    cases hjar : w.browser.jars tab with
    | none =>
      refine iff_of_true ?_ (fun jar hsome => by simp [hjar] at hsome)
      simpa [watch, step, hjar, Kept] using hkept
    | some jar => exact absorb_kept_iff parseDate hrecorded hjar setCookie
  | construct tab => exact iff_of_true hkept trivial
  | header tab => exact iff_of_true hkept trivial
  | close tab => exact iff_of_true hkept trivial
  | tick ms =>
    exact iff_of_true (fun name rec hrec hlive => hkept name rec hrec (expired_later hlive))
      trivial

/-- Along any run of any number of tabs, the shared storage always holds every
persistent cookie set and neither deleted nor expired exactly when every jar is
up to date at each of its absorbs. -/
theorem kept_along_iff_upToDate (now : Nat) (events : List (Event Tab)) :
    AllAlong (handles (watch parseDate)) Kept (fresh now) events ↔
      EachStep (handles (watch parseDate)) (fun w e _ => UpToDate parseDate w e) (fresh now)
        events := by
  have hstart : Kept (fresh now : Watched Tab) := fun name rec hrec => by cases hrec
  rw [allAlong_iff_eachStep hstart]
  refine eachStep_iff (S := Recorded) (I := Kept) ?_ ?_ ?_ (fun name rec hrec => by cases hrec)
    hstart events
  · rintro w e w' h rfl
    exact watch_recorded parseDate h e
  · intro w e w' _ hkept
    exact hkept
  · rintro w e w' hrecorded hkept rfl
    exact watch_kept_iff parseDate hrecorded hkept e

end

/-- Two tabs open; the first signs in, the second then takes a cookie of its own. -/
def twoTabs : List (Event Bool) :=
  [.construct false, .construct true, .absorb false [qs "sid=abc; Max-Age=3600"],
    .absorb true [qs "theme=dark; Max-Age=3600"]]

def twoTabsEnd : Watched Bool := twoTabs.foldl (watch fun _ => none) (fresh 1000)

theorem twoTabs_end :
    twoTabsEnd.kept (qs "sid") = some ⟨qs "abc", some 3601000⟩ ∧
      twoTabsEnd.browser.now = 1000 ∧
      twoTabsEnd.browser.localStorage.getD [] = [(qs "theme", ⟨qs "dark", some 3601000⟩)] := by
  decide +kernel

theorem signIn_lost : ¬ AllAlong (handles (watch fun _ => none)) Kept (fresh 1000) twoTabs := by
  intro h
  have hrun : Run (handles (watch fun _ => none)) (fresh 1000) twoTabs twoTabsEnd :=
    (run_handles_iff _ _ _ _).mpr rfl
  obtain ⟨hset, hnow, hstored⟩ := twoTabs_end
  have hlive : Cookie.expired ⟨qs "abc", some 3601000⟩ twoTabsEnd.browser.now = false := by
    rw [hnow]
    decide
  have hmem := h.last hrun _ _ hset hlive
  rw [hstored] at hmem
  exact absurd hmem (by decide)

end MoonlightWeb.Bootstrap.CookieJar
