import MoonlightWeb.Backend.XmlDocuments

/-! # When the readers end

The reader of one string ends on every text. The list readers end on the texts that leave no
record open, and then give each complete record of a document its entry.
-/

namespace MoonlightWeb.Backend.NvHTTP

open Lib Qt XmlStreamReader Content

theorem nextStart_shorter (complete : Bool) (xml : List Event) :
    ((nextStart complete xml).atEnd = true ∧ (nextStart complete xml).startName = none) ∨
      (nextStart complete xml).rest.length < xml.length := by
  induction xml with
  | nil => exact Or.inl (by cases complete <;> simp [nextStart, atEnd, startName])
  | cons e xml ih =>
    cases e with
    | plain p =>
      rcases ih with hend | hshort
      · exact Or.inl hend
      · exact Or.inr (Nat.lt_succ_of_lt hshort)
    | EndElement name => exact Or.inr (Nat.lt_succ_self _)
    | StartElement name => exact Or.inr (Nat.lt_succ_self _)

theorem stringLoop_returns (tagName : QString) (r : XmlStreamReader) :
    ∃ s, Comes (fun fuel => stringLoop tagName fuel r) s := by
  induction hl : r.rest.length using Nat.strong_induction_on generalizing r with
  | _ length ih =>
    by_cases hend : r.atEnd = true
    · exact ⟨[], Comes.of_last rfl fun fuel => by rw [stringLoop, if_pos hend]⟩
    · have hread : r.readNextStartElement = nextStart r.complete r.rest := by
        rw [readNextStartElement, if_neg hend]
      by_cases hfound : (nextStart r.complete r.rest).startName = some tagName
      · refine ⟨(nextStart r.complete r.rest).readElementText.1, Comes.of_last rfl fun fuel => ?_⟩
        rw [stringLoop, if_neg hend, hread, if_pos hfound]
      · have hturn : ∀ fuel, stringLoop tagName (fuel + 1) r =
            stringLoop tagName fuel (nextStart r.complete r.rest) := by
          intro fuel
          rw [stringLoop, if_neg hend, hread, if_neg hfound]
        rcases nextStart_shorter r.complete r.rest with ⟨hlast, _⟩ | hshort
        · refine ⟨[], Comes.of_turn rfl hturn (Comes.of_last rfl fun fuel => ?_)⟩
          rw [stringLoop, if_pos hlast]
        · obtain ⟨s, hs⟩ := ih _ (by rw [← hl]; exact hshort) (nextStart r.complete r.rest) rfl
          exact ⟨s, Comes.of_turn rfl hturn hs⟩

/-- A field of what is gathered is what the last child of its name says. -/
theorem gather_field {α β : Type} {f : Format α} (name : QString) (get : α → β) (read : QString → β)
    (hself : ∃ update, f.field name = some update ∧ ∀ text v, get (update text v) = read text)
    (hother : ∀ n update, n ≠ name → f.field n = some update →
      ∀ text v, get (update text v) = get v) (c : Content) (v : α) :
    get (gather f c v) = ((c.childText name).map read).getD (get v) := by
  induction c generalizing v with
  | nil => rfl
  | plain p rest ih => exact ih v
  | element n children rest _ ih =>
    rw [gather, ih, childText]
    cases hrest : rest.childText name with
    | some text => rfl
    | none =>
      rw [Option.none_or, Option.map_none, Option.getD_none]
      by_cases hn : n = name
      · obtain ⟨update, hupdate, hread⟩ := hself
        rw [if_pos hn, hn, hupdate]
        cases htext : children.text with
        | none => rfl
        | some text => exact hread text v
      · rw [if_neg hn]
        cases hf : f.field n with
        | none => rfl
        | some update =>
          cases children.text with
          | none => rfl
          | some text => exact hother n update hn hf text v

variable (c : Content)

/-- A complete display mode: it has its three fields, and a width. -/
def CompleteMode : Prop :=
  Tidy displayMode c ∧ ∃ width height rate, c.childText (qs "Width") = some width ∧
    c.childText (qs "Height") = some height ∧ c.childText (qs "RefreshRate") = some rate ∧
    0 < toInt width

def ownMode : NvDisplayMode where
  width := toInt ((c.childText (qs "Width")).getD [])
  height := toInt ((c.childText (qs "Height")).getD [])
  refreshRate := toInt ((c.childText (qs "RefreshRate")).getD [])

/-- A complete app: it has its three fields, an id and a title. -/
def CompleteApp : Prop :=
  Tidy app c ∧ ∃ id title hdr, c.childText (qs "ID") = some id ∧
    c.childText (qs "AppTitle") = some title ∧ c.childText (qs "IsHdrSupported") = some hdr ∧
    toInt id ≠ 0 ∧ title ≠ []

def ownApp : NvApp where
  id := toInt ((c.childText (qs "ID")).getD [])
  name := (c.childText (qs "AppTitle")).getD []
  hdrSupported := (c.childText (qs "IsHdrSupported")).getD [] = qs "1"

theorem gather_mode {c : Content} (h : CompleteMode c) (v : NvDisplayMode) :
    gather displayMode c v = ownMode c := by
  obtain ⟨_, width, height, rate, hwidth, hheight, hrate, _⟩ := h
  have hw := gather_field (f := displayMode) (qs "Width") NvDisplayMode.width toInt
    ⟨_, rfl, fun _ _ => rfl⟩ (fun n update hn hupdate text v => by
      simp only [displayMode, if_neg hn] at hupdate
      split_ifs at hupdate <;> (obtain rfl := Option.some.inj hupdate; rfl)) c v
  have hh := gather_field (f := displayMode) (qs "Height") NvDisplayMode.height toInt
    ⟨_, rfl, fun _ _ => rfl⟩ (fun n update hn hupdate text v => by
      simp only [displayMode, if_neg hn] at hupdate
      split_ifs at hupdate <;> (obtain rfl := Option.some.inj hupdate; rfl)) c v
  have hr := gather_field (f := displayMode) (qs "RefreshRate") NvDisplayMode.refreshRate toInt
    ⟨_, rfl, fun _ _ => rfl⟩ (fun n update hn hupdate text v => by
      simp only [displayMode, if_neg hn] at hupdate
      split_ifs at hupdate <;> (obtain rfl := Option.some.inj hupdate; rfl)) c v
  simp only [hwidth, hheight, hrate, Option.map_some, Option.getD_some] at hw hh hr
  cases hg : gather displayMode c v
  rw [hg] at hw hh hr
  simp only [ownMode, hwidth, hheight, hrate, Option.getD_some, ← hw, ← hh, ← hr]

theorem gather_app {c : Content} (h : CompleteApp c) (v : NvApp) :
    gather app c v = ownApp c := by
  obtain ⟨_, id, title, hdr, hid, htitle, hhdr, _⟩ := h
  have hi := gather_field (f := app) (qs "ID") NvApp.id toInt
    ⟨_, rfl, fun _ _ => rfl⟩ (fun n update hn hupdate text v => by
      simp only [app, if_neg hn] at hupdate
      split_ifs at hupdate <;> (obtain rfl := Option.some.inj hupdate; rfl)) c v
  have ht := gather_field (f := app) (qs "AppTitle") NvApp.name (fun text => text)
    ⟨_, rfl, fun _ _ => rfl⟩ (fun n update hn hupdate text v => by
      simp only [app, if_neg hn] at hupdate
      split_ifs at hupdate <;> (obtain rfl := Option.some.inj hupdate; rfl)) c v
  have hh := gather_field (f := app) (qs "IsHdrSupported") NvApp.hdrSupported
    (fun text => decide (text = qs "1"))
    ⟨_, rfl, fun _ _ => rfl⟩ (fun n update hn hupdate text v => by
      simp only [app, if_neg hn] at hupdate
      split_ifs at hupdate <;> (obtain rfl := Option.some.inj hupdate; rfl)) c v
  simp only [hid, htitle, hhdr, Option.map_some, Option.getD_some] at hi ht hh
  cases hg : gather app c v
  rw [hg] at hi ht hh
  simp only [ownApp, hid, htitle, hhdr, Option.getD_some, ← hi, ← ht, ← hh]

def modeMeaning : Meaning displayMode where
  Complete := CompleteMode
  own := ownMode
  tidy h := h.1
  gathered h v := gather_mode h v
  kept := by
    rintro c ⟨_, width, _, _, hwidth, _, _, hpos⟩
    simp [displayMode, ownMode, hwidth, hpos]

def appMeaning : Meaning app where
  Complete := CompleteApp
  own := ownApp
  tidy h := h.1
  gathered h v := gather_app h v
  kept := by
    rintro c ⟨_, id, title, _, hid, htitle, _, hne, hname⟩
    simp [app, ownApp, hid, htitle, hne, hname]

def document : List Event := .plain .StartDocument :: c.events

/-- The readers end, and of a document the lists hold each complete record once, with its own
fields, the modes from the largest. -/
structure ReadersEnd (xml : List Event) (complete : Bool) : Prop where
  string : ∀ tagName, ∃ s, Comes (fun fuel => getXmlString fuel xml complete tagName) s
  modes : ∃ modes, Comes (fun fuel => getDisplayModeList fuel xml complete) modes ∧
    ∀ c, complete = true → xml = document c →
      modes.Pairwise (fun a b => b.product ≤ a.product) ∧
      ∃ given, Given modeMeaning (named (qs "DisplayMode") c) given ∧
        modes.Perm given.reduceOption
  apps : ∃ apps, Comes (fun fuel => parseAppList fuel xml complete) apps ∧
    ∀ c, complete = true → xml = document c →
      ∃ given, Given appMeaning (named (qs "App") c) given ∧ apps = given.reduceOption

theorem sortModes_isSome {modes : List NvDisplayMode}
    (h : modes.length < 2 ∨ ∀ m ∈ modes, m.InRange) :
    sortModes modes = some (modes.insertionSort fun a b => b.product ≤ a.product) := by
  rw [sortModes, if_neg]
  rintro ⟨htwo, hout⟩
  rcases h with hfew | hall
  · omega
  · exact hout hall

theorem getDisplayModeList_returns {xml : List Event} (complete : Bool)
    (h : Settled displayMode xml)
    (hrange : (listed displayMode xml).length < 2 ∨ ∀ m ∈ listed displayMode xml, m.InRange) :
    Comes (fun fuel => getDisplayModeList fuel xml complete)
      ((listed displayMode xml).insertionSort fun a b => b.product ≤ a.product) := by
  refine (readList_returns h complete).bind (k := fun modes _ => sortModes modes) ?_
  rw [sortModes_isSome hrange]
  exact ⟨fun _ => Or.inr rfl, 0, fun _ _ => rfl⟩

theorem getDisplayModeList_hangs {xml : List Event} (complete : Bool)
    (h : ¬ Settled displayMode xml) :
    Never fun fuel => getDisplayModeList fuel xml complete :=
  (readList_hangs h complete).bind (k := fun modes _ => sortModes modes)

/-- The readers end exactly on the texts in which no record is open at the end, or where the
text breaks, and whose modes can be compared. -/
theorem readersEnd_iff (xml : List Event) (complete : Bool) :
    ReadersEnd xml complete ↔
      Settled displayMode xml ∧ Settled app xml ∧
        ((listed displayMode xml).length < 2 ∨ ∀ m ∈ listed displayMode xml, m.InRange) := by
  constructor
  · intro h
    obtain ⟨modes, hmodes, _⟩ := h.modes
    obtain ⟨apps, happs, _⟩ := h.apps
    have hmode : Settled displayMode xml := by
      by_contra hnot
      obtain ⟨fuel, hsome⟩ := hmodes.isSome
      exact (getDisplayModeList_hangs complete hnot).not_some hsome
    refine ⟨hmode, ?_, ?_⟩
    · by_contra hnot
      obtain ⟨fuel, hsome⟩ := happs.isSome
      exact (readList_hangs hnot complete).not_some hsome
    · by_contra hnot
      rw [not_or, not_lt] at hnot
      obtain ⟨n, hn⟩ := (readList_returns hmode complete).enough
      obtain ⟨k, hk⟩ := hmodes.enough
      have hsome := hk (n + k) (by omega)
      rw [getDisplayModeList, hn (n + k) (by omega), Option.bind_some, sortModes,
        if_pos hnot] at hsome
      cases hsome
  · rintro ⟨hmode, happ, hrange⟩
    refine ⟨fun tagName => stringLoop_returns tagName _,
      ⟨_, getDisplayModeList_returns complete hmode hrange, ?_⟩,
      ⟨_, readList_returns happ complete, ?_⟩⟩
    · rintro c - rfl
      obtain ⟨given, hgiven, hlist⟩ := listed_document modeMeaning rfl c hmode
      refine ⟨List.pairwise_insertionSort _ _, given, hgiven, ?_⟩
      rw [← hlist]
      exact List.perm_insertionSort _ _
    · rintro c - rfl
      obtain ⟨given, hgiven, hlist⟩ := listed_document appMeaning rfl c happ
      exact ⟨given, hgiven, hlist⟩

/-- An answer cut off in the width of its only mode. -/
def truncated : List Event :=
  [.plain .StartDocument, .StartElement (qs "root"), .StartElement (qs "DisplayMode"),
    .StartElement (qs "Width"), .plain (.Characters (qs "1920"))]

/-- The loop that waits for the closing tag never sees it. -/
theorem truncated_hangs : ¬ ReadersEnd truncated false := by
  intro h
  obtain ⟨modes, hmodes, _⟩ := h.modes
  obtain ⟨fuel, hsome⟩ := hmodes.isSome
  have hopen : ¬ Settled displayMode truncated := by decide
  exact (getDisplayModeList_hangs false hopen).not_some hsome

end MoonlightWeb.Backend.NvHTTP
