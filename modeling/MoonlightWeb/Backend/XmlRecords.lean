import MoonlightWeb.Backend.NvHTTP
import MoonlightWeb.Lib.Fuel

/-! # The records of a text

Whether the list readers end is decided by the tags alone: a record that is open when the
text ends or breaks is never left. The tags are followed one by one, and the two loops are
shown to do as they say.
-/

namespace MoonlightWeb.Backend.NvHTTP

open Lib Qt XmlStreamReader

/-- Where a reader is in a text: in no record, in one, in the text of a field of one, or at an
element where it expects text. -/
inductive Phase (α : Type)
  | outside
  | inside (v : α)
  | reading (update : QString → α → α) (v : α) (text : QString)
  | stuck

def Phase.isOutside {α : Type} : Phase α → Bool
  | .outside => true
  | _ => false

/-- The records so far, and the phase. -/
structure Scan (α : Type) where
  list : List α := []
  phase : Phase α := .outside

variable {α : Type} (f : Format α)

variable (s : Scan α)

/-- A record with its closing tag, and another element's. -/
def Scan.close (name : QString) (v : α) : Scan α :=
  if name = f.element then
    { list := if f.keep v then s.list ++ [v] else s.list, phase := .outside }
  else { s with phase := .inside v }

def Scan.step : Event → Scan α
  | .StartElement name =>
      match s.phase with
      | .outside => if name = f.element then { s with phase := .inside f.init } else s
      | .inside v =>
          match f.field name with
          | some update => { s with phase := .reading update v [] }
          | none => s
      | .reading _ _ _ => { s with phase := .stuck }
      | .stuck => s
  | .EndElement name =>
      match s.phase with
      | .outside => s
      | .inside v => s.close f name v
      | .reading update v text => s.close f name (update text v)
      | .stuck => s
  | .plain p =>
      match s.phase with
      | .reading update v text =>
          match textOf p with
          | some more => { s with phase := .reading update v (text ++ more) }
          | none => { s with phase := .stuck }
      | _ => s

def scan (xml : List Event) : Scan α := xml.foldl (Scan.step f) s

/-- No record is open where the text ends or breaks, and the fields of records hold text. -/
def Settled (xml : List Event) : Prop := (scan f {} xml).phase.isOutside = true

instance (xml : List Event) : Decidable (Settled f xml) :=
  inferInstanceAs (Decidable (_ = true))

variable {f}

@[simp] theorem scan_nil : scan f s [] = s := rfl

theorem scan_cons (e : Event) (xml : List Event) :
    scan f s (e :: xml) = scan f (s.step f e) xml := rfl

theorem scan_append (xml more : List Event) :
    scan f s (xml ++ more) = scan f (scan f s xml) more := List.foldl_append ..

variable {s : Scan α}

theorem step_stuck (h : s.phase = .stuck) (e : Event) : s.step f e = s := by
  cases e <;> simp [Scan.step, h]

theorem scan_stuck (h : s.phase = .stuck) (xml : List Event) :
    scan f s xml = s := by
  induction xml with
  | nil => rfl
  | cons e xml ih => rw [scan_cons, step_stuck h, ih]

theorem stuck_past (h : s.phase = .stuck) (e : Event) (xml : List Event) :
    (scan f (s.step f e) xml).phase = .stuck := by
  rw [step_stuck h, scan_stuck h, h]

/-- The text of a field is read to the end of the field, or the reader is stuck. -/
theorem elementText_scan (complete : Bool) (update : QString → α → α) (v : α) (result : QString)
    (xml : List Event) :
    (∃ name, (elementText complete result xml).2.token = .event (.EndElement name) ∧
      (elementText complete result xml).2.complete = complete ∧
      (elementText complete result xml).2.rest.length < xml.length ∧
      ∀ list, scan f ⟨list, .reading update v result⟩ xml =
        scan f (Scan.close f ⟨list, .outside⟩ name (update (elementText complete result xml).1 v))
          (elementText complete result xml).2.rest) ∨
    (elementText complete result xml).2.atEnd = true ∧
      ∀ list, (scan f ⟨list, .reading update v result⟩ xml).phase.isOutside = false := by
  induction xml generalizing result with
  | nil => exact Or.inr ⟨rfl, fun _ => rfl⟩
  | cons e xml ih =>
    cases e with
    | StartElement name =>
      refine Or.inr ⟨rfl, fun list => ?_⟩
      rw [scan_cons, Scan.step, scan_stuck rfl]
      rfl
    | EndElement name =>
      refine Or.inl ⟨name, rfl, rfl, Nat.lt_succ_self _, fun list => ?_⟩
      rfl
    | plain p =>
      cases htext : textOf p with
      | none =>
        refine Or.inr ⟨by simp [elementText, htext, atEnd], fun list => ?_⟩
        rw [scan_cons]
        simp only [Scan.step, htext]
        rw [scan_stuck rfl]
        rfl
      | some more =>
        have hread : elementText complete result (.plain p :: xml) =
            elementText complete (result ++ more) xml := by
          rw [elementText, htext]
        have hscan : ∀ list, scan f ⟨list, .reading update v result⟩ (.plain p :: xml) =
            scan f ⟨list, .reading update v (result ++ more)⟩ xml := by
          intro list
          rw [scan_cons]
          simp only [Scan.step, htext]
        rw [hread]
        simp only [hscan]
        rcases ih (result ++ more) with ⟨name, htoken, hcomplete, hshort, hclose⟩ | hstuck
        · exact Or.inl ⟨name, htoken, hcomplete, Nat.lt_succ_of_lt hshort, hclose⟩
        · exact Or.inr hstuck

variable {r : XmlStreamReader}

theorem readField_skip (h : r.readNext.startName.bind f.field = none)
    (v : α) : readField f r v = (r.readNext, v) := by
  simp [readField, h]

theorem readField_text {update : QString → α → α}
    (h : r.readNext.startName.bind f.field = some update) (v : α) :
    readField f r v = (r.readNext.readElementText.2, update r.readNext.readElementText.1 v) := by
  simp [readField, h]

theorem readNext_cons {token : Token} {complete : Bool} {e : Event} {rest : List Event}
    (h : atEnd ⟨token, e :: rest, complete⟩ = false) :
    readNext ⟨token, e :: rest, complete⟩ = ⟨.event e, rest, complete⟩ := by
  simp [readNext, h]

theorem readNext_nil {token : Token} {complete : Bool} (h : atEnd ⟨token, [], complete⟩ = false) :
    (readNext ⟨token, [], complete⟩).atEnd = true ∧
      (readNext ⟨token, [], complete⟩).startName = none := by
  unfold readNext
  rw [h, if_neg Bool.false_ne_true]
  cases complete <;> simp [atEnd, startName]

theorem recordLoop_turn (hopen : r.isEndElement f.element = false) (v : α)
    (fuel : Nat) : recordLoop f (fuel + 1) r v =
      recordLoop f fuel (readField f r v).1 (readField f r v).2 := by
  rw [recordLoop, hopen, if_neg Bool.false_ne_true]

theorem recordLoop_atEnd (h : r.atEnd = true) (v : α) :
    Never fun fuel => recordLoop f fuel r v := by
  intro fuel
  induction fuel generalizing r v with
  | zero => rfl
  | succ fuel ih =>
    have hopen : r.isEndElement f.element = false := by
      simp only [atEnd, Bool.or_eq_true, decide_eq_true_eq] at h
      rcases h with h | h <;> simp [isEndElement, h]
    have hread : readField f r v = (⟨.Invalid, r.rest, r.complete⟩, v) := by
      simp [readField, readNext, h, startName]
    have hrest := ih (r := ⟨.Invalid, r.rest, r.complete⟩) (by simp [atEnd]) v
    simp only [recordLoop_turn hopen, hread]
    exact hrest

def here (f : Format α) (r : XmlStreamReader) (list : List α) (v : α) : Scan α :=
  if r.isEndElement f.element then
    { list := if f.keep v then list ++ [v] else list, phase := .outside }
  else { list := list, phase := .inside v }

theorem here_end {name : QString}
    (h : r.token = .event (.EndElement name)) (list : List α) (v : α) :
    here f r list v = Scan.close f ⟨list, .outside⟩ name v := by
  simp [here, isEndElement, h, Scan.close]

theorem here_open (h : r.isEndElement f.element = false) (list : List α)
    (v : α) : here f r list v = ⟨list, .inside v⟩ := by
  simp [here, h]

/-- What becomes of a record that is open: it is closed, at the same place for the reader and
for the scan, or neither ever closes it. -/
inductive Fate (f : Format α) (r : XmlStreamReader) (v : α) : Prop
  | closed (r' : XmlStreamReader) (v' : α) (running : r'.atEnd = false)
      (shorter : r'.rest.length ≤ r.rest.length)
      (returns : Comes (fun fuel => recordLoop f fuel r v) (r', v'))
      (scanned : ∀ list, scan f (here f r list v) r.rest =
        scan f ⟨if f.keep v' then list ++ [v'] else list, .outside⟩ r'.rest)
  | unclosed (never : Never fun fuel => recordLoop f fuel r v)
      (scanned : ∀ list, (scan f (here f r list v) r.rest).phase.isOutside = false)

theorem Fate.of_turn {v : α} (hopen : r.isEndElement f.element = false)
    (hshorter : (readField f r v).1.rest.length ≤ r.rest.length)
    (hscan : ∀ list, scan f ⟨list, .inside v⟩ r.rest =
      scan f (here f (readField f r v).1 list (readField f r v).2) (readField f r v).1.rest)
    (h : Fate f (readField f r v).1 (readField f r v).2) : Fate f r v := by
  cases h with
  | closed r' v' running shorter returns scanned =>
    refine .closed r' v' running (shorter.trans hshorter)
      (returns.of_turn rfl (recordLoop_turn hopen v)) fun list => ?_
    rw [here_open hopen, hscan]
    exact scanned list
  | unclosed never scanned =>
    refine .unclosed (never.of_turn rfl (recordLoop_turn hopen v)) fun list => ?_
    rw [here_open hopen, hscan]
    exact scanned list

theorem Fate.of_end {v : α} (hopen : r.isEndElement f.element = false)
    (hend : (readField f r v).1.atEnd = true)
    (hscan : ∀ list, (scan f ⟨list, .inside v⟩ r.rest).phase.isOutside = false) :
    Fate f r v := by
  refine .unclosed ((recordLoop_atEnd hend _).of_turn rfl (recordLoop_turn hopen v)) fun list => ?_
  rw [here_open hopen]
  exact hscan list

theorem record_fate (r : XmlStreamReader) (v : α) (hrunning : r.atEnd = false) : Fate f r v := by
  induction hl : r.rest.length using Nat.strong_induction_on generalizing r v with
  | _ length ih =>
    by_cases hclosing : r.isEndElement f.element = true
    · refine .closed r v hrunning le_rfl (Comes.of_last rfl fun fuel => ?_) fun list => ?_
      · rw [recordLoop, if_pos hclosing]
      · rw [here, if_pos hclosing]
    · have hopen : r.isEndElement f.element = false := by simpa using hclosing
      obtain ⟨token, rest, complete⟩ := r
      cases rest with
      | nil =>
        obtain ⟨hend, hname⟩ := readNext_nil hrunning
        refine Fate.of_end hopen ?_ fun list => rfl
        rw [readField_skip (by rw [hname]; rfl)]
        exact hend
      | cons e rest =>
        have hnext := readNext_cons hrunning
        have hshort : rest.length < length := by
          rw [← hl]
          exact Nat.lt_succ_self _
        -- A token that is no field leaves the record as it is.
        have hskip : (readNext ⟨token, e :: rest, complete⟩).startName.bind f.field = none →
            (∀ list, Scan.step f ⟨list, .inside v⟩ e =
              here f ⟨.event e, rest, complete⟩ list v) →
            Fate f ⟨token, e :: rest, complete⟩ v := by
          intro hnone hstep
          have hread := readField_skip hnone v
          rw [hnext] at hread
          refine Fate.of_turn hopen ?_ (fun list => ?_) ?_
          · rw [hread]
            exact Nat.le_succ _
          · rw [hread, scan_cons, hstep]
          · rw [hread]
            exact ih rest.length hshort _ v (by simp [atEnd]) rfl
        cases e with
        | plain p =>
          refine hskip (by rw [hnext]; rfl) fun list => ?_
          rw [here_open (by simp [isEndElement])]
          rfl
        | EndElement name =>
          refine hskip (by rw [hnext]; rfl) fun list => ?_
          rw [here_end rfl]
          rfl
        | StartElement name =>
          cases hfield : f.field name with
          | none =>
            refine hskip (by rw [hnext]; exact hfield) fun list => ?_
            rw [here_open (by simp [isEndElement])]
            simp only [Scan.step, hfield]
          | some update =>
            have hstart : ∀ list, scan f ⟨list, .inside v⟩ (.StartElement name :: rest) =
                scan f ⟨list, .reading update v []⟩ rest := by
              intro list
              rw [scan_cons]
              simp only [Scan.step, hfield]
            have hread : readField f ⟨token, .StartElement name :: rest, complete⟩ v =
                ((elementText complete [] rest).2,
                  update (elementText complete [] rest).1 v) := by
              rw [readField_text (by rw [hnext]; exact hfield), hnext]
              rfl
            rcases elementText_scan (f := f) complete update v [] rest with
              ⟨last, htoken, _, hless, hclose⟩ | ⟨hend, hstuck⟩
            · refine Fate.of_turn hopen ?_ (fun list => ?_) ?_
              · rw [hread]
                exact (Nat.lt_succ_of_lt hless).le
              · rw [hread, hstart, hclose, here_end htoken]
              · rw [hread]
                exact ih _ (hless.trans hshort) _ _ (by simp [atEnd, htoken]) rfl
            · refine Fate.of_end hopen ?_ fun list => ?_
              · rw [hread]
                exact hend
              · rw [hstart]
                exact hstuck list

/-- Between records the reader and the scan pass the same tags. -/
theorem nextStart_scan (complete : Bool) (xml : List Event) :
    (nextStart complete xml).atEnd = true ∧ (nextStart complete xml).startName = none ∧
      (∀ list, scan f ⟨list, .outside⟩ xml = ⟨list, .outside⟩) ∨
    (nextStart complete xml).atEnd = false ∧
      (nextStart complete xml).rest.length < xml.length ∧
      ((nextStart complete xml).startName = some f.element →
        (nextStart complete xml).isEndElement f.element = false ∧
        ∀ list, scan f ⟨list, .outside⟩ xml =
          scan f ⟨list, .inside f.init⟩ (nextStart complete xml).rest) ∧
      ((nextStart complete xml).startName ≠ some f.element →
        ∀ list, scan f ⟨list, .outside⟩ xml =
          scan f ⟨list, .outside⟩ (nextStart complete xml).rest) := by
  induction xml with
  | nil => exact Or.inl (by cases complete <;> simp [nextStart, atEnd, startName])
  | cons e xml ih =>
    cases e with
    | plain p =>
      rcases ih with hend | ⟨hrunning, hshort, hmine, hother⟩
      · exact Or.inl hend
      · exact Or.inr ⟨hrunning, Nat.lt_succ_of_lt hshort, hmine, hother⟩
    | EndElement name =>
      refine Or.inr ⟨by simp [nextStart, atEnd], Nat.lt_succ_self _, fun h => ?_, fun _ _ => rfl⟩
      cases h
    | StartElement name =>
      refine Or.inr ⟨by simp [nextStart, atEnd], Nat.lt_succ_self _, fun h => ?_, fun h => ?_⟩
      · have hname : name = f.element := Option.some.inj h
        refine ⟨by simp [nextStart, isEndElement], fun list => ?_⟩
        rw [scan_cons]
        simp only [Scan.step, if_pos hname, nextStart]
      · have hname : name ≠ f.element := fun heq => h (congrArg some heq)
        intro list
        rw [scan_cons]
        simp only [Scan.step, if_neg hname, nextStart]

theorem listLoop_turn {r : XmlStreamReader} (list : List α) (hrunning : r.atEnd = false)
    (fuel : Nat) : listLoop f (fuel + 1) r list =
      if (nextStart r.complete r.rest).startName = some f.element then
        (recordLoop f fuel (nextStart r.complete r.rest) f.init).bind fun (r, v) =>
          listLoop f fuel r (if f.keep v then list ++ [v] else list)
      else listLoop f fuel (nextStart r.complete r.rest) list := by
  have hread : r.readNextStartElement = nextStart r.complete r.rest := by
    rw [readNextStartElement, hrunning, if_neg Bool.false_ne_true]
  rw [listLoop, hrunning, if_neg Bool.false_ne_true, hread]

/-- The list reader ends exactly when the scan is in no record at the end, with the records of
the scan. The induction is on what is left to read. -/
theorem listLoop_scan (r : XmlStreamReader) (list : List α) (hrunning : r.atEnd = false) :
    ((scan f ⟨list, .outside⟩ r.rest).phase.isOutside = true →
      Comes (fun fuel => listLoop f fuel r list) (scan f ⟨list, .outside⟩ r.rest).list) ∧
    ((scan f ⟨list, .outside⟩ r.rest).phase.isOutside = false →
      Never fun fuel => listLoop f fuel r list) := by
  induction hl : r.rest.length using Nat.strong_induction_on generalizing r list with
  | _ length ih =>
    have hturn := listLoop_turn (f := f) list hrunning
    rcases @nextStart_scan _ f r.complete r.rest with
      ⟨hend, hname, hscan⟩ | ⟨hgoing, hshort, hmine, hother⟩
    · -- The text is at its end: the next turn returns.
      simp only [hname, reduceCtorEq, if_false] at hturn
      rw [hscan]
      constructor
      · intro _
        refine Comes.of_turn rfl hturn (Comes.of_last rfl fun fuel => ?_)
        rw [listLoop, if_pos hend]
      · intro h
        cases h
    · by_cases hstart : (nextStart r.complete r.rest).startName = some f.element
      · obtain ⟨hopen, hscan⟩ := hmine hstart
        simp only [if_pos hstart] at hturn
        rw [hscan]
        cases @record_fate _ f (nextStart r.complete r.rest) f.init hgoing with
        | closed r' v' running shorter returns scanned =>
          have hpast := scanned list
          rw [here_open hopen] at hpast
          rw [hpast]
          obtain ⟨hreturns, hhangs⟩ := ih r'.rest.length
            (by rw [← hl]; exact lt_of_le_of_lt shorter hshort) r'
            (if f.keep v' then list ++ [v'] else list) running rfl
          constructor
          · intro houtside
            exact Comes.of_turn rfl hturn (returns.bind (hreturns houtside))
          · intro houtside
            exact Never.of_turn rfl hturn (returns.bind_never (hhangs houtside))
        | unclosed never scanned =>
          have hinside := scanned list
          rw [here_open hopen] at hinside
          rw [hinside]
          constructor
          · intro h
            cases h
          · intro _
            exact Never.of_turn rfl hturn never.bind
      · simp only [if_neg hstart] at hturn
        rw [hother hstart]
        obtain ⟨hreturns, hhangs⟩ := ih (nextStart r.complete r.rest).rest.length
          (by rw [← hl]; exact hshort) (nextStart r.complete r.rest) list hgoing rfl
        constructor
        · intro houtside
          exact Comes.of_turn rfl hturn (hreturns houtside)
        · intro houtside
          exact Never.of_turn rfl hturn (hhangs houtside)

def listed (f : Format α) (xml : List Event) : List α := (scan f {} xml).list

theorem readList_returns {xml : List Event} (h : Settled f xml) (complete : Bool) :
    Comes (fun fuel => readList f fuel xml complete) (listed f xml) :=
  (listLoop_scan { rest := xml, complete := complete } [] rfl).1 h

theorem readList_hangs {xml : List Event} (h : ¬ Settled f xml) (complete : Bool) :
    Never fun fuel => readList f fuel xml complete :=
  (listLoop_scan { rest := xml, complete := complete } [] rfl).2 (by simpa [Settled] using h)

end MoonlightWeb.Backend.NvHTTP
