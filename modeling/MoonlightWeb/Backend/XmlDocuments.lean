import MoonlightWeb.Backend.XmlRecords

/-! # The records of a document

In a document every tag has its partner, so that each scan of a record ends at the closing tag
of the innermost element it is in. A record that is complete, with no other in it and its own
fields, gets one entry, with these fields, whatever is around it.
-/

namespace MoonlightWeb.Backend.NvHTTP

open Qt XmlStreamReader Content Scan

variable {α : Type} (f : Format α)

/-- The names a list reader looks for. -/
def Mine (name : QString) : Prop := name = f.element ∨ (f.field name).isSome = true

/-- The fields of a record are its own children and hold text, and no element of such a name
is anywhere else in it. -/
def Tidy : Content → Prop
  | nil => True
  | plain _ rest => Tidy rest
  | element name children rest =>
      (((f.field name).isSome = true ∧ children.text.isSome = true) ∨
        (¬ Mine f name ∧ children.Free (Mine f))) ∧ Tidy rest

/-- The fields that are children of a record, in order. -/
def gather : Content → α → α
  | nil, v => v
  | plain _ rest, v => gather rest v
  | element name children rest, v =>
      gather rest (match f.field name, children.text with
        | some update, some text => update text v
        | _, _ => v)

/-- What a complete record is and says: it is tidy, its fields are all there, so that nothing
of what was read before it remains, and the reader keeps it. -/
structure Meaning where
  Complete : Content → Prop
  own : Content → α
  tidy : ∀ {c}, Complete c → Tidy f c
  gathered : ∀ {c}, Complete c → ∀ v, gather f c v = own c
  kept : ∀ {c}, Complete c → f.keep (own c) = true

variable {f}

/-- What the elements of a text gave: each at most one entry, a complete one its own. -/
def Given (m : Meaning f) (contents : List Content) (given : List (Option α)) : Prop :=
  List.Forall₂ (fun c g => m.Complete c → g = some (m.own c)) contents given

section

variable (hfield : f.field f.element = none)

include hfield in
theorem named_of_tidy {c : Content} (h : Tidy f c) : named f.element c = [] := by
  induction c with
  | nil => rfl
  | plain p rest ih => exact ih h
  | element name children rest _ ih =>
    obtain ⟨hchild, hrest⟩ := h
    rcases hchild with ⟨hmine, htext⟩ | ⟨hstrange, hfree⟩
    · have hother : name ≠ f.element := by
        rintro rfl
        rw [hfield] at hmine
        cases hmine
      rw [named, if_neg hother, named_of_text htext, ih hrest]
      rfl
    · have hother : name ≠ f.element := fun heq => hstrange (Or.inl heq)
      rw [named, if_neg hother, named_of_free (Or.inl rfl) hfree, ih hrest]
      rfl

end

theorem scan_text (c : Content) (list : List α) (update : QString → α → α) (v : α)
    (result : QString) :
    (c.text = none ∧ (scan f ⟨list, .reading update v result⟩ c.events).phase = .stuck) ∨
    ∃ text, c.text = some text ∧ scan f ⟨list, .reading update v result⟩ c.events =
      ⟨list, .reading update v (result ++ text)⟩ := by
  induction c generalizing result with
  | nil => exact Or.inr ⟨[], rfl, by simp [events]⟩
  | plain p rest ih =>
    cases hp : textOf p with
    | none =>
      refine Or.inl ⟨by simp [text, hp], ?_⟩
      rw [events, scan_cons]
      simp only [step, hp]
      rw [scan_stuck rfl]
    | some more =>
      have hstep : scan f ⟨list, .reading update v result⟩ (plain p rest).events =
          scan f ⟨list, .reading update v (result ++ more)⟩ rest.events := by
        rw [events, scan_cons]
        simp only [step, hp]
      rw [hstep]
      rcases ih (result ++ more) with ⟨hnone, hstuck⟩ | ⟨text, htext, hscan⟩
      · exact Or.inl ⟨by simp [Content.text, hp, hnone], hstuck⟩
      · refine Or.inr ⟨more ++ text, by simp [Content.text, hp, htext], ?_⟩
        rw [hscan, List.append_assoc]
  | element name children rest _ _ =>
    refine Or.inl ⟨rfl, ?_⟩
    rw [events, scan_cons, step, scan_stuck rfl]

/-- Past some elements the scan is in no record, with what they gave. -/
def Passed (m : Meaning f) (contents : List Content) (list : List α) (s : Scan α) : Prop :=
  ∃ given, Given m contents given ∧ s = ⟨list ++ given.reduceOption, .outside⟩

namespace Passed

variable {m : Meaning f} {contents more : List Content} {list : List α} {s : Scan α}

theorem nil : Passed m [] list ⟨list, .outside⟩ := ⟨[], .nil, by simp⟩

theorem cons_none {c : Content} (hc : ¬ m.Complete c) (h : Passed m contents list s) :
    Passed m (c :: contents) list s := by
  obtain ⟨given, hgiven, rfl⟩ := h
  exact ⟨none :: given, .cons (fun hcomplete => absurd hcomplete hc) hgiven, by
    rw [List.reduceOption_cons_of_none]⟩

theorem entry {c : Content} {v : α} (hv : m.Complete c → v = m.own c) :
    Passed m [c] list ⟨if f.keep v then list ++ [v] else list, .outside⟩ := by
  by_cases hkeep : f.keep v = true
  · refine ⟨[some v], .cons (fun hcomplete => by rw [hv hcomplete]) .nil, ?_⟩
    rw [if_pos hkeep]
    simp
  · refine ⟨[none], .cons (fun hcomplete => ?_) .nil, ?_⟩
    · rw [hv hcomplete, m.kept hcomplete] at hkeep
      exact absurd rfl hkeep
    · rw [if_neg hkeep]
      simp

theorem trans {xml : List Event} (h : Passed m contents list s)
    (hnext : ∀ list, (scan f ⟨list, .outside⟩ xml).phase = .stuck ∨
      Passed m more list (scan f ⟨list, .outside⟩ xml)) :
    (scan f s xml).phase = .stuck ∨ Passed m (contents ++ more) list (scan f s xml) := by
  obtain ⟨given, hgiven, rfl⟩ := h
  rcases hnext (list ++ given.reduceOption) with hstuck | ⟨given', hgiven', hscan⟩
  · exact Or.inl hstuck
  · refine Or.inr ⟨given ++ given', List.rel_append hgiven hgiven', ?_⟩
    rw [hscan, List.reduceOption_append, List.append_assoc]

theorem step_end (h : Passed m contents list s) (name : QString) :
    Passed m contents list (s.step f (.EndElement name)) := by
  obtain ⟨given, hgiven, rfl⟩ := h
  exact ⟨given, hgiven, rfl⟩

end Passed

/-- What a content does to a scan that is in no record, and to one that is in a record. -/
structure Scanned (m : Meaning f) (c : Content) : Prop where
  outside : ∀ list, (scan f ⟨list, .outside⟩ c.events).phase = .stuck ∨
    Passed m (named f.element c) list (scan f ⟨list, .outside⟩ c.events)
  inside : ∀ list v, (scan f ⟨list, .inside v⟩ c.events).phase = .stuck ∨
    (named f.element c = [] ∧ ∃ v', scan f ⟨list, .inside v⟩ c.events = ⟨list, .inside v'⟩ ∧
      (Tidy f c → v' = gather f c v) ∧ (c.Free (Mine f) → v' = v)) ∨
    (named f.element c ≠ [] ∧
      Passed m (named f.element c) list (scan f ⟨list, .inside v⟩ c.events))

theorem events_element (s : Scan α) (name : QString) (children rest : Content) :
    scan f s (element name children rest).events =
      scan f ((scan f (s.step f (.StartElement name)) children.events).step f (.EndElement name))
        rest.events := by
  rw [events, scan_cons, scan_append, scan_cons]

section

variable (m : Meaning f) (hfield : f.field f.element = none) {name : QString}
  {children rest : Content}

include hfield in
theorem Meaning.incomplete {c : Content} (h : named f.element c ≠ []) : ¬ m.Complete c :=
  fun hcomplete => h (named_of_tidy hfield (m.tidy hcomplete))

include hfield in
theorem passed_record (hchildren : Scanned m children) (hrest : Scanned m rest) (list : List α)
    (v : α) :
    (scan f ((scan f ⟨list, .inside v⟩ children.events).step f (.EndElement f.element))
        rest.events).phase = .stuck ∨
      Passed m (children :: (named f.element children ++ named f.element rest)) list
        (scan f ((scan f ⟨list, .inside v⟩ children.events).step f (.EndElement f.element))
          rest.events) := by
  rcases hchildren.inside list v with hstuck | ⟨hnone, v', hscan, hgather, _⟩ | ⟨hsome, hpassed⟩
  · exact Or.inl (stuck_past hstuck _ _)
  · have hentry : Passed m [children] list
        ((scan f ⟨list, .inside v⟩ children.events).step f (.EndElement f.element)) := by
      rw [hscan]
      simp only [step, close, if_pos]
      refine Passed.entry fun hcomplete => ?_
      rw [hgather (m.tidy hcomplete), m.gathered hcomplete]
    rw [hnone]
    exact hentry.trans hrest.outside
  · have hpast := (hpassed.step_end f.element).cons_none (m.incomplete hfield hsome)
    exact hpast.trans hrest.outside

include hfield in
theorem scanned_outside (hchildren : Scanned m children) (hrest : Scanned m rest) (list : List α) :
    (scan f ⟨list, .outside⟩ (element name children rest).events).phase = .stuck ∨
      Passed m (named f.element (element name children rest)) list
        (scan f ⟨list, .outside⟩ (element name children rest).events) := by
  rw [events_element]
  by_cases hname : name = f.element
  · subst hname
    have hstep : step f ⟨list, .outside⟩ (.StartElement f.element) =
        ⟨list, .inside f.init⟩ := by
      simp only [step, if_pos]
    rw [hstep, named, if_pos rfl, List.append_assoc, List.singleton_append]
    exact passed_record m hfield hchildren hrest list f.init
  · have hstep : step f ⟨list, .outside⟩ (.StartElement name) = ⟨list, .outside⟩ := by
      simp only [step, if_neg hname]
    rw [hstep, named, if_neg hname, List.nil_append]
    rcases hchildren.outside list with hstuck | hpassed
    · exact Or.inl (stuck_past hstuck _ _)
    · exact (hpassed.step_end name).trans hrest.outside

include hfield in
theorem scanned_inside (hchildren : Scanned m children) (hrest : Scanned m rest)
    (list : List α) (v : α) :
    (scan f ⟨list, .inside v⟩ (element name children rest).events).phase = .stuck ∨
    (named f.element (element name children rest) = [] ∧ ∃ v',
      scan f ⟨list, .inside v⟩ (element name children rest).events = ⟨list, .inside v'⟩ ∧
      (Tidy f (element name children rest) → v' = gather f (element name children rest) v) ∧
      ((element name children rest).Free (Mine f) → v' = v)) ∨
    (named f.element (element name children rest) ≠ [] ∧
      Passed m (named f.element (element name children rest)) list
        (scan f ⟨list, .inside v⟩ (element name children rest).events)) := by
  rw [events_element]
  cases hf : f.field name with
  | some update =>
    -- A field: its text is read, and the record goes on.
    have hname : name ≠ f.element := by
      rintro rfl
      rw [hfield] at hf
      cases hf
    have hstep : step f ⟨list, .inside v⟩ (.StartElement name) =
        ⟨list, .reading update v []⟩ := by
      simp only [step, hf]
    rw [hstep]
    rcases scan_text (f := f) children list update v [] with
      ⟨_, hstuck⟩ | ⟨text, htext, hscan⟩
    · exact Or.inl (stuck_past hstuck _ _)
    · have hclose : (scan f ⟨list, .reading update v []⟩ children.events).step f
          (.EndElement name) = ⟨list, .inside (update text v)⟩ := by
        rw [hscan]
        simp only [step, close, if_neg hname, List.nil_append]
      have hnamed : named f.element (element name children rest) = named f.element rest := by
        rw [named, if_neg hname, named_of_text (by rw [htext]; rfl)]
        rfl
      rw [hclose, hnamed]
      rcases hrest.inside list (update text v) with
        hstuck | ⟨hnone, v', hinside, hgather, _⟩ | hpassed
      · exact Or.inl hstuck
      · refine Or.inr (Or.inl ⟨hnone, v', hinside, fun htidy => ?_, fun hfree => ?_⟩)
        · rw [hgather htidy.2, gather, hf, htext]
        · exact absurd (Or.inr (by rw [hf]; rfl)) hfree.1
      · exact Or.inr (Or.inr hpassed)
  | none =>
    have hstep : step f ⟨list, .inside v⟩ (.StartElement name) = ⟨list, .inside v⟩ := by
      simp only [step, hf]
    rw [hstep]
    by_cases hname : name = f.element
    · -- A record in the record: the scan goes on in it.
      subst hname
      have hnamed : named f.element (element f.element children rest) =
          children :: (named f.element children ++ named f.element rest) := by
        rw [named, if_pos rfl, List.append_assoc, List.singleton_append]
      rw [hnamed]
      rcases passed_record m hfield hchildren hrest list v with hstuck | hpassed
      · exact Or.inl hstuck
      · exact Or.inr (Or.inr ⟨List.cons_ne_nil _ _, hpassed⟩)
    · have hnamed : named f.element (element name children rest) =
          named f.element children ++ named f.element rest := by
        rw [named, if_neg hname, List.nil_append]
      rw [hnamed]
      rcases hchildren.inside list v with
        hstuck | ⟨hnone, v₁, hscan, _, hfree₁⟩ | ⟨hsome, hpassed⟩
      · exact Or.inl (stuck_past hstuck _ _)
      · have hclose : (scan f ⟨list, .inside v⟩ children.events).step f (.EndElement name) =
            ⟨list, .inside v₁⟩ := by
          rw [hscan]
          simp only [step, close, if_neg hname]
        rw [hclose, hnone, List.nil_append]
        rcases hrest.inside list v₁ with
          hstuck | ⟨hnone', v', hinside, hgather, hfree'⟩ | hpassed
        · exact Or.inl hstuck
        · refine Or.inr (Or.inl ⟨hnone', v', hinside, fun htidy => ?_, fun hfree => ?_⟩)
          · obtain ⟨hchild, hresttidy⟩ := htidy
            have hstrange : children.Free (Mine f) := by
              rcases hchild with ⟨hmine, _⟩ | ⟨_, hfree⟩
              · rw [hf] at hmine
                cases hmine
              · exact hfree
            rw [hgather hresttidy, gather, hf, hfree₁ hstrange]
          · rw [hfree' hfree.2.2, hfree₁ hfree.2.1]
        · exact Or.inr (Or.inr hpassed)
      · rcases (hpassed.step_end name).trans hrest.outside with hstuck | hpast
        · exact Or.inl hstuck
        · refine Or.inr (Or.inr ⟨?_, hpast⟩)
          exact fun hnil => hsome (List.append_eq_nil_iff.mp hnil).1

include hfield in
theorem scanned (c : Content) : Scanned m c := by
  induction c with
  | nil =>
    exact { outside := fun _ => Or.inr Passed.nil
            inside := fun _ v => Or.inr (Or.inl ⟨rfl, v, rfl, fun _ => rfl, fun _ => rfl⟩) }
  | plain p rest ih =>
    exact { outside := ih.outside, inside := ih.inside }
  | element name children rest ihc ihr =>
    exact { outside := scanned_outside m hfield ihc ihr
            inside := scanned_inside m hfield ihc ihr }

include hfield in
/-- In a document the list holds, for each complete record, one entry with its own fields. -/
theorem listed_document (c : Content) (h : Settled f (.plain .StartDocument :: c.events)) :
    ∃ given, Given m (named f.element c) given ∧
      listed f (.plain .StartDocument :: c.events) = given.reduceOption := by
  rcases (scanned m hfield c).outside [] with hstuck | ⟨given, hgiven, hscan⟩
  · have hnot : (scan f {} (.plain .StartDocument :: c.events)).phase = .stuck := hstuck
    rw [Settled, hnot] at h
    cases h
  · refine ⟨given, hgiven, ?_⟩
    have hlist : (scan f {} (.plain .StartDocument :: c.events)) =
      ⟨[] ++ given.reduceOption, .outside⟩ := hscan
    rw [listed, hlist, List.nil_append]

end

end MoonlightWeb.Backend.NvHTTP
