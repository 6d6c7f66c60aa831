import MoonlightWeb.NativeHost.AmfRepair
import MoonlightWeb.NativeHost.VaapiEncoder

/-! # Where the VA-API repair is sound

A slot other than the one written next holds one of the last four pictures, which is what
the receiver keeps. An accepted loss that leaves only the slot written next leaves nothing
to predict from, so the repair is sound as long as no loss does.
-/

namespace MoonlightWeb.NativeHost.Encode

open Lib VaapiEncoder VaapiSystem EachStep

namespace VaapiEncoder

variable {e : VaapiEncoder}

/-- A slot the next picture may predict from. -/
def Usable (e : VaapiEncoder) (i : Nat) : Prop :=
  i ≠ e.reconCurrent ∧ (e.reconState i).valid = true

theorem foldl_newerReference (n : Nat) :
    match (List.range n).foldl e.newerReference none with
    | none => ∀ i < n, ¬ e.Usable i
    | some b => b < n ∧ e.Usable b := by
  induction n with
  | zero => exact fun i hi => absurd hi (Nat.not_lt_zero i)
  | succ n ih =>
    rw [List.range_succ, List.foldl_append, List.foldl_cons, List.foldl_nil]
    by_cases hskip : (decide (n = e.reconCurrent) || !(e.reconState n).valid) = true
    · have hstep : ∀ best, e.newerReference best n = best := fun best => if_pos (by simpa using hskip)
      have hunusable : ¬ e.Usable n := by
        rintro ⟨hne, hvalid⟩
        simp [hne, hvalid] at hskip
      rw [hstep]
      cases hbest : (List.range n).foldl e.newerReference none with
      | none =>
        rw [hbest] at ih
        intro i hi
        rcases Nat.lt_succ_iff_lt_or_eq.mp hi with hlt | rfl
        · exact ih i hlt
        · exact hunusable
      | some b =>
        rw [hbest] at ih
        exact ⟨by omega, ih.2⟩
    · have husable : e.Usable n := by simpa [Usable] using hskip
      cases hbest : (List.range n).foldl e.newerReference none with
      | none =>
        have hstep : e.newerReference none n = some n := if_neg (by simpa using hskip)
        rw [hstep]
        exact ⟨Nat.lt_succ_self n, husable⟩
      | some b =>
        rw [hbest] at ih
        have hstep : e.newerReference (some b) n =
            if (e.reconState n).picNum ≥ (e.reconState b).picNum then some n else some b :=
          if_neg (by simpa using hskip)
        rw [hstep]
        by_cases hnewer : (e.reconState n).picNum ≥ (e.reconState b).picNum
        · rw [if_pos hnewer]
          exact ⟨Nat.lt_succ_self n, husable⟩
        · rw [if_neg hnewer]
          exact ⟨by omega, ih.2⟩

theorem referenceSlot_eq_some {i : Nat} (h : e.referenceSlot = some i) :
    i < kReconSurfaces ∧ e.Usable i := by
  have hfold := @foldl_newerReference e kReconSurfaces
  rwa [show (List.range kReconSurfaces).foldl e.newerReference none = some i from h] at hfold

theorem referenceSlot_eq_none (h : e.referenceSlot = none) :
    ∀ i < kReconSurfaces, ¬ e.Usable i := by
  have hfold := @foldl_newerReference e kReconSurfaces
  rwa [show (List.range kReconSurfaces).foldl e.newerReference none = none from h] at hfold

/-- The ring after a loss is named. -/
def dropped (e : VaapiEncoder) (n : Nat) : VaapiEncoder :=
  { e with
    reconState := fun i =>
      { e.reconState i with
        valid := (e.reconState i).valid && decide ((e.reconState i).engineFrame < n) } }

theorem invalidateReference_cases (n : Nat) :
    (∃ text, e.invalidateReference n = (e, .error text)) ∨
      (∃ text, e.invalidateReference n = (e.dropped n, .error text)) ∨
      ((∃ i < kReconSurfaces, (e.reconState i).valid = true ∧ (e.reconState i).engineFrame < n) ∧
        e.invalidateReference n = (e.dropped n, .ok ())) := by
  unfold invalidateReference
  by_cases hsupports : (!e.supportsReferenceInvalidation) = true
  · rw [if_pos hsupports]
    exact Or.inl ⟨_, rfl⟩
  · rw [if_neg hsupports]
    by_cases hnone : e.survivors n = 0
    · simp only [if_pos hnone]
      exact Or.inr (Or.inl ⟨_, rfl⟩)
    · simp only [if_neg hnone]
      refine Or.inr (Or.inr ⟨?_, rfl⟩)
      obtain ⟨i, hi, hsurvives⟩ := List.countP_pos_iff.mp (Nat.pos_of_ne_zero hnone)
      rw [Bool.and_eq_true, decide_eq_true_eq] at hsurvives
      exact ⟨i, List.mem_range.mp hi, hsurvives⟩

end VaapiEncoder

namespace VaapiSystem

/-- What holds of every state a sound run reaches. -/
structure Inv (s : VaapiSystem) : Prop where
  bounded : s.stream.Bounded
  newest : ∀ p, s.stream.newest = some p → s.stream.Safe p
  current : s.encoder.reconCurrent < kReconSurfaces
  held : ∀ i, (s.encoder.reconState i).valid = true →
    ∃ p, s.surface i = some p ∧ p.number = (s.encoder.reconState i).engineFrame ∧
      s.stream.Safe p ∧ (s.stream.refused = false → ∀ n ∈ s.stream.named, p.number < n)
  windowed : ∀ i < kReconSurfaces, s.encoder.Usable i →
    ∃ j < kMaxReferences, i = (s.encoder.reconCurrent + kMaxReferences - j) % kReconSurfaces ∧
      s.window[j]? = s.surface i
  available : s.stream.newest.isSome → s.stream.refused = false →
    ∃ i < kReconSurfaces, s.encoder.Usable i

theorem inv_start (supports : Bool) : (start supports).Inv where
  bounded := Stream.bounded_start
  newest := fun p hp => by cases hp
  current := Nat.zero_lt_succ 4
  held := fun i hi => by cases hi
  windowed := fun i _ hi => by cases hi.2
  available := fun hsome => by cases hsome

variable {s t : VaapiSystem}

theorem Inv.invalidate (h : s.Inv) {n : Nat} (hreach : s.Reaches (.invalidate n))
    (hmove : s.move (.invalidate n) = some t) : t.Inv := by
  have hnewest : ∀ ok p, s.stream.newest = some p → (s.stream.name n ok).Safe p :=
    fun ok p hp => (h.newest p hp).name ok
  have hheld : ∀ ok i, (((s.encoder.dropped n).reconState i).valid) = true →
      ∃ p, s.surface i = some p ∧ p.number = (s.encoder.reconState i).engineFrame ∧
        (s.stream.name n ok).Safe p ∧
        ((s.stream.name n ok).refused = false → ∀ m ∈ n :: s.stream.named, p.number < m) := by
    intro ok i hi
    simp only [dropped, Bool.and_eq_true, decide_eq_true_eq] at hi
    obtain ⟨p, hp, hnumber, hsafe, hbefore⟩ := h.held i hi.1
    refine ⟨p, hp, hnumber, hsafe.name ok, ?_⟩
    intro hok m hm
    rcases List.mem_cons.mp hm with rfl | hold
    · omega
    · refine hbefore ?_ m hold
      cases hrefused : s.stream.refused with
      | false => rfl
      | true => simp [Stream.name, hrefused] at hok
  have hwindowed : ∀ i < kReconSurfaces, (s.encoder.dropped n).Usable i →
      ∃ j < kMaxReferences, i = (s.encoder.reconCurrent + kMaxReferences - j) % kReconSurfaces ∧
        s.window[j]? = s.surface i := by
    intro i hi husable
    refine h.windowed i hi ⟨husable.1, ?_⟩
    have hvalid := husable.2
    simp only [dropped, Bool.and_eq_true] at hvalid
    exact hvalid.1
  rcases @invalidateReference_cases s.encoder n with ⟨text, hcall⟩ |
    ⟨text, hcall⟩ | ⟨hsurvives, hcall⟩
  · simp only [move, hcall] at hmove
    obtain rfl := Option.some.inj hmove
    refine ⟨h.bounded.name _, hnewest _, h.current, ?_, h.windowed, ?_⟩
    · intro i hi
      obtain ⟨p, hp, hnumber, hsafe, _⟩ := h.held i hi
      refine ⟨p, hp, hnumber, hsafe.name _, fun hno => ?_⟩
      simp [Stream.name, Except.isOk, Except.toBool] at hno
    · intro _ hno
      simp [Stream.name, Except.isOk, Except.toBool] at hno
  · simp only [move, hcall] at hmove
    obtain rfl := Option.some.inj hmove
    refine ⟨h.bounded.name _, hnewest _, h.current, hheld _, hwindowed, ?_⟩
    intro _ hno
    simp [Stream.name, Except.isOk, Except.toBool] at hno
  · simp only [move, hcall] at hmove
    obtain rfl := Option.some.inj hmove
    refine ⟨h.bounded.name _, hnewest _, h.current, hheld _, hwindowed, ?_⟩
    intro _ _
    obtain ⟨i, hi, hne, hvalid, hless⟩ := hreach hsurvives
    exact ⟨i, hi, hne, by simp [dropped, hvalid, hless]⟩

theorem ring_newest {current : Nat} (h : current < kReconSurfaces) :
    current ≠ (current + 1) % kReconSurfaces ∧
      current = ((current + 1) % kReconSurfaces + kMaxReferences - 0) % kReconSurfaces := by
  unfold kMaxReferences kReconSurfaces at *
  omega

/-- A slot not written next moves one back in the window, and stays in it. -/
theorem ring_older {current i j : Nat} (h : current < kReconSurfaces) (hj : j < kMaxReferences)
    (hi : i = (current + kMaxReferences - j) % kReconSurfaces)
    (hnext : i ≠ (current + 1) % kReconSurfaces) :
    j + 1 < kMaxReferences ∧
      i = ((current + 1) % kReconSurfaces + kMaxReferences - (j + 1)) % kReconSurfaces := by
  unfold kMaxReferences kReconSurfaces at *
  omega

section

variable (h : s.Inv) {n : Nat} (hnew : ∀ q, s.stream.newest = some q → q.number < n)
include h hnew

theorem Inv.encode_idr {force : Bool} (hidr : s.encoder.predictsFrom force = none) :
    (s.encode force n).Inv := by
  have hpicture : s.picture force n = .key n := by
    unfold picture
    rw [hidr]
    rfl
  have hsafe := Stream.safe_emit_key h.bounded hnew
  have hvalid : ∀ i, ((s.encode force n).encoder.reconState i).valid = true →
      i = s.encoder.reconCurrent := by
    intro i hi
    by_contra hne
    simp only [encode, VaapiEncoder.encode, hidr, Option.isNone_none, if_true,
      Function.update_of_ne hne] at hi
    cases hi
  have hlatest : (s.encode force n).surface s.encoder.reconCurrent = some (.key n) := by
    simp only [encode, hpicture, Function.update_self]
  refine ⟨?_, ?_, Nat.mod_lt _ (Nat.zero_lt_succ 4), ?_, ?_, ?_⟩
  · exact @Stream.Bounded.emit s.stream _ (by rw [hpicture]; exact hnew) h.bounded
  · intro p hp
    obtain rfl := Option.some.inj hp
    simp only [encode, hpicture]
    exact hsafe
  · intro i hi
    obtain rfl := hvalid i hi
    refine ⟨.key n, hlatest, ?_, ?_, fun _ m hm => absurd hm List.not_mem_nil⟩
    · simp only [encode, VaapiEncoder.encode, Function.update_self, Picture.number_key]
    · simp only [encode, hpicture]
      exact hsafe
  · intro i _ husable
    obtain rfl := hvalid i husable.2
    refine ⟨0, Nat.zero_lt_succ 3, (ring_newest h.current).2, ?_⟩
    rw [hlatest]
    simp only [encode, hpicture]
    rfl
  · intro _ _
    refine ⟨s.encoder.reconCurrent, h.current, (ring_newest h.current).1, ?_⟩
    simp only [encode, VaapiEncoder.encode, Function.update_self]

theorem Inv.encode_delta {slot : Nat} (hslot : s.encoder.referenceSlot = some slot)
    (hrefused : s.stream.refused = false) :
    (s.encode false n).Inv ∧ s.Predicts (s.encode false n) n := by
  obtain ⟨hlt, husable⟩ := VaapiEncoder.referenceSlot_eq_some hslot
  obtain ⟨p, hp, _, hsafe, hbefore⟩ := h.held slot husable.2
  have hpredicts : s.encoder.predictsFrom false = some slot := by
    simpa [VaapiEncoder.predictsFrom] using hslot
  have hpicture : s.picture false n = .delta n p := by
    unfold picture
    rw [hpredicts, Option.bind_some, hp]
  have hsafe' := Stream.safe_emit_delta h.bounded hnew hsafe (hbefore hrefused)
  have hlatest : (s.encode false n).surface s.encoder.reconCurrent = some (.delta n p) := by
    simp only [encode, hpicture, Function.update_self]
  have hother : ∀ i, i ≠ s.encoder.reconCurrent →
      (s.encode false n).encoder.reconState i = s.encoder.reconState i ∧
        (s.encode false n).surface i = s.surface i := by
    intro i hi
    simp only [encode, VaapiEncoder.encode, hpredicts, Function.update_of_ne hi]
    exact ⟨rfl, trivial⟩
  constructor
  · refine ⟨?_, ?_, Nat.mod_lt _ (Nat.zero_lt_succ 4), ?_, ?_, ?_⟩
    · exact @Stream.Bounded.emit s.stream _ (by rw [hpicture]; exact hnew) h.bounded
    · intro q hq
      obtain rfl := Option.some.inj hq
      simp only [encode, hpicture]
      exact hsafe'
    · intro i hi
      by_cases hcurrent : i = s.encoder.reconCurrent
      · subst hcurrent
        refine ⟨.delta n p, hlatest, ?_, ?_, fun _ m hm => absurd hm List.not_mem_nil⟩
        · simp only [encode, VaapiEncoder.encode, Function.update_self, Picture.number_delta]
        · simp only [encode, hpicture]
          exact hsafe'
      · obtain ⟨hstate, hsurface⟩ := hother i hcurrent
        rw [hstate] at hi ⊢
        rw [hsurface]
        obtain ⟨q, hq, hnumber, hqsafe, hqbefore⟩ := h.held i hi
        exact ⟨q, hq, hnumber,
          hqsafe.emit (by rw [hpicture]; exact hnew) (hqbefore hrefused),
          fun _ m hm => absurd hm List.not_mem_nil⟩
    · intro i hi husable'
      have hwindow : (s.encode false n).window = (.delta n p :: s.window).take kMaxReferences := by
        simp only [encode, hpicture, received]
      rw [hwindow]
      by_cases hcurrent : i = s.encoder.reconCurrent
      · subst hcurrent
        refine ⟨0, Nat.zero_lt_succ 3, (ring_newest h.current).2, ?_⟩
        rw [hlatest]
        rfl
      · obtain ⟨hstate, hsurface⟩ := hother i hcurrent
        have hvalid := husable'.2
        rw [hstate] at hvalid
        obtain ⟨j, hj, hat, hj'⟩ := h.windowed i hi ⟨hcurrent, hvalid⟩
        obtain ⟨hnext, hat'⟩ := ring_older h.current hj hat husable'.1
        refine ⟨j + 1, hnext, hat', ?_⟩
        rw [hsurface, List.getElem?_take_of_lt hnext, List.getElem?_cons_succ, hj']
    · intro _ _
      refine ⟨s.encoder.reconCurrent, h.current, (ring_newest h.current).1, ?_⟩
      simp only [encode, VaapiEncoder.encode, Function.update_self]
  · obtain ⟨j, _, _, hwindow⟩ := h.windowed slot hlt husable
    rw [hp] at hwindow
    refine ⟨?_, slot, p, hslot, hp, List.mem_of_getElem? hwindow, congrArg some hpicture,
      hsafe.repaired (hbefore hrefused)⟩
    simp only [encode, hpredicts, Option.isNone_some]

end

theorem Inv.encode (h : s.Inv) {force : Bool} {n : Nat}
    (hmove : s.move (.encode force n) = some t) :
    t.Inv ∧ s.Sound (.encode force n) t := by
  simp only [move] at hmove
  split at hmove
  case isFalse => cases hmove
  case isTrue hguard =>
    simp only [Bool.and_eq_true, Bool.or_eq_true, Bool.not_eq_true'] at hguard
    obtain ⟨hall, hrefused⟩ := hguard
    have hnew : ∀ q, s.stream.newest = some q → q.number < n := by
      intro q hq
      rw [hq] at hall
      exact of_decide_eq_true hall
    obtain rfl := Option.some.inj hmove
    cases force with
    | true => exact ⟨h.encode_idr hnew rfl, fun hno => by cases hno⟩
    | false =>
      have hrefused : s.stream.refused = false := by simpa using hrefused
      cases hslot : s.encoder.referenceSlot with
      | some slot =>
        obtain ⟨hinv, hpredicts⟩ := h.encode_delta hnew hslot hrefused
        exact ⟨hinv, fun _ _ _ => hpredicts⟩
      | none =>
        refine ⟨h.encode_idr hnew (by simpa [predictsFrom] using hslot), ?_⟩
        intro _ hsome _
        obtain ⟨i, hi, husable⟩ := h.available hsome hrefused
        exact absurd husable (referenceSlot_eq_none hslot i hi)

/-- Along a run whose losses all leave a slot the next picture does not overwrite, every
step does what is promised. -/
theorem sound_of_reaches {supports : Bool} {events : List VaapiEvent}
    (hreaches : EachStep (moves move) (fun s event _ => s.Reaches event) (start supports) events) :
    EachStep (moves move) Sound (start supports) events := by
  intro visited event rest s t hevents hrun hmove
  have hinv : s.Inv := by
    refine invariant ?_ (hreaches.take hevents) (inv_start supports) hrun
    intro u e v hu hstep hreach
    cases e with
    | invalidate n => exact hu.invalidate hreach hstep
    | encode force n => exact (hu.encode hstep).1
  cases event with
  | invalidate n => trivial
  | encode force n => exact (hinv.encode hmove).2

end VaapiSystem

/-- A repair is sound along every run of the AMF encoder whose losses reach no further back
than its last repair, and along every run of the VA-API encoder whose losses leave a slot
the next picture does not overwrite. -/
theorem repairs_sound {slots stride : Int} {supports : Bool} {amf : List AmfEvent}
    {vaapi : List VaapiEvent}
    (hamf : EachStep (moves AmfSystem.move) (fun s event _ => s.Reaches event)
      (AmfSystem.start slots stride) amf)
    (hvaapi : EachStep (moves move) (fun s event _ => s.Reaches event)
      (start supports) vaapi) :
    EachStep (moves AmfSystem.move) AmfSystem.Sound (AmfSystem.start slots stride) amf ∧
      EachStep (moves move) Sound (start supports) vaapi :=
  ⟨AmfSystem.sound_of_reaches hamf, sound_of_reaches hvaapi⟩

def obliging : Reply := ⟨true, none, true, true, 0⟩

/-- One loss and its repair, in each encoder. -/
theorem repairs_sound_once :
    EachStep (moves AmfSystem.move) AmfSystem.Sound (AmfSystem.start 4 1)
        [.encode true 0 obliging, .encode false 1 obliging, .invalidate 1,
          .encode false 2 obliging] ∧
      EachStep (moves move) Sound (start true)
        [.encode true 0, .encode false 1, .invalidate 1, .encode false 2] := by
  refine repairs_sound ?_ ?_
  · refine cons fun t ht => ⟨trivial, ?_⟩
    obtain rfl := Option.some.inj ht
    refine cons fun t ht => ⟨trivial, ?_⟩
    obtain rfl := Option.some.inj ht
    refine cons fun t ht => ⟨fun _ honto => (by cases honto), ?_⟩
    obtain rfl := Option.some.inj ht
    exact cons fun t ht => ⟨trivial, nil⟩
  · refine cons fun t ht => ⟨trivial, ?_⟩
    obtain rfl := Option.some.inj ht
    refine cons fun t ht => ⟨trivial, ?_⟩
    obtain rfl := Option.some.inj ht
    refine cons fun t ht => ⟨fun _ => ⟨0, by decide, by decide, by decide, by decide⟩, ?_⟩
    obtain rfl := Option.some.inj ht
    exact cons fun t ht => ⟨trivial, nil⟩

/-- Three frames, a loss of the last, its repair onto the frame 1, and a loss of that. -/
def twoRepairs : List AmfEvent :=
  [.encode true 0 obliging, .encode false 1 obliging, .encode false 2 obliging, .invalidate 2,
    .encode false 3 obliging, .invalidate 1]

/-- Five frames, which fill the ring, and the loss of all but the first. -/
def fullRing : List VaapiEvent :=
  [.encode true 0, .encode false 1, .encode false 2, .encode false 3, .encode false 4,
    .invalidate 1]

/-- The second repair is forced onto the frame 0, which the driver dropped at the first; and
the frame 0 of the full ring is in the surface the next picture overwrites. -/
theorem dropped_reference_forced :
    ¬ EachStep (moves AmfSystem.move) AmfSystem.Sound (AmfSystem.start 4 1)
        (twoRepairs ++ [.encode false 4 obliging]) ∧
      ¬ EachStep (moves move) Sound (start true)
        (fullRing ++ [.encode false 5]) := by
  constructor
  · intro hsound
    obtain ⟨_, _, reference, _, _, hboth⟩ :=
      hsound twoRepairs (.encode false 4 obliging) [] _ _ rfl (run_of_runMoves _ rfl) rfl rfl rfl rfl
    have hdriver : none = some reference := hboth.2
    cases hdriver
  · intro hsound
    obtain ⟨hdelta, _⟩ :=
      hsound fullRing (.encode false 5) [] _ _ rfl (run_of_runMoves _ rfl) rfl rfl rfl rfl
    cases hdelta

end MoonlightWeb.NativeHost.Encode
