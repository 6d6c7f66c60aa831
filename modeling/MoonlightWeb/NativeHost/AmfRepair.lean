import MoonlightWeb.NativeHost.AmfEncoder

/-! # Where the AMF repair is sound

The table and the driver hold the same frames from the one the last repair was forced onto.
Below it the table keeps clean frames the driver has dropped, so a repair is sound as long
as no loss reaches back past it.
-/

namespace MoonlightWeb.NativeHost.Encode

open Lib ReferenceSlots AmfEncoder Driver

namespace AmfEncoder

variable {e : AmfEncoder}

theorem submit_forced (n : Nat) :
    e.submit true n = ({ e with forceKeyframeNext := false, lostPending := false },
        ⟨true, none, e.ltr.slotFor n true⟩) := by
  simp [submit]

theorem submit_plain (hhealthy : e.forceKeyframeNext = false) (hidle : e.lostPending = false)
    (n : Nat) :
    e.submit false n = ({ e with forceKeyframeNext := false, lostPending := false },
        ⟨false, none, e.ltr.slotFor n false⟩) := by
  simp [submit, hhealthy, hidle]

theorem submit_repair (hhealthy : e.forceKeyframeNext = false) (hpending : e.lostPending = true)
    {slot : Nat} (hslot : e.ltr.cleanSlotBefore e.lostFrom = some slot) (n : Nat) :
    e.submit false n = ({ e with
          ltr := e.ltr.dropFrom e.lostFrom
          forceKeyframeNext := false
          lostPending := false },
        ⟨false, some slot, (e.ltr.dropFrom e.lostFrom).slotFor n false⟩) := by
  simp [submit, hhealthy, hpending, hslot]

theorem invalidateReference_cases (n : Nat) :
    (∃ text, e.invalidateReference n = (e, .error text)) ∨
      (∃ text, e.invalidateReference n = ({ e with lostPending := false }, .error text)) ∨
      (∃ slot, e.ltr.cleanSlotBefore (e.lossFrom n) = some slot ∧
        e.invalidateReference n =
          ({ e with lostFrom := e.lossFrom n, lostPending := true }, .ok ())) := by
  unfold invalidateReference
  cases henabled : e.ltr.enabled with
  | false => exact Or.inl ⟨_, rfl⟩
  | true =>
    cases hslot : e.ltr.cleanSlotBefore (e.lossFrom n) with
    | none => exact Or.inr (Or.inl ⟨_, rfl⟩)
    | some slot => exact Or.inr (Or.inr ⟨slot, rfl, rfl⟩)

def base (e : AmfEncoder) (keyframe : Bool) : ReferenceSlots :=
  if keyframe then e.ltr.clear else e.ltr

variable {request : Request} {reply : Reply}

variable (d : Driver)

theorem markedSlot_report (previous : Option Picture)
    (hdocumented : reply.documented e.ltr.count = true)
    (hasked : ∀ slot, request.markSlot = some slot → slot < e.ltr.count) {slot : Nat}
    (hslot : request.markSlot = some slot) :
    e.markedSlot (d.report previous request reply) =
      if reply.marks then some (slot : Int) else none := by
  have hlt := hasked slot hslot
  unfold markedSlot report Driver.indexOf kLtrReservedIndices
  simp only [hslot]
  cases hmarks : reply.marks with
  | true =>
    simp only [if_true, Option.bind_some]
    rw [if_pos (by omega)]
    congr 1
    omega
  | false =>
    simp only [Bool.false_eq_true, if_false]
    cases hrefusal : reply.refusal with
    | none => rfl
    | some idx =>
      simp only [Reply.documented, hrefusal, Option.all_some, Bool.or_eq_true,
        decide_eq_true_eq] at hdocumented
      rw [Option.bind_some, if_neg (by omega)]

/-- What the slots hold after an encode. -/
theorem heldAt_collect (previous : Option Picture)
    (hdocumented : reply.documented e.ltr.count = true)
    (hasked : ∀ slot, request.markSlot = some slot → slot < e.ltr.count) {n s f : Nat} :
    (e.collect request n (d.report previous request reply)).1.ltr.HeldAt s f ↔
      if request.markSlot = some s ∧ reply.marks = true then f = n
      else (e.base (e.collect request n (d.report previous request reply)).2).HeldAt s f := by
  unfold collect
  cases henabled : e.ltr.enabled with
  | false =>
    have hnone : e.ltr.count = 0 := by simpa [enabled] using henabled
    have hunheld : ∀ keyframe, ¬ (e.base keyframe).HeldAt s f := by
      intro keyframe hheld
      have hlt := hheld.1
      cases keyframe <;> simp [base, hnone] at hlt
    have hunmarked : ¬ (request.markSlot = some s ∧ reply.marks = true) := by
      intro h
      have hlt := hasked s h.1
      omega
    simp only [Bool.not_false, if_true, if_neg hunmarked]
    exact iff_of_false (hunheld false) (hunheld _)
  | true =>
    simp only [Bool.not_true, Bool.false_eq_true, if_false]
    rw [show (if ((d.report previous request reply).isIdr.getD request.keyframe) = true then
      e.ltr.clear else e.ltr) = e.base ((d.report previous request reply).isIdr.getD
        request.keyframe) from rfl]
    generalize (d.report previous request reply).isIdr.getD request.keyframe = keyframe
    have hcount : (e.base keyframe).count = e.ltr.count := by
      unfold base
      split <;> simp
    cases hmark : request.markSlot with
    | none => simp
    | some slot =>
      have hlt := hasked slot hmark
      rw [markedSlot_report d previous hdocumented hasked hmark]
      cases hmarks : reply.marks with
      | false => simp
      | true =>
        simp only [Option.isSome_some, if_true, heldAt_marked, hcount,
          Option.some.injEq, and_true]
        by_cases hs : slot = s
        · rw [if_pos ⟨by omega, by omega, by omega⟩, if_pos hs]
        · rw [if_neg (by omega), if_neg hs]

/-- A driver that has the slot it is told uses it. -/
theorem clean_report (previous : Option Picture)
    (hthere : ∀ slot, request.forced = some slot → (d (indexOf slot)).isSome = true)
    (hbits : request.forcedBits ≠ 0) : e.clean request (d.report previous request reply) = true := by
  unfold clean report
  cases hforced : request.forced with
  | none => simp [Request.forcedBits, hforced] at hbits
  | some slot =>
    cases htells : reply.tellsReference with
    | false => simp
    | true => simp [hthere slot hforced, Nat.shiftLeft_shiftRight, hbits]

theorem collect_lostPending (request : Request) (n : Nat) (report : Report) :
    (e.collect request n report).1.lostPending = e.lostPending := by
  unfold collect
  cases e.ltr.enabled <;> rfl

theorem collect_healthy (hhealthy : e.forceKeyframeNext = false) (n : Nat)
    {report : Report} (hclean : request.forcedBits ≠ 0 → e.clean request report = true) :
    (e.collect request n report).1.forceKeyframeNext = false := by
  unfold collect
  cases e.ltr.enabled with
  | false => exact hhealthy
  | true =>
    by_cases hbits : request.forcedBits = 0
    · simp [hhealthy, hbits]
    · simp [hhealthy, hclean hbits]

theorem collect_keyframe (previous : Option Picture) (request : Request)
    (reply : Reply) (n : Nat) :
    (e.collect request n (d.report previous request reply)).2 =
      (request.keyframe || (reply.tellsType && previous.isNone)) := by
  have hflag : (e.collect request n (d.report previous request reply)).2 =
      (d.report previous request reply).isIdr.getD request.keyframe := by
    unfold collect
    cases e.ltr.enabled <;> rfl
  rw [hflag]
  unfold report
  cases reply.tellsType <;> simp

end AmfEncoder

theorem ReferenceSlots.slotFor_lt {t : ReferenceSlots} {n slot : Nat} {always : Bool}
    (h : t.slotFor n always = some slot) : slot < t.count := by
  unfold slotFor at h
  by_cases hcount : t.count = 0
  · rw [if_pos hcount] at h
    cases h
  · rw [if_neg hcount] at h
    by_cases hturn : (!always && decide (n % t.stride ≠ 0)) = true
    · rw [if_pos hturn] at h
      cases h
    · rw [if_neg hturn] at h
      obtain rfl := Option.some.inj h
      exact Nat.mod_lt _ (by omega)

namespace AmfSystem

/-- What holds of every state a sound run reaches. -/
structure Inv (s : AmfSystem) : Prop where
  bounded : s.stream.Bounded
  newest : ∀ p, s.stream.newest = some p → s.stream.Safe p
  synced : ∀ slot f, s.encoder.ltr.HeldAt slot f → (∀ onto, s.forcedOnto = some onto → onto ≤ f) →
    ∃ p, s.driver (indexOf slot) = some p ∧ p.number = f ∧ s.stream.Safe p
  old : ∀ slot f, s.encoder.ltr.HeldAt slot f → ∃ q, s.stream.newest = some q ∧ f ≤ q.number
  apart : ∀ slot slot' f, s.encoder.ltr.HeldAt slot f → s.encoder.ltr.HeldAt slot' f → slot = slot'
  healthy : s.encoder.forceKeyframeNext = false
  pending : s.encoder.lostPending = true →
    ∃ slot, s.encoder.ltr.cleanSlotBefore s.encoder.lostFrom = some slot ∧
      ∀ onto, s.forcedOnto = some onto → onto ≤ s.encoder.ltr.frame slot
  folded : s.stream.refused = false → ∀ n ∈ s.stream.named,
    s.encoder.lostPending = true ∧ s.encoder.lostFrom ≤ n
  idle : s.stream.named = [] → s.encoder.lostPending = false

theorem inv_start (slots stride : Int) : (start slots stride).Inv where
  bounded := Stream.bounded_start
  newest := fun p hp => by cases hp
  synced := fun slot f hheld => absurd hheld (not_heldAt_new slots stride slot f)
  old := fun slot f hheld => absurd hheld (not_heldAt_new slots stride slot f)
  apart := fun slot _ f hheld => absurd hheld (not_heldAt_new slots stride slot f)
  healthy := rfl
  pending := fun h => by cases h
  folded := fun _ n hn => absurd hn List.not_mem_nil
  idle := fun _ => rfl

variable {n : Nat}

theorem Inv.invalidate {s : AmfSystem} (h : s.Inv) (hreach : s.Reaches (.invalidate n))
    {t : AmfSystem} (hmove : s.move (.invalidate n) = some t) : t.Inv := by
  have hbounded := fun ok => h.bounded.name (n := n) ok
  have hnewest : ∀ ok p, s.stream.newest = some p → (s.stream.name n ok).Safe p :=
    fun ok p hp => (h.newest p hp).name ok
  have hsynced : ∀ ok slot f, s.encoder.ltr.HeldAt slot f →
      (∀ onto, s.forcedOnto = some onto → onto ≤ f) →
        ∃ p, s.driver (indexOf slot) = some p ∧ p.number = f ∧
          (s.stream.name n ok).Safe p := by
    intro ok slot f hheld honto
    obtain ⟨p, hp, hf, hsafe⟩ := h.synced slot f hheld honto
    exact ⟨p, hp, hf, hsafe.name ok⟩
  rcases @invalidateReference_cases s.encoder n with ⟨text, hcall⟩ | ⟨text, hcall⟩ |
    ⟨slot, hslot, hcall⟩
  · simp only [move, hcall] at hmove
    obtain rfl := Option.some.inj hmove
    refine ⟨hbounded _, hnewest _, hsynced _, h.old, h.apart, h.healthy, h.pending, ?_, ?_⟩
    · intro hno
      simp [Stream.name, Except.isOk, Except.toBool] at hno
    · intro hno
      simp [Stream.name] at hno
  · simp only [move, hcall] at hmove
    obtain rfl := Option.some.inj hmove
    refine ⟨hbounded _, hnewest _, hsynced _, h.old, h.apart, h.healthy, ?_, ?_, ?_⟩
    · intro hno
      cases hno
    · intro hno
      simp [Stream.name, Except.isOk, Except.toBool] at hno
    · exact fun _ => rfl
  · simp only [move, hcall] at hmove
    obtain rfl := Option.some.inj hmove
    refine ⟨hbounded _, hnewest _, hsynced _, h.old, h.apart, h.healthy, ?_, ?_, ?_⟩
    · intro _
      refine ⟨slot, hslot, ?_⟩
      intro onto honto
      obtain ⟨hheld, hless, hbest⟩ := cleanSlotBefore_eq_some hslot
      obtain ⟨slot', f, hheld', hless', hle⟩ := hreach onto honto ⟨_, _, hheld, hless⟩
      exact hle.trans (hbest slot' f hheld' hless')
    · intro hno m hm
      have hrefused : s.stream.refused = false := by
        simpa [Stream.name, Except.isOk, Except.toBool] using hno
      refine ⟨rfl, ?_⟩
      unfold lossFrom
      rcases List.mem_cons.mp hm with rfl | hold
      · split <;> simp
      · obtain ⟨hpending, hle⟩ := h.folded hrefused m hold
        rw [if_pos hpending]
        exact (Nat.min_le_left _ _).trans hle
    · intro hno
      simp [Stream.name] at hno

variable {s : AmfSystem}

/-- What an encode hands on before the mark: the frames the table keeps are older, in slots
of their own, and the driver has those from the last repair on. -/
structure Carried (s : AmfSystem) (request : Request) (n : Nat) (table : ReferenceSlots) :
    Prop where
  old : ∀ slot f, table.HeldAt slot f → f < n
  apart : ∀ slot slot' f, table.HeldAt slot f → table.HeldAt slot' f → slot = slot'
  synced : ∀ slot f, table.HeldAt slot f → (∀ onto, s.ontoOf request = some onto → onto ≤ f) →
    ∃ p, s.driver.kept s.stream.newest request (indexOf slot) = some p ∧ p.number = f ∧
      (s.stream.emit (s.picture request n)).Safe p

theorem after_eq (d : Driver) (previous : Option Picture) (n : Nat) (request : Request)
    (reply : Reply) (slot : Nat) :
    d.after previous n request reply (indexOf slot) =
      if request.markSlot = some slot ∧ reply.marks = true then
        some (d.picture previous n request)
      else d.kept previous request (indexOf slot) := by
  unfold after
  cases hmark : request.markSlot with
  | none => simp
  | some marked =>
    cases hmarks : reply.marks with
    | false => simp
    | true =>
      simp only [if_true, Option.some.injEq, and_true, Function.update_apply, Driver.indexOf,
        Nat.add_right_cancel_iff]
      by_cases hsame : slot = marked
      · rw [if_pos hsame, if_pos hsame.symm]
      · rw [if_neg hsame, if_neg (Ne.symm hsame)]

/-- The invariant after an encode, from what the two tables hold before the mark. -/
theorem inv_finish {asked : AmfEncoder} {request : Request} {reply : Reply}
    (hbounded : s.stream.Bounded) (hnew : ∀ q, s.stream.newest = some q → q.number < n)
    (hdocumented : reply.documented asked.ltr.count = true)
    (hmark : ∀ slot, request.markSlot = some slot → slot < asked.ltr.count)
    (hidle : asked.lostPending = false) (hhealthy : asked.forceKeyframeNext = false)
    (hthere : ∀ slot, request.forced = some slot →
      (s.driver (indexOf slot)).isSome = true)
    (hnumber : (s.picture request n).number = n)
    (hsafe : (s.stream.emit (s.picture request n)).Safe (s.picture request n))
    (hcarried : s.Carried request n (asked.base (s.collected asked request n reply).2)) :
    (s.finish asked request n reply).Inv := by
  have hheld : ∀ slot f, (s.finish asked request n reply).encoder.ltr.HeldAt slot f ↔
      if request.markSlot = some slot ∧ reply.marks = true then f = n
      else (asked.base (s.collected asked request n reply).2).HeldAt slot f :=
    fun slot f => heldAt_collect s.driver s.stream.newest hdocumented hmark
  have hle : ∀ slot f, (s.finish asked request n reply).encoder.ltr.HeldAt slot f → f ≤ n := by
    intro slot f hf
    rw [hheld] at hf
    by_cases hnow : request.markSlot = some slot ∧ reply.marks = true
    · rw [if_pos hnow] at hf
      exact hf.le
    · rw [if_neg hnow] at hf
      exact (hcarried.old slot f hf).le
  refine ⟨?_, ?_, ?_, ?_, ?_, ?_, ?_, ?_, ?_⟩
  · exact @Stream.Bounded.emit s.stream _ (fun q hq => by rw [hnumber]; exact hnew q hq) hbounded
  · intro p hp
    obtain rfl := Option.some.inj hp
    exact hsafe
  · intro slot f hf honto
    rw [hheld] at hf
    show ∃ p, s.driver.after s.stream.newest n request reply (indexOf slot) = some p ∧ _
    rw [after_eq]
    by_cases hnow : request.markSlot = some slot ∧ reply.marks = true
    · rw [if_pos hnow] at hf ⊢
      exact ⟨_, rfl, hnumber.trans hf.symm, hsafe⟩
    · rw [if_neg hnow] at hf ⊢
      exact hcarried.synced slot f hf honto
  · intro slot f hf
    exact ⟨_, rfl, (hle slot f hf).trans hnumber.ge⟩
  · intro slot slot' f hf hf'
    rw [hheld] at hf hf'
    by_cases hnow : request.markSlot = some slot ∧ reply.marks = true
    · by_cases hnow' : request.markSlot = some slot' ∧ reply.marks = true
      · exact Option.some.inj (hnow.1.symm.trans hnow'.1)
      · rw [if_pos hnow] at hf
        rw [if_neg hnow'] at hf'
        have hless := hcarried.old slot' f hf'
        omega
    · rw [if_neg hnow] at hf
      by_cases hnow' : request.markSlot = some slot' ∧ reply.marks = true
      · rw [if_pos hnow'] at hf'
        have hless := hcarried.old slot f hf
        omega
      · rw [if_neg hnow'] at hf'
        exact hcarried.apart slot slot' f hf hf'
  · exact collect_healthy hhealthy n
      fun hbits => clean_report s.driver s.stream.newest hthere hbits
  · intro hpending
    have hnone : (s.finish asked request n reply).encoder.lostPending = false :=
      (collect_lostPending request n _).trans hidle
    rw [hnone] at hpending
    cases hpending
  · exact fun _ m hm => absurd hm List.not_mem_nil
  · exact fun _ => (collect_lostPending request n _).trans hidle

theorem carried_of_empty {request : Request} {table : ReferenceSlots}
    (hempty : ∀ slot f, ¬ table.HeldAt slot f) : s.Carried request n table where
  old := fun slot f hf => absurd hf (hempty slot f)
  apart := fun slot _ f hf => absurd hf (hempty slot f)
  synced := fun slot f hf => absurd hf (hempty slot f)

section

variable (h : s.Inv) {n : Nat} (hnew : ∀ q, s.stream.newest = some q → q.number < n) {reply : Reply}
  (hdocumented : reply.documented s.encoder.ltr.count = true)
include h hnew hdocumented

/-- A keyframe, forced by the caller or the first picture. -/
theorem Inv.encode_key {asked : AmfEncoder} {keyframe : Bool} {markSlot : Option Nat}
    (hkey : keyframe = true ∨ s.stream.newest = none) (hltr : asked.ltr = s.encoder.ltr)
    (hidle : asked.lostPending = false) (hhealthy : asked.forceKeyframeNext = false)
    (hmark : ∀ slot, markSlot = some slot → slot < s.encoder.ltr.count) :
    (s.finish asked ⟨keyframe, none, markSlot⟩ n reply).Inv := by
  have hpicture : s.picture ⟨keyframe, none, markSlot⟩ n = .key n := by
    unfold picture Driver.picture
    rcases hkey with rfl | hfirst
    · cases s.stream.newest <;> rfl
    · rw [hfirst]
  have hempty : ∀ slot f,
      ¬ (asked.base (s.collected asked ⟨keyframe, none, markSlot⟩ n reply).2).HeldAt slot f := by
    intro slot f hf
    rcases hkey with rfl | hfirst
    · rw [show (s.collected asked ⟨true, none, markSlot⟩ n reply).2 = true from
        collect_keyframe _ _ _ _ _] at hf
      exact not_heldAt_clear slot f hf
    · cases hflag : (s.collected asked ⟨keyframe, none, markSlot⟩ n reply).2 with
      | true =>
        rw [hflag] at hf
        exact not_heldAt_clear slot f hf
      | false =>
        rw [hflag, base, if_neg Bool.false_ne_true, hltr] at hf
        obtain ⟨q, hq, _⟩ := h.old slot f hf
        rw [hfirst] at hq
        cases hq
  refine inv_finish h.bounded hnew (by rwa [hltr]) ?_ hidle hhealthy ?_ ?_ ?_
    (carried_of_empty hempty)
  · rwa [hltr]
  · exact fun slot hslot => by cases hslot
  · rw [hpicture, Picture.number_key]
  · rw [hpicture]
    exact Stream.safe_emit_key h.bounded hnew

theorem Inv.encode_plain {q : Picture} (hq : s.stream.newest = some q)
    (hnamed : s.stream.named = []) {request : Request}
    (hrequest : request = ⟨false, none, s.encoder.ltr.slotFor n false⟩) :
    (s.finish { s.encoder with forceKeyframeNext := false, lostPending := false } request n
        reply).Inv ∧
      s.Predicts request
        (s.finish { s.encoder with forceKeyframeNext := false, lostPending := false } request n
          reply) n := by
  subst hrequest
  have hpicture : s.picture ⟨false, none, s.encoder.ltr.slotFor n false⟩ n = .delta n q := by
    unfold picture Driver.picture
    rw [hq]
    rfl
  have hbefore : ∀ (p : Picture), ∀ m ∈ s.stream.named, p.number < m := by
    rw [hnamed]
    exact fun p m hm => absurd hm List.not_mem_nil
  have hflag : (s.collected { s.encoder with forceKeyframeNext := false, lostPending := false }
      ⟨false, none, s.encoder.ltr.slotFor n false⟩ n reply).2 = false := by
    refine (collect_keyframe _ _ _ _ _).trans ?_
    rw [hq]
    simp
  constructor
  · refine inv_finish h.bounded hnew hdocumented (fun slot => slotFor_lt) rfl rfl
      ?_ ?_ ?_ ?_
    · exact fun slot hslot => by cases hslot
    · rw [hpicture, Picture.number_delta]
    · rw [hpicture]
      exact Stream.safe_emit_delta h.bounded hnew (h.newest q hq) (hbefore q)
    · rw [hflag]
      refine ⟨?_, h.apart, ?_⟩
      · intro slot f hf
        obtain ⟨q', hq', hle⟩ := h.old slot f hf
        exact hle.trans_lt (hnew q' hq')
      · intro slot f hf honto
        rw [ontoOf, hq] at honto
        obtain ⟨p, hp, hnumber, hsafe⟩ := h.synced slot f hf honto
        refine ⟨p, ?_, hnumber, ?_⟩
        · rw [kept, hq]
          exact hp
        · exact hsafe.emit (by rw [hpicture]; exact hnew) (hbefore p)
  · refine ⟨rfl, hflag, q, ?_, (h.newest q hq).repaired (hbefore q), hq⟩
    exact congrArg some hpicture

/-- A delta forced onto the newest frame before the losses. -/
theorem Inv.encode_repair {slot : Nat} (hpending : s.encoder.lostPending = true)
    (hslot : s.encoder.ltr.cleanSlotBefore s.encoder.lostFrom = some slot)
    (hrefused : s.stream.refused = false) {request : Request} (hrequest : request =
      ⟨false, some slot, (s.encoder.ltr.dropFrom s.encoder.lostFrom).slotFor n false⟩) :
    (s.finish { s.encoder with
        ltr := s.encoder.ltr.dropFrom s.encoder.lostFrom
        forceKeyframeNext := false
        lostPending := false } request n reply).Inv ∧
      s.Predicts request (s.finish { s.encoder with
        ltr := s.encoder.ltr.dropFrom s.encoder.lostFrom
        forceKeyframeNext := false
        lostPending := false } request n reply) n := by
  subst hrequest
  obtain ⟨hheld, hless, hbest⟩ := cleanSlotBefore_eq_some hslot
  obtain ⟨q, hq, _⟩ := h.old _ _ hheld
  have hreach : ∀ onto, s.forcedOnto = some onto → onto ≤ s.encoder.ltr.frame slot := by
    obtain ⟨slot', hslot', honto⟩ := h.pending hpending
    obtain rfl := Option.some.inj (hslot.symm.trans hslot')
    exact honto
  obtain ⟨p, hp, hnumber, hsafe⟩ := h.synced slot _ hheld hreach
  have hbefore : ∀ m ∈ s.stream.named, p.number < m := by
    intro m hm
    obtain ⟨_, hle⟩ := h.folded hrefused m hm
    omega
  have hpicture : s.picture ⟨false, some slot,
      (s.encoder.ltr.dropFrom s.encoder.lostFrom).slotFor n false⟩ n = .delta n p := by
    unfold picture Driver.picture
    rw [hq]
    simp [hp]
  have hflag : (s.collected { s.encoder with
      ltr := s.encoder.ltr.dropFrom s.encoder.lostFrom
      forceKeyframeNext := false
      lostPending := false }
      ⟨false, some slot, (s.encoder.ltr.dropFrom s.encoder.lostFrom).slotFor n false⟩ n reply).2 =
        false := by
    refine (collect_keyframe _ _ _ _ _).trans ?_
    rw [hq]
    simp
  constructor
  · refine inv_finish h.bounded hnew hdocumented (fun slot' => slotFor_lt) rfl rfl
      ?_ ?_ ?_ ?_
    · intro slot' hslot'
      obtain rfl := Option.some.inj hslot'
      rw [hp]
      rfl
    · rw [hpicture, Picture.number_delta]
    · rw [hpicture]
      exact Stream.safe_emit_delta h.bounded hnew hsafe hbefore
    · rw [hflag]
      refine ⟨?_, ?_, ?_⟩
      · intro slot' f hf
        obtain ⟨q', hq', hle⟩ := h.old slot' f (heldAt_dropFrom.mp hf).1
        exact hle.trans_lt (hnew q' hq')
      · intro slot' slot'' f hf hf'
        exact h.apart slot' slot'' f (heldAt_dropFrom.mp hf).1
          (heldAt_dropFrom.mp hf').1
      · -- Only the frame forced onto is that recent, and the driver keeps it.
        intro slot' f hf honto
        obtain ⟨hf, hfless⟩ := heldAt_dropFrom.mp hf
        rw [ontoOf, hq] at honto
        have hle : s.encoder.ltr.frame slot ≤ f := honto _ rfl
        obtain rfl : f = s.encoder.ltr.frame slot := le_antisymm (hbest slot' f hf hfless) hle
        obtain rfl := h.apart slot' slot _ hf hheld
        refine ⟨p, ?_, hnumber, ?_⟩
        · rw [kept, hq]
          simp [hp]
        · exact hsafe.emit (by rw [hpicture]; exact hnew) hbefore
  · refine ⟨rfl, hflag, p, congrArg some hpicture, hsafe.repaired hbefore, ?_, hp⟩
    rw [hnumber]
    exact hheld

end

theorem Inv.encode {s t : AmfSystem} (h : s.Inv) {force : Bool} {reply : Reply}
    (hmove : s.move (.encode force n reply) = some t) :
    t.Inv ∧ s.Sound (.encode force n reply) t := by
  simp only [move] at hmove
  split at hmove
  case isFalse => cases hmove
  case isTrue hguard =>
    simp only [Bool.and_eq_true, Bool.or_eq_true, Bool.not_eq_true'] at hguard
    obtain ⟨⟨hall, hrefused⟩, hdocumented⟩ := hguard
    have hnew : ∀ q, s.stream.newest = some q → q.number < n := by
      intro q hq
      rw [hq] at hall
      exact of_decide_eq_true hall
    obtain rfl := Option.some.inj hmove
    cases force with
    | true =>
      refine ⟨?_, fun hno => by cases hno⟩
      unfold AmfSystem.encode
      rw [submit_forced]
      exact h.encode_key hnew hdocumented (Or.inl rfl) rfl rfl rfl
        fun slot => slotFor_lt
    | false =>
      have hrefused : s.stream.refused = false := by simpa using hrefused
      cases hpending : s.encoder.lostPending with
      | true =>
        obtain ⟨slot, hslot, _⟩ := h.pending hpending
        have hsubmit := submit_repair h.healthy hpending hslot n
        have hencode := h.encode_repair hnew hdocumented hpending hslot hrefused rfl
        unfold AmfSystem.encode
        rw [hsubmit]
        refine ⟨hencode.1, fun _ _ _ => ?_⟩
        rw [request, hsubmit]
        exact hencode.2
      | false =>
        have hsubmit := submit_plain h.healthy hpending n
        unfold AmfSystem.encode
        rw [hsubmit]
        cases hq : s.stream.newest with
        | none =>
          refine ⟨?_, fun _ hsome => ?_⟩
          · exact h.encode_key hnew hdocumented (Or.inr hq) rfl rfl rfl
              fun slot => slotFor_lt
          · rw [hq] at hsome
            cases hsome
        | some q =>
          have hnamed : s.stream.named = [] := by
            rw [List.eq_nil_iff_forall_not_mem]
            intro m hm
            have hsome := (h.folded hrefused m hm).1
            rw [hpending] at hsome
            cases hsome
          have hencode := h.encode_plain hnew hdocumented hq hnamed rfl
          refine ⟨hencode.1, fun _ _ _ => ?_⟩
          rw [request, hsubmit]
          exact hencode.2

/-- Along a run whose losses all reach no further than the last repair, every step does
what is promised. -/
theorem sound_of_reaches {slots stride : Int} {events : List AmfEvent}
    (hreaches : EachStep (moves move) (fun s event _ => s.Reaches event) (start slots stride)
      events) :
    EachStep (moves move) Sound (start slots stride) events := by
  intro visited event rest s t hevents hrun hmove
  have hinv : s.Inv := by
    refine EachStep.invariant ?_ (hreaches.take hevents) (inv_start slots stride) hrun
    intro u e v hu hstep hreach
    cases e with
    | invalidate n => exact hu.invalidate hreach hstep
    | encode force n reply => exact (hu.encode hstep).1
  cases event with
  | invalidate n => trivial
  | encode force n reply => exact (hinv.encode hmove).2

end AmfSystem

end MoonlightWeb.NativeHost.Encode
