import MoonlightWeb.NativeHost.H264Vui

/-! # Where the rewrite of a parameter set is defined

The scale that a scaling list leaves is added to a signed code of up to 31 bits. The rewrite
has a value exactly when no such sum leaves the range of an `int32_t`; nothing else it computes
does.
-/

namespace MoonlightWeb.NativeHost.H264Vui

open Lib MachineInt Reading

namespace BitReader

theorem uFrom_lt (n : Nat) (r : BitReader) {k v : Nat} (hv : v < 2 ^ k) :
    (uFrom n v r).1 < 2 ^ (k + n) := by
  induction n generalizing k v r with
  | zero => exact hv
  | succ n ih =>
    unfold uFrom
    by_cases hend : r.pos ≥ r.bytes.length * 8
    · rw [if_pos hend]
      exact Nat.two_pow_pos _
    · rw [if_neg hend]
      have hbit : bitAt r.bytes r.pos < 2 := Nat.mod_lt _ Nat.two_pos
      have hmod := Nat.mod_le (2 * v + bitAt r.bytes r.pos) (2 ^ 32)
      have hpow : 2 ^ (k + 1) = 2 * 2 ^ k := pow_succ' 2 k
      have hnext := ih { r with pos := r.pos + 1 } (k := k + 1)
        (v := (2 * v + bitAt r.bytes r.pos) % 2 ^ 32) (by omega)
      rwa [show k + 1 + n = k + (n + 1) by omega] at hnext

theorem u_lt (n : Nat) (r : BitReader) : (r.u n).1 < 2 ^ n := by
  have h := uFrom_lt n r (k := 0) (v := 0) Nat.one_pos
  rwa [Nat.zero_add] at h

theorem zerosFrom_le (left zeros : Nat) (r : BitReader) {k : Nat}
    (h : (r.zerosFrom left zeros).1 = some k) : k ≤ zeros + left := by
  induction left generalizing zeros r with
  | zero =>
    unfold zerosFrom at h
    split_ifs at h
    have hk := Option.some.inj h
    omega
  | succ left ih =>
    unfold zerosFrom at h
    by_cases hone : (r.u 1).1 ≠ 0
    · rw [if_pos hone] at h
      have hk := Option.some.inj h
      omega
    · rw [if_neg hone] at h
      by_cases hend : (r.u 1).2.overrun = true
      · rw [if_pos hend] at h
        cases h
      · rw [if_neg hend] at h
        have hk := ih (zeros + 1) _ h
        omega

/-- An Exp-Golomb code stays below the greatest `uint32_t`. -/
theorem ue_lt (r : BitReader) : r.ue.1 < 2 ^ 32 - 1 := by
  unfold ue
  cases hzeros : r.zerosFrom 31 0 with
  | mk zeros r' =>
    cases zeros with
    | none => exact Nat.sub_pos_of_lt (by norm_num)
    | some k =>
      have hk : k ≤ 0 + 31 := zerosFrom_le 31 0 r (by rw [hzeros])
      have hlt := u_lt k r'
      have hpow : 2 ^ k ≤ 2 ^ 31 := Nat.pow_le_pow_right Nat.two_pos (by omega)
      dsimp only
      have hmod := Nat.mod_le (2 ^ k - 1 + (r'.u k).1) (2 ^ 32)
      omega

end BitReader

theorem run_bind {α β : Type} (m : Reading α) (f : α → Reading β) (r : BitReader) :
    (m >>= f) r = (m r).bind fun p => f p.1 p.2 := rfl

def Always {α : Type} (m : Reading α) : Prop := ∀ r, ∃ p, m r = .ok p

/-- A reading that may refuse but never meets a fault. -/
def NoFault {α : Type} (m : Reading α) : Prop := ∀ r f, m r ≠ .error (.fault f)

namespace Always

variable {α β : Type}

theorem bind {m : Reading α} {f : α → Reading β} (hm : Always m) (hf : ∀ a, Always (f a)) :
    Always (m >>= f) := by
  intro r
  obtain ⟨p, hp⟩ := hm r
  rw [run_bind, hp]
  exact hf p.1 p.2

theorem pure (a : α) : Always (Pure.pure a : Reading α) := fun r => ⟨(a, r), rfl⟩

theorem u (n : Nat) : Always (u n) := fun r => ⟨r.u n, rfl⟩

theorem ue : Always ue := fun r => ⟨r.ue, rfl⟩

theorem overrun : Always overrun := fun r => ⟨(r.overrun, r), rfl⟩

theorem position : Always position := fun r => ⟨(r.pos, r), rfl⟩

theorem setOverrun : Always setOverrun := fun _ => ⟨_, rfl⟩

theorem ite {p : Prop} [Decidable p] {m n : Reading α} (hm : Always m) (hn : Always n) :
    Always (if p then m else n) := by
  split_ifs
  · exact hm
  · exact hn

theorem optionally {m : Reading Unit} (condition : Bool) (hm : Always m) :
    Always (optionally condition m) := ite hm (pure ())

theorem bits (n : Nat) : Always (do let _ ← Reading.u n) := bind (u n) fun _ => pure ()

theorem noFault {m : Reading α} (hm : Always m) : NoFault m := by
  intro r f h
  obtain ⟨p, hp⟩ := hm r
  rw [hp] at h
  cases h

end Always

namespace NoFault

variable {α β : Type}

theorem bind {m : Reading α} {f : α → Reading β} (hm : NoFault m) (hf : ∀ a, NoFault (f a)) :
    NoFault (m >>= f) := by
  intro r fault h
  rw [run_bind] at h
  cases hr : m r with
  | error e =>
    rw [hr] at h
    injection h with h
    exact hm r fault (by rw [hr, h])
  | ok p =>
    rw [hr] at h
    exact hf p.1 p.2 fault h

theorem refuse : NoFault (refuse : Reading α) := fun _ _ h => by cases h

theorem refuseOverrun : NoFault Reading.refuseOverrun := by
  intro r fault h
  unfold Reading.refuseOverrun at h
  split_ifs at h
  cases h

theorem ite {p : Prop} [Decidable p] {m n : Reading α} (hm : NoFault m) (hn : NoFault n) :
    NoFault (if p then m else n) := by
  split_ifs
  · exact hm
  · exact hn

end NoFault

def signed (v : Nat) : Int := if v % 2 = 1 then (v + 1) / 2 else -(v / 2)

theorem se_run (r : BitReader) : se r = .ok (signed r.ue.1, r.ue.2) := by
  have hlt := r.ue_lt
  unfold se signed
  rw [run_bind]
  change (if r.ue.1 % 2 = 1 then _ else _ : Reading Int) r.ue.2 = _
  by_cases hodd : r.ue.1 % 2 = 1
  · have hmod : (r.ue.1 + 1) % 2 ^ 32 = r.ue.1 + 1 := Nat.mod_eq_of_lt (by omega)
    have hfits : Fits 32 (((r.ue.1 + 1) / 2 : Nat) : Int) := fits_32_iff.mpr (by omega)
    rw [if_pos hodd, if_pos hodd, hmod, fit_ok hfits]
    rfl
  · have hfits : Fits 32 ((r.ue.1 / 2 : Nat) : Int) := fits_32_iff.mpr (by omega)
    have hneg : Fits 32 (-((r.ue.1 / 2 : Nat) : Int)) := fits_32_iff.mpr (by omega)
    rw [if_neg hodd, if_neg hodd, fit_ok hfits, ok_bind, neg_ok hneg]
    rfl

theorem always_se : Always se := fun r => ⟨_, se_run r⟩

/-- The running scales of a list and the codes they are added to, and where it ends. -/
def scalesFrom : Nat → Int → Int → BitReader → List (Int × Int) × BitReader
  | 0, _, _, r => ([], r)
  | left + 1, last, next, r =>
      if r.overrun then ([], r)
      else if next = 0 then scalesFrom left last 0 r
      else
        let scale := (last + signed r.ue.1 + 256).tmod 256
        let (more, r') := scalesFrom left (if scale = 0 then last else scale) scale r.ue.2
        ((last, signed r.ue.1) :: more, r')

/-- The same for the lists from the one numbered `i`. -/
def listScalesFrom : Nat → Nat → BitReader → List (Int × Int) × BitReader
  | 0, _, r => ([], r)
  | left + 1, i, r =>
      if r.overrun then ([], r)
      else if (r.u 1).1 = 0 then listScalesFrom left (i + 1) (r.u 1).2
      else
        let (scales, r') := scalesFrom (if i < 6 then 16 else 64) 8 8 (r.u 1).2
        let (more, r'') := listScalesFrom left (i + 1) r'
        (scales ++ more, r'')

/-- A sum that an `int32_t` holds, before and after the 256 is added. -/
def InRange (p : Int × Int) : Prop := Fits 32 (p.1 + p.2) ∧ Fits 32 (p.1 + p.2 + 256)

instance (p : Int × Int) : Decidable (InRange p) := inferInstanceAs (Decidable (_ ∧ _))

theorem nextScale_run (last next : Int) (hnext : next ≠ 0) (r : BitReader) :
    nextScale last next r =
      if InRange (last, signed r.ue.1) then
        .ok ((last + signed r.ue.1 + 256).tmod 256, r.ue.2)
      else .error (.fault .overflow) := by
  unfold nextScale
  rw [if_pos hnext, run_bind, se_run]
  change checked _ r.ue.2 = _
  by_cases hmoved : Fits 32 (last + signed r.ue.1)
  · by_cases hshifted : Fits 32 (last + signed r.ue.1 + 256)
    · have hquotient := fits_tdiv (b := 256) (by decide) hshifted
      rw [if_pos ⟨hmoved, hshifted⟩, add_ok hmoved, ok_bind, add_ok hshifted, ok_bind,
        rem_ok (by decide) hquotient]
      rfl
    · have hnot : ¬InRange (last, signed r.ue.1) := fun h => hshifted h.2
      rw [if_neg hnot, add_ok hmoved, ok_bind, add, fit_error hshifted]
      rfl
  · have hnot : ¬InRange (last, signed r.ue.1) := fun h => hmoved h.1
    rw [if_neg hnot, add, fit_error hmoved]
    rfl

/-- A scaling list is skipped, or its first sum out of range is a fault. -/
theorem skipScalesFrom_run (left : Nat) (last next : Int) (r : BitReader) :
    skipScalesFrom left last next r =
      if ∀ p ∈ (scalesFrom left last next r).1, InRange p then
        .ok ((), (scalesFrom left last next r).2)
      else .error (.fault .overflow) := by
  induction left generalizing last next r with
  | zero =>
    have hnone : ∀ p ∈ (scalesFrom 0 last next r).1, InRange p :=
      fun p hp => absurd hp List.not_mem_nil
    rw [if_pos hnone]
    rfl
  | succ left ih =>
    unfold skipScalesFrom scalesFrom
    rw [run_bind]
    change (if r.overrun = true then _ else _ : Reading Unit) r = _
    by_cases hoverrun : r.overrun = true
    · rw [if_pos hoverrun, if_pos hoverrun,
        if_pos fun p hp => absurd hp List.not_mem_nil]
      rfl
    · rw [if_neg hoverrun, if_neg hoverrun, run_bind]
      by_cases hnext : next = 0
      · have hkept : nextScale last next r = .ok (0, r) := by
          rw [hnext]
          rfl
        rw [hkept, if_pos hnext]
        exact ih last 0 r
      · rw [nextScale_run last next hnext r, if_neg hnext]
        by_cases hrange : InRange (last, signed r.ue.1)
        · rw [if_pos hrange]
          refine (ih _ _ _).trans ?_
          simp only [List.forall_mem_cons, hrange, true_and]
        · rw [if_neg hrange]
          simp only [List.forall_mem_cons, hrange, false_and, if_false]
          rfl

theorem skipListsFrom_run (left i : Nat) (r : BitReader) :
    skipListsFrom left i r =
      if ∀ p ∈ (listScalesFrom left i r).1, InRange p then
        .ok ((), (listScalesFrom left i r).2)
      else .error (.fault .overflow) := by
  induction left generalizing i r with
  | zero =>
    have hnone : ∀ p ∈ (listScalesFrom 0 i r).1, InRange p :=
      fun p hp => absurd hp List.not_mem_nil
    rw [if_pos hnone]
    rfl
  | succ left ih =>
    unfold skipListsFrom listScalesFrom
    rw [run_bind]
    change (if r.overrun = true then _ else _ : Reading Unit) r = _
    by_cases hoverrun : r.overrun = true
    · rw [if_pos hoverrun, if_pos hoverrun,
        if_pos fun p hp => absurd hp List.not_mem_nil]
      rfl
    · rw [if_neg hoverrun, if_neg hoverrun, run_bind]
      change (optionally (decide ((r.u 1).1 ≠ 0)) _ >>= fun _ => skipListsFrom left (i + 1))
        (r.u 1).2 = _
      rw [run_bind]
      by_cases hpresent : (r.u 1).1 = 0
      · have hskip : optionally (decide ((r.u 1).1 ≠ 0))
            (skipScalingList (if i < 6 then 16 else 64)) (r.u 1).2 = .ok ((), (r.u 1).2) := by
          rw [hpresent]
          rfl
        rw [hskip, if_pos hpresent]
        exact ih (i + 1) (r.u 1).2
      · have hskip : optionally (decide ((r.u 1).1 ≠ 0))
            (skipScalingList (if i < 6 then 16 else 64)) (r.u 1).2 =
              skipScalesFrom (if i < 6 then 16 else 64) 8 8 (r.u 1).2 := by
          rw [decide_eq_true hpresent]
          rfl
        rw [hskip, if_neg hpresent, skipScalesFrom_run]
        by_cases hrange : ∀ p ∈ (scalesFrom (if i < 6 then 16 else 64) 8 8 (r.u 1).2).1, InRange p
        · rw [if_pos hrange]
          refine (ih _ _).trans ?_
          simp only [List.forall_mem_append, and_iff_right hrange]
        · rw [if_neg hrange]
          simp only [List.forall_mem_append, hrange, false_and, if_false]
          rfl

theorem always_skipOffsetsFrom (left : Nat) : Always (skipOffsetsFrom left) := by
  induction left with
  | zero => exact .pure ()
  | succ left ih =>
    unfold skipOffsetsFrom
    exact .bind .overrun fun _ => .ite (.pure ()) (.bind always_se fun _ => ih)

theorem always_skipCpbsFrom (left : Nat) : Always (skipCpbsFrom left) := by
  induction left with
  | zero => exact .pure ()
  | succ left ih =>
    unfold skipCpbsFrom
    exact .bind .overrun fun _ => .ite (.pure ())
      (.bind .ue fun _ => .bind .ue fun _ => .bind (.u 1) fun _ => ih)

theorem always_skipHrd : Always skipHrd := by
  unfold skipHrd
  refine .bind .ue fun _ => .ite .setOverrun ?_
  exact .bind (.u 4) fun _ => .bind (.u 4) fun _ => .bind (always_skipCpbsFrom _) fun _ =>
    .bind (.u 5) fun _ => .bind (.u 5) fun _ => .bind (.u 5) fun _ => .bits 5

theorem noFault_skipPicOrderCnt : NoFault skipPicOrderCnt := by
  unfold skipPicOrderCnt
  refine .bind Always.ue.noFault fun _ => .ite ?_ (.ite ?_ ?_)
  · exact (Always.bind .ue fun _ => .pure ()).noFault
  · refine .bind (Always.u 1).noFault fun _ => .bind always_se.noFault fun _ => ?_
    refine .bind always_se.noFault fun _ => .bind Always.ue.noFault fun _ => ?_
    exact .ite .refuse (always_skipOffsetsFrom _).noFault
  · exact (Always.pure ()).noFault

theorem always_skipCropping : Always skipCropping := by
  unfold skipCropping
  exact .bind .ue fun _ => .bind .ue fun _ => .bind .ue fun _ => .bind .ue fun _ => .pure ()

theorem noFault_skipFrames : NoFault skipFrames := by
  unfold skipFrames
  refine .bind Always.ue.noFault fun _ => .bind noFault_skipPicOrderCnt fun _ => ?_
  refine (Always.bind .ue fun _ => .bind (.u 1) fun _ => .bind .ue fun _ => .bind .ue fun _ =>
    .bind (.u 1) fun _ => .bind (.optionally _ (.bits 1)) fun _ => ?_).noFault
  exact .bind (.u 1) fun _ => .bind (.u 1) fun _ =>
    .bind (.optionally _ always_skipCropping) fun _ => .pure _

theorem always_skipAspectRatio : Always skipAspectRatio := by
  unfold skipAspectRatio
  exact .bind (.u 8) fun _ => .optionally _ (.bits 32)

theorem always_skipVideoSignal : Always skipVideoSignal := by
  unfold skipVideoSignal
  exact .bind (.u 4) fun _ => .bind (.u 1) fun _ => .optionally _ (.bits 24)

theorem always_skipChromaLoc : Always skipChromaLoc := by
  unfold skipChromaLoc
  exact .bind .ue fun _ => .bind .ue fun _ => .pure ()

theorem always_skipPresent {m : Reading Unit} (hm : Always m) : Always (skipPresent m) := by
  unfold skipPresent
  exact .bind (.u 1) fun _ => .bind (.optionally _ hm) fun _ => .pure _

theorem always_skipVui : Always skipVui := by
  unfold skipVui
  refine .bind (always_skipPresent always_skipAspectRatio) fun _ => ?_
  refine .bind (always_skipPresent (.bits 1)) fun _ => ?_
  refine .bind (always_skipPresent always_skipVideoSignal) fun _ => ?_
  refine .bind (always_skipPresent always_skipChromaLoc) fun _ => ?_
  refine .bind (always_skipPresent (.bits 65)) fun _ => ?_
  refine .bind (always_skipPresent always_skipHrd) fun _ => ?_
  refine .bind (always_skipPresent always_skipHrd) fun _ => ?_
  exact .bind (.optionally _ (.bits 1)) fun _ => .bits 1

theorem noFault_readTail (refFrames : Nat) : NoFault (readTail refFrames) := by
  unfold readTail
  refine .bind .refuseOverrun fun _ => .bind Always.position.noFault fun _ => ?_
  refine .bind (Always.u 1).noFault fun _ => .ite ?_ (Always.pure _).noFault
  refine .bind always_skipVui.noFault fun _ => .bind .refuseOverrun fun _ => ?_
  exact (Always.bind .position fun _ => .pure _).noFault

/-- The part before the scaling lists is always read. -/
theorem always_skipHead : Always skipHead := by
  unfold skipHead skipChroma
  refine .bind (.u 8) fun _ => .bind (.u 8) fun _ => .bind (.u 8) fun _ => .bind .ue fun _ => ?_
  refine .ite (.bind .ue fun _ => .bind (.optionally _ (.bits 1)) fun _ => ?_) (.pure 0)
  exact .bind .ue fun _ => .bind .ue fun _ => .bind (.u 1) fun _ => .bind (.u 1) fun _ => .pure _

/-- The running scales of a parameter set and the codes they are added to. -/
def scales (sps : Bytes) : List (Int × Int) :=
  if sps.length < 4 ∨ sps.headD 0 &&& 0x1f ≠ 7 then []
  else
    match skipHead.run ⟨unescape sps.tail, 0, false⟩ with
    | .ok (lists, r) => (listScalesFrom lists 0 r).1
    | .error _ => []

theorem answered_ok_iff (sps : Bytes) (parse : Except Stop (Parsed × BitReader)) :
    (∃ out, answered sps parse = .ok out) ↔ ∀ f, parse ≠ .error (.fault f) := by
  match parse with
  | .ok (p, _) => exact ⟨fun _ f => (by simp), fun _ => ⟨_, rfl⟩⟩
  | .error .refused => exact ⟨fun _ f => (by simp), fun _ => ⟨_, rfl⟩⟩
  | .error (.fault f) =>
    constructor
    · intro ⟨out, hout⟩
      change Except.error f = _ at hout
      cases hout
    · exact fun h => absurd rfl (h f)

/-- The parse meets a fault exactly where a sum of the scaling lists is out of range. -/
theorem readSps_fault_iff (r : BitReader) {lists : Nat} {r' : BitReader}
    (hhead : skipHead r = .ok (lists, r')) :
    (∀ f, readSps r ≠ .error (.fault f)) ↔ ∀ p ∈ (listScalesFrom lists 0 r').1, InRange p := by
  have hrun : readSps r =
      (skipListsFrom lists 0 r').bind fun p => (skipFrames >>= readTail) p.2 := by
    unfold readSps
    rw [run_bind, hhead]
    rfl
  have hrest : NoFault (skipFrames >>= readTail) := noFault_skipFrames.bind noFault_readTail
  rw [hrun, skipListsFrom_run]
  by_cases hrange : ∀ p ∈ (listScalesFrom lists 0 r').1, InRange p
  · rw [if_pos hrange]
    exact ⟨fun _ => hrange, fun _ f => hrest _ f⟩
  · rw [if_neg hrange]
    exact ⟨fun h => absurd rfl (h .overflow), fun h => absurd h hrange⟩

/-- The rewrite has a value exactly when every sum of its scaling lists is in range. -/
theorem rewrite_defined_iff (sps : Bytes) :
    (∃ out, h264WithNoReorderVui sps = .ok out) ↔ ∀ p ∈ scales sps, InRange p := by
  unfold h264WithNoReorderVui scales
  by_cases hguard : sps.length < 4 ∨ sps.headD 0 &&& 0x1f ≠ 7
  · rw [if_pos hguard, if_pos hguard]
    exact ⟨fun _ p hp => absurd hp List.not_mem_nil, fun _ => ⟨[], rfl⟩⟩
  · obtain ⟨⟨lists, r⟩, hhead⟩ := always_skipHead ⟨unescape sps.tail, 0, false⟩
    have hhead' : skipHead.run ⟨unescape sps.tail, 0, false⟩ = .ok (lists, r) := hhead
    rw [if_neg hguard, if_neg hguard, answered_ok_iff, hhead']
    exact readSps_fault_iff _ hhead

def hostileSps : Bytes :=
  [0x67, 0x64, 0x00, 0x2a, 0xad, 0x80, 0x00, 0x00, 0x03, 0x00, 0xff, 0xff, 0xff, 0xfe, 0x80]

/-- 8 and the greatest signed code do not fit an `int32_t`. -/
theorem hostileSps_overflows : h264WithNoReorderVui hostileSps = .error .overflow := by
  decide +kernel

end MoonlightWeb.NativeHost.H264Vui
