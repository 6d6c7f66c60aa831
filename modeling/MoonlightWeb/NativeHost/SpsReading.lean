import MoonlightWeb.NativeHost.VuiReading

/-! # Reading the elements of a parameter set

Each part of the reader passes the bits of the element it is for, whatever optional parts the
element has.
-/

namespace MoonlightWeb.NativeHost.H264Vui

open Lib MachineInt Bits Grammar EmulationPrevention Grammar H264

variable (left : Nat)

/-- Once the next scale is 0, no more codes are read. -/
theorem reads_afterZero (last : Int) : Reads (skipScalesFrom left last 0) [] () := by
  induction left with
  | zero => exact .pure ()
  | succ left ih =>
    have hzero : Reads (nextScale last 0) [] 0 := .pure 0
    exact .turn (hzero.bind ih)

theorem reads_nextScale {last next delta : Int} (hlast : 1 ≤ last ∧ last ≤ 255) (hnext : next ≠ 0)
    (hdelta : se.Valid delta) (hrange : -128 ≤ delta ∧ delta ≤ 127) :
    Reads (nextScale last next) (se.write delta) ((last + delta + 256) % 256) := by
  intro r tail hover h
  have hse := Reads.se hdelta r tail hover h
  rw [se_run] at hse
  obtain ⟨hvalue, hafter⟩ := Prod.mk.inj (Except.ok.inj hse)
  have hsum : InRange (last, delta) := by
    constructor
    · exact fits_32_iff.mpr (by dsimp only; omega)
    · exact fits_32_iff.mpr (by dsimp only; omega)
  have hmod : (last + delta + 256).tmod 256 = (last + delta + 256) % 256 :=
    Int.tmod_eq_emod_of_nonneg (by omega)
  rw [nextScale_run last next hnext, hvalue, if_pos hsum, hmod, hafter]

theorem reads_skipScalesFrom {last next : Int} (hlast : 1 ≤ last ∧ last ≤ 255)
    {codes : List Int} (h : (scalingListFrom left last next).Valid codes) :
    Reads (skipScalesFrom left last next) ((scalingListFrom left last next).write codes) ()
    := by
  induction left generalizing last next codes with
  | zero => exact .pure ()
  | succ left ih =>
    unfold scalingListFrom at h ⊢
    by_cases hnext : next = 0
    · subst hnext
      rw [if_pos rfl]
      exact reads_afterZero (left + 1) last
    · rw [if_neg hnext] at h ⊢
      obtain ⟨delta, more, rfl, ⟨hvalid, hrange⟩, hmore⟩ := h
      refine .turn (.bind (reads_nextScale hlast hnext hvalid hrange) (ih ?_ hmore))
      split_ifs with hzero
      · exact hlast
      · omega

theorem reads_skipListsFrom (left i : Nat) {lists : List (Option (List Int))}
    (h : (each ((List.range' i left).map fun i =>
      flagged (scalingList (if i < 6 then 16 else 64)))).Valid lists) :
    Reads (skipListsFrom left i) ((each ((List.range' i left).map fun i =>
        flagged (scalingList (if i < 6 then 16 else 64)))).write lists) () := by
  induction left generalizing i lists with
  | zero => exact .pure ()
  | succ left ih =>
    rw [List.range'_succ, List.map_cons] at h ⊢
    obtain ⟨list, more, rfl, hlist, hmore⟩ := h
    have hcondition : decide (list.isSome.toNat ≠ 0) = list.isSome := by
      cases list <;> rfl
    have hone := Reads.opt hcondition (g := scalingList (if i < 6 then 16 else 64))
      (m := skipScalingList (if i < 6 then 16 else 64))
      (fun codes hcodes => reads_skipScalesFrom _ (by decide) hcodes) (o := list) ⟨rfl, hlist⟩
    have hturn := (Reads.flag list.isSome).bind
      (f := fun present => do
        Reading.optionally (present ≠ 0) (skipScalingList (if i < 6 then 16 else 64))
        skipListsFrom left (i + 1))
      (hone.bind (ih (i + 1) hmore))
    rw [← List.append_assoc] at hturn
    exact .turn hturn

/-- The bits of a chroma description up to its scaling lists, which come behind. -/
theorem reads_chroma {c : Chroma} (h : chroma.Valid c) :
    ∃ count head lists, chroma.write c = head ++ lists ∧ Reads skipChroma head count ∧
      Reads (skipListsFrom count 0) lists () := by
  obtain ⟨format, separate, luma, chroma, bypass, matrix⟩ := c
  obtain ⟨hformat, hseparate, hluma, hchroma, _, hmatrix⟩ := h
  have hskip : Reads skipChroma
      (ue.write format ++ ((opt (format = 3) flag).write separate ++
        (ue.write luma ++ (ue.write chroma ++ ([bypass] ++ ([matrix.isSome] ++
          []))))))
      (if matrix.isSome.toNat ≠ 0 then if format = 3 then 12 else 8 else 0) := by
    unfold skipChroma
    refine .bind (.ue hformat) (.bind (.opt rfl (fun b _ => .last (.flag b)) hseparate) ?_)
    exact .bind (.ue hluma) (.bind (.ue hchroma) (.bind (.flag bypass)
      (.bind (.flag matrix.isSome) (.pure _))))
  refine ⟨_, _, matrix.elim [] (scalingLists format).write, ?_, hskip, ?_⟩
  · simp only [List.append_assoc, List.nil_append]
    rfl
  · cases matrix with
    | none => exact .pure ()
    | some lists =>
      have hlists := hmatrix lists rfl
      have hcount : (if (some lists).isSome.toNat ≠ 0 then if format = 3 then 12 else 8 else 0) =
          scalingListCount format := by
        unfold scalingListCount
        simp
      change (scalingLists format).Valid lists at hlists
      change Reads _ ((scalingLists format).write lists) ()
      rw [hcount]
      unfold scalingLists at hlists ⊢
      rw [List.range_eq_range'] at hlists ⊢
      exact reads_skipListsFrom _ 0 hlists

theorem reads_profile {p : Profile} (h : profile.Valid p) :
    ∃ count head lists, profile.write p = head ++ lists ∧ Reads skipHead head count ∧
      Reads (skipListsFrom count 0) lists () := by
  obtain ⟨profileIdc, constraints, level, id, chroma⟩ := p
  obtain ⟨hprofile, hconstraints, hlevel, hid, hpresent, hchroma⟩ := h
  have hstart : ∀ {bits : List Bool} {count : Nat},
      Reads (if profileIdc ∈ highProfiles then skipChroma else pure 0) bits count →
      Reads skipHead ((u 8).write profileIdc ++ ((u 8).write constraints ++
        ((u 8).write level ++ (ue.write id ++ bits)))) count := by
    intro bits count hbits
    unfold skipHead
    exact .bind (.u (by decide) hprofile) (.bind (.u (by decide) hconstraints)
      (.bind (.u (by decide) hlevel) (.bind (.ue hid) hbits)))
  cases chroma with
  | none =>
    have hnot : profileIdc ∉ highProfiles := of_decide_eq_false hpresent.symm
    refine ⟨0, _, [], ?_, hstart (.ite_neg hnot (.pure 0)), .pure ()⟩
    rw [List.append_nil]
    rfl
  | some c =>
    have hhigh : profileIdc ∈ highProfiles := of_decide_eq_true hpresent.symm
    obtain ⟨count, head, lists, hwrite, hskip, hlists⟩ := reads_chroma (hchroma c rfl)
    refine ⟨count, _, lists, ?_, hstart (.ite_pos hhigh hskip), hlists⟩
    simp only [List.append_assoc]
    rw [← hwrite]
    rfl

theorem reads_skipOffsetsFrom {offsets : List Int}
    (h : (each (List.replicate left se)).Valid offsets) :
    Reads (skipOffsetsFrom left) ((each (List.replicate left se)).write offsets) () := by
  induction left generalizing offsets with
  | zero => exact .pure ()
  | succ left ih =>
    obtain ⟨offset, more, rfl, hoffset, hmore⟩ := h
    exact .turn (.bind (.se hoffset) (ih hmore))

theorem reads_skipPicOrderCnt {p : PicOrderCnt} (h : picOrderCnt.Valid p) :
    Reads skipPicOrderCnt (picOrderCnt.write p) () := by
  obtain ⟨type, lsb, cycle⟩ := p
  obtain ⟨⟨htype, _⟩, ⟨hlsbPresent, hlsb⟩, hcyclePresent, hcycle⟩ := h
  change Reads skipPicOrderCnt (ue.write type ++ (lsb.elim [] ue.write ++
    cycle.elim [] pocCycle.write)) ()
  unfold skipPicOrderCnt
  refine .bind (.ue htype) ?_
  cases lsb with
  | some lsb =>
    have hzero : type = 0 := of_decide_eq_true hlsbPresent.symm
    subst hzero
    obtain rfl : cycle = none := by simpa using hcyclePresent
    refine .ite_pos rfl ?_
    change Reads _ (ue.write lsb ++ []) ()
    rw [List.append_nil]
    exact .last (.ue (hlsb lsb rfl))
  | none =>
    have hzero : type ≠ 0 := of_decide_eq_false hlsbPresent.symm
    refine .ite_neg hzero ?_
    cases cycle with
    | none =>
      have hone : type ≠ 1 := of_decide_eq_false hcyclePresent.symm
      exact .ite_neg hone (.pure ())
    | some cycle =>
      have hone : type = 1 := of_decide_eq_true hcyclePresent.symm
      obtain ⟨always, nonRef, topToBottom, count, offsets⟩ := cycle
      obtain ⟨_, hnonRef, htop, ⟨hcount, hfew⟩, hoffsets⟩ := hcycle _ rfl
      have hnot : ¬count > 255 := Nat.not_lt.mpr hfew
      change Reads _ (pocCycle.write ⟨always, nonRef, topToBottom, count, offsets⟩) ()
      exact .ite_pos hone (.bind (.flag always) (.bind (.se hnonRef) (.bind (.se htop)
        (.bind (.ue hcount) (.ite_neg hnot (reads_skipOffsetsFrom count hoffsets))))))

theorem reads_skipCropping {c : FrameCrop} (h : frameCrop.Valid c) :
    Reads skipCropping (frameCrop.write c) () := by
  obtain ⟨hleft, hright, htop, hbottom⟩ := h
  exact .bind (.ue hleft) (.bind (.ue hright) (.bind (.ue htop) (.last (.ue hbottom))))

theorem reads_skipFrames {f : Frames} (h : frames.Valid f) :
    Reads skipFrames (frames.write f) f.maxNumRefFrames := by
  obtain ⟨maxFrameNum, poc, refFrames, gaps, width, height, mbsOnly, adaptive, direct, crop⟩ := f
  obtain ⟨hmax, hpoc, href, _, hwidth, hheight, _, hadaptive, _, hcrop⟩ := h
  have hnot : decide (mbsOnly.toNat = 0) = !mbsOnly := by
    cases mbsOnly <;> rfl
  have hset : decide (crop.isSome.toNat ≠ 0) = crop.isSome := by
    cases crop <;> rfl
  have hskip : Reads skipFrames
      (ue.write maxFrameNum ++ (picOrderCnt.write poc ++ (ue.write refFrames ++
        ([gaps] ++ (ue.write width ++ (ue.write height ++ ([mbsOnly] ++
          ((opt (!mbsOnly) flag).write adaptive ++ ([direct] ++ ([crop.isSome] ++
            ((opt crop.isSome frameCrop).write crop ++ [])))))))))))
      refFrames := by
    unfold skipFrames
    refine .bind (.ue hmax) (.bind (reads_skipPicOrderCnt hpoc) (.bind (.ue href) ?_))
    refine .bind (.flag gaps) (.bind (.ue hwidth) (.bind (.ue hheight) (.bind (.flag mbsOnly) ?_)))
    refine .bind (.opt hnot (fun b _ => .last (.flag b)) hadaptive) (.bind (.flag direct) ?_)
    exact .bind (.flag crop.isSome)
      (.bind (.opt hset (fun _ hc => reads_skipCropping hc) ⟨rfl, hcrop⟩) (.pure _))
  rw [List.append_nil] at hskip
  exact hskip

theorem reads_skipCpbsFrom {cpbs : List H264.Cpb}
    (h : (each (List.replicate left H264.cpb)).Valid cpbs) :
    Reads (skipCpbsFrom left) ((each (List.replicate left H264.cpb)).write cpbs) () := by
  induction left generalizing cpbs with
  | zero => exact .pure ()
  | succ left ih =>
    obtain ⟨cpb, more, rfl, ⟨hrate, hsize, _⟩, hmore⟩ := h
    have hwrite : (each (List.replicate (left + 1) H264.cpb)).write (cpb :: more) =
        ue.write cpb.bitRateValueMinus1 ++ (ue.write cpb.sizeValueMinus1 ++
          ([cpb.cbr] ++ (each (List.replicate left H264.cpb)).write more)) := by
      change (ue.write _ ++ (ue.write _ ++ [cpb.cbr])) ++ _ = _
      simp only [List.append_assoc]
    rw [hwrite]
    exact .turn (.bind (.ue hrate) (.bind (.ue hsize) (.bind (.flag cpb.cbr) (ih hmore))))

theorem reads_skipHrd {h : Hrd} (hvalid : hrd.Valid h) :
    Reads skipHrd (hrd.write h) () := by
  obtain ⟨count, rate, size, cpbs, initial, removal, output, offset⟩ := h
  obtain ⟨⟨hcount, hfew⟩, hrate, hsize, hcpbs, hinitial, hremoval, houtput, hoffset⟩ := hvalid
  have hmod : (count + 1) % 2 ^ 32 = count + 1 :=
    Nat.mod_eq_of_lt (by dsimp only at hfew; omega)
  have hnot : ¬(count + 1) % 2 ^ 32 > 32 := by
    dsimp only at hfew
    omega
  unfold skipHrd
  refine .bind (.ue hcount) (.ite_neg hnot ?_)
  rw [hmod]
  exact .bind (.u (by decide) hrate) (.bind (.u (by decide) hsize)
    (.bind (reads_skipCpbsFrom _ hcpbs) (.bind (.u (by decide) hinitial)
      (.bind (.u (by decide) hremoval) (.bind (.u (by decide) houtput)
        (.last (.u (by decide) hoffset)))))))

theorem reads_skipAspectRatio {a : AspectRatio} (h : aspectRatio.Valid a) :
    Reads skipAspectRatio (aspectRatio.write a) () := by
  obtain ⟨idc, sar⟩ := a
  obtain ⟨hidc, hsar⟩ := h
  refine .bind (.u (by decide) hidc) (.opt rfl (fun wh _ => .skip ?_) hsar)
  change ((u 16).write wh.1 ++ (u 16).write wh.2).length = 32
  rw [List.length_append]
  simp [u]

theorem reads_skipVideoSignal {v : VideoSignal} (h : videoSignal.Valid v) :
    Reads skipVideoSignal (videoSignal.write v) () := by
  obtain ⟨format, fullRange, colour⟩ := v
  obtain ⟨hformat, _, hcolour⟩ := h
  have hset : decide (colour.isSome.toNat ≠ 0) = colour.isSome := by
    cases colour <;> rfl
  have hfour : ((Grammar.u 3).write format ++ [fullRange]).length = 4 := by
    simp [Grammar.u]
  have hcolours : ∀ rgb, (pair (Grammar.u 8) (pair (Grammar.u 8) (Grammar.u 8))).Valid rgb →
      Reads (do let _ ← Reading.u 24)
        ((pair (Grammar.u 8) (pair (Grammar.u 8) (Grammar.u 8))).write rgb) () := by
    intro rgb _
    apply Reads.skip
    simp [Grammar.u, pair, Grammar.bind]
  have hskip := (Reads.skipped hfour).bind (f := fun _ => do
      let colour ← Reading.u 1
      Reading.optionally (colour ≠ 0) (do let _ ← Reading.u 24))
    ((Reads.flag colour.isSome).bind
      (.opt hset hcolours ⟨rfl, hcolour⟩))
  rw [List.append_assoc] at hskip
  exact hskip

theorem reads_chromaLoc {c : Nat × Nat} (h : (pair ue ue).Valid c) :
    Reads skipChromaLoc ((pair ue ue).write c) () :=
  .bind (.ue h.1) (.last (.ue h.2))

theorem reads_timing {t : Timing} :
    Reads (do let _ ← Reading.u 65) (timing.write t) () := by
  apply Reads.skip
  change ((u 32).write _ ++ ((u 32).write _ ++ [t.fixedFrameRate])).length = 65
  simp [u]

theorem reads_skipVui {v : VuiHead} (h : vuiHead.Valid v) :
    Reads skipVui (vuiHead.write v) () := by
  obtain ⟨aspect, overscan, signal, chromaLoc, timing, nal, vcl, lowDelay, picStruct⟩ := v
  obtain ⟨haspect, hoverscan, hsignal, hchromaLoc, htiming, hnal, hvcl, hlow, _⟩ := h
  unfold skipVui
  refine .bind (.present (fun _ ha => reads_skipAspectRatio ha) haspect) ?_
  refine .bind (.present (fun b _ => .last (.flag b)) hoverscan) ?_
  refine .bind (.present (fun _ hs => reads_skipVideoSignal hs) hsignal) ?_
  refine .bind (.present (fun _ hc => reads_chromaLoc hc) hchromaLoc) ?_
  refine .bind (.present (fun _ _ => reads_timing) htiming) ?_
  refine .bind (.present (fun _ hh => reads_skipHrd hh) hnal) ?_
  refine .bind (.present (fun _ hh => reads_skipHrd hh) hvcl) ?_
  exact .bind (.opt rfl (fun b _ => .last (.flag b)) hlow) (.last (.flag picStruct))

end MoonlightWeb.NativeHost.H264Vui
