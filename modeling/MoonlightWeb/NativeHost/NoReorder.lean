import MoonlightWeb.NativeHost.SpsReading

/-! # The rewrite on parameter sets that follow the syntax

The rewrite of a parameter set is the set with its bitstream restriction replaced, or given to
it: every other element is copied bit for bit.
-/

namespace MoonlightWeb.NativeHost.H264

def VuiHead.empty : VuiHead := ⟨none, none, none, none, none, none, none, none, false⟩

def noReorder (refFrames : Nat) : BitstreamRestriction := ⟨true, 2, 1, 15, 15, 0, max 1 refFrames⟩

/-- The parameter set without reordering; all else is as it was. -/
def Sps.withNoReorder (s : Sps) : Sps where
  profile := s.profile
  frames := s.frames
  vui := some ⟨(s.vui.map Vui.head).getD .empty, some (noReorder s.frames.maxNumRefFrames)⟩

theorem Sps.withNoReorder_idem (s : Sps) : s.withNoReorder.withNoReorder = s.withNoReorder := rfl

theorem noReorder_valid {refFrames : Nat} (h : refFrames < 2 ^ 32 - 1) :
    bitstreamRestriction.Valid (noReorder refFrames) := by
  have hmax : max 1 refFrames < 2 ^ 32 - 1 := by omega
  have hsmall : ∀ v ≤ 15, Lib.Grammar.ue.Valid v := by
    intro v hv
    change v < 2 ^ 32 - 1
    omega
  exact ⟨trivial, hsmall 2 (by decide), hsmall 1 (by decide), hsmall 15 (by decide),
    hsmall 15 (by decide), hsmall 0 (by decide), hmax⟩

theorem Sps.withNoReorder_valid {s : Sps} (h : sps.Valid s) : sps.Valid s.withNoReorder := by
  obtain ⟨hprofile, hframes, hvui⟩ := h
  have href : s.frames.maxNumRefFrames < 2 ^ 32 - 1 := hframes.2.2.1
  refine ⟨hprofile, hframes, fun v hv => ?_⟩
  obtain rfl := Option.some.inj hv
  constructor
  · cases hold : s.vui with
    | none =>
      exact ⟨fun _ h => (by cases h), fun _ h => (by cases h), fun _ h => (by cases h),
        fun _ h => (by cases h), fun _ h => (by cases h), fun _ h => (by cases h),
        fun _ h => (by cases h), ⟨rfl, fun _ h => (by cases h)⟩, trivial⟩
    | some old =>
      exact (hvui old hold).1
  · intro r hr
    obtain rfl := Option.some.inj hr
    exact noReorder_valid href

end MoonlightWeb.NativeHost.H264

namespace MoonlightWeb.NativeHost.H264Vui

open Lib Bits Grammar EmulationPrevention

namespace BitWriter

theorem copied_eq_put (rbsp : Bytes) {keep : Nat} (h : keep ≤ (Bits.ofBytes rbsp).length) :
    copied rbsp keep = put ((Bits.ofBytes rbsp).take keep) new := by
  induction keep with
  | zero => rfl
  | succ keep ih =>
    have hlt : keep < (Bits.ofBytes rbsp).length := h
    have hget := List.getElem?_eq_getElem hlt
    have hbit : bitAt rbsp keep = ((Bits.ofBytes rbsp)[keep]).toNat := by
      have hahead : (BitReader.mk rbsp keep false).ahead = (Bits.ofBytes rbsp)[keep] ::
          (Bits.ofBytes rbsp).drop (keep + 1) := List.drop_eq_getElem_cons hlt
      exact (BitReader.bitAt_of_ahead hahead).2
    have hstep : copied rbsp (keep + 1) = (copied rbsp keep).u 1 (bitAt rbsp keep) := by
      unfold copied
      rw [List.range_succ, List.foldl_append]
      rfl
    have hone : toBits 1 ((Bits.ofBytes rbsp)[keep]).toNat = [(Bits.ofBytes rbsp)[keep]] := by
      cases (Bits.ofBytes rbsp)[keep] <;> rfl
    rw [hstep, ih (by omega), hbit, u_eq_put, hone, ← put_append, List.take_add_one, hget]
    rfl

theorem emptyVui_eq_put (w : BitWriter) :
    emptyVui w = put (true :: H264.vuiHead.write .empty) w := by
  unfold emptyVui
  simp only [u_eq_put, ← put_append]
  rfl

theorem flagged_some_write {α : Type} (g : Grammar α) (a : α) :
    (flagged g).write (some a) = true :: g.write a := rfl

theorem bitstreamRestriction_write (r : H264.BitstreamRestriction) :
    H264.bitstreamRestriction.write r = r.motionVectorsOverPicBoundaries ::
      (Grammar.ue.write r.maxBytesPerPicDenom ++ (Grammar.ue.write r.maxBitsPerMbDenom ++
        (Grammar.ue.write r.log2MaxMvLengthHorizontal ++
          (Grammar.ue.write r.log2MaxMvLengthVertical ++ (Grammar.ue.write r.maxNumReorderFrames ++
              Grammar.ue.write r.maxDecFrameBuffering))))) := rfl

theorem restriction_eq_put {refFrames : Nat} (h : refFrames < 2 ^ 32 - 1) (w : BitWriter) :
    restriction refFrames w =
      put ((flagged H264.bitstreamRestriction).write (some (H264.noReorder refFrames)) ++ [true]) w
    := by
  have hmax : (if refFrames > 0 then refFrames else 1) = max 1 refFrames := by
    split_ifs <;> omega
  unfold restriction
  rw [hmax]
  simp only [u_eq_put, ue_eq_put (by decide : 15 < 2 ^ 32 - 1),
    ue_eq_put (by decide : 1 < 2 ^ 32 - 1), ue_eq_put (by decide : 2 < 2 ^ 32 - 1),
    ue_eq_put (by decide : 0 < 2 ^ 32 - 1), ue_eq_put (by omega : max 1 refFrames < 2 ^ 32 - 1),
    ← put_append]
  have hone : toBits 1 1 = [true] := rfl
  rw [flagged_some_write, bitstreamRestriction_write, hone]
  simp only [List.append_assoc, List.cons_append, List.nil_append, H264.noReorder]

end BitWriter

/-- What is kept of a parameter set: all up to the flag of its restriction. -/
def keptBits (s : H264.Sps) : List Bool :=
  H264.profile.write s.profile ++ (H264.frames.write s.frames ++
    s.vui.elim [] fun v => true :: H264.vuiHead.write v.head)

variable {tail : List Bool}

/-- The end of the parse: what is kept reaches up to the flag of the restriction. -/
theorem readTail_run (refFrames : Nat) {r : BitReader} (hover : r.overrun = false)
    {vui : Option H264.Vui} (hvui : (flagged H264.vui).Valid vui)
    (h : r.ahead = (flagged H264.vui).write vui ++ tail) :
    ∃ r', readTail refFrames r =
      .ok (⟨refFrames, r.pos + (vui.elim [] fun v => true :: H264.vuiHead.write v.head).length,
        vui.isSome⟩, r') := by
  have hflag : r.ahead = [vui.isSome] ++ (vui.elim [] H264.vui.write ++ tail) := h
  have hstart : ∀ f : Nat → Nat → Reading Parsed,
      (do Reading.refuseOverrun
          let keep ← Reading.position
          let hasVui ← Reading.u 1
          f keep hasVui : Reading Parsed) r = f r.pos vui.isSome.toNat (r.advance 1) := by
    intro f
    have hnone : r.ahead = [] ++ r.ahead := rfl
    refine (Reads.refuseOverrun.run _ hover hnone).trans ?_
    exact (Reads.flag vui.isSome).run (fun hasVui => f r.pos hasVui) hover hflag
  unfold readTail
  rw [hstart]
  cases vui with
  | none => exact ⟨r.advance 1, rfl⟩
  | some v =>
    have hbehind : (r.advance 1).ahead = H264.vuiHead.write v.head ++
        ((flagged H264.bitstreamRestriction).write v.restriction ++ tail) := by
      rw [← List.append_assoc]
      exact BitReader.ahead_advance [true] hflag
    have hvalid : H264.vuiHead.Valid v.head := (hvui v rfl).1
    have hhead := reads_skipVui hvalid
    have hover' : (r.advance 1).overrun = false := hover
    refine ⟨(r.advance 1).advance (H264.vuiHead.write v.head).length, ?_⟩
    refine (hhead.run _ hover' hbehind).trans ?_
    have hend := Reads.refuseOverrun.run (fun _ => Reading.position >>= fun keep =>
      pure (Parsed.mk refFrames keep true)) (r := (r.advance 1).advance
        (H264.vuiHead.write v.head).length) hover (List.nil_append _).symm
    refine hend.trans ?_
    have hpos : r.pos + 1 + (H264.vuiHead.write v.head).length =
        r.pos + (true :: H264.vuiHead.write v.head).length := by
      rw [List.length_cons]
      omega
    change Except.ok (Parsed.mk refFrames (r.pos + 1 + (H264.vuiHead.write v.head).length) true, _)
      = _
    rw [hpos]
    rfl

variable {s : H264.Sps}

theorem readSps_run {rbsp : Bytes} (hvalid : H264.sps.Valid s)
    (h : Bits.ofBytes rbsp = H264.sps.write s ++ tail) :
    ∃ r, readSps ⟨rbsp, 0, false⟩ =
      .ok (⟨s.frames.maxNumRefFrames, (keptBits s).length, s.vui.isSome⟩, r) := by
  have hprofile : H264.profile.Valid s.profile := hvalid.1
  have hframes : H264.frames.Valid s.frames := hvalid.2.1
  have hvui : (flagged H264.vui).Valid s.vui := hvalid.2.2
  obtain ⟨count, head, lists, hwrite, hhead, hlists⟩ := reads_profile hprofile
  have hahead : (BitReader.mk rbsp 0 false).ahead = head ++ (lists ++ (H264.frames.write s.frames ++
      ((flagged H264.vui).write s.vui ++ tail))) := by
    change (Bits.ofBytes rbsp).drop 0 = _
    rw [List.drop_zero, h, ← List.append_assoc head, ← hwrite]
    change (H264.profile.write _ ++ (H264.frames.write _ ++ (flagged H264.vui).write _)) ++ _ = _
    simp only [List.append_assoc]
  have hbehindHead := BitReader.ahead_advance head hahead
  have hbehindLists := BitReader.ahead_advance lists hbehindHead
  have hbehindFrames := BitReader.ahead_advance _ hbehindLists
  obtain ⟨r, htail⟩ := readTail_run s.frames.maxNumRefFrames rfl hvui hbehindFrames
  refine ⟨r, ?_⟩
  have hlength : 0 + head.length + lists.length + (H264.frames.write s.frames).length +
      (s.vui.elim [] fun v => true :: H264.vuiHead.write v.head).length = (keptBits s).length := by
    unfold keptBits
    rw [hwrite]
    simp only [List.length_append]
    omega
  rw [← hlength]
  refine (hhead.run _ rfl hahead).trans ?_
  refine (hlists.run _ rfl hbehindHead).trans ?_
  exact ((reads_skipFrames hframes).run _ rfl hbehindLists).trans htail

theorem sps_write_kept (s : H264.Sps) : ∃ more, H264.sps.write s = keptBits s ++ more := by
  obtain ⟨profile, frames, vui⟩ := s
  cases vui with
  | none => exact ⟨[false], by simp [keptBits]; rfl⟩
  | some v =>
    refine ⟨(flagged H264.bitstreamRestriction).write v.restriction, ?_⟩
    simp [keptBits]
    rfl

/-- The bits of the set without reordering. -/
theorem withNoReorder_write (s : H264.Sps) :
    H264.profile.write s.profile ++ (H264.frames.write s.frames ++
      (true :: (H264.vuiHead.write ((s.vui.map H264.Vui.head).getD .empty) ++
        (flagged H264.bitstreamRestriction).write
          (some (H264.noReorder s.frames.maxNumRefFrames))))) = H264.sps.write s.withNoReorder :=
  rfl

/-- The bits that a rewrite writes. -/
theorem rewritten_eq (header : UInt8) {rbsp : Bytes} (hvalid : H264.sps.Valid s)
    (h : Bits.ofBytes rbsp = H264.sps.write s ++ tail) :
    rewritten header rbsp ⟨s.frames.maxNumRefFrames, (keptBits s).length, s.vui.isSome⟩ =
      header :: escape (pack (H264.sps.write s.withNoReorder ++ [true])) := by
  have href : s.frames.maxNumRefFrames < 2 ^ 32 - 1 := hvalid.2.1.2.2.1
  obtain ⟨more, hmore⟩ := sps_write_kept s
  have hbits : Bits.ofBytes rbsp = keptBits s ++ (more ++ tail) := by
    rw [h, hmore, List.append_assoc]
  have hcopied : copied rbsp (keptBits s).length = .put (keptBits s) .new := by
    rw [BitWriter.copied_eq_put rbsp (by simp [hbits]), hbits, List.take_left' rfl]
  have hbytes : rewritten header rbsp
      ⟨s.frames.maxNumRefFrames, (keptBits s).length, s.vui.isSome⟩ =
        header :: escape ((restriction s.frames.maxNumRefFrames
          (if s.vui.isSome then .put (keptBits s) .new
            else emptyVui (.put (keptBits s) .new))).bytes) := by
    unfold rewritten
    rw [hcopied]
    rfl
  rw [hbytes, pack, BitWriter.restriction_eq_put href, ← withNoReorder_write]
  congr 3
  cases hvui : s.vui with
  | none =>
    rw [if_neg (by simp), BitWriter.emptyVui_eq_put, ← BitWriter.put_append,
      ← BitWriter.put_append]
    congr 1
    simp [keptBits, hvui]
  | some v =>
    rw [if_pos (by simp), ← BitWriter.put_append]
    congr 1
    simp [keptBits, hvui]

theorem rewrite_eq {header : UInt8} (hheader : header &&& 0x1f = 7) {e : Bytes}
    (hvalid : H264.sps.Valid s) {rest : List Bool}
    (h : Bits.ofBytes (unescape e) = H264.sps.write s ++ rest) :
    h264WithNoReorderVui (header :: e) =
      .ok (header :: escape (pack (H264.sps.write s.withNoReorder ++ [true]))) := by
  have hlong : 24 ≤ (H264.sps.write s).length := by
    change 24 ≤ (((Grammar.u 8).write _ ++ ((Grammar.u 8).write _ ++ ((Grammar.u 8).write _ ++ _))) ++
      _ : List Bool).length
    simp only [Grammar.u, List.length_append, length_toBits]
    omega
  have hlength : 3 ≤ e.length := by
    have hbits := congrArg List.length h
    have hle : (unescape e).length ≤ e.length := length_unescapeFrom_le 0 e
    rw [length_ofBytes, List.length_append] at hbits
    omega
  have hguard : ¬((header :: e).length < 4 ∨ (header :: e).headD 0 &&& 0x1f ≠ 7) := by
    rw [List.length_cons]
    exact fun hor => hor.elim (by omega) fun hne => hne hheader
  obtain ⟨r, hparse⟩ := readSps_run hvalid h
  unfold h264WithNoReorderVui
  rw [if_neg hguard]
  change answered (header :: e) (readSps ⟨unescape e, 0, false⟩) = _
  rw [hparse, ← rewritten_eq header hvalid h]
  rfl

/-- Every parameter set that follows the syntax is rewritten: the result is the same set
without reordering, holds no start code, and is rewritten to itself. -/
theorem rewrite_keeps (header : UInt8) (hheader : header &&& 0x1f = 7) (e : Bytes) (s : H264.Sps)
    (rest : List Bool) (hread : H264.sps.read (Bits.ofBytes (unescape e)) = some (s, rest)) :
    ∃ body, h264WithNoReorderVui (header :: e) = .ok (header :: body) ∧
      (∃ left < 8, H264.sps.read (Bits.ofBytes (unescape body)) =
        some (s.withNoReorder, true :: List.replicate left false)) ∧
      Clean (header :: body) ∧
      h264WithNoReorderVui (header :: body) = .ok (header :: body) := by
  obtain ⟨hvalid, hbits⟩ := H264.sps.read_sound _ _ _ hread
  have hvalid' := H264.Sps.withNoReorder_valid hvalid
  obtain ⟨left, hleft, hpack⟩ := ofBytes_pack (H264.sps.write s.withNoReorder ++ [true])
  rw [List.append_assoc] at hpack
  have hback : unescape (escape (pack (H264.sps.write s.withNoReorder ++ [true]))) =
      pack (H264.sps.write s.withNoReorder ++ [true]) := unescape_escape _
  have hne : header ≠ 0 := by
    intro hzero
    rw [hzero] at hheader
    exact absurd hheader (by decide)
  have hbits' : Bits.ofBytes (unescape (escape (pack (H264.sps.write s.withNoReorder ++ [true])))) =
      H264.sps.write s.withNoReorder ++ ([true] ++ List.replicate left false) := by
    rw [hback, hpack]
  refine ⟨escape (pack (H264.sps.write s.withNoReorder ++ [true])),
    rewrite_eq hheader hvalid hbits, ⟨left, hleft, ?_⟩, clean_cons_escape hne _, ?_⟩
  · rw [hbits']
    exact H264.sps.read_write _ _ hvalid'
  · rw [rewrite_eq hheader hvalid' hbits', H264.Sps.withNoReorder_idem]

/-- A High profile set of one reference frame, without a VUI. -/
def plainSps : H264.Sps where
  profile := ⟨100, 0, 42, 0, some ⟨1, none, 0, 0, false, none⟩⟩
  frames := ⟨1, ⟨0, some 2, none⟩, 1, false, 103, 67, true, none, true, some ⟨0, 1, 0, 4⟩⟩
  vui := none

theorem rewrite_keeps_plainSps :
    ∃ body, h264WithNoReorderVui
        [0x27, 0x64, 0x00, 0x2a, 0xac, 0x56, 0x80, 0x68, 0x02, 0x27, 0xa9, 0x50] =
          .ok (0x27 :: body) ∧
      (∃ left < 8, H264.sps.read (Bits.ofBytes (unescape body)) =
        some (plainSps.withNoReorder, true :: List.replicate left false)) ∧
      Clean (0x27 :: body) ∧ h264WithNoReorderVui (0x27 :: body) = .ok (0x27 :: body) :=
  rewrite_keeps 0x27 (by decide)
    [0x64, 0x00, 0x2a, 0xac, 0x56, 0x80, 0x68, 0x02, 0x27, 0xa9, 0x50] plainSps
    [true, false, false, false, false] (by decide +kernel)

end MoonlightWeb.NativeHost.H264Vui
