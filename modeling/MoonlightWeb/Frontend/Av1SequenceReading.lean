import MoonlightWeb.Frontend.Av1SequenceHeader

/-! # Sequence headers are read as they are written

Every part of the parser reads the bits the syntax writes for its part, from a flag up to the
whole header. The header of the unit is left behind whatever its size field.
-/

namespace MoonlightWeb.Frontend.Av1Utils

open Av1Syntax
open Lib Lib.Bits Lib.BitReading Stays List

section
variable {br : Bytes}

theorem fFrom_run (n v pos : Nat) :
    (BitReader.fFrom br (n + 1) v).run pos =
      match br[pos >>> 3]? with
      | none => none
      | some byte => (BitReader.fFrom br n (v * 2 + ((byte.toNat >>> (7 - (pos &&& 7))) &&& 1))).run
            (pos + 1) := by
  rw [BitReader.fFrom, StateT.run_bind, StateT.run_get]
  show (match br[pos >>> 3]? with | none => _ | some byte => _ : Reader Nat).run pos = _
  cases br[pos >>> 3]? with
  | none => rfl
  | some byte => rfl

/-- The bit at a position, as the reader takes it from its byte. -/
theorem bit_at {pos : Nat} {b : Bool} {rest : List Bool} (h : (ofBytes br).drop pos = b :: rest) :
    ∃ byte, br[pos >>> 3]? = some byte ∧
      (byte.toNat >>> (7 - (pos &&& 7))) &&& 1 = b.toNat := by
  have hbit : (ofBytes br)[pos]? = some b := by
    rw [← List.head?_drop, h]
    rfl
  rw [ofBytes_getElem?] at hbit
  obtain ⟨byte, hbyte, hb⟩ := Option.map_eq_some_iff.mp hbit
  have hmask : pos &&& 7 = pos % 8 := Nat.and_two_pow_sub_one_eq_mod pos 3
  refine ⟨byte, ?_, ?_⟩
  · rw [Nat.shiftRight_eq_div_pow]
    exact hbyte
  · rw [hmask, Nat.and_one_is_mod, Nat.shiftRight_eq_div_pow, ← hb, Nat.toNat_testBit]

theorem fFrom_reads (n v : Nat) {x : Nat} (hx : x < 2 ^ n) :
    Reads (ofBytes br) (BitReader.fFrom br n v) (toBits n x) (v * 2 ^ n + x) := by
  induction n generalizing v x with
  | zero =>
    obtain rfl : x = 0 := by omega
    intro pos rest _
    simp [BitReader.fFrom, toBits]
  | succ n ih =>
    intro pos rest hdrop
    rw [toBits, cons_append] at hdrop
    obtain ⟨byte, hbyte, hbit⟩ := bit_at hdrop
    have hnext : (ofBytes br).drop (pos + 1) = toBits n (x % 2 ^ n) ++ rest := by
      rw [← drop_drop, hdrop, toBits_congr (Nat.mod_mod x (2 ^ n))]
      rfl
    have htop : (x.testBit n).toNat = x / 2 ^ n := by
      rw [Nat.toNat_testBit, Nat.mod_eq_of_lt]
      rw [Nat.div_lt_iff_lt_mul (Nat.two_pow_pos n)]
      rw [pow_succ] at hx
      omega
    have hrest := ih (v * 2 + (x.testBit n).toNat) (Nat.mod_lt x (Nat.two_pow_pos n)) (pos + 1) rest
      hnext
    have hsplit := Nat.div_add_mod x (2 ^ n)
    rw [fFrom_run, hbyte]
    dsimp only
    rw [hbit, hrest, htop, length_toBits, length_toBits, pow_succ]
    congr 2
    · nlinarith
    · omega

theorem f_reads {n x : Nat} (hx : x < 2 ^ n) :
    Reads (ofBytes br) (BitReader.f br n) (toBits n x) x := by
  have h := @fFrom_reads br n 0 x hx
  rwa [Nat.zero_mul, Nat.zero_add] at h

theorem flag_reads (b : Bool) : Reads (ofBytes br) (BitReader.f br 1) [b] b.toNat := by
  have h := @f_reads br 1 b.toNat (by cases b <;> decide)
  have hbits : toBits 1 b.toNat = [b] := by cases b <;> rfl
  rwa [hbits] at h

theorem skips_last {n x : Nat} (hx : x < 2 ^ n) :
    Reads (ofBytes br) (skips br [n]) (toBits n x) () :=
  (f_reads hx).last

variable {w : List Bool}

theorem skips_more {n x : Nat} {ns : List Nat} (hx : x < 2 ^ n)
    (h : Reads (ofBytes br) (skips br ns) w ()) :
    Reads (ofBytes br) (skips br (n :: ns)) (toBits n x ++ w) () :=
  (f_reads hx).bind h

theorem skips_flag (b : Bool) : Reads (ofBytes br) (skips br [1]) [b] () :=
  (flag_reads b).last

theorem skips_flags (b : Bool) {ns : List Nat} (h : Reads (ofBytes br) (skips br ns) w ()) :
    Reads (ofBytes br) (skips br (1 :: ns)) ([b] ++ w) () :=
  (flag_reads b).bind h

variable {body : Reader Unit}

theorem ifSo_reads {c : Prop} [Decidable c]
    (hyes : c → Reads (ofBytes br) body w ()) (hno : ¬ c → w = []) :
    Reads (ofBytes br) (ifSo c body) w () := by
  unfold ifSo
  by_cases hc : c
  · rw [if_pos hc]
    exact hyes hc
  · rw [if_neg hc, hno hc]
    exact Reads.pure _ ()

theorem whenSet_reads {α : Type} {code : α → List Bool} (o : Option α)
    (h : ∀ a, o = some a → Reads (ofBytes br) body (code a) ()) :
    Reads (ofBytes br) (whenSet br body) (flagged code o) () := by
  cases o with
  | none =>
    exact (flag_reads false).done (ifSo_reads (fun hc => absurd rfl hc) (fun _ => rfl))
  | some a =>
    exact (flag_reads true).bind
      (ifSo_reads (fun _ => h a rfl) (fun hc => absurd Nat.one_ne_zero hc))

theorem leadingZeros_reads {left k : Nat} (hk : k ≤ left) (leadingZeros : Nat) :
    Reads (ofBytes br) (BitReader.leadingZerosFrom br left leadingZeros)
      (List.replicate k false ++ [true]) (leadingZeros + k) := by
  induction k generalizing left leadingZeros with
  | zero =>
    cases left with
    | zero =>
      rw [BitReader.leadingZerosFrom]
      exact (flag_reads true).done (Reads.pure _ leadingZeros)
    | succ left =>
      rw [BitReader.leadingZerosFrom]
      exact (flag_reads true).done (Reads.pure _ leadingZeros)
  | succ k ih =>
    obtain ⟨more, rfl⟩ := Nat.exists_eq_add_of_lt hk
    have hrest := ih (Nat.le_add_right k more) (leadingZeros + 1)
    rw [Nat.add_right_comm leadingZeros 1 k, Nat.add_assoc] at hrest
    rw [BitReader.leadingZerosFrom]
    exact (flag_reads false).bind hrest

/-- A code below 2^32 - 1 has at most 31 zeros in front. -/
theorem skipUvlc_reads {v : Nat} (hv : v < 2 ^ 32 - 1) :
    Reads (ofBytes br) (skipUvlc br) (uvlc v) () := by
  have hne : v + 1 ≠ 0 := Nat.succ_ne_zero v
  have hlog : (v + 1).log2 < 32 := (Nat.log2_lt hne).mpr (by omega)
  have hcode : uvlc v =
      (List.replicate (v + 1).log2 false ++ [true]) ++ toBits (v + 1).log2 (v + 1) := by
    rw [uvlc, Grammar.golomb, Grammar.toBits_log2 hne, append_assoc]
    rfl
  have hzeros := @leadingZeros_reads br 32 _ (Nat.le_of_lt hlog) 0
  rw [Nat.zero_add] at hzeros
  rw [hcode]
  unfold skipUvlc BitReader.uvlc
  by_cases hzero : (v + 1).log2 = 0
  · have hnone : toBits (v + 1).log2 (v + 1) = [] := by
      rw [hzero]
      rfl
    rw [hnone, append_nil]
    refine Reads.last (a := (0 : Int)) (hzeros.done ?_)
    rw [if_pos hzero]
    exact Reads.pure _ 0
  · have hlow : toBits (v + 1).log2 (v + 1) =
        toBits (v + 1).log2 ((v + 1) % 2 ^ (v + 1).log2) :=
      toBits_congr (Nat.mod_mod _ _).symm
    rw [hlow]
    refine Reads.last (a := ((v + 1) % 2 ^ (v + 1).log2 : Nat) +
      BitReader.shiftedOne (v + 1).log2 - 1) (hzeros.bind ?_)
    rw [if_neg hzero]
    exact (f_reads (Nat.mod_lt _ (Nat.two_pow_pos _))).last

open Av1Syntax (TimingInfo DecoderModelInfo Timing OperatingPoint OperatingParameters)

def keptModel : Option DecoderModelInfo → Nat × Nat
  | none => (0, 0)
  | some d => (1, d.bufferDelayLengthMinus1 + 1)

theorem decoderModel_reads (o : Option DecoderModelInfo) (ho : ∀ d, o = some d → d.Valid) :
    Reads (ofBytes br) (decoderModel br) (flagged DecoderModelInfo.bits o)
      (keptModel o) := by
  cases o with
  | none => exact (flag_reads false).done (Reads.pure _ (0, 0))
  | some d =>
    obtain ⟨hlength, htick, hremoval, hpresentation⟩ := ho d rfl
    refine (flag_reads true).bind ?_
    refine (f_reads hlength).bind ?_
    exact Reads.last (skips_more htick (skips_more hremoval (skips_last hpresentation)))

theorem timing_reads (o : Option Timing) (ho : ∀ t, o = some t → t.Valid) :
    Reads (ofBytes br) (timing br) (flagged Timing.bits o)
      (keptModel (o.bind Timing.decoderModelInfo)) := by
  cases o with
  | none => exact (flag_reads false).done (Reads.pure _ (0, 0))
  | some t =>
    obtain ⟨⟨hunits, hscale, hticks⟩, hmodel⟩ := ho t rfl
    have hbits : t.timingInfo.bits ++ flagged DecoderModelInfo.bits t.decoderModelInfo =
        (f 32 t.timingInfo.numUnitsInDisplayTick ++
        f 32 t.timingInfo.timeScale) ++
          (flagged uvlc t.timingInfo.numTicksPerPictureMinus1 ++
            flagged DecoderModelInfo.bits t.decoderModelInfo) := by
      simp only [TimingInfo.bits, append_assoc]
    refine (flag_reads true).bind ?_
    rw [hbits]
    refine (skips_more hunits (skips_last hscale)).bind ?_
    refine (whenSet_reads _ (fun n hn => skipUvlc_reads (hticks n hn))).bind ?_
    exact decoderModel_reads t.decoderModelInfo hmodel

theorem levelAndTier_reads {p : OperatingPoint} (hlevel : p.seqLevelIdx < 2 ^ 5)
    (htier : p.seqLevelIdx ≤ 7 → p.seqTier = false) :
    Reads (ofBytes br) (levelAndTier br) (f 5 p.seqLevelIdx ++ p.tierBits)
      (p.seqLevelIdx, p.seqTier.toNat) := by
  refine (f_reads hlevel).bind ?_
  unfold OperatingPoint.tierBits
  by_cases hhigh : p.seqLevelIdx > 7
  · rw [if_pos hhigh, if_pos hhigh]
    exact (flag_reads p.seqTier).last
  · rw [if_neg hhigh, if_neg hhigh, htier (Nat.le_of_not_lt hhigh)]
    exact Reads.pure _ (p.seqLevelIdx, 0)

section
variable {model : Option DecoderModelInfo} {delayPresent : Bool} {p : OperatingPoint}

theorem parameters_reads (hp : p.Valid model delayPresent) :
    Reads (ofBytes br) (ifSo ((keptModel model).1 ≠ 0)
        (whenSet br (skips br [(keptModel model).2, (keptModel model).2, 1])))
      (p.parameterBits model) () := by
  cases model with
  | none => exact ifSo_reads (fun hc => absurd rfl hc) (fun _ => rfl)
  | some d =>
    refine ifSo_reads (fun _ => whenSet_reads _ (fun q hq => ?_))
      (fun hc => absurd Nat.one_ne_zero hc)
    obtain ⟨d', hd, hdecoder, hencoder⟩ := hp.2.2.2.1 q hq
    cases hd
    exact skips_more hdecoder (skips_more hencoder (skips_flag q.lowDelayMode))

theorem delay_reads (hp : p.Valid model delayPresent) :
    Reads (ofBytes br) (ifSo (delayPresent.toNat ≠ 0) (whenSet br (skips br [4])))
      (p.delayBits delayPresent) () := by
  cases delayPresent with
  | false => exact ifSo_reads (fun hc => absurd rfl hc) (fun _ => rfl)
  | true =>
    exact ifSo_reads (fun _ => whenSet_reads _ (fun n hn => skips_last (hp.2.2.2.2 n hn).2))
      (fun hc => absurd Nat.one_ne_zero hc)

/-- The level and tier after the points from `i` on. -/
def levelAfter (i : Nat) (chosen : Nat × Nat) : List OperatingPoint → Nat × Nat
  | [] => chosen
  | p :: _ => if i = 0 then (p.seqLevelIdx, p.seqTier.toNat) else chosen

theorem levelAfter_succ (i : Nat) (chosen : Nat × Nat) (points : List OperatingPoint) :
    levelAfter (i + 1) chosen points = chosen := by
  cases points with
  | nil => rfl
  | cons p points => rw [levelAfter, if_neg (Nat.succ_ne_zero i)]

theorem operatingPoints_reads (points : List OperatingPoint)
    (hpoints : ∀ p ∈ points, p.Valid model delayPresent) (i : Nat) (chosen : Nat × Nat) :
    Reads (ofBytes br)
      (operatingPoints br (keptModel model).1 (keptModel model).2 delayPresent.toNat points.length i
        chosen)
      (points.flatMap (OperatingPoint.bits model delayPresent)) (levelAfter i chosen points) := by
  induction points generalizing i chosen with
  | nil => exact Reads.pure _ chosen
  | cons p points ih =>
    have hp := hpoints p mem_cons_self
    have hrest := ih (fun q hq => hpoints q (mem_cons_of_mem p hq)) (i + 1)
      (if i = 0 then (p.seqLevelIdx, p.seqTier.toNat) else chosen)
    rw [levelAfter_succ] at hrest
    have hbits : (p :: points).flatMap (OperatingPoint.bits model delayPresent) =
        f 12 p.operatingPointIdc ++ ((f 5 p.seqLevelIdx ++ p.tierBits) ++
          (p.parameterBits model ++ (p.delayBits delayPresent ++
            points.flatMap (OperatingPoint.bits model delayPresent)))) := by
      rw [flatMap_cons, OperatingPoint.bits]
      simp only [append_assoc]
    rw [hbits]
    refine (f_reads hp.1).bind ?_
    refine (levelAndTier_reads hp.2.1 hp.2.2.1).bind ?_
    refine (parameters_reads hp).bind ?_
    exact (delay_reads hp).bind hrest

end

theorem levels_reads (form : Form) (hform : form.Valid) :
    Reads (ofBytes br) (levels br form.isReduced.toNat) form.pointBits (form.level, form.tier) := by
  cases form with
  | reduced level => exact (f_reads hform).last
  | full h =>
    obtain ⟨htiming, hpoints, hcount, -, -⟩ := hform
    refine (timing_reads h.timing htiming).bind ?_
    refine (flag_reads h.initialDisplayDelayPresent).bind ?_
    refine (f_reads hcount).bind ?_
    exact operatingPoints_reads (h.first :: h.others) hpoints 0 (0, 0)

theorem frameIds_reads (form : Form) (hform : form.Valid) :
    Reads (ofBytes br) (ifSo (form.isReduced.toNat = 0) (whenSet br (skips br [4, 3])))
      form.frameIdBits () := by
  cases form with
  | reduced level => exact ifSo_reads (fun hc => absurd hc Nat.one_ne_zero) (fun _ => rfl)
  | full h =>
    exact ifSo_reads (fun _ => whenSet_reads _ (fun ids hids =>
      skips_more (hform.2.2.2.1 ids hids).1 (skips_last (hform.2.2.2.1 ids hids).2)))
      (fun hc => absurd rfl hc)

theorem choice_reads (c : Choice) : Reads (ofBytes br) (integerMv br) c.bits () := by
  cases c with
  | select =>
    exact (flag_reads true).done
      (ifSo_reads (fun hc => absurd hc Nat.one_ne_zero) (fun _ => rfl))
  | force on =>
    exact (flag_reads false).bind (ifSo_reads (fun _ => skips_flag on) (fun hc => absurd rfl hc))

/-- The value `forceSct` has for a choice. -/
def forced : Choice → Nat
  | .select => 2
  | .force on => on.toNat

theorem forceSct_reads (c : Choice) :
    Reads (ofBytes br) (forceSct br) c.bits (forced c) := by
  cases c with
  | select => exact (flag_reads true).done (Reads.pure _ 2)
  | force on => exact (flag_reads false).bind (flag_reads on)

theorem integerMv_reads (t : Tools) :
    Reads (ofBytes br) (ifSo (forced t.screenContentTools > 0) (integerMv br)) t.integerMvBits
      () := by
  unfold Tools.integerMvBits
  cases t.screenContentTools with
  | select => exact ifSo_reads (fun _ => choice_reads t.integerMv) (fun hc => absurd Nat.two_pos hc)
  | force on =>
    cases on with
    | false => exact ifSo_reads (fun hc => absurd hc (Nat.lt_irrefl 0)) (fun _ => rfl)
    | true => exact ifSo_reads (fun _ => choice_reads t.integerMv) (fun hc => absurd Nat.one_pos hc)

theorem interTools_reads (t : Tools) (ht : t.Valid) :
    Reads (ofBytes br) (interTools br) t.bits () := by
  have hfour : Reads (ofBytes br) (skips br [1, 1, 1, 1]) ([t.enableInterintraCompound] ++
      ([t.enableMaskedCompound] ++ ([t.enableWarpedMotion] ++ [t.enableDualFilter]))) () :=
    skips_flags _ (skips_flags _ (skips_flags _ (skips_flag _)))
  have hsct := @forceSct_reads br t.screenContentTools
  have hmv := @integerMv_reads br t
  cases horder : t.orderHint with
  | none =>
    have hbits : t.bits = ([t.enableInterintraCompound] ++ ([t.enableMaskedCompound] ++
        ([t.enableWarpedMotion] ++ [t.enableDualFilter]))) ++
          ([false] ++ (t.screenContentTools.bits ++ t.integerMvBits)) := by
      rw [Tools.bits, horder]
      simp only [flagged, append_assoc, append_nil]
    rw [hbits]
    refine hfour.bind ?_
    refine (flag_reads false).bind ?_
    refine (ifSo_reads (w := []) (fun hc => absurd rfl hc) (fun _ => rfl)).bind (w := []) ?_
    refine hsct.bind ?_
    exact hmv.done (ifSo_reads (fun hc => absurd rfl hc) (fun _ => rfl))
  | some o =>
    have hbits : t.bits = ([t.enableInterintraCompound] ++ ([t.enableMaskedCompound] ++
        ([t.enableWarpedMotion] ++ [t.enableDualFilter]))) ++
          ([true] ++ (([o.enableJntComp] ++ [o.enableRefFrameMvs]) ++ (t.screenContentTools.bits ++
            (t.integerMvBits ++ f 3 o.orderHintBitsMinus1)))) := by
      rw [Tools.bits, horder]
      simp only [flagged, cons_append, nil_append]
    rw [hbits]
    refine hfour.bind ?_
    refine (flag_reads true).bind ?_
    refine (ifSo_reads (fun _ => skips_flags o.enableJntComp (skips_flag o.enableRefFrameMvs))
      (fun hc => absurd Nat.one_ne_zero hc)).bind ?_
    refine hsct.bind ?_
    refine hmv.bind ?_
    exact ifSo_reads (fun _ => skips_last (ht o horder)) (fun hc => absurd Nat.one_ne_zero hc)

theorem bitDepth_reads (h : SequenceHeader) :
    Reads (ofBytes br) (bitDepth br h.seqProfile)
      ([h.highBitdepth] ++ (if h.seqProfile = 2 ∧ h.highBitdepth then [h.twelveBit] else []))
      h.bitDepth := by
  unfold SequenceHeader.bitDepth
  refine (flag_reads h.highBitdepth).bind ?_
  have hflag : h.highBitdepth.toNat ≠ 0 ↔ h.highBitdepth = true := by
    cases h.highBitdepth <;> decide
  by_cases hcoded : h.seqProfile = 2 ∧ h.highBitdepth = true
  · rw [if_pos hcoded, if_pos hcoded, if_pos ⟨hcoded.1, hflag.mpr hcoded.2⟩]
    have htwelve := (@flag_reads br h.twelveBit).last
      (g := fun twelveBit => if twelveBit ≠ 0 then 12 else 10)
    cases hbit : h.twelveBit with
    | false =>
      rw [hbit] at htwelve
      exact htwelve
    | true =>
      rw [hbit] at htwelve
      exact htwelve
  · rw [if_neg hcoded, if_neg hcoded, if_neg (fun hc => hcoded ⟨hc.1, hflag.mp hc.2⟩)]
    have hdepth : (if h.highBitdepth.toNat ≠ 0 then 10 else 8) =
        if h.highBitdepth = true then 10 else 8 := if_congr hflag rfl rfl
    rw [← hdepth]
    exact Reads.pure _ _

def infoOf (h : SequenceHeader) : SeqInfo :=
  ⟨h.seqProfile, h.form.level, h.form.tier, h.bitDepth, h.maxFrameWidthMinus1 + 1,
    h.maxFrameHeightMinus1 + 1⟩

theorem sequenceHeader_reads (h : SequenceHeader) (hvalid : h.Valid) :
    Reads (ofBytes br) (sequenceHeader br) h.bits (infoOf h) := by
  obtain ⟨hprofile, hform, hwidthBits, hheightBits, hwidth, hheight⟩ := hvalid
  have htools : Reads (ofBytes br) (ifSo (h.form.isReduced.toNat = 0) (interTools br))
      h.form.toolBits () := by
    cases hform' : h.form with
    | reduced level => exact ifSo_reads (fun hc => absurd hc Nat.one_ne_zero) (fun _ => rfl)
    | full full =>
      rw [hform'] at hform
      exact ifSo_reads (fun _ => interTools_reads full.tools hform.2.2.2.2)
        (fun hc => absurd rfl hc)
  have hbits : h.bits = f 3 h.seqProfile ++ ([h.stillPicture] ++ ([h.form.isReduced] ++
      (h.form.pointBits ++ (f 4 h.frameWidthBitsMinus1 ++
        (f 4 h.frameHeightBitsMinus1 ++
          (f (h.frameWidthBitsMinus1 + 1) h.maxFrameWidthMinus1 ++
            (f (h.frameHeightBitsMinus1 + 1) h.maxFrameHeightMinus1 ++
              (h.form.frameIdBits ++ (([h.use128x128Superblock] ++ ([h.enableFilterIntra] ++
                [h.enableIntraEdgeFilter])) ++ (h.form.toolBits ++ (([h.enableSuperres] ++
                  ([h.enableCdef] ++ [h.enableRestoration])) ++ ([h.highBitdepth] ++
                    (if h.seqProfile = 2 ∧ h.highBitdepth then [h.twelveBit]
                      else []))))))))))))) := by
    rw [SequenceHeader.bits]
    simp only [append_assoc]
  rw [hbits]
  refine (f_reads (lt_of_le_of_lt hprofile (by decide))).bind ?_
  refine (skips_flag h.stillPicture).bind ?_
  refine (flag_reads h.form.isReduced).bind ?_
  refine (levels_reads h.form hform).bind ?_
  refine (f_reads hwidthBits).bind ?_
  refine (f_reads hheightBits).bind ?_
  refine (f_reads hwidth).bind ?_
  refine (f_reads hheight).bind ?_
  refine (frameIds_reads h.form hform).bind ?_
  refine (skips_flags _ (skips_flags _ (skips_flag _))).bind ?_
  refine htools.bind ?_
  refine (skips_flags _ (skips_flags _ (skips_flag _))).bind ?_
  exact (bitDepth_reads h).last

theorem fFrom_stays (n v : Nat) : Stays (8 * br.length) (BitReader.fFrom br n v) := by
  induction n generalizing v with
  | zero => exact pure _ v
  | succ n ih =>
    intro pos a stop hpos hrun
    rw [fFrom_run] at hrun
    cases hbyte : br[pos >>> 3]? with
    | none =>
      rw [hbyte] at hrun
      cases hrun
    | some byte =>
      rw [hbyte] at hrun
      obtain ⟨hlt, -⟩ := List.getElem?_eq_some_iff.mp hbyte
      rw [Nat.shiftRight_eq_div_pow] at hlt
      exact ih _ (pos + 1) a stop (by omega) hrun

theorem f_stays (n : Nat) : Stays (8 * br.length) (BitReader.f br n) := fFrom_stays n 0

theorem failure_stays {α : Type} (size : Nat) : Stays size (failure : Reader α) :=
  fun _ _ _ _ hrun => nomatch hrun

theorem skips_stays (ns : List Nat) : Stays (8 * br.length) (skips br ns) := by
  induction ns with
  | nil => exact pure _ ()
  | cons n more ih => exact (f_stays n).bind (fun _ => ih)

theorem ifSo_stays {c : Prop} [Decidable c]
    (h : Stays (8 * br.length) body) : Stays (8 * br.length) (ifSo c body) :=
  h.ite (pure _ ())

theorem whenSet_stays (h : Stays (8 * br.length) body) :
    Stays (8 * br.length) (whenSet br body) :=
  (f_stays 1).bind (fun _ => ifSo_stays h)

theorem leadingZeros_stays (left leadingZeros : Nat) :
    Stays (8 * br.length) (BitReader.leadingZerosFrom br left leadingZeros) := by
  induction left generalizing leadingZeros with
  | zero =>
    rw [BitReader.leadingZerosFrom]
    exact (f_stays 1).bind (fun _ => (pure _ leadingZeros).ite (failure_stays _))
  | succ left ih =>
    rw [BitReader.leadingZerosFrom]
    exact (f_stays 1).bind (fun _ => (pure _ leadingZeros).ite (ih (leadingZeros + 1)))

theorem skipUvlc_stays : Stays (8 * br.length) (skipUvlc br) := by
  have huvlc : Stays (8 * br.length) (BitReader.uvlc br) :=
    (leadingZeros_stays 32 0).bind (fun _ => (pure _ _).ite
      ((f_stays _).bind (fun _ => pure _ _)))
  exact huvlc.bind (fun _ => pure _ ())

theorem timing_stays : Stays (8 * br.length) (timing br) := by
  have hmodel : Stays (8 * br.length) (decoderModel br) :=
    (f_stays 1).bind (fun _ => ((f_stays 5).bind (fun _ => (skips_stays _).bind
      (fun _ => pure _ _))).ite (pure _ _))
  exact (f_stays 1).bind (fun _ => ((skips_stays _).bind (fun _ =>
    (whenSet_stays skipUvlc_stays).bind (fun _ => hmodel))).ite (pure _ _))

theorem operatingPoints_stays (decoderModelInfo bufferDelayLen initialDisplayDelay left i : Nat)
    (chosen : Nat × Nat) :
    Stays (8 * br.length) (operatingPoints br decoderModelInfo bufferDelayLen initialDisplayDelay
      left i chosen) := by
  induction left generalizing i chosen with
  | zero => exact pure _ chosen
  | succ left ih =>
    have hlevel : Stays (8 * br.length) (levelAndTier br) :=
      (f_stays 5).bind (fun _ => ((f_stays 1).bind (fun _ => pure _ _)).ite (pure _ _))
    rw [operatingPoints]
    refine (f_stays 12).bind (fun _ => ?_)
    refine hlevel.bind (fun point => ?_)
    refine (ifSo_stays (whenSet_stays (skips_stays _))).bind (fun _ => ?_)
    exact (ifSo_stays (whenSet_stays (skips_stays _))).bind (fun _ => ih _ _)

theorem levels_stays (reduced : Nat) : Stays (8 * br.length) (levels br reduced) := by
  refine ite ((f_stays 5).bind (fun _ => pure _ _)) ?_
  refine timing_stays.bind (fun model => ?_)
  refine (f_stays 1).bind (fun initialDisplayDelay => ?_)
  exact (f_stays 5).bind (fun _ => operatingPoints_stays _ _ _ _ _ _)

theorem interTools_stays : Stays (8 * br.length) (interTools br) := by
  have hsct : Stays (8 * br.length) (forceSct br) :=
    (f_stays 1).bind (fun _ => (pure _ 2).ite (f_stays 1))
  have hmv : Stays (8 * br.length) (integerMv br) :=
    (f_stays 1).bind (fun _ => ifSo_stays (skips_stays _))
  refine (skips_stays _).bind (fun _ => ?_)
  refine (f_stays 1).bind (fun enableOrderHint => ?_)
  refine (ifSo_stays (skips_stays _)).bind (fun _ => ?_)
  refine hsct.bind (fun _ => ?_)
  exact (ifSo_stays hmv).bind (fun _ => ifSo_stays (skips_stays _))

theorem bitDepth_stays (seqProfile : Nat) : Stays (8 * br.length) (bitDepth br seqProfile) :=
  (f_stays 1).bind (fun _ => ((f_stays 1).bind (fun _ => pure _ _)).ite (pure _ _))

theorem sequenceHeader_stays : Stays (8 * br.length) (sequenceHeader br) := by
  refine (f_stays 3).bind (fun seqProfile => ?_)
  refine (skips_stays _).bind (fun _ => ?_)
  refine (f_stays 1).bind (fun reduced => ?_)
  refine (levels_stays reduced).bind (fun levels => ?_)
  refine (f_stays 4).bind (fun widthBitsMinus1 => ?_)
  refine (f_stays 4).bind (fun heightBitsMinus1 => ?_)
  refine (f_stays _).bind (fun maxWidthMinus1 => ?_)
  refine (f_stays _).bind (fun maxHeightMinus1 => ?_)
  refine (ifSo_stays (whenSet_stays (skips_stays _))).bind (fun _ => ?_)
  refine (skips_stays _).bind (fun _ => ?_)
  refine (ifSo_stays interTools_stays).bind (fun _ => ?_)
  refine (skips_stays _).bind (fun _ => ?_)
  exact (bitDepth_stays seqProfile).bind (fun _ => pure _ _)

end

open Av1Syntax (SequenceHeaderObu)

theorem continued_encode (digits : List (Fin 128)) (hne : digits ≠ []) (payload : Bytes) :
    continued (Leb128.encode digits ++ payload) + 1 = digits.length := by
  induction digits with
  | nil => exact absurd rfl hne
  | cons d more ih =>
    cases more with
    | nil =>
      have hlast := (top_bit (UInt8.ofNat d)).mpr (Leb128.continues_last d)
      rw [Leb128.encode, singleton_append, continued, if_neg (not_not_intro hlast)]
      rfl
    | cons d' more =>
      have hmore : UInt8.ofNat (d + 128) &&& 0x80 ≠ 0 := by
        intro hzero
        have hstop := (top_bit _).mp hzero
        rw [Leb128.continues_more d] at hstop
        cases hstop
      rw [Leb128.encode, cons_append, continued, if_pos hmore, ih (cons_ne_nil d' more)]
      · rfl
      · exact cons_ne_nil d' more

theorem drop_payloadStart (o : SequenceHeaderObu) :
    o.bytes.drop (payloadStart o.bytes) = o.payload := by
  have hsize := continued_encode o.size o.size_ne o.payload
  have hlength := Leb128.encode_length o.size
  have hcount : ∀ n, n = o.extension.toList.length →
      o.bytes.drop (1 + n + continued (o.bytes.drop (1 + n)) + 1) = o.payload := by
    rintro n rfl
    have hdrop : o.bytes.drop (1 + o.extension.toList.length) =
        Leb128.encode o.size ++ o.payload := by
      rw [SequenceHeaderObu.bytes, Nat.add_comm, drop_succ_cons, drop_left]
    rw [Nat.add_assoc, hdrop, hsize, ← drop_drop, hdrop, ← hlength, drop_left]
  have hfirst : byteAt o.bytes 0 = o.headerByte := rfl
  have hextension : (if (o.headerByte >>> 2) &&& 0x01 ≠ 0 then 1 else 0) =
      o.extension.toList.length := by
    have hcount : o.extension.toList.length = o.extension.isSome.toNat := by
      cases o.extension <;> rfl
    rw [hcount]
    unfold SequenceHeaderObu.headerByte
    generalize o.extension.isSome = extension
    cases extension <;> cases o.reservedBit <;> decide
  unfold payloadStart
  rw [hfirst]
  exact hcount _ hextension

/-- Of every valid sequence header the parser tells what is written in it, and of any bytes it
tells nothing or something from reads within them. -/
theorem sequence_headers_parsed :
    (∀ o : SequenceHeaderObu, parseSequenceHeader o.bytes = some (infoOf o.header)) ∧
      ∀ obu : Bytes, parseSequenceHeader obu = none ∨ ∃ info stop,
        parseSequenceHeader obu = some info ∧
          (sequenceHeader (obu.drop (payloadStart obu))).run 0 = some (info, stop) ∧
          stop ≤ 8 * (obu.drop (payloadStart obu)).length := by
  constructor
  · intro o
    have hreads := @sequenceHeader_reads o.payload o.header o.valid 0 o.rest o.payload_eq
    rw [parseSequenceHeader, drop_payloadStart, hreads]
    rfl
  · intro obu
    unfold parseSequenceHeader
    cases hrun : (sequenceHeader (obu.drop (payloadStart obu))).run 0 with
    | none => exact Or.inl rfl
    | some result =>
      obtain ⟨info, stop⟩ := result
      exact Or.inr ⟨info, stop, rfl, rfl,
        sequenceHeader_stays 0 info stop (Nat.zero_le _) hrun⟩

end MoonlightWeb.Frontend.Av1Utils
