import MoonlightWeb.Frontend.Mp4Muxer

/-! # When a keyframe changes the parameter sets

A parser that was fed one keyframe is asked about another. It finds no change exactly when
each parameter set of the second is the last of its kind in the first, the bits of level and
tier left out.
-/

namespace MoonlightWeb.Frontend.Mp4Muxer

open Lib List

inductive Kind
  | vps
  | sps
  | pps
deriving DecidableEq, Repr

/-- The bits that only carry a level or a tier. -/
def levelBits : Codec → Kind → Option Ignored
  | .h264, .sps => some H264_SPS_LEVEL
  | .hevc, .vps => some HEVC_VPS_PTL
  | .hevc, .sps => some HEVC_SPS_PTL
  | _, _ => none

def kindOf264 (n : Bytes) : Option Kind :=
  if n.length < 1 then none
  else if h264Type n = H264_SPS then some .sps
  else if h264Type n = H264_PPS then some .pps
  else none

def kindOfHevc (n : Bytes) : Option Kind :=
  if n.length < 2 then none
  else if hevcType n = HEVC_VPS then some .vps
  else if hevcType n = HEVC_SPS then some .sps
  else if hevcType n = HEVC_PPS then some .pps
  else none

def kindOf : Codec → Bytes → Option Kind
  | .h264 => kindOf264
  | .hevc => kindOfHevc

/-- The kind a unit is kept as: one too short for an HEVC header goes by its H.264 type. -/
def takenAs (codec : Codec) (n : Bytes) : Option Kind :=
  if codec = .hevc ∧ 2 ≤ n.length then kindOfHevc n else kindOf264 n

/-- The bytes with the bits that are left out cleared. -/
def masked (ignored : Ignored) (bytes : Bytes) : Bytes :=
  bytes.mapIdx fun i b => b &&& mask ignored i

/-- Equal but for level and tier, without emulation prevention; sets that carry neither are
equal byte for byte. -/
def Same (codec : Codec) (kind : Kind) (held incoming : Bytes) : Prop :=
  match levelBits codec kind with
  | some ignored =>
      masked ignored (removeEmulationPrevention held) =
        masked ignored (removeEmulationPrevention incoming)
  | none => held = incoming

/-- The last of some units that is kept as a kind. -/
def lastOf (codec : Codec) (kind : Kind) (units : List Bytes) : Option Bytes :=
  units.reverse.find? fun n => takenAs codec n = some kind

namespace NalParser

variable (p : NalParser)

def held : Kind → Option Bytes
  | .vps => p.vps
  | .sps => p.sps
  | .pps => p.pps

theorem all_masked (ignored : Ignored) (a b : Bytes) :
    (a.length = b.length && (List.range a.length).all fun i =>
      a.getD i 0 &&& mask ignored i = b.getD i 0 &&& mask ignored i) = true ↔
      masked ignored a = masked ignored b := by
  unfold masked
  constructor
  · intro h
    rw [Bool.and_eq_true, decide_eq_true_eq, all_eq_true] at h
    apply ext_getElem
    · simpa using h.1
    · intro i hi hi'
      simp only [length_mapIdx] at hi hi'
      have heq := h.2 i (mem_range.mpr hi)
      rw [decide_eq_true_eq, getD_eq_getElem _ _ hi, getD_eq_getElem _ _ hi'] at heq
      simpa using heq
  · intro h
    have hlen : a.length = b.length := by simpa using congrArg List.length h
    rw [Bool.and_eq_true, decide_eq_true_eq, all_eq_true]
    refine ⟨hlen, fun i hi => ?_⟩
    have hi := mem_range.mp hi
    have hi' : i < b.length := hlen ▸ hi
    have heq := congrArg (fun l => l[i]?) h
    simp only [List.getElem?_mapIdx, List.getElem?_eq_getElem hi,
      List.getElem?_eq_getElem hi', Option.map_some, Option.some.injEq] at heq
    rw [decide_eq_true_eq, getD_eq_getElem _ _ hi, getD_eq_getElem _ _ hi']
    exact heq

variable (codec : Codec)

theorem sameParameterSet_iff (kind : Kind) (held : Option Bytes)
    (incoming : Bytes) :
    sameParameterSet held incoming (levelBits codec kind) = true ↔
      ∃ set, held = some set ∧ Same codec kind set incoming := by
  cases held with
  | none => simp [sameParameterSet]
  | some set =>
    simp only [Option.some.injEq, exists_eq_left']
    unfold sameParameterSet Same
    by_cases heq : set = incoming
    · subst heq
      simp only [if_true, true_iff]
      split
      · trivial
      · trivial
    · dsimp only
      rw [if_neg heq]
      cases levelBits codec kind with
      | none => simp [heq]
      | some ignored => exact all_masked ignored _ _

theorem differs_iff (hc : p.codec = some codec) (n : Bytes) :
    p.differs n = false ↔ ∀ kind, kindOf codec n = some kind →
      sameParameterSet (p.held kind) n (levelBits codec kind) = true := by
  unfold differs kindOf
  rw [hc]
  cases codec with
  | h264 =>
    simp only [Option.some.injEq, reduceCtorEq, if_false]
    unfold kindOf264
    by_cases hlen : n.length < 1
    · simp [hlen]
    · simp only [hlen, if_false]
      by_cases hsps : h264Type n = H264_SPS
      · have hpps : ¬h264Type n = H264_PPS := by
          rw [hsps]
          decide
        cases hsame : sameParameterSet p.sps n (some H264_SPS_LEVEL) with
        | true => simp [hsps, hsame, held, levelBits, H264_SPS, H264_PPS]
        | false => simp [hsps, hsame, held, levelBits]
      · by_cases hpps : h264Type n = H264_PPS
        · cases hsame : sameParameterSet p.pps n none with
          | true => simp [hpps, hsame, held, levelBits, H264_SPS, H264_PPS]
          | false => simp [hpps, hsame, held, levelBits, H264_SPS, H264_PPS]
        · simp [hsps, hpps]
  | hevc =>
    simp only [if_true]
    unfold kindOfHevc
    by_cases hlen : n.length < 2
    · simp [hlen]
    · simp only [hlen, if_false]
      by_cases hvps : hevcType n = HEVC_VPS
      · cases hsame : sameParameterSet p.vps n (some HEVC_VPS_PTL) with
        | true => simp [hvps, hsame, held, levelBits, HEVC_VPS, HEVC_SPS, HEVC_PPS]
        | false => simp [hvps, hsame, held, levelBits]
      · by_cases hsps : hevcType n = HEVC_SPS
        · cases hsame : sameParameterSet p.sps n (some HEVC_SPS_PTL) with
          | true => simp [hsps, hsame, held, levelBits, HEVC_VPS, HEVC_SPS, HEVC_PPS]
          | false => simp [hsps, hsame, held, levelBits, HEVC_VPS, HEVC_SPS]
        · by_cases hpps : hevcType n = HEVC_PPS
          · cases hsame : sameParameterSet p.pps n none with
            | true => simp [hpps, hsame, held, levelBits, HEVC_VPS, HEVC_SPS, HEVC_PPS]
            | false => simp [hpps, hsame, held, levelBits, HEVC_VPS, HEVC_SPS, HEVC_PPS]
          · simp [hvps, hsps, hpps]

theorem take_codec (n : Bytes) : (p.take n).codec = p.codec := by
  unfold take
  split_ifs <;> rfl

theorem take_held (hc : p.codec = some codec) (n : Bytes) (kind : Kind) :
    (p.take n).held kind = if takenAs codec n = some kind then some n else p.held kind := by
  unfold take takenAs
  rw [hc]
  by_cases hhevc : some codec = some Codec.hevc ∧ 2 ≤ n.length
  · have hshort : ¬n.length < 2 := by omega
    have hcodec : codec = .hevc ∧ 2 ≤ n.length := ⟨Option.some.inj hhevc.1, hhevc.2⟩
    unfold kindOfHevc
    rw [if_pos hhevc, if_pos hcodec, if_neg hshort]
    split_ifs <;> cases kind <;> simp_all [held]
  · have hcodec : ¬(codec = .hevc ∧ 2 ≤ n.length) := fun h => hhevc ⟨by rw [h.1], h.2⟩
    unfold kindOf264
    rw [if_neg hhevc, if_neg hcodec]
    by_cases hlen : n.length < 1
    · have hlen' : ¬1 ≤ n.length := by omega
      simp [hlen, hlen']
    · have hlen' : 1 ≤ n.length := by omega
      rw [if_pos hlen', if_neg hlen]
      split_ifs <;> cases kind <;> simp_all [held]

/-- What is held of a kind is the last unit that was kept as it. -/
theorem foldl_take_held (units : List Bytes) (hc : p.codec = some codec)
    (kind : Kind) :
    (units.foldl take p).codec = some codec ∧
      (units.foldl take p).held kind = (lastOf codec kind units).or (p.held kind) := by
  induction units using List.reverseRecOn with
  | nil => exact ⟨hc, by simp [lastOf]⟩
  | append_singleton units n ih =>
    rw [foldl_append]
    change ((units.foldl take p).take n).codec = _ ∧ ((units.foldl take p).take n).held kind = _
    rw [take_codec, take_held _ codec ih.1, ih.2]
    refine ⟨ih.1, ?_⟩
    unfold lastOf
    rw [reverse_append, reverse_singleton, singleton_append, List.find?_cons]
    by_cases htaken : takenAs codec n = some kind
    · simp [htaken]
    · simp [htaken]

theorem feed_new (buffer : Bytes) :
    ∃ codec, (new.feed buffer).codec = some codec ∧
      ∀ kind, (new.feed buffer).held kind = lastOf codec kind (splitNals buffer) := by
  have hready : ¬new.isReady = true := by decide
  refine ⟨detectFirst (splitNals buffer), ?_⟩
  unfold feed
  rw [if_neg hready]
  have hheld : ∀ kind, (new.settle (splitNals buffer)).held kind = none := by
    intro kind
    cases kind <;> rfl
  have h := fun kind => foldl_take_held (new.settle (splitNals buffer)) _ (splitNals buffer) rfl kind
  refine ⟨(h .sps).1, fun kind => ?_⟩
  rw [(h kind).2, hheld, Option.or_none]
  rfl

theorem changedBy_iff (hc : p.codec = some codec) (hready : p.isReady = true)
    (buffer : Bytes) :
    p.changedBy buffer = false ↔ ∀ n ∈ splitNals buffer, ∀ kind, kindOf codec n = some kind →
      ∃ set, p.held kind = some set ∧ Same codec kind set n := by
  unfold changedBy
  rw [hready]
  simp only [Bool.not_true, Bool.false_eq_true, if_false, any_eq_false]
  constructor
  · intro h n hn kind hkind
    have hdiffers := (p.differs_iff codec hc n).mp (by simpa using h n hn)
    exact (sameParameterSet_iff codec kind _ n).mp (hdiffers kind hkind)
  · intro h n hn
    have hsame := (p.differs_iff codec hc n).mpr fun kind hkind =>
      (sameParameterSet_iff codec kind _ n).mpr (h n hn kind hkind)
    simp [hsame]

end NalParser

/-- A keyframe is found unchanged exactly when each parameter set it carries is the same as
the last of its kind in the keyframe before. -/
theorem keyframe_unchanged_iff (first second : Bytes)
    (hready : (NalParser.new.feed first).isReady = true) :
    ∃ codec, (NalParser.new.feed first).codec = some codec ∧
      ((NalParser.new.feed first).changedBy second = false ↔
        ∀ n ∈ splitNals second, ∀ kind, kindOf codec n = some kind →
          ∃ set, lastOf codec kind (splitNals first) = some set ∧ Same codec kind set n) := by
  obtain ⟨codec, hc, hheld⟩ := NalParser.feed_new first
  refine ⟨codec, hc, ?_⟩
  rw [NalParser.changedBy_iff _ codec hc hready]
  simp only [hheld]

def plainKeyframe : Bytes := [0, 0, 0, 1, 0x67, 0x64, 0, 0x2a, 0, 0, 0, 1, 0x68, 0xee]

theorem plainKeyframe_unchanged :
    ∃ codec, (NalParser.new.feed plainKeyframe).codec = some codec ∧
      ((NalParser.new.feed plainKeyframe).changedBy plainKeyframe = false ↔
        ∀ n ∈ splitNals plainKeyframe, ∀ kind, kindOf codec n = some kind →
          ∃ set, lastOf codec kind (splitNals plainKeyframe) = some set ∧
            Same codec kind set n) :=
  keyframe_unchanged_iff plainKeyframe plainKeyframe (by decide +kernel)

/-- A keyframe with two picture parameter sets is found changed by itself. -/
theorem two_pps_changed :
    (NalParser.new.feed (plainKeyframe ++ [0, 0, 0, 1, 0x68, 0x4e])).changedBy
      (plainKeyframe ++ [0, 0, 0, 1, 0x68, 0x4e]) = true := by
  decide +kernel

end MoonlightWeb.Frontend.Mp4Muxer
