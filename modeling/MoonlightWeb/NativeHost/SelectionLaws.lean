import Mathlib
import MoonlightWeb.NativeHost.Selector

/-! # What a selection promises

A codec both sides have, HDR or 4:4:4 but not both, the fallback tier only where no GPU
encodes, and a copy flag that says whether the frame changes GPU. Asking for 4:4:4 may
cost HDR: the walk for 4:4:4 comes first, and it may stop at a codec of eight bits.
-/

namespace MoonlightWeb.NativeHost.Selector

open Encoder

variable {frameForDisplay : FrameSize → FrameSize → FramePolicy → FrameSize}
  {caps : Capabilities} {config : SessionConfig}

/-- The codecs of the encoder a selection chose, and those it carries 4:4:4 with. -/
def codecsOf (caps : Capabilities) (sel : Selection) : List Codec :=
  if sel.fallbackEncoder then (bestFallback caps).elim [] FallbackEncoder.codecs
  else sel.gpu.elim [] fun g => g.1.codecs

def codecs444Of (sel : Selection) : List Codec := sel.gpu.elim [] fun g => g.1.codecs444

structure Sound (caps : Capabilities) (config : SessionConfig) (sel : Selection) : Prop where
  display : findDisplay caps config.displayId = some sel.display
  onGpu : sel.fallbackEncoder = false →
    ∃ g, g ∈ caps.gpus.zipIdx ∧ sel.gpu = some g ∧ g.1.encodes = true
  onFallback : sel.fallbackEncoder = true →
    ∃ fb, fb ∈ caps.fallbacks ∧ bestFallback caps = some fb
  client : sel.codec ∈ config.clientCodecs
  listed : sel.codec ∈ codecsOf caps sel
  first : (config.clientCodecs.find? fun c => decide (c ∈ codecsOf caps sel)) = some sel.codec ∨
    (config.yuv444 = true ∧ sel.fallbackEncoder = false ∧
      (config.clientCodecs.find? fun c =>
        decide (c ∈ codecsOf caps sel) && decide (c ∈ codecs444Of sel)) = some sel.codec)
  exclusive : ¬ (sel.hdr = true ∧ sel.yuv444 = true)
  fallback : sel.fallbackEncoder = true → ∀ gpu ∈ caps.gpus, ∀ c ∈ config.clientCodecs,
    ¬ (gpu.encoders ≠ [] ∧ c ∈ gpu.codecs)
  copy : ∀ own, gpuFor caps sel.display = some own →
    (sel.crossGpuCopy = true ↔ sel.gpu ≠ some own)

theorem bestFallback_mem {fb : FallbackEncoder} (h : bestFallback caps = some fb) :
    fb ∈ caps.fallbacks := by
  have hfold : ∀ (rest : List FallbackEncoder) (best : Option FallbackEncoder),
      rest.foldl betterFallback best = some fb → best = some fb ∨ fb ∈ rest := by
    intro rest
    induction rest with
    | nil => exact fun best hbest => Or.inl hbest
    | cons next rest ih =>
      intro best hbest
      rcases ih _ hbest with hnow | hlater
      · unfold betterFallback at hnow
        by_cases huseless : next.api = .none ∨ next.codecs = []
        · rw [if_pos huseless] at hnow
          exact Or.inl hnow
        · rw [if_neg huseless] at hnow
          cases best with
          | none =>
            obtain rfl := Option.some.inj hnow
            exact Or.inr List.mem_cons_self
          | some b =>
            simp only at hnow
            split at hnow
            · obtain rfl := Option.some.inj hnow
              exact Or.inr List.mem_cons_self
            · exact Or.inl hnow
      · exact Or.inr (List.mem_cons_of_mem _ hlater)
  rcases hfold caps.fallbacks none h with hno | hmem
  · cases hno
  · exact hmem

variable {display : DisplayInfo} {g : GpuAt}

theorem gpuFor_mem (h : gpuFor caps display = some g) :
    g ∈ caps.gpus.zipIdx :=
  List.mem_of_find?_eq_some h

theorem forcedGpu_mem {encodeGpuId : Int} (h : forcedGpu caps encodeGpuId = some g) :
    g ∈ caps.gpus.zipIdx :=
  List.mem_of_mem_filter (List.mem_of_getLast? h)

theorem placeEncoder_gpu {copies : Bool}
    (h : placeEncoder caps config display = .ok ⟨.gpu g, copies⟩) :
    g ∈ caps.gpus.zipIdx ∧ g.1.encodes = true := by
  obtain ⟨gpu, starts, hstart, ⟨g', rfl, hencodes, heq⟩ | ⟨_, ⟨other, hother, heq⟩ |
    ⟨_, fb, _, heq⟩⟩⟩ := placeEncoder_eq_ok h
  · obtain rfl : g = g' := by simpa using congrArg Placement.encoder heq
    refine ⟨?_, hencodes⟩
    rcases startingGpu_eq_ok hstart with ⟨_, hgpu, _⟩ | ⟨_, forced, hforced, hgpu, _⟩
    · exact gpuFor_mem hgpu.symm
    · obtain rfl := Option.some.inj hgpu
      exact forcedGpu_mem hforced
  · obtain rfl : g = other := by simpa using congrArg Placement.encoder heq
    exact firstEncodingGpu_eq_some hother
  · cases congrArg Placement.encoder heq

theorem placeEncoder_fallback {fb : FallbackEncoder} {g : Option GpuAt}
    {copies : Bool} (h : placeEncoder caps config display = .ok ⟨.fallback fb g, copies⟩) :
    bestFallback caps = some fb ∧ firstEncodingGpu caps = none := by
  obtain ⟨gpu, starts, _, ⟨g', _, _, heq⟩ | ⟨_, ⟨other, _, heq⟩ | ⟨hnone, fb', hfb, heq⟩⟩⟩ :=
    placeEncoder_eq_ok h
  · cases congrArg Placement.encoder heq
  · cases congrArg Placement.encoder heq
  · have hsame : fallback fb g = .fallback fb' gpu := congrArg Placement.encoder heq
    obtain ⟨rfl, rfl⟩ := fallback.inj hsame
    exact ⟨hfb, hnone⟩

/-- The copy flag tells the GPU chosen from the display's own. -/
theorem placeEncoder_copy {placement : Placement}
    (h : placeEncoder caps config display = .ok placement) {own : GpuAt}
    (hown : gpuFor caps display = some own) :
    placement.crossGpuCopy = true ↔ placement.encoder.gpuOf ≠ some own := by
  obtain ⟨gpu, copies, hstart, hplaced⟩ := placeEncoder_eq_ok h
  rcases startingGpu_eq_ok hstart with ⟨hfree, rfl, rfl⟩ |
    ⟨hforced, forced, _, rfl, rfl, huseful⟩
  · have hless : decide (config.encodeGpuId ≥ 0) = false := decide_eq_false (by omega)
    rcases hplaced with ⟨g, hg, _, rfl⟩ | ⟨hidle, ⟨other, hother, rfl⟩ | ⟨_, fb, _, rfl⟩⟩
    · rw [hown] at hg
      simp [gpuOf, hg]
    · have hencodes := (firstEncodingGpu_eq_some hother).2
      have hne : other ≠ own := by
        rintro rfl
        rw [hidle other hown] at hencodes
        cases hencodes
      simp [gpuOf, hown, hne]
    · simp [gpuOf, hown, hless]
  · have hmore : decide (config.encodeGpuId ≥ 0) = true := decide_eq_true hforced
    rcases hplaced with ⟨g, hg, _, rfl⟩ | ⟨hidle, ⟨other, hother, rfl⟩ | ⟨_, fb, _, rfl⟩⟩
    · obtain rfl := Option.some.inj hg
      simp only [gpuOf, hown, decide_eq_true_eq]
      exact ne_comm
    · rcases huseful with hencodes | hnone
      · rw [hidle forced rfl] at hencodes
        cases hencodes
      · rw [hnone] at hother
        cases hother
    · simp only [gpuOf, hown, hmore, Bool.true_and, decide_eq_true_eq]
      exact ne_comm

variable {codec : Codec}

theorem codecsOf_settle {placement : Placement}
    {steered : Bool} (h : placeEncoder caps config display = .ok placement) :
    codecsOf caps (settle frameForDisplay config display placement codec steered) =
      placement.encoder.available := by
  obtain ⟨encoder, copies⟩ := placement
  cases encoder with
  | gpu g => rfl
  | fallback fb g =>
    simp [codecsOf, settle, isFallback, (placeEncoder_fallback h).1, available]

/-- Every selection is sound. -/
theorem selection_sound (frameForDisplay : FrameSize → FrameSize → FramePolicy → FrameSize)
    (caps : Capabilities) (config : SessionConfig) (sel : Selection)
    (h : select frameForDisplay caps config = .ok sel) : Sound caps config sel := by
  obtain ⟨display, ⟨encoder, copies⟩, codec, steered, ⟨_, hfound, hplaced, hchosen⟩, rfl⟩ :=
    select_eq_ok_iff.mp h
  have havailable := @codecsOf_settle frameForDisplay caps config display codec ⟨encoder, copies⟩
    steered hplaced
  have hcodec : codec ∈ config.clientCodecs ∧ codec ∈ encoder.available := by
    rcases chooseCodec_eq_some hchosen with ⟨_, _, hwalk⟩ | ⟨_, hwalk⟩
    · obtain ⟨g, hgpu, hclient, hlisted, _⟩ := walk444_eq_some hwalk
      refine ⟨hclient, ?_⟩
      rw [show encoder = .gpu g from hgpu]
      exact hlisted
    · exact walk_eq_some hwalk
  constructor
  · exact hfound
  · intro hno
    cases encoder with
    | fallback fb g => cases hno
    | gpu g =>
        obtain ⟨hmem, hencodes⟩ := placeEncoder_gpu hplaced
        exact ⟨g, hmem, rfl, hencodes⟩
  · intro hyes
    cases encoder with
    | gpu g => cases hyes
    | fallback fb g =>
        have hbest := (placeEncoder_fallback hplaced).1
        exact ⟨fb, bestFallback_mem hbest, hbest⟩
  · exact hcodec.1
  · rw [havailable]
    exact hcodec.2
  · rw [havailable]
    rcases chooseCodec_eq_some hchosen with ⟨_, hyuv, hwalk⟩ | ⟨_, hwalk⟩
    · right
      cases encoder with
      | fallback fb g => cases hwalk
      | gpu g => exact ⟨hyuv, rfl, hwalk⟩
    · exact Or.inl hwalk
  · rintro ⟨hhdr, hyuv⟩
    have hhdr : grantsHdr config display encoder codec = true := hhdr
    have hyuv : (steered && !grantsHdr config display encoder codec) = true := hyuv
    rw [hhdr] at hyuv
    simp at hyuv
  · intro hyes gpu hgpu c _ hencodes
    cases encoder with
    | gpu g => cases hyes
    | fallback fb g =>
        have hidle := firstEncodingGpu_eq_none (placeEncoder_fallback hplaced).2 gpu hgpu
        have hcodecs : gpu.codecs ≠ [] := List.ne_nil_of_mem hencodes.2
        simp [GpuInfo.encodes, hencodes.1, hcodecs] at hidle
  · intro own hown
    exact placeEncoder_copy hplaced hown

/-- A discrete card with three codecs, on a display showing HDR. -/
def oneCard : Capabilities where
  gpus := [⟨0, "card", [.nvenc], [.av1, .hevc, .h264], true, [.hevc, .h264]⟩]
  displays := [⟨0, 2560, 1440, 143980, 0, true, true⟩]
  fallbacks := []

def hdrClient (clientCodecs : List Codec) (yuv444 : Bool) : SessionConfig :=
  ⟨-1, 0, 0, 0, clientCodecs, true, yuv444, false, false, -1⟩

theorem selection_sound_card :
    ∃ sel, select (fun _ asked _ => asked) oneCard (hdrClient [.hevc, .h264] true) = .ok sel ∧
      sel.hdr = true ∧ Sound oneCard (hdrClient [.hevc, .h264] true) sel :=
  ⟨_, rfl, rfl, selection_sound _ _ _ _ rfl⟩

/-- The GPU `select` encodes on: the one the bench names when it encodes, or the display's
own when it does, else the first that does. -/
def encodingGpu (caps : Capabilities) (config : SessionConfig) (display : DisplayInfo) :
    Option GpuAt :=
  if config.encodeGpuId ≥ 0 then
    (forcedGpu caps config.encodeGpuId).filter fun g => g.1.encodes
  else ((gpuFor caps display).filter fun g => g.1.encodes).or (firstEncodingGpu caps)

structure HdrPath (caps : Capabilities) (config : SessionConfig) (display : DisplayInfo)
    (g : GpuAt) : Prop where
  found : findDisplay caps config.displayId = some display
  encodes : encodingGpu caps config display = some g
  asked : config.hdr = true
  active : display.hdrActive = true
  tenBit : g.1.supports10Bit = true

/-- The client's first codec on the GPU carries ten bits, and its first one with 4:4:4
does not. -/
structure SteersOffHdr (clientCodecs : List Codec) (gpu : GpuInfo) : Prop where
  plain : ∃ c, (clientCodecs.find? fun c => decide (c ∈ gpu.codecs)) = some c ∧
    c.tenBit = true
  with444 : ∃ c, (clientCodecs.find? fun c =>
    decide (c ∈ gpu.codecs) && gpu.supports444 c) = some c ∧ c.tenBit = false

/-- Asking for 4:4:4 as well keeps the HDR picture. -/
def KeepsHdr (frameForDisplay : FrameSize → FrameSize → FramePolicy → FrameSize)
    (caps : Capabilities) (config : SessionConfig) : Prop :=
  ∀ sel, select frameForDisplay caps { config with yuv444 := false } = .ok sel →
    sel.hdr = true →
      ∃ sel', select frameForDisplay caps { config with yuv444 := true } = .ok sel' ∧
        sel'.hdr = true

theorem encodingGpu_eq_some :
    encodingGpu caps config display = some g ↔
      ∃ copies, placeEncoder caps config display = .ok ⟨.gpu g, copies⟩ := by
  unfold encodingGpu placeEncoder startingGpu
  by_cases hforced : config.encodeGpuId ≥ 0
  · rw [if_pos hforced, if_pos hforced]
    cases hgpu : forcedGpu caps config.encodeGpuId with
    | none => simp
    | some forced =>
      cases hencodes : forced.1.encodes with
      | true =>
        simp [hencodes, Option.filter]
        exact fun _ => Classical.em _
      | false =>
        cases hfirst : firstEncodingGpu caps with
        | some other => simp [hencodes, Option.filter]
        | none => cases hbest : bestFallback caps <;> simp [hencodes, Option.filter]
  · rw [if_neg hforced, if_neg hforced]
    simp only
    cases hown : (gpuFor caps display).filter fun g => g.1.encodes with
    | some own => simp
    | none =>
      cases hfirst : firstEncodingGpu caps with
      | some other => simp
      | none => cases hbest : bestFallback caps <;> simp

theorem select_hdr_iff :
    (∃ sel, select frameForDisplay caps config = .ok sel ∧ sel.hdr = true) ↔
      ∃ display g codec steered, HdrPath caps config display g ∧
        chooseCodec config (.gpu g) = some (codec, steered) ∧ codec.tenBit = true := by
  constructor
  · rintro ⟨sel, hsel, hhdr⟩
    obtain ⟨display, ⟨encoder, copies⟩, codec, steered, ⟨_, hfound, hplaced, hchosen⟩, rfl⟩ :=
      select_eq_ok_iff.mp hsel
    have hgrants : grantsHdr config display encoder codec = true := hhdr
    simp only [grantsHdr, hdrCapable, Bool.and_eq_true] at hgrants
    obtain ⟨⟨hasked, ⟨hgpu, hten⟩, hcodec⟩, hactive⟩ := hgrants
    cases encoder with
    | fallback fb g => cases hgpu
    | gpu g =>
      exact ⟨display, g, codec, steered,
        ⟨hfound, encodingGpu_eq_some.mpr ⟨copies, hplaced⟩, hasked, hactive, hten⟩,
        hchosen, hcodec⟩
  · rintro ⟨display, g, codec, steered, ⟨hfound, hencodes, hasked, hactive, hten⟩, hchosen,
      hcodec⟩
    obtain ⟨copies, hplaced⟩ := encodingGpu_eq_some.mp hencodes
    have hnonempty : config.clientCodecs ≠ [] := by
      rcases chooseCodec_eq_some hchosen with ⟨_, _, hwalk⟩ | ⟨_, hwalk⟩
      · obtain ⟨_, _, hclient, _⟩ := walk444_eq_some hwalk
        exact List.ne_nil_of_mem hclient
      · exact List.ne_nil_of_mem (walk_eq_some hwalk).1
    refine ⟨_, select_eq_ok_iff.mpr
      ⟨display, ⟨.gpu g, copies⟩, codec, steered, ⟨hnonempty, hfound, hplaced, hchosen⟩, rfl⟩, ?_⟩
    simp only [settle, grantsHdr, hdrCapable, hasked, hactive, hcodec, isFallback,
      supports10Bit, hten]
    rfl

theorem chooseCodec_steered (hasked : config.yuv444 = true)
    (hwalk : walk444 config.clientCodecs (.gpu g) = some codec) :
    chooseCodec config (.gpu g) = some (codec, true) := by
  simp [chooseCodec, hasked, hwalk]

theorem chooseCodec_plain
    (hnone : config.yuv444 = true → walk444 config.clientCodecs (.gpu g) = none)
    (hwalk : walk config.clientCodecs (.gpu g) = some codec) :
    chooseCodec config (.gpu g) = some (codec, false) := by
  cases hasked : config.yuv444 with
  | true => simp [chooseCodec, hasked, hnone hasked, hwalk]
  | false => simp [chooseCodec, hasked, hwalk]

/-- HDR survives the request for 4:4:4 exactly where 4:4:4 does not steer off it. -/
theorem keepsHdr_iff (frameForDisplay : FrameSize → FrameSize → FramePolicy → FrameSize)
    (caps : Capabilities) (config : SessionConfig) :
    KeepsHdr frameForDisplay caps config ↔
      ¬ ∃ display g, HdrPath caps config display g ∧
        SteersOffHdr config.clientCodecs g.1 := by
  have hplace : ∀ b display g, HdrPath caps { config with yuv444 := b } display g ↔
      HdrPath caps config display g :=
    fun b display g => ⟨fun h => ⟨h.1, h.2, h.3, h.4, h.5⟩, fun h => ⟨h.1, h.2, h.3, h.4, h.5⟩⟩
  constructor
  · rintro hkeeps ⟨display, g, hpath, ⟨c, hplain, hten⟩, c', hsteered, height⟩
    -- The plain walk has HDR, and the one for 4:4:4 would have to stop elsewhere.
    obtain ⟨sel, hsel, hhdr⟩ := select_hdr_iff.mpr
      ⟨display, g, c, false, (hplace false display g).mpr hpath,
        chooseCodec_plain (fun hno => by cases hno) hplain, hten⟩
    obtain ⟨display', g', codec, steered, hpath', hchosen, hcodec⟩ :=
      (@select_hdr_iff frameForDisplay caps { config with yuv444 := true }).mp
        (hkeeps sel hsel hhdr)
    obtain rfl : display' = display := by
      simpa using hpath'.found.symm.trans hpath.found
    obtain rfl : g' = g := by
      simpa using ((hplace true display' g').mp hpath').encodes.symm.trans hpath.encodes
    have htaken := @chooseCodec_steered { config with yuv444 := true } g' c' rfl hsteered
    obtain rfl : codec = c' :=
      (Prod.mk.inj (Option.some.inj (hchosen.symm.trans htaken))).1
    rw [hcodec] at height
    cases height
  · intro hnever sel hsel hhdr
    obtain ⟨display, g, codec, steered, hpath, hchosen, hcodec⟩ :=
      (@select_hdr_iff frameForDisplay caps { config with yuv444 := false }).mp ⟨sel, hsel, hhdr⟩
    rw [hplace] at hpath
    have hplain : walk config.clientCodecs (.gpu g) = some codec := by
      rcases chooseCodec_eq_some hchosen with ⟨_, hyuv, _⟩ | ⟨_, hwalk⟩
      · cases hyuv
      · exact hwalk
    apply select_hdr_iff.mpr
    cases hwalk : walk444 config.clientCodecs (.gpu g) with
    | none =>
        exact ⟨display, g, codec, false, (hplace true display g).mpr hpath,
          chooseCodec_plain (fun _ => hwalk) hplain, hcodec⟩
    | some first =>
        have hfirst : first.tenBit = true := by
          by_contra hsteers
          exact hnever ⟨display, g, hpath, ⟨codec, hplain, hcodec⟩, first, hwalk,
            Bool.eq_false_iff.mpr hsteers⟩
        exact ⟨display, g, first, true, (hplace true display g).mpr hpath,
          chooseCodec_steered rfl hwalk, hfirst⟩

/-- AV1 then H.264, on a card with 4:4:4 on H.264 alone of the two. -/
theorem steered_to_h264 :
    ¬ ∀ frameForDisplay caps config, KeepsHdr frameForDisplay caps config := by
  intro hall
  obtain ⟨sel, hsel, hhdr⟩ :=
    hall (fun _ asked _ => asked) oneCard (hdrClient [.av1, .h264] true) _ rfl rfl
  obtain rfl := Except.ok.inj hsel
  cases hhdr

end MoonlightWeb.NativeHost.Selector
