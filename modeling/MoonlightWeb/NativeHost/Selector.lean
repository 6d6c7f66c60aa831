import Mathlib.Data.List.Basic
import Mathlib.Tactic.Common

/-! # The selector of the native host

What a session streams with: the display, the GPU or the fallback encoder, the codec, HDR
and 4:4:4. A GPU is known by its place in the list of the machine, which stands for its
address. The shape of the frame is computed in doubles and is a parameter.
-/

namespace MoonlightWeb.NativeHost.Selector

inductive Codec
  | av1
  | hevc
  | h264
deriving DecidableEq, Repr

inductive EncoderApi
  | none
  | nvenc
  | amf
  | vpl
  | vaApi
  | videoToolbox
  | mediaFoundation
  | software
deriving DecidableEq, Repr

structure GpuInfo where
  id : Int
  name : String
  encoders : List EncoderApi
  codecs : List Codec
  supports10Bit : Bool
  codecs444 : List Codec
deriving DecidableEq, Repr

def GpuInfo.supports444 (gpu : GpuInfo) (codec : Codec) : Bool := codec ∈ gpu.codecs444

abbrev GpuAt := GpuInfo × Nat

structure FallbackEncoder where
  api : EncoderApi
  codecs : List Codec
  hardware : Bool
  name : String
deriving DecidableEq, Repr

structure DisplayInfo where
  id : Int
  width : Int
  height : Int
  refreshMilliHz : Int
  gpuId : Int
  hdrActive : Bool
  primary : Bool
deriving DecidableEq, Repr

structure Capabilities where
  gpus : List GpuInfo
  displays : List DisplayInfo
  fallbacks : List FallbackEncoder

structure SessionConfig where
  displayId : Int
  width : Int
  height : Int
  fps : Int
  clientCodecs : List Codec
  hdr : Bool
  yuv444 : Bool
  fitRequestedBox : Bool
  allowUpscale : Bool
  encodeGpuId : Int

structure FrameSize where
  width : Int
  height : Int
deriving DecidableEq, Repr

structure FramePolicy where
  fitBox : Bool
  allowUpscale : Bool

variable (config : SessionConfig)

def policyOf : FramePolicy :=
  ⟨config.fitRequestedBox, config.fitRequestedBox && config.allowUpscale⟩

variable (caps : Capabilities)

def findDisplay (displayId : Int) : Option DisplayInfo :=
  if displayId < 0 then
    match caps.displays.find? fun d => d.primary with
    | some d => some d
    | none => caps.displays.head?
  else caps.displays.find? fun d => d.id = displayId

def GpuInfo.encodes (gpu : GpuInfo) : Bool := !gpu.encoders.isEmpty && !gpu.codecs.isEmpty

def firstEncodingGpu : Option GpuAt :=
  caps.gpus.zipIdx.find? fun g => g.1.encodes

def gpuFor (display : DisplayInfo) : Option GpuAt :=
  caps.gpus.zipIdx.find? fun g => g.1.id = display.gpuId

/-- The GPU the bench names; the last one with the number. -/
def forcedGpu (encodeGpuId : Int) : Option GpuAt :=
  (caps.gpus.zipIdx.filter fun g => g.1.id = encodeGpuId).getLast?

/-- The loop of `bestFallback`: the first usable encoder, or the first hardware one after
it when it is none itself. -/
def betterFallback (best : Option FallbackEncoder) (fb : FallbackEncoder) :
    Option FallbackEncoder :=
  if fb.api = .none ∨ fb.codecs = [] then best
  else
    match best with
    | none => some fb
    | some b => if fb.hardware && !b.hardware then some fb else some b

def bestFallback : Option FallbackEncoder :=
  caps.fallbacks.foldl betterFallback none

/-- What encodes: a GPU, or a fallback beside the GPU that captures, when that is known. -/
inductive Encoder
  | gpu (g : GpuAt)
  | fallback (fb : FallbackEncoder) (g : Option GpuAt)
deriving DecidableEq, Repr

structure Placement where
  encoder : Encoder
  crossGpuCopy : Bool
deriving DecidableEq, Repr

/-- The GPU the walk starts from, and whether it costs a copy: the one the bench names, or
the display's own. -/
def startingGpu (config : SessionConfig) (display : DisplayInfo) :
    Except String (Option GpuAt × Bool) :=
  if config.encodeGpuId ≥ 0 then
    match forcedGpu caps config.encodeGpuId with
    | none => .error ("GPU " ++ toString config.encodeGpuId ++ " does not exist")
    | some forced =>
        if !forced.1.encodes && (firstEncodingGpu caps).isSome then
          .error ("GPU " ++ toString config.encodeGpuId ++ " ('" ++ forced.1.name ++
            "') has no usable encoder")
        else .ok (some forced, gpuFor caps display ≠ some forced)
  else .ok (gpuFor caps display, false)

/-- The starting GPU when it encodes, else the first that does, else the fallback tier. -/
def placeEncoder (config : SessionConfig) (display : DisplayInfo) :
    Except String Placement :=
  match startingGpu caps config display with
  | .error e => .error e
  | .ok (gpu, copies) =>
      match gpu.filter fun g => g.1.encodes with
      | some g => .ok ⟨.gpu g, copies⟩
      | none =>
          match firstEncodingGpu caps with
          | some other => .ok ⟨.gpu other, gpu.isSome⟩
          | none =>
              match bestFallback caps with
              | none =>
                  .error ("no GPU on this machine has a usable encoder, and no fallback " ++
                    "encoder is available either")
              | some fb => .ok ⟨.fallback fb gpu, decide (config.encodeGpuId ≥ 0) && copies⟩

namespace Encoder

def available : Encoder → List Codec
  | .gpu g => g.1.codecs
  | .fallback fb _ => fb.codecs

def isFallback : Encoder → Bool
  | .gpu _ => false
  | .fallback _ _ => true

/-- `out.gpu`. -/
def gpuOf : Encoder → Option GpuAt
  | .gpu g => some g
  | .fallback _ g => g

def api : Encoder → EncoderApi
  | .gpu g => g.1.encoders.headD .none
  | .fallback fb _ => fb.api

def supports10Bit : Encoder → Bool
  | .gpu g => g.1.supports10Bit
  | .fallback _ _ => false

/-- `out.cpuEncoder`. -/
def onCpu : Encoder → Bool
  | .gpu _ => false
  | .fallback fb _ => !fb.hardware

end Encoder

/-- The first codec of the client the GPU carries 4:4:4 with; none on a fallback. -/
def walk444 (clientCodecs : List Codec) : Encoder → Option Codec
  | .gpu g => clientCodecs.find? fun c => decide (c ∈ g.1.codecs) && g.1.supports444 c
  | .fallback _ _ => none

/-- The first codec of the client the encoder lists. -/
def walk (clientCodecs : List Codec) (encoder : Encoder) : Option Codec :=
  clientCodecs.find? fun c => decide (c ∈ encoder.available)

/-- The codec, and whether 4:4:4 steered to it. -/
def chooseCodec (encoder : Encoder) : Option (Codec × Bool) :=
  match if config.yuv444 then walk444 config.clientCodecs encoder else none with
  | some codec => some (codec, true)
  | none => (walk config.clientCodecs encoder).map fun codec => (codec, false)

structure Selection where
  display : DisplayInfo
  gpu : Option GpuAt
  codec : Codec
  encoder : EncoderApi
  width : Int
  height : Int
  fps : Int
  hdr : Bool
  hdrCapable : Bool
  yuv444 : Bool
  crossGpuCopy : Bool
  fallbackEncoder : Bool
  cpuEncoder : Bool

def Codec.tenBit (codec : Codec) : Bool := codec = .hevc || codec = .av1

def hdrCapable (encoder : Encoder) (codec : Codec) : Bool :=
  !encoder.isFallback && encoder.supports10Bit && codec.tenBit

def grantsHdr (display : DisplayInfo) (encoder : Encoder)
    (codec : Codec) : Bool :=
  config.hdr && hdrCapable encoder codec && display.hdrActive

def frameRate (display : DisplayInfo) : Int :=
  let fps := if config.fps > 0 then config.fps else (display.refreshMilliHz + 500).tdiv 1000
  if fps ≤ 0 then 60 else fps

section

variable (frameForDisplay : FrameSize → FrameSize → FramePolicy → FrameSize)

/-- The rest of the selection, once the codec is chosen. HDR takes 4:4:4 back. -/
def settle (config : SessionConfig) (display : DisplayInfo) (placement : Placement)
    (codec : Codec) (steered : Bool) : Selection :=
  let asked : FrameSize :=
    ⟨if config.width > 0 then config.width else display.width,
      if config.height > 0 then config.height else display.height⟩
  let shaped := frameForDisplay ⟨display.width, display.height⟩ asked (policyOf config)
  { display
    gpu := placement.encoder.gpuOf
    codec
    encoder := placement.encoder.api
    width := shaped.width
    height := shaped.height
    fps := frameRate config display
    hdr := grantsHdr config display placement.encoder codec
    hdrCapable := hdrCapable placement.encoder codec
    yuv444 := steered && !grantsHdr config display placement.encoder codec
    crossGpuCopy := placement.crossGpuCopy
    fallbackEncoder := placement.encoder.isFallback
    cpuEncoder := placement.encoder.onCpu }

def select (caps : Capabilities) (config : SessionConfig) : Except String Selection :=
  if config.clientCodecs = [] then .error "the client listed no codecs it can decode"
  else
    match findDisplay caps config.displayId with
    | none => .error ("display " ++ toString config.displayId ++ " does not exist")
    | some display =>
        match placeEncoder caps config display with
        | .error e => .error e
        | .ok placement =>
            match chooseCodec config placement.encoder with
            | none =>
                .error (if placement.encoder.isFallback then
                    "this browser decodes no codec the fallback encoder can produce"
                  else "this GPU and this browser have no video codec in common")
            | some (codec, steered) =>
                .ok (settle frameForDisplay config display placement codec steered)

end

/-- The four decisions behind a selection. -/
structure Decided (caps : Capabilities) (config : SessionConfig) (display : DisplayInfo)
    (placement : Placement) (codec : Codec) (steered : Bool) : Prop where
  nonempty : config.clientCodecs ≠ []
  found : findDisplay caps config.displayId = some display
  placed : placeEncoder caps config display = .ok placement
  chosen : chooseCodec config placement.encoder = some (codec, steered)

variable {frameForDisplay : FrameSize → FrameSize → FramePolicy → FrameSize}
  {caps : Capabilities} {config : SessionConfig}

theorem select_eq_ok_iff {sel : Selection} :
    select frameForDisplay caps config = .ok sel ↔
      ∃ display placement codec steered, Decided caps config display placement codec steered ∧
        sel = settle frameForDisplay config display placement codec steered := by
  constructor
  · intro h
    unfold select at h
    by_cases hcodecs : config.clientCodecs = []
    · rw [if_pos hcodecs] at h
      cases h
    rw [if_neg hcodecs] at h
    cases hdisplay : findDisplay caps config.displayId with
    | none =>
      rw [hdisplay] at h
      cases h
    | some display =>
      simp only [hdisplay] at h
      cases hplacement : placeEncoder caps config display with
      | error e =>
        simp only [hplacement] at h
        cases h
      | ok placement =>
        simp only [hplacement] at h
        cases hcodec : chooseCodec config placement.encoder with
        | none =>
          simp only [hcodec] at h
          cases h
        | some chosen =>
          obtain ⟨codec, steered⟩ := chosen
          simp only [hcodec] at h
          exact ⟨display, placement, codec, steered,
            ⟨hcodecs, hdisplay, hplacement, hcodec⟩, (Except.ok.inj h).symm⟩
  · rintro ⟨display, placement, codec, steered, ⟨hcodecs, hdisplay, hplacement, hcodec⟩, rfl⟩
    unfold select
    rw [if_neg hcodecs]
    simp only [hdisplay, hplacement, hcodec]

variable {encoder : Encoder} {codec : Codec}

/-- The codec is the first 4:4:4 steers to, or the first the encoder lists. -/
theorem chooseCodec_eq_some {steered : Bool}
    (h : chooseCodec config encoder = some (codec, steered)) :
    (steered = true ∧ config.yuv444 = true ∧ walk444 config.clientCodecs encoder = some codec) ∨
      (steered = false ∧ walk config.clientCodecs encoder = some codec) := by
  unfold chooseCodec at h
  cases hwalk : if config.yuv444 then walk444 config.clientCodecs encoder else none with
  | some first =>
    simp only [hwalk] at h
    obtain ⟨rfl, rfl⟩ := Prod.mk.inj (Option.some.inj h)
    cases hyuv : config.yuv444 with
    | true =>
      rw [hyuv, if_pos rfl] at hwalk
      exact Or.inl ⟨rfl, rfl, hwalk⟩
    | false =>
      rw [hyuv, if_neg (by simp)] at hwalk
      cases hwalk
  | none =>
    simp only [hwalk] at h
    obtain ⟨first, hfirst, heq⟩ := Option.map_eq_some_iff.mp h
    obtain ⟨rfl, rfl⟩ := Prod.mk.inj heq
    exact Or.inr ⟨rfl, hfirst⟩

theorem walk444_eq_some {clientCodecs : List Codec}
    (h : walk444 clientCodecs encoder = some codec) :
    ∃ g, encoder = .gpu g ∧ codec ∈ clientCodecs ∧ codec ∈ g.1.codecs ∧ codec ∈ g.1.codecs444 := by
  cases encoder with
  | fallback fb g => cases h
  | gpu g =>
    have hmem := List.mem_of_find?_eq_some h
    have hfound := List.find?_some h
    rw [Bool.and_eq_true] at hfound
    exact ⟨g, rfl, hmem, of_decide_eq_true hfound.1, of_decide_eq_true hfound.2⟩

theorem walk_eq_some {clientCodecs : List Codec} (h : walk clientCodecs encoder = some codec) :
    codec ∈ clientCodecs ∧ codec ∈ encoder.available :=
  ⟨List.mem_of_find?_eq_some h,
    of_decide_eq_true (List.find?_some (p := fun c => decide (c ∈ encoder.available)) h)⟩

theorem firstEncodingGpu_eq_some {g : GpuAt} (h : firstEncodingGpu caps = some g) :
    g ∈ caps.gpus.zipIdx ∧ g.1.encodes = true :=
  ⟨List.mem_of_find?_eq_some h, List.find?_some (p := fun g : GpuAt => g.1.encodes) h⟩

theorem firstEncodingGpu_eq_none (h : firstEncodingGpu caps = none) :
    ∀ gpu ∈ caps.gpus, gpu.encodes = false := by
  intro gpu hgpu
  obtain ⟨i, hi⟩ := List.mem_iff_getElem?.mp hgpu
  have hat : (gpu, i) ∈ caps.gpus.zipIdx := List.mk_mem_zipIdx_iff_getElem?.mpr hi
  simpa using List.find?_eq_none.mp h _ hat

/-- The start is the display's GPU, or the one the bench names, which encodes unless none
does. -/
theorem startingGpu_eq_ok {display : DisplayInfo} {gpu : Option GpuAt} {copies : Bool}
    (h : startingGpu caps config display = .ok (gpu, copies)) :
    (config.encodeGpuId < 0 ∧ gpu = gpuFor caps display ∧ copies = false) ∨
      (0 ≤ config.encodeGpuId ∧ ∃ forced, forcedGpu caps config.encodeGpuId = some forced ∧
        gpu = some forced ∧ copies = decide (gpuFor caps display ≠ some forced) ∧
        (forced.1.encodes = true ∨ firstEncodingGpu caps = none)) := by
  unfold startingGpu at h
  by_cases hforced : config.encodeGpuId ≥ 0
  · rw [if_pos hforced] at h
    cases hgpu : forcedGpu caps config.encodeGpuId with
    | none =>
      simp only [hgpu] at h
      cases h
    | some forced =>
      simp only [hgpu] at h
      by_cases huseless : (!forced.1.encodes && (firstEncodingGpu caps).isSome) = true
      · rw [if_pos huseless] at h
        cases h
      · rw [if_neg huseless] at h
        obtain ⟨rfl, rfl⟩ := Prod.mk.inj (Except.ok.inj h)
        refine Or.inr ⟨hforced, forced, rfl, rfl, rfl, ?_⟩
        cases hencodes : forced.1.encodes with
        | true => exact Or.inl rfl
        | false => exact Or.inr (by simpa [hencodes] using huseless)
  · rw [if_neg hforced] at h
    obtain ⟨rfl, rfl⟩ := Prod.mk.inj (Except.ok.inj h)
    exact Or.inl ⟨by omega, rfl, rfl⟩

theorem placeEncoder_eq_ok {display : DisplayInfo} {placement : Placement}
    (h : placeEncoder caps config display = .ok placement) :
    ∃ gpu copies, startingGpu caps config display = .ok (gpu, copies) ∧
      ((∃ g, gpu = some g ∧ g.1.encodes = true ∧ placement = ⟨.gpu g, copies⟩) ∨
        ((∀ g, gpu = some g → g.1.encodes = false) ∧
          ((∃ other, firstEncodingGpu caps = some other ∧
              placement = ⟨.gpu other, gpu.isSome⟩) ∨
            (firstEncodingGpu caps = none ∧ ∃ fb, bestFallback caps = some fb ∧
              placement = ⟨.fallback fb gpu, decide (config.encodeGpuId ≥ 0) && copies⟩)))) := by
  unfold placeEncoder at h
  cases hstart : startingGpu caps config display with
  | error e =>
    simp only [hstart] at h
    cases h
  | ok start =>
    obtain ⟨gpu, copies⟩ := start
    simp only [hstart] at h
    refine ⟨gpu, copies, rfl, ?_⟩
    cases hfilter : gpu.filter fun g => g.1.encodes with
    | some g =>
      simp only [hfilter] at h
      obtain ⟨rfl, hencodes⟩ := Option.filter_eq_some_iff.mp hfilter
      exact Or.inl ⟨g, rfl, hencodes, (Except.ok.inj h).symm⟩
    | none =>
      simp only [hfilter] at h
      refine Or.inr ⟨?_, ?_⟩
      · rintro g rfl
        simpa using Option.filter_eq_none_iff.mp hfilter g rfl
      cases hfirst : firstEncodingGpu caps with
      | some other =>
        simp only [hfirst] at h
        exact Or.inl ⟨other, rfl, (Except.ok.inj h).symm⟩
      | none =>
        simp only [hfirst] at h
        cases hbest : bestFallback caps with
        | none =>
          simp only [hbest] at h
          cases h
        | some fb =>
          simp only [hbest] at h
          exact Or.inr ⟨rfl, fb, rfl, (Except.ok.inj h).symm⟩

end MoonlightWeb.NativeHost.Selector
