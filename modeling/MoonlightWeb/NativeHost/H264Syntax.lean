import MoonlightWeb.Lib.BitGrammar

/-! # The syntax of H.264 parameter sets

The sequence parameter set with its VUI, as the standard's tables have it: which elements
stand behind which, and how each is coded. Values are as wide as their codes, and limited where
what follows depends on it.
-/

namespace MoonlightWeb.NativeHost.H264

open Lib Grammar

def profilesWithChroma : List Nat :=
  [100, 110, 122, 244, 44, 83, 86, 118, 128, 138, 139, 134, 135]

/-- The codes of a scaling list; none is coded once the next scale is 0. -/
def scalingListFrom : Nat → Int → Int → Grammar (List Int)
  | 0, _, _ => nil
  | left + 1, last, next =>
      if next = 0 then nil
      else
        cons (such se fun delta => -128 ≤ delta ∧ delta ≤ 127) fun delta =>
          let scale := (last + delta + 256) % 256
          scalingListFrom left (if scale = 0 then last else scale) scale

def scalingList (size : Nat) : Grammar (List Int) := scalingListFrom size 8 8

def scalingListCount (chromaFormatIdc : Nat) : Nat := if chromaFormatIdc = 3 then 12 else 8

def scalingLists (chromaFormatIdc : Nat) : Grammar (List (Option (List Int))) :=
  each ((List.range (scalingListCount chromaFormatIdc)).map fun i =>
    flagged (scalingList (if i < 6 then 16 else 64)))

structure Chroma where
  chromaFormatIdc : Nat
  separateColourPlane : Option Bool
  bitDepthLumaMinus8 : Nat
  bitDepthChromaMinus8 : Nat
  qpprimeYZeroTransformBypass : Bool
  scalingMatrix : Option (List (Option (List Int)))
deriving DecidableEq, Repr

def chroma : Grammar Chroma :=
  iso
    (bind ue fun chromaFormatIdc =>
      pair (opt (chromaFormatIdc = 3) flag) (pair ue (pair ue (pair flag
        (flagged (scalingLists chromaFormatIdc))))))
    (fun (a, b, c, d, e, f) => ⟨a, b, c, d, e, f⟩)
    (fun ⟨a, b, c, d, e, f⟩ => (a, b, c, d, e, f)) (fun _ => rfl) (fun _ => rfl)

structure Profile where
  profileIdc : Nat
  constraintFlags : Nat
  levelIdc : Nat
  id : Nat
  chroma : Option Chroma
deriving DecidableEq, Repr

def profile : Grammar Profile :=
  iso
    (bind (u 8) fun profileIdc =>
      pair (u 8) (pair (u 8) (pair ue (opt (profileIdc ∈ profilesWithChroma) chroma))))
    (fun (a, b, c, d, e) => ⟨a, b, c, d, e⟩)
    (fun ⟨a, b, c, d, e⟩ => (a, b, c, d, e)) (fun _ => rfl) (fun _ => rfl)

structure PocCycle where
  deltaAlwaysZero : Bool
  offsetForNonRefPic : Int
  offsetForTopToBottomField : Int
  numRefFrames : Nat
  offsetForRefFrame : List Int
deriving DecidableEq, Repr

def pocCycle : Grammar PocCycle :=
  iso
    (pair flag (pair se (pair se (bind (such ue (· ≤ 255)) fun numRefFrames =>
      each (List.replicate numRefFrames se)))))
    (fun (a, b, c, d, e) => ⟨a, b, c, d, e⟩)
    (fun ⟨a, b, c, d, e⟩ => (a, b, c, d, e)) (fun _ => rfl) (fun _ => rfl)

structure PicOrderCnt where
  type : Nat
  log2MaxLsbMinus4 : Option Nat
  cycle : Option PocCycle
deriving DecidableEq, Repr

def picOrderCnt : Grammar PicOrderCnt :=
  iso
    (bind (such ue (· ≤ 2)) fun type => pair (opt (type = 0) ue) (opt (type = 1) pocCycle))
    (fun (a, b, c) => ⟨a, b, c⟩) (fun ⟨a, b, c⟩ => (a, b, c)) (fun _ => rfl) (fun _ => rfl)

structure FrameCrop where
  left : Nat
  right : Nat
  top : Nat
  bottom : Nat
deriving DecidableEq, Repr

def frameCrop : Grammar FrameCrop :=
  iso (pair ue (pair ue (pair ue ue))) (fun (a, b, c, d) => ⟨a, b, c, d⟩)
    (fun ⟨a, b, c, d⟩ => (a, b, c, d)) (fun _ => rfl) (fun _ => rfl)

structure Frames where
  log2MaxFrameNumMinus4 : Nat
  picOrderCnt : PicOrderCnt
  maxNumRefFrames : Nat
  gapsInFrameNumValueAllowed : Bool
  picWidthInMbsMinus1 : Nat
  picHeightInMapUnitsMinus1 : Nat
  frameMbsOnly : Bool
  mbAdaptiveFrameField : Option Bool
  direct8x8Inference : Bool
  crop : Option FrameCrop
deriving DecidableEq, Repr

def frames : Grammar Frames :=
  iso
    (pair ue (pair picOrderCnt (pair ue (pair flag (pair ue (pair ue
      (bind flag fun frameMbsOnly =>
        pair (opt (!frameMbsOnly) flag) (pair flag (flagged frameCrop)))))))))
    (fun (a, b, c, d, e, f, g, h, i, j) => ⟨a, b, c, d, e, f, g, h, i, j⟩)
    (fun ⟨a, b, c, d, e, f, g, h, i, j⟩ => (a, b, c, d, e, f, g, h, i, j))
    (fun _ => rfl) (fun _ => rfl)

structure AspectRatio where
  idc : Nat
  /-- `sar_width` and `sar_height`, of an extended ratio. -/
  sar : Option (Nat × Nat)
deriving DecidableEq, Repr

def aspectRatio : Grammar AspectRatio :=
  iso (bind (u 8) fun idc => opt (idc = 255) (pair (u 16) (u 16)))
    (fun (a, b) => ⟨a, b⟩) (fun ⟨a, b⟩ => (a, b)) (fun _ => rfl) (fun _ => rfl)

structure VideoSignal where
  format : Nat
  fullRange : Bool
  /-- Primaries, transfer characteristics and matrix coefficients. -/
  colour : Option (Nat × Nat × Nat)
deriving DecidableEq, Repr

def videoSignal : Grammar VideoSignal :=
  iso (pair (u 3) (pair flag (flagged (pair (u 8) (pair (u 8) (u 8))))))
    (fun (a, b, c) => ⟨a, b, c⟩) (fun ⟨a, b, c⟩ => (a, b, c)) (fun _ => rfl) (fun _ => rfl)

structure Timing where
  numUnitsInTick : Nat
  timeScale : Nat
  fixedFrameRate : Bool
deriving DecidableEq, Repr

def timing : Grammar Timing :=
  iso (pair (u 32) (pair (u 32) flag)) (fun (a, b, c) => ⟨a, b, c⟩) (fun ⟨a, b, c⟩ => (a, b, c))
    (fun _ => rfl) (fun _ => rfl)

structure Cpb where
  bitRateValueMinus1 : Nat
  sizeValueMinus1 : Nat
  cbr : Bool
deriving DecidableEq, Repr

def cpb : Grammar Cpb :=
  iso (pair ue (pair ue flag)) (fun (a, b, c) => ⟨a, b, c⟩) (fun ⟨a, b, c⟩ => (a, b, c))
    (fun _ => rfl) (fun _ => rfl)

structure Hrd where
  cpbCntMinus1 : Nat
  bitRateScale : Nat
  cpbSizeScale : Nat
  cpbs : List Cpb
  initialCpbRemovalDelayLengthMinus1 : Nat
  cpbRemovalDelayLengthMinus1 : Nat
  dpbOutputDelayLengthMinus1 : Nat
  timeOffsetLength : Nat
deriving DecidableEq, Repr

def hrd : Grammar Hrd :=
  iso
    (bind (such ue (· ≤ 31)) fun cpbCntMinus1 =>
      pair (u 4) (pair (u 4) (pair (each (List.replicate (cpbCntMinus1 + 1) cpb))
        (pair (u 5) (pair (u 5) (pair (u 5) (u 5)))))))
    (fun (a, b, c, d, e, f, g, h) => ⟨a, b, c, d, e, f, g, h⟩)
    (fun ⟨a, b, c, d, e, f, g, h⟩ => (a, b, c, d, e, f, g, h)) (fun _ => rfl) (fun _ => rfl)

/-- The VUI up to its `bitstream_restriction_flag`. -/
structure VuiHead where
  aspectRatio : Option AspectRatio
  overscanAppropriate : Option Bool
  videoSignal : Option VideoSignal
  /-- The types for the top and the bottom field. -/
  chromaLoc : Option (Nat × Nat)
  timing : Option Timing
  nalHrd : Option Hrd
  vclHrd : Option Hrd
  lowDelayHrd : Option Bool
  picStructPresent : Bool
deriving DecidableEq, Repr

def vuiHead : Grammar VuiHead :=
  iso
    (pair (flagged aspectRatio) (pair (flagged flag) (pair (flagged videoSignal)
      (pair (flagged (pair ue ue)) (pair (flagged timing)
        (bind (flagged hrd) fun nal => bind (flagged hrd) fun vcl =>
          pair (opt (nal.isSome || vcl.isSome) flag) flag))))))
    (fun (a, b, c, d, e, f, g, h, i) => ⟨a, b, c, d, e, f, g, h, i⟩)
    (fun ⟨a, b, c, d, e, f, g, h, i⟩ => (a, b, c, d, e, f, g, h, i)) (fun _ => rfl) (fun _ => rfl)

structure BitstreamRestriction where
  motionVectorsOverPicBoundaries : Bool
  maxBytesPerPicDenom : Nat
  maxBitsPerMbDenom : Nat
  log2MaxMvLengthHorizontal : Nat
  log2MaxMvLengthVertical : Nat
  maxNumReorderFrames : Nat
  maxDecFrameBuffering : Nat
deriving DecidableEq, Repr

def bitstreamRestriction : Grammar BitstreamRestriction :=
  iso (pair flag (pair ue (pair ue (pair ue (pair ue (pair ue ue))))))
    (fun (a, b, c, d, e, f, g) => ⟨a, b, c, d, e, f, g⟩)
    (fun ⟨a, b, c, d, e, f, g⟩ => (a, b, c, d, e, f, g)) (fun _ => rfl) (fun _ => rfl)

structure Vui where
  head : VuiHead
  restriction : Option BitstreamRestriction
deriving DecidableEq, Repr

def vui : Grammar Vui :=
  iso (pair vuiHead (flagged bitstreamRestriction)) (fun (a, b) => ⟨a, b⟩)
    (fun ⟨a, b⟩ => (a, b)) (fun _ => rfl) (fun _ => rfl)

structure Sps where
  profile : Profile
  frames : Frames
  vui : Option Vui
deriving DecidableEq, Repr

def sps : Grammar Sps :=
  iso (pair profile (pair frames (flagged vui))) (fun (a, b, c) => ⟨a, b, c⟩)
    (fun ⟨a, b, c⟩ => (a, b, c)) (fun _ => rfl) (fun _ => rfl)

end MoonlightWeb.NativeHost.H264
