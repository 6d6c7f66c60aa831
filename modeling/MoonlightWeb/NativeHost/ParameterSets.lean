import MoonlightWeb.NativeHost.NoReorder

/-! # The headers the encoder writes itself

`ParameterSets.h` writes the H.264 parameter set and the slice headers for a driver that wants
them from the application. What is written is read back, by the syntax of the standard, to the
sequence and the pictures it was written for.
-/

namespace MoonlightWeb.NativeHost.ParameterSets

open Lib Grammar Bits H264Vui List

/-- A call on the writer. -/
inductive Code
  | u (n v : Nat)
  | ue (v : Nat)

/-- `static_cast<uint32_t>`. -/
def toUInt32 (v : Int) : Nat := (v % 2 ^ 32).toNat

def se (v : Int) : Code := .ue (toUInt32 (if 0 < v then 2 * v - 1 else -2 * v))

def Code.put : Code → BitWriter → BitWriter
  | .u n v => .u n v
  | .ue v => .ue v

/-- `while (w.used != 8) w.u(1, 0)`, for as many turns as the byte has bits left. -/
def fill : Nat → BitWriter → BitWriter
  | 0, w => w
  | left + 1, w => if w.used = 8 then w else fill left (w.u 1 0)

def trailing (w : BitWriter) : BitWriter := fill (8 - (w.u 1 1).used) (w.u 1 1)

def rbsp (codes : List Code) : Bytes :=
  (trailing (codes.foldl (fun w code => code.put w) .new)).bytes

def nal (header : Bytes) (codes : List Code) : Bytes :=
  escapeInto (rbsp codes) ([0, 0, 0, 1] ++ header)

def bt709Limited : List Code := [.u 1 1, .u 3 5, .u 1 0, .u 1 1, .u 8 1, .u 8 1, .u 8 1]

structure H264Sequence where
  profileIdc : Int
  levelIdc : Int
  widthMbs : UInt32
  heightMbs : UInt32
  cropRight : UInt32
  cropBottom : UInt32
  maxRefFrames : UInt32
  log2MaxFrameNum : Int
  fps : Int

def profileCodes (s : H264Sequence) : List Code :=
  [Code.u 8 (toUInt32 s.profileIdc), .u 8 (if s.profileIdc = 66 then 0xC0 else 0x00),
    .u 8 (toUInt32 s.levelIdc), .ue 0] ++
  (if s.profileIdc = 100 then [Code.ue 1, .ue 0, .ue 0, .u 1 0, .u 1 0] else [])

def cropCodes (s : H264Sequence) : List Code :=
  if s.cropRight ≠ 0 ∨ s.cropBottom ≠ 0 then
    [.u 1 1, .ue 0, .ue s.cropRight.toNat, .ue 0, .ue s.cropBottom.toNat]
  else [.u 1 0]

def frameCodes (s : H264Sequence) : List Code :=
  [Code.ue (toUInt32 (s.log2MaxFrameNum - 4)), .ue 2, .ue s.maxRefFrames.toNat, .u 1 0,
    .ue (s.widthMbs - 1).toNat, .ue (s.heightMbs - 1).toNat, .u 1 1, .u 1 1] ++ cropCodes s

def vuiCodes (s : H264Sequence) : List Code :=
  [Code.u 1 1, .u 1 0, .u 1 0] ++ bt709Limited ++
  [Code.u 1 0, .u 1 1, .u 32 1, .u 32 (toUInt32 (toUInt32 s.fps * 2)), .u 1 0, .u 1 0, .u 1 0,
    .u 1 0, .u 1 1, .u 1 1, .ue 2, .ue 1, .ue 15, .ue 15, .ue 0, .ue s.maxRefFrames.toNat]

def h264SpsCodes (s : H264Sequence) : List Code := profileCodes s ++ (frameCodes s ++ vuiCodes s)

def h264Sps (s : H264Sequence) : Bytes := nal [0x67] (h264SpsCodes s)

structure H264Slice where
  idr : Bool
  frameNum : UInt32
  idrPicId : UInt32
  referenceFrameNum : UInt32

def frameNumMask (s : H264Sequence) : UInt32 := (1 <<< UInt32.ofNat s.log2MaxFrameNum.toNat) - 1

/-- How far back the picture predicted from is. -/
def distance (s : H264Sequence) (slice : H264Slice) : UInt32 :=
  (slice.frameNum - slice.referenceFrameNum) &&& frameNumMask s

def h264SliceCodes (s : H264Sequence) (slice : H264Slice) : List Code :=
  [Code.ue 0, .ue (if slice.idr then 7 else 5), .ue 0,
    .u s.log2MaxFrameNum.toNat (slice.frameNum &&& frameNumMask s).toNat] ++
  (if slice.idr then [Code.ue (slice.idrPicId &&& 0xFFFF).toNat, .u 1 0, .u 1 0]
  else
    Code.u 1 0 ::
      (if distance s slice ≠ 1 then
        [Code.u 1 1, .ue 0, .ue (distance s slice - 1).toNat, .ue 3]
      else [Code.u 1 0]) ++
    [Code.u 1 0]) ++
  (if slice.idr = false ∧ s.profileIdc ≠ 66 then [Code.ue 0] else []) ++
  [se 0, .ue 0, se 0, se 0]

def h264SliceHeader (s : H264Sequence) (slice : H264Slice) : Bytes :=
  nal [if slice.idr then 0x65 else 0x41] (h264SliceCodes s slice)

structure HevcSlice where
  idr : Bool
  poc : UInt32
  kept : List UInt32
  referencePoc : UInt32

/-- The pictures kept before this one, the newest first. -/
def before (slice : HevcSlice) : List UInt32 :=
  (slice.kept.filter (· < slice.poc)).mergeSort fun a b => b ≤ a

/-- The loop over the pictures before `previous`. -/
def negativePics (referencePoc : UInt32) : UInt32 → List UInt32 → List Code
  | _, [] => []
  | previous, poc :: rest =>
      .ue (previous - poc - 1).toNat :: .u 1 (if poc = referencePoc then 1 else 0) ::
        negativePics referencePoc poc rest

def hevcSliceCodes (log2MaxPocLsb : Nat) (slice : HevcSlice) : List Code :=
  Code.u 1 1 :: (if slice.idr then [Code.u 1 0] else []) ++
  [Code.ue 0, .ue (if slice.idr then 2 else 1)] ++
  (if slice.idr then []
  else
    [Code.u log2MaxPocLsb (slice.poc &&& ((1 <<< UInt32.ofNat log2MaxPocLsb) - 1)).toNat, .u 1 0,
      .ue ((before slice).length % 2 ^ 32), .ue 0] ++
      negativePics slice.referencePoc slice.poc (before slice)) ++
  [Code.u 1 1, .u 1 1] ++ (if slice.idr then [] else [Code.u 1 0, .ue 0]) ++ [se 0]

def hevcSliceHeader (log2MaxPocLsb : Nat) (slice : HevcSlice) : Bytes :=
  nal [(if slice.idr then 19 else 1 : UInt8) <<< 1, 0x01] (hevcSliceCodes log2MaxPocLsb slice)

def Code.bits : Code → List Bool
  | .u n v => toBits n v
  | .ue v => toBits (v + 1).log2 0 ++ toBits ((v + 1).log2 + 1) ((v + 1) % 2 ^ 32)

theorem put_eq (code : Code) (w : BitWriter) : code.put w = .put code.bits w := by
  cases code with
  | u n v => exact BitWriter.u_eq_put n v w
  | ue v =>
    rw [Code.put, BitWriter.ue, BitWriter.u_eq_put, BitWriter.u_eq_put, ← BitWriter.put_append]
    rfl

theorem foldl_put (codes : List Code) (w : BitWriter) :
    codes.foldl (fun w code => code.put w) w = .put (codes.flatMap Code.bits) w := by
  induction codes generalizing w with
  | nil => rfl
  | cons code rest ih => rw [foldl_cons, put_eq, ih, flatMap_cons, BitWriter.put_append]

theorem fill_bytes {left : Nat} {w : BitWriter} (h : w.used + left = 8) :
    (fill left w).bytes = w.bytes := by
  induction left generalizing w with
  | zero => rfl
  | succ left ih =>
    have hopen : w.used ≠ 8 := by omega
    have hbit : w.u 1 0 = ⟨w.bytes, w.used + 1⟩ := by
      change w.bit false = _
      simp [BitWriter.bit, BitWriter.opened, hopen]
    rw [fill, if_neg hopen, hbit]
    exact ih (by omega : w.used + 1 + left = 8)

theorem rbsp_eq (codes : List Code) :
    rbsp codes = pack (codes.flatMap Code.bits ++ [true]) := by
  obtain ⟨left, -, -, hused⟩ := BitWriter.holds_new.put (codes.flatMap Code.bits ++ [true])
  have hstop : BitWriter.u 1 1 (codes.foldl (fun w code => code.put w) .new) =
      BitWriter.new.put (codes.flatMap Code.bits ++ [true]) := by
    rw [foldl_put, BitWriter.put_append]
    rfl
  unfold rbsp trailing
  rw [hstop]
  exact fill_bytes (by omega)

theorem ofBytes_written (bits : List Bool) :
    ∃ left, Bits.ofBytes (unescape (EmulationPrevention.escape (pack (bits ++ [true])))) =
      bits ++ true :: replicate left false := by
  obtain ⟨left, -, hpack⟩ := ofBytes_pack (bits ++ [true])
  have hback : unescape (EmulationPrevention.escape (pack (bits ++ [true]))) =
      pack (bits ++ [true]) := EmulationPrevention.unescape_escape _
  refine ⟨left, ?_⟩
  rw [hback, hpack, append_assoc]
  rfl

/-- The unit is one start code and one body free of start codes, which the syntax reads to the
value, with only the trailing bits behind it. -/
def Tells {α : Type} (g : Grammar α) (header unit : Bytes) (a : α) : Prop :=
  ∃ body left, unit = [0, 0, 0, 1] ++ header ++ body ∧ EmulationPrevention.Clean body ∧
    g.read (Bits.ofBytes (unescape body)) = some (a, true :: replicate left false)

/-- The codes spell a value of the syntax and go on with the rest. -/
def Spells {α : Type} (g : Grammar α) (codes : List Code) (a : α) (rest : List Code) : Prop :=
  ∃ own, codes = own ++ rest ∧ g.Valid a ∧ own.flatMap Code.bits = g.write a

namespace Spells

variable {α β : Type} {g : Grammar α} {codes middle rest : List Code} {a : α}

theorem u {n v : Nat} (h : v < 2 ^ n) : Spells (Grammar.u n) (.u n v :: rest) v rest :=
  ⟨[.u n v], rfl, h, append_nil _⟩

theorem off : Spells flag (.u 1 0 :: rest) false rest := ⟨[.u 1 0], rfl, trivial, rfl⟩

theorem on : Spells flag (.u 1 1 :: rest) true rest := ⟨[.u 1 1], rfl, trivial, rfl⟩

theorem ue {v : Nat} (h : v < 2 ^ 32 - 1) : Spells Grammar.ue (.ue v :: rest) v rest := by
  refine ⟨[.ue v], rfl, h, ?_⟩
  rw [flatMap_singleton, Code.bits, BitWriter.toBits_zero, Nat.mod_eq_of_lt (by omega)]
  rfl

theorem zero : Spells Grammar.se (se 0 :: rest) 0 rest :=
  ⟨[se 0], rfl, (by decide : 0 < 2 ^ 32 - 1), append_nil _⟩

theorem bind {next : α → Grammar β} {b : β} (h : Spells g codes a middle)
    (hnext : Spells (next a) middle b rest) : Spells (bind g next) codes (a, b) rest := by
  obtain ⟨own, rfl, hvalid, hbits⟩ := h
  obtain ⟨more, rfl, hvalid', hbits'⟩ := hnext
  refine ⟨own ++ more, (append_assoc _ _ _).symm, ⟨hvalid, hvalid'⟩, ?_⟩
  rw [flatMap_append, hbits, hbits']
  rfl

theorem iso {into : α → β} {back : β → α} {hback : ∀ a, back (into a) = a}
    {hinto : ∀ b, into (back b) = b} {b : β} (h : Spells g codes (back b) rest) :
    Spells (iso g into back hback hinto) codes b rest := h

theorem such {p : α → Prop} [DecidablePred p] (h : Spells g codes a rest) (hp : p a) :
    Spells (such g p) codes a rest :=
  let ⟨own, hown, hvalid, hbits⟩ := h
  ⟨own, hown, ⟨hvalid, hp⟩, hbits⟩

theorem nil : Spells (Grammar.nil : Grammar (List α)) rest [] rest := ⟨[], rfl, rfl, rfl⟩

theorem cons {next : α → Grammar (List α)} {as : List α} (h : Spells g codes a middle)
    (hnext : Spells (next a) middle as rest) : Spells (cons g next) codes (a :: as) rest :=
  let ⟨own, hown, hvalid, hbits⟩ := h.bind hnext
  ⟨own, hown, ⟨a, as, rfl, hvalid⟩, hbits⟩

theorem left : Spells (opt false g) rest none rest :=
  ⟨[], rfl, ⟨rfl, fun _ h => (by cases h)⟩, rfl⟩

theorem given (h : Spells g codes a rest) : Spells (opt true g) codes (some a) rest :=
  let ⟨own, hown, hvalid, hbits⟩ := h
  ⟨own, hown, ⟨rfl, fun _ h => Option.some.inj h ▸ hvalid⟩, hbits⟩

theorem no : Spells (flagged g) (.u 1 0 :: rest) none rest :=
  ⟨[.u 1 0], rfl, fun _ h => (by cases h), rfl⟩

theorem yes (h : Spells g codes a rest) : Spells (flagged g) (.u 1 1 :: codes) (some a) rest := by
  obtain ⟨own, rfl, hvalid, hbits⟩ := h
  refine ⟨.u 1 1 :: own, rfl, fun _ h => Option.some.inj h ▸ hvalid, ?_⟩
  rw [flatMap_cons, hbits]
  rfl

theorem nal_eq (h : Spells g codes a []) (header : Bytes) :
    nal header codes =
      [0, 0, 0, 1] ++ header ++ EmulationPrevention.escape (pack (g.write a ++ [true])) := by
  obtain ⟨own, rfl, -, hbits⟩ := h
  rw [append_nil, ← hbits, ← rbsp_eq]
  rfl

theorem valid (h : Spells g codes a rest) : g.Valid a :=
  let ⟨_, _, hvalid, _⟩ := h
  hvalid

theorem tells (h : Spells g codes a []) (header : Bytes) :
    Tells g header (nal header codes) a := by
  obtain ⟨left, hbits⟩ := ofBytes_written (g.write a)
  refine ⟨_, left, h.nal_eq header, EmulationPrevention.clean_escape _, ?_⟩
  rw [hbits]
  exact g.read_write a _ h.valid

end Spells

/-- What the encoder passes: a profile of ours, and numbers that fit their codes. -/
structure H264Sequence.Passed (s : H264Sequence) : Prop where
  profile : s.profileIdc = 66 ∨ s.profileIdc = 77 ∨ s.profileIdc = 100
  level : 0 ≤ s.levelIdc ∧ s.levelIdc < 256
  width : s.widthMbs ≠ 0
  height : s.heightMbs ≠ 0
  crop : s.cropRight.toNat < 2 ^ 32 - 1 ∧ s.cropBottom.toNat < 2 ^ 32 - 1
  references : 1 ≤ s.maxRefFrames.toNat ∧ s.maxRefFrames.toNat < 2 ^ 32 - 1
  frameNum : 4 ≤ s.log2MaxFrameNum ∧ s.log2MaxFrameNum ≤ 16
  rate : 0 ≤ s.fps ∧ s.fps < 2 ^ 31

/-- The parameter set of a sequence. -/
def H264Sequence.meant (s : H264Sequence) : H264.Sps where
  profile :=
    { profileIdc := s.profileIdc.toNat
      constraintFlags := if s.profileIdc = 66 then 0xC0 else 0
      levelIdc := s.levelIdc.toNat
      id := 0
      chroma := if s.profileIdc = 100 then some ⟨1, none, 0, 0, false, none⟩ else none }
  frames :=
    { log2MaxFrameNumMinus4 := (s.log2MaxFrameNum - 4).toNat
      picOrderCnt := ⟨2, none, none⟩
      maxNumRefFrames := s.maxRefFrames.toNat
      gapsInFrameNumValueAllowed := false
      picWidthInMbsMinus1 := s.widthMbs.toNat - 1
      picHeightInMapUnitsMinus1 := s.heightMbs.toNat - 1
      frameMbsOnly := true
      mbAdaptiveFrameField := none
      direct8x8Inference := true
      crop :=
        if s.cropRight ≠ 0 ∨ s.cropBottom ≠ 0 then
          some ⟨0, s.cropRight.toNat, 0, s.cropBottom.toNat⟩
        else none }
  vui := some
    { head :=
        { H264.VuiHead.empty with
          videoSignal := some ⟨5, false, some (1, 1, 1)⟩
          timing := some ⟨1, 2 * s.fps.toNat, false⟩ }
      restriction := some ⟨true, 2, 1, 15, 15, 0, s.maxRefFrames.toNat⟩ }

theorem toUInt32_of_lt {v : Int} (hpos : 0 ≤ v) (hlt : v < 2 ^ 32) : toUInt32 v = v.toNat := by
  rw [toUInt32, Int.emod_eq_of_lt hpos hlt]

theorem toNat_sub_one {v : UInt32} (h : v ≠ 0) : (v - 1).toNat + 1 = v.toNat := by
  have hpos : v.toNat ≠ 0 := fun hzero => h (UInt32.toNat_inj.mp hzero)
  have hle : (1 : UInt32) ≤ v := UInt32.le_iff_toNat_le.mpr (Nat.one_le_iff_ne_zero.mpr hpos :)
  rw [UInt32.toNat_sub_of_le _ _ hle]
  exact Nat.succ_pred_eq_of_ne_zero hpos

section

variable {s : H264Sequence} (h : s.Passed) (rest : List Code)

include h

theorem profile_spelt : Spells H264.profile (profileCodes s ++ rest) s.meant.profile rest := by
  have hlevel := toUInt32_of_lt h.level.1 (lt_trans h.level.2 (by norm_num))
  have hlt : s.levelIdc.toNat < 2 ^ 8 := by
    have := h.level
    omega
  unfold profileCodes H264Sequence.meant
  rw [hlevel]
  rcases h.profile with hprofile | hprofile | hprofile <;> rw [hprofile]
  · exact .iso (.bind (.u (by decide)) (.bind (.u (by decide)) (.bind (.u hlt)
      (.bind (.ue (by decide)) .left))))
  · exact .iso (.bind (.u (by decide)) (.bind (.u (by decide)) (.bind (.u hlt)
      (.bind (.ue (by decide)) .left))))
  · exact .iso (.bind (.u (by decide)) (.bind (.u (by decide)) (.bind (.u hlt)
      (.bind (.ue (by decide)) (.given (.iso (.bind (.ue (by decide)) (.bind .left
        (.bind (.ue (by decide)) (.bind (.ue (by decide)) (.bind .off .no)))))))))))

theorem crop_spelt :
    Spells (flagged H264.frameCrop) (cropCodes s ++ rest) s.meant.frames.crop rest := by
  unfold cropCodes H264Sequence.meant
  dsimp only
  split_ifs
  · exact .yes (.iso (.bind (.ue (by decide)) (.bind (.ue h.crop.1) (.bind (.ue (by decide))
      (.ue h.crop.2)))))
  · exact .no

theorem frames_spelt : Spells H264.frames (frameCodes s ++ rest) s.meant.frames rest := by
  obtain ⟨hlow, hhigh⟩ := h.frameNum
  have hlog : toUInt32 (s.log2MaxFrameNum - 4) = (s.log2MaxFrameNum - 4).toNat :=
    toUInt32_of_lt (by omega) (by omega)
  have hwidth := s.widthMbs.toNat_lt
  have hheight := s.heightMbs.toNat_lt
  have hcount (more : List Code) :
      Spells H264.picOrderCnt (.ue 2 :: more) ⟨2, none, none⟩ more :=
    .iso (.bind (.such (.ue (by decide)) (by decide)) (.bind .left .left))
  have hcrop := crop_spelt h rest
  unfold frameCodes
  rw [hlog, Nat.eq_sub_of_add_eq (toNat_sub_one h.width),
    Nat.eq_sub_of_add_eq (toNat_sub_one h.height)]
  exact .iso (.bind (.ue (by omega)) (.bind (hcount _) (.bind (.ue h.references.2) (.bind .off
    (.bind (.ue (by omega)) (.bind (.ue (by omega)) (.bind .on (.bind .left
      (.bind .on hcrop)))))))))

theorem vui_spelt : Spells (flagged H264.vui) (vuiCodes s) s.meant.vui [] := by
  obtain ⟨hpos, hlt⟩ := h.rate
  have hrate : toUInt32 (toUInt32 s.fps * 2) = 2 * s.fps.toNat := by
    rw [toUInt32_of_lt hpos (by omega), toUInt32_of_lt (by omega) (by omega)]
    omega
  unfold vuiCodes H264Sequence.meant
  rw [hrate]
  exact .yes (.iso (.bind
    (.iso (.bind .no (.bind .no (.bind
      (.yes (.iso (.bind (.u (by decide)) (.bind .off (.yes (.bind (.u (by decide))
        (.bind (.u (by decide)) (.u (by decide)))))))))
      (.bind .no (.bind (.yes (.iso (.bind (.u (by decide)) (.bind (.u (by omega)) .off))))
        (.bind .no (.bind .no (.bind .left .off)))))))))
    (.yes (.iso (.bind .on (.bind (.ue (by decide)) (.bind (.ue (by decide))
      (.bind (.ue (by decide)) (.bind (.ue (by decide)) (.bind (.ue (by decide))
        (.ue h.references.2)))))))))))

end

/-- A parameter set is read back to the sequence it was written for, and nothing about it is left
to rewrite. -/
theorem h264Sps_tells (s : H264Sequence) (h : s.Passed) :
    Tells H264.sps [0x67] (h264Sps s) s.meant ∧ ∃ unit, h264Sps s = [0, 0, 0, 1] ++ unit ∧
      h264WithNoReorderVui unit = .ok unit := by
  have hspelt : Spells H264.sps (h264SpsCodes s) s.meant [] :=
    .iso (.bind (profile_spelt h _) (.bind (frames_spelt h _) (vui_spelt h)))
  obtain ⟨_, hbits⟩ := ofBytes_written (H264.sps.write s.meant)
  have hkept : s.meant.withNoReorder = s.meant := by
    have hmax : max 1 s.maxRefFrames.toNat = s.maxRefFrames.toNat := max_eq_right h.references.1
    unfold H264.Sps.withNoReorder H264.noReorder
    simp [H264Sequence.meant, hmax]
  refine ⟨hspelt.tells _, _, hspelt.nal_eq _, ?_⟩
  have hrewrite := rewrite_eq (by decide : (0x67 : UInt8) &&& 0x1f = 7) hspelt.valid hbits
  rw [hkept] at hrewrite
  exact hrewrite

/-- A size that is no whole number of macroblocks. -/
def fullHd : H264Sequence := ⟨100, 51, 120, 68, 0, 4, 4, 16, 60⟩

theorem h264Sps_tells_fullHd :
    Tells H264.sps [0x67] (h264Sps fullHd) fullHd.meant ∧
      ∃ unit, h264Sps fullHd = [0, 0, 0, 1] ++ unit ∧ h264WithNoReorderVui unit = .ok unit :=
  h264Sps_tells fullHd ⟨by decide, by decide, by decide, by decide, by decide, by decide,
    by decide, by decide⟩

/-- `ref_pic_list_modification`: kinds and their values up to the kind that ends the list. -/
def listChanges : Nat → Grammar (List Nat)
  | 0 => cons (such ue (· = 3)) fun _ => nil
  | active + 1 => cons (such ue (· ≤ 3)) fun kind =>
      if kind = 3 then nil else cons ue fun _ => listChanges active

/-- The references of a picture that predicts: how many less one, where it is not the one of our
parameter sets, and the changes of their list. -/
def references : Grammar (Option Nat × Option (List Nat)) :=
  bind (flagged ue) fun active => flagged (listChanges (active.getD 0 + 1))

structure SliceHeader where
  firstMb : Nat
  sliceType : Nat
  picParameterSet : Nat
  frameNum : Nat
  idrPicId : Option Nat
  references : Option (Option Nat × Option (List Nat))
  idrMarking : Option (Bool × Bool)
  adaptiveMarking : Option Bool
  cabacInitIdc : Option Nat
  qpDelta : Int
  deblocking : Nat × Option (Int × Int)

/-- The syntax of slices under our parameter sets: key frames and pictures with one reference. -/
def sliceHeader (idr cabac : Bool) (log2MaxFrameNum : Nat) : Grammar SliceHeader :=
  iso
    (pair ue (pair (such ue (· % 5 = if idr then 2 else 0)) (pair ue (pair (u log2MaxFrameNum)
      (pair (opt idr ue) (pair (opt (!idr) references) (pair (opt idr (pair flag flag))
        (pair (opt (!idr) (such flag (· = false))) (pair (opt (!idr && cabac) ue)
          (pair Grammar.se (bind ue fun disabled =>
            opt (disabled ≠ 1) (pair Grammar.se Grammar.se))))))))))))
    (fun (a, b, c, d, e, f, g, h, i, j, k) => ⟨a, b, c, d, e, f, g, h, i, j, k⟩)
    (fun ⟨a, b, c, d, e, f, g, h, i, j, k⟩ => (a, b, c, d, e, f, g, h, i, j, k)) (fun _ => rfl)
    (fun _ => rfl)

/-- The `frame_num` of the picture predicted from: the newest, or what the first change names. -/
def SliceHeader.reference (header : SliceHeader) (maxFrameNum : Nat) : Option Nat :=
  match header.references with
  | some (_, none) => some ((header.frameNum + maxFrameNum - 1) % maxFrameNum)
  | some (_, some (0 :: difference :: _)) =>
      some ((header.frameNum + maxFrameNum - (difference + 1)) % maxFrameNum)
  | some (_, some (1 :: difference :: _)) =>
      some ((header.frameNum + (difference + 1)) % maxFrameNum)
  | _ => none

theorem toNat_and_ones {n : Nat} (hn : n ≤ 16) (v : UInt32) :
    (v &&& ((1 <<< UInt32.ofNat n) - 1)).toNat = v.toNat % 2 ^ n := by
  have hmask : ((1 <<< UInt32.ofNat n) - 1 : UInt32).toNat = 2 ^ n - 1 := by
    interval_cases n <;> rfl
  rw [UInt32.toNat_and, hmask, Nat.and_two_pow_sub_one_eq_mod]

section

variable {s : H264Sequence} (hlog : 4 ≤ s.log2MaxFrameNum ∧ s.log2MaxFrameNum ≤ 16)

include hlog

theorem toNat_and_mask (v : UInt32) :
    (v &&& frameNumMask s).toNat = v.toNat % 2 ^ s.log2MaxFrameNum.toNat :=
  toNat_and_ones (by omega) v

/-- The reference and the distance make the picture. -/
theorem reference_add_distance (slice : H264Slice) :
    slice.referenceFrameNum.toNat + (distance s slice).toNat ≡ slice.frameNum.toNat
      [MOD 2 ^ s.log2MaxFrameNum.toNat] := by
  have hdvd : 2 ^ s.log2MaxFrameNum.toNat ∣ 2 ^ 32 := Nat.pow_dvd_pow 2 (by omega)
  have hlt := slice.referenceFrameNum.toNat_lt
  rw [Nat.ModEq, distance, toNat_and_mask hlog, UInt32.toNat_sub, Nat.mod_mod_of_dvd _ hdvd,
    Nat.add_mod_mod, ← Nat.add_assoc, Nat.add_sub_cancel' hlt.le]
  obtain ⟨k, hk⟩ := hdvd
  rw [hk, Nat.mul_add_mod]

theorem reference_of_distance {slice : H264Slice} (hback : distance s slice ≠ 0) :
    (slice.frameNum.toNat % 2 ^ s.log2MaxFrameNum.toNat + 2 ^ s.log2MaxFrameNum.toNat -
      (distance s slice).toNat) % 2 ^ s.log2MaxFrameNum.toNat =
        slice.referenceFrameNum.toNat % 2 ^ s.log2MaxFrameNum.toNat := by
  have hmod := reference_add_distance hlog slice
  have hframe := toNat_and_mask hlog slice.frameNum
  have hdistance : (distance s slice).toNat ≠ 0 := fun h => hback (UInt32.toNat_inj.mp h)
  have hle : (distance s slice).toNat ≤ 2 ^ s.log2MaxFrameNum.toNat := by
    rw [distance, toNat_and_mask hlog]
    exact (Nat.mod_lt _ (Nat.two_pow_pos _)).le
  refine Nat.ModEq.add_right_cancel' (distance s slice).toNat ?_
  rw [Nat.sub_add_cancel (by omega)]
  refine Nat.ModEq.trans ?_ hmod.symm
  rw [Nat.ModEq, Nat.add_mod_right, Nat.mod_mod]

end

theorem references_spelt {d : UInt32} (h : (d - 1).toNat < 2 ^ 32 - 1) (rest : List Code) :
    Spells references
      (.u 1 0 :: ((if d ≠ 1 then [.u 1 1, .ue 0, .ue (d - 1).toNat, .ue 3] else [.u 1 0]) ++
        rest))
      (none, if d ≠ 1 then some [0, (d - 1).toNat, 3] else none) rest := by
  split_ifs
  · exact .bind .no (.yes (.cons (.such (.ue (by decide)) (by decide)) (.cons (.ue h)
      (.cons (.such (.ue (by decide)) rfl) .nil))))
  · exact .bind .no .no

/-- A slice header is read back as one that predicts from the picture it was given. -/
theorem h264SliceHeader_tells (s : H264Sequence) (slice : H264Slice)
    (hlog : 4 ≤ s.log2MaxFrameNum ∧ s.log2MaxFrameNum ≤ 16)
    (hback : slice.idr = false → distance s slice ≠ 0) :
    ∃ header, Tells (sliceHeader slice.idr (s.profileIdc ≠ 66) s.log2MaxFrameNum.toNat)
        [if slice.idr then 0x65 else 0x41] (h264SliceHeader s slice) header ∧
      header.frameNum = slice.frameNum.toNat % 2 ^ s.log2MaxFrameNum.toNat ∧
      (slice.idr = false → header.reference (2 ^ s.log2MaxFrameNum.toNat) =
        some (slice.referenceFrameNum.toNat % 2 ^ s.log2MaxFrameNum.toNat)) := by
  have hframe := toNat_and_mask hlog slice.frameNum
  have hlt : slice.frameNum.toNat % 2 ^ s.log2MaxFrameNum.toNat < 2 ^ s.log2MaxFrameNum.toNat :=
    Nat.mod_lt _ (Nat.two_pow_pos _)
  unfold h264SliceHeader h264SliceCodes
  rw [hframe]
  cases hidr : slice.idr with
  | true =>
    have hid : (slice.idrPicId &&& 0xFFFF).toNat < 2 ^ 32 - 1 := by
      rw [UInt32.toNat_and]
      exact lt_of_le_of_lt Nat.and_le_right (by decide)
    refine ⟨⟨0, 7, 0, slice.frameNum.toNat % 2 ^ s.log2MaxFrameNum.toNat,
      some (slice.idrPicId &&& 0xFFFF).toNat, none, some (false, false), none, none, 0, 0,
      some (0, 0)⟩, Spells.tells (.iso ?_) _, rfl, fun h => (by cases h)⟩
    exact .bind (.ue (by decide)) (.bind (.such (.ue (by decide)) (rfl : 7 % 5 = 2))
      (.bind (.ue (by decide)) (.bind (.u hlt) (.bind (.given (.ue hid)) (.bind .left
        (.bind (.given (.bind .off .off)) (.bind .left (.bind .left (.bind .zero
          (.bind (.ue (by decide)) (.given (.bind .zero .zero))))))))))))
  | false =>
    have hmade := reference_of_distance hlog (hback hidr)
    have hone := toNat_sub_one (hback hidr)
    have hdistance := (distance s slice).toNat_lt
    have hdifference : (distance s slice - 1).toNat < 2 ^ 32 - 1 := by omega
    have hcabac {p : Prop} [Decidable p] (hp : p ↔ s.profileIdc ≠ 66) (more : List Code) :
        Spells (opt (!false && decide (s.profileIdc ≠ 66)) ue)
          ((if p then [.ue 0] else []) ++ more) (if s.profileIdc ≠ 66 then some 0 else none)
          more := by
      by_cases hprofile : s.profileIdc = 66
      · simpa [hp, hprofile] using Spells.left
      · simpa [hp, hprofile] using Spells.given (.ue (by decide))
    refine ⟨⟨0, 5, 0, slice.frameNum.toNat % 2 ^ s.log2MaxFrameNum.toNat, none,
      some (none,
        if distance s slice ≠ 1 then some [0, (distance s slice - 1).toNat, 3] else none),
      none, some false, if s.profileIdc ≠ 66 then some 0 else none, 0, 0, some (0, 0)⟩,
      Spells.tells (.iso ?_) _, rfl, fun _ => ?_⟩
    · simp only [Bool.false_eq_true, if_false, append_assoc, cons_append, nil_append]
      exact .bind (.ue (by decide)) (.bind (.such (.ue (by decide)) (rfl : 5 % 5 = 0))
        (.bind (.ue (by decide)) (.bind (.u hlt) (.bind .left
          (.bind (.given (references_spelt hdifference _)) (.bind .left
            (.bind (.given (.such .off rfl)) (.bind (hcabac (true_and _ ▸ Iff.rfl) _) (.bind .zero
              (.bind (.ue (by decide)) (.given (.bind .zero .zero))))))))))))
    · unfold SliceHeader.reference
      by_cases hnear : distance s slice = 1
      · simpa [hnear] using hmade
      · simpa [hnear, hone] using hmade

/-- The frame number wraps; the distance does not. -/
theorem h264SliceHeader_tells_wrapped :
    ∃ header, Tells (sliceHeader false true 16) [0x41]
        (h264SliceHeader fullHd ⟨false, 1, 0, 65534⟩) header ∧
      header.frameNum = 1 ∧ (false = false → header.reference 65536 = some 65534) :=
  h264SliceHeader_tells fullHd ⟨false, 1, 0, 65534⟩ (by decide) (by decide)

structure HevcHeader where
  firstSlice : Bool
  noOutputOfPriorPics : Option Bool
  picParameterSet : Nat
  sliceType : Nat
  pocLsb : Option Nat
  /-- Whether the set is the sequence's, how many pictures are kept before and after this one, and
  the steps back to them, each less one, with their flags of use. -/
  kept : Option (Bool × Nat × Nat × List (Nat × Bool))
  sao : Bool × Bool
  /-- The number of references less one, where it is not ours, and the candidates left out. -/
  merging : Option (Option Nat × Nat)
  qpDelta : Int

/-- A `st_ref_pic_set(0)` of the slice's own, without pictures after this one. -/
def refPicSet : Grammar (Bool × Nat × Nat × List (Nat × Bool)) :=
  pair (such flag (· = false)) (bind ue fun negative => pair (such ue (· = 0))
    (each (replicate negative (pair ue flag))))

/-- The syntax of slices under our HEVC parameter sets. -/
def hevcSlice (idr : Bool) (log2MaxPocLsb : Nat) : Grammar HevcHeader :=
  iso
    (pair (such flag (· = true)) (pair (opt idr flag) (pair ue
      (pair (such ue (· = if idr then 2 else 1))
        (pair (opt (!idr) (u log2MaxPocLsb))
          (pair (opt (!idr) refPicSet) (pair (pair flag flag)
            (pair (opt (!idr) (pair (flagged ue) ue)) Grammar.se))))))))
    (fun (a, b, c, d, e, f, g, h, i) => ⟨a, b, c, d, e, f, g, h, i⟩)
    (fun ⟨a, b, c, d, e, f, g, h, i⟩ => (a, b, c, d, e, f, g, h, i)) (fun _ => rfl)
    (fun _ => rfl)

def stepBack : Int → List (Nat × Bool) → List (Int × Bool)
  | _, [] => []
  | poc, (step, used) :: rest => (poc - (step + 1), used) :: stepBack (poc - (step + 1)) rest

def HevcHeader.pictures (header : HevcHeader) (poc : Int) : List (Int × Bool) :=
  header.kept.elim [] fun (_, _, _, steps) => stepBack poc steps

/-- What the loop spells. -/
def stepsTo (referencePoc : UInt32) : UInt32 → List UInt32 → List (Nat × Bool)
  | _, [] => []
  | previous, poc :: rest =>
      ((previous - poc - 1).toNat, decide (poc = referencePoc)) :: stepsTo referencePoc poc rest

theorem mem_before (slice : HevcSlice) (poc : UInt32) :
    poc ∈ before slice ↔ poc ∈ slice.kept ∧ poc < slice.poc := by
  simp [before]

/-- The pictures before the current one, the newest first. -/
theorem before_descends {slice : HevcSlice} (h : slice.kept.Nodup) :
    (slice.poc :: before slice).Pairwise (· > ·) := by
  refine pairwise_cons.mpr ⟨fun poc hpoc => ((mem_before slice poc).mp hpoc).2, ?_⟩
  have htrans : ∀ a b c : UInt32, decide (b ≤ a) = true → decide (c ≤ b) = true →
      decide (c ≤ a) = true := fun a b c hab hbc =>
    decide_eq_true (UInt32.le_trans (of_decide_eq_true hbc) (of_decide_eq_true hab))
  have htotal : ∀ a b : UInt32, (decide (b ≤ a) || decide (a ≤ b)) = true := fun a b => by
    simpa using UInt32.le_total b a
  have hsorted := pairwise_mergeSort htrans htotal (slice.kept.filter (· < slice.poc))
  have hdistinct : (before slice).Nodup := (mergeSort_perm _ _).nodup_iff.mpr (h.filter _)
  refine (hsorted.and hdistinct).imp fun hle => ?_
  exact UInt32.lt_of_le_of_ne (of_decide_eq_true hle.1) hle.2.symm

theorem step_toNat {previous poc : UInt32} (h : poc < previous) :
    (previous - poc - 1).toNat + 1 = previous.toNat - poc.toNat := by
  have hsub := UInt32.toNat_sub_of_le previous poc (UInt32.le_of_lt h)
  have hlt := UInt32.lt_iff_toNat_lt.mp h
  rw [← hsub]
  refine toNat_sub_one fun hzero => ?_
  rw [hzero] at hsub
  exact Nat.sub_ne_zero_of_lt hlt hsub.symm

theorem stepBack_stepsTo (referencePoc : UInt32) {previous : UInt32} {pocs : List UInt32}
    (h : (previous :: pocs).Pairwise (· > ·)) :
    stepBack previous.toNat (stepsTo referencePoc previous pocs) =
      pocs.map fun poc => ((poc.toNat : Int), decide (poc = referencePoc)) := by
  induction pocs generalizing previous with
  | nil => rfl
  | cons poc rest ih =>
    obtain ⟨hbelow, hrest⟩ := pairwise_cons.mp h
    have hlt := hbelow poc mem_cons_self
    have hnat := UInt32.lt_iff_toNat_lt.mp hlt
    have hpoc : (previous.toNat : Int) - (((previous - poc - 1).toNat : Int) + 1) = poc.toNat := by
      have hstep := step_toNat hlt
      omega
    rw [stepsTo, stepBack, hpoc, ih hrest, map_cons]

theorem steps_spelt (referencePoc : UInt32) {previous : UInt32} {pocs : List UInt32}
    (h : (previous :: pocs).Pairwise (· > ·)) (rest : List Code) :
    Spells (each (replicate pocs.length (pair ue flag)))
      (negativePics referencePoc previous pocs ++ rest) (stepsTo referencePoc previous pocs)
      rest := by
  induction pocs generalizing previous with
  | nil => exact .nil
  | cons poc more ih =>
    obtain ⟨hbelow, hmore⟩ := pairwise_cons.mp h
    have hstep : (previous - poc - 1).toNat < 2 ^ 32 - 1 := by
      have hback := step_toNat (hbelow poc mem_cons_self)
      have hlt := previous.toNat_lt
      omega
    rw [stepsTo]
    by_cases hused : poc = referencePoc
    · rw [negativePics, if_pos hused, decide_eq_true hused]
      exact .cons (.bind (.ue hstep) .on) (ih hmore)
    · rw [negativePics, if_neg hused, decide_eq_false hused]
      exact .cons (.bind (.ue hstep) .off) (ih hmore)

theorem refPicSet_spelt (referencePoc : UInt32) {previous : UInt32} {pocs : List UInt32}
    (hlength : pocs.length < 2 ^ 32 - 1) (h : (previous :: pocs).Pairwise (· > ·))
    (rest : List Code) :
    Spells refPicSet (.u 1 0 :: .ue pocs.length :: .ue 0 ::
        (negativePics referencePoc previous pocs ++ rest))
      (false, pocs.length, 0, stepsTo referencePoc previous pocs) rest := by
  unfold refPicSet
  exact .bind (.such .off rfl) (.bind (.ue hlength) (.bind (.such (.ue (by decide)) rfl)
    (steps_spelt _ h _)))

/-- A slice header lists every picture that is kept, each once and the newest first, and marks
the one predicted from as the one used. -/
theorem hevcSliceHeader_tells (log2MaxPocLsb : Nat) (slice : HevcSlice)
    (hlog : log2MaxPocLsb ≤ 16) (hkept : slice.kept.Nodup) (hcount : slice.kept.length < 2 ^ 32 - 1) :
    ∃ header, Tells (hevcSlice slice.idr log2MaxPocLsb)
        [(if slice.idr then 19 else 1 : UInt8) <<< 1, 0x01] (hevcSliceHeader log2MaxPocLsb slice)
        header ∧
      (slice.idr = false → header.pocLsb = some (slice.poc.toNat % 2 ^ log2MaxPocLsb) ∧
        ∃ pocs : List UInt32, pocs.Pairwise (· > ·) ∧
          (∀ poc, poc ∈ pocs ↔ poc ∈ slice.kept ∧ poc < slice.poc) ∧
          header.pictures slice.poc.toNat =
            pocs.map fun poc => ((poc.toNat : Int), decide (poc = slice.referencePoc))) := by
  have hdescends := before_descends hkept
  have hle : (before slice).length ≤ slice.kept.length := by
    rw [before, length_mergeSort]
    exact length_filter_le _ _
  unfold hevcSliceHeader hevcSliceCodes
  rw [toNat_and_ones hlog, Nat.mod_eq_of_lt (by omega : (before slice).length < 2 ^ 32)]
  cases hidr : slice.idr with
  | true =>
    refine ⟨⟨true, some false, 0, 2, none, none, (true, true), none, 0⟩,
      Spells.tells (.iso ?_) _, fun h => (by cases h)⟩
    exact .bind (.such .on rfl) (.bind (.given .off) (.bind (.ue (by decide))
      (.bind (.such (.ue (by decide)) (rfl : 2 = 2)) (.bind .left (.bind .left
        (.bind (.bind .on .on) (.bind .left .zero)))))))
  | false =>
    refine ⟨⟨true, none, 0, 1, some (slice.poc.toNat % 2 ^ log2MaxPocLsb),
      some (false, (before slice).length, 0, stepsTo slice.referencePoc slice.poc (before slice)),
      (true, true), some (none, 0), 0⟩, Spells.tells (.iso ?_) _, fun _ =>
      ⟨rfl, before slice, (pairwise_cons.mp hdescends).2, mem_before slice,
        stepBack_stepsTo slice.referencePoc hdescends⟩⟩
    simp only [Bool.false_eq_true, if_false, append_assoc, cons_append, nil_append]
    exact .bind (.such .on rfl) (.bind .left (.bind (.ue (by decide))
      (.bind (.such (.ue (by decide)) (rfl : 1 = 1))
        (.bind (.given (.u (Nat.mod_lt _ (Nat.two_pow_pos _))))
          (.bind (.given (refPicSet_spelt _ (by omega) hdescends _)) (.bind (.bind .on .on)
            (.bind (.given (.bind .no (.ue (by decide)))) .zero)))))))

/-- Three pictures kept in any order, and a reference past a loss. -/
theorem hevcSliceHeader_tells_past :
    ∃ header, Tells (hevcSlice false 16) [2, 1]
        (hevcSliceHeader 16 ⟨false, 20, [17, 19, 15], 17⟩) header ∧
      (false = false → header.pocLsb = some 20 ∧
        ∃ pocs : List UInt32, pocs.Pairwise (· > ·) ∧
          (∀ poc, poc ∈ pocs ↔ poc ∈ [17, 19, 15] ∧ poc < 20) ∧
          header.pictures 20 = pocs.map fun poc => ((poc.toNat : Int), decide (poc = 17))) :=
  hevcSliceHeader_tells 16 ⟨false, 20, [17, 19, 15], 17⟩ (by decide) (by decide) (by decide)

end MoonlightWeb.NativeHost.ParameterSets
