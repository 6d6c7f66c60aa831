import MoonlightWeb.Frontend.Av1Utils

/-! # When a walk over AV1 units goes forward

The two loops of `Av1Utils` are one walk with different ends. It reads every size as the
number that is written, goes forward and ends exactly when no size on its way is 2^31 or
more, as an exact reader of the same bytes meets them.
-/

namespace MoonlightWeb.Frontend.Av1Utils

open Lib

/-- A loop over units: it goes on below `limit`, gives up at a unit it does not admit and is
over at a unit that is its `last`. -/
structure Walker where
  limit : Int
  admits : Obu → Bool
  last : Obu → Bool

def finder (data : Bytes) : Walker :=
  ⟨data.length - 1, fun _ => true, fun o => o.obuType = OBU_SEQUENCE_HEADER⟩

def stripper (data : Bytes) : Walker :=
  ⟨data.length, fun o => o.stop ≤ data.length, fun _ => false⟩

namespace Walker

variable (w : Walker) (decode : Bytes → Option (Int × Nat)) (data : Bytes)

def reads : Nat → Int → List Obu
  | 0, _ => []
  | fuel + 1, offset =>
      if offset < w.limit then
        match readObu decode data offset with
        | none => []
        | some o => if w.admits o && !w.last o then o :: reads fuel o.stop else [o]
      else []

def halts : Nat → Int → Bool
  | 0, _ => false
  | fuel + 1, offset =>
      if offset < w.limit then
        match readObu decode data offset with
        | none => true
        | some o => if w.admits o && !w.last o then halts fuel o.stop else true
      else true

end Walker

def exactSize (bytes : Bytes) : Option (Int × Nat) :=
  (Leb128.decode 8 bytes).map fun size => (size.1, size.2)

/-- The size of a unit is the number that is written. -/
def Obu.Exact (data : Bytes) (o : Obu) : Prop :=
  exactSize (data.drop (o.start + o.hdrLen).toNat) = some (o.obuSize, o.sizeLen)

/-- A walk that reads sizes as they are, goes forward and stays in the array. -/
structure Sound (w : Walker) (data : Bytes) : Prop where
  exact : ∀ fuel, ∀ o ∈ w.reads readLeb128 data fuel 0, o.Exact data ∧ 0 ≤ o.obuSize
  inside : ∀ fuel, ∀ o ∈ w.reads readLeb128 data fuel 0, w.admits o = true →
    0 ≤ o.start ∧ o.stop ≤ data.length
  progress : ∀ fuel, List.IsChain (fun o o' => o.start < o'.start)
    (w.reads readLeb128 data fuel 0)

variable {data : Bytes} {w : Walker}

variable (fuel : Nat)

theorem findFrom_isSome (offset : Int) :
    (findFrom data fuel offset).isSome = (finder data).halts readLeb128 data fuel offset := by
  induction fuel generalizing offset with
  | zero => rfl
  | succ fuel ih =>
    have hlimit : (finder data).limit = (data.length : Int) - 1 := rfl
    simp only [findFrom, Walker.halts, hlimit]
    split_ifs with hlt
    · cases readObu readLeb128 data offset with
      | none => rfl
      | some o =>
        have hadmits : (finder data).admits o = true := rfl
        have hlast : (finder data).last o = decide (o.obuType = OBU_SEQUENCE_HEADER) := rfl
        by_cases htype : o.obuType = OBU_SEQUENCE_HEADER
        · simp [hadmits, hlast, htype]
        · simp [hadmits, hlast, htype, ih]
    · rfl

theorem stripFrom_isSome (offset : Int) (k : Kept) :
    (stripFrom data fuel offset k).isSome = (stripper data).halts readLeb128 data fuel offset := by
  induction fuel generalizing offset k with
  | zero => rfl
  | succ fuel ih =>
    have hlimit : (stripper data).limit = (data.length : Int) := rfl
    simp only [stripFrom, Walker.halts, hlimit]
    split_ifs with hlt
    · cases readObu readLeb128 data offset with
      | none => rfl
      | some o =>
        have hadmits : (stripper data).admits o = decide (o.stop ≤ data.length) := rfl
        have hlast : (stripper data).last o = false := rfl
        by_cases hfits : (data.length : Int) < o.stop
        · simp [hadmits, hlast, hfits]
        · simp [hadmits, hlast, hfits, not_lt.mp hfits, ih]
    · rfl

theorem low_bits (b : UInt8) : (b &&& 0x7f).toNat = b.toNat % 128 := by
  have h : ∀ n : Fin 256, n.val &&& 127 = n.val % 128 := by decide +kernel
  rw [UInt8.toNat_and]
  exact h ⟨b.toNat, b.toNat_lt⟩

theorem top_bit (b : UInt8) : b &&& 0x80 = 0 ↔ Leb128.continues b = false := by
  have h : ∀ n : Fin 256, n.val &&& 128 = 0 ↔ ¬128 ≤ n.val := by decide +kernel
  have hb := h ⟨b.toNat, b.toNat_lt⟩
  rw [← UInt8.toNat_inj, UInt8.toNat_and]
  unfold Leb128.continues
  rw [decide_eq_false_iff_not]
  exact hb

theorem pow_128 (k : Nat) : 128 ^ k = 2 ^ (7 * k) := by
  rw [show 128 = 2 ^ 7 by norm_num, ← pow_mul]

/-- While the number stays below 2^31, a digit goes where it belongs. -/
theorem or_digit {acc : BitVec 32} {value digit place : Nat} (hacc : acc.toNat = value)
    (hvalue : value < 128 ^ place) (hnext : value + digit * 128 ^ place < 2 ^ 31) :
    (acc ||| BitVec.ofNat 32 digit <<< (place * 7 % 32)).toNat = value + digit * 128 ^ place := by
  rcases Nat.eq_zero_or_pos digit with hzero | hpos
  · subst hzero
    simp [hacc]
  · -- a digit that counts has a place below 5, where shifts do not wrap
    have hpow : 128 ^ place < 2 ^ 31 := by nlinarith
    have hplace : place < 5 := by
      by_contra h
      have hle : 128 ^ 5 ≤ 128 ^ place := Nat.pow_le_pow_right (by norm_num) (by omega)
      have h5 : (2 : Nat) ^ 31 < 128 ^ 5 := by norm_num
      omega
    have hshift : place * 7 % 32 = 7 * place := by omega
    have hdigit : digit < 2 ^ 32 := by
      have hone : 1 ≤ 128 ^ place := Nat.one_le_pow _ _ (by norm_num)
      have : digit * 1 ≤ digit * 128 ^ place := Nat.mul_le_mul_left digit hone
      omega
    have hterm : (BitVec.ofNat 32 digit <<< (7 * place)).toNat = 2 ^ (7 * place) * digit := by
      rw [BitVec.toNat_shiftLeft, BitVec.toNat_ofNat, Nat.mod_eq_of_lt hdigit,
        Nat.shiftLeft_eq, Nat.mul_comm, Nat.mod_eq_of_lt]
      rw [← pow_128, Nat.mul_comm]
      omega
    rw [hshift, BitVec.toNat_or, hterm, hacc, Nat.lor_comm,
      ← Nat.two_pow_add_eq_or_of_lt (by rw [← pow_128]; exact hvalue), ← pow_128]
    ring

theorem toInt_of_small {acc : BitVec 32} {value : Nat} (h : acc.toNat = value)
    (hvalue : value < 2 ^ 31) : acc.toInt = value := by
  rw [BitVec.toInt_eq_toNat_of_lt (by omega), h]

theorem toInt_lt_of_width (acc : BitVec 32) : acc.toInt < 2 ^ 31 := by
  have h := BitVec.toInt_lt (x := acc)
  simpa using h

theorem value_le_decodeFrom {bytes : Bytes} {limit index acc value len : Nat}
    (h : Leb128.decodeFrom limit index acc bytes = some (value, len)) : acc ≤ value := by
  induction bytes generalizing index acc with
  | nil => cases h
  | cons b rest ih =>
    unfold Leb128.decodeFrom at h
    split_ifs at h with hfull hmore
    · exact (Nat.le_add_right _ _).trans (ih h)
    · cases h
      exact Nat.le_add_right _ _

theorem readLeb128From_wrapped (bytes : Bytes) (place acc : Nat) (obuSize : BitVec 32)
    (hplace : acc < 128 ^ place) :
    (Leb128.decodeFrom 8 place acc bytes = none → readLeb128From place obuSize bytes = none) ∧
    ∀ value len, Leb128.decodeFrom 8 place acc bytes = some (value, len) →
      ∃ x, readLeb128From place obuSize bytes = some (x, len) ∧ x < 2 ^ 31 ∧
        (value < 2 ^ 31 → obuSize.toNat = acc → x = value) := by
  induction bytes generalizing place acc obuSize with
  | nil => exact ⟨fun _ => rfl, fun _ _ h => by cases h⟩
  | cons b rest ih =>
    have hdigit : acc + b.toNat % 128 * 128 ^ place < 128 ^ (place + 1) := by
      have hlow : b.toNat % 128 < 128 := Nat.mod_lt _ (by norm_num)
      rw [pow_succ]
      nlinarith
    have hrest := ih (place + 1) (acc + b.toNat % 128 * 128 ^ place)
      (obuSize ||| BitVec.ofNat 32 (b &&& 0x7f).toNat <<< (place * 7 % 32)) hdigit
    unfold Leb128.decodeFrom readLeb128From
    by_cases hfull : 8 ≤ place
    · simp [hfull]
    · by_cases hmore : Leb128.continues b = true
      · have htop : ¬b &&& 0x80 = 0 := by
          rw [top_bit, hmore]
          decide
        simp only [hfull, hmore, htop, if_true, if_false]
        refine ⟨hrest.1, fun value len h => ?_⟩
        obtain ⟨x, hx, hlt, hsame⟩ := hrest.2 value len h
        refine ⟨x, hx, hlt, fun hvalue hacc => hsame hvalue ?_⟩
        have hle := value_le_decodeFrom h
        rw [low_bits]
        exact or_digit hacc hplace (by omega)
      · have hlast : Leb128.continues b = false := by simpa using hmore
        have htop : b &&& 0x80 = 0 := (top_bit b).mpr hlast
        simp only [hfull, hlast, htop, if_true, if_false, Bool.false_eq_true]
        refine ⟨(fun h => by cases h), fun value len h => ?_⟩
        obtain ⟨rfl, rfl⟩ := Prod.mk.inj (Option.some.inj h)
        refine ⟨_, rfl, toInt_lt_of_width _, fun hvalue hacc => ?_⟩
        rw [low_bits]
        exact toInt_of_small (or_digit hacc hplace hvalue) hvalue

/-- A size is read as what is written, if that is below 2^31. -/
theorem readLeb128_exact (bytes : Bytes) :
    (exactSize bytes = none → readLeb128 bytes = none) ∧
    ∀ size, exactSize bytes = some size → 0 ≤ size.1 ∧
      ∃ x, readLeb128 bytes = some (x, size.2) ∧ x < 2 ^ 31 ∧ (size.1 < 2 ^ 31 → x = size.1) := by
  have h := readLeb128From_wrapped bytes 0 0 0 (by norm_num)
  unfold exactSize readLeb128 Leb128.decode
  constructor
  · intro hnone
    rw [Option.map_eq_none_iff] at hnone
    exact h.1 hnone
  · intro size hsize
    rw [Option.map_eq_some_iff] at hsize
    obtain ⟨⟨value, len⟩, hexact, rfl⟩ := hsize
    obtain ⟨x, hx, hlt, hsame⟩ := h.2 value len hexact
    refine ⟨by positivity, x, hx, hlt, fun hvalue => hsame ?_ rfl⟩
    have hvalue : (value : Int) < 2 ^ 31 := hvalue
    omega

structure Found (data : Bytes) (offset : Int) (o : Obu) : Prop where
  start : o.start = offset
  inRange : 0 ≤ offset
  exact : o.Exact data
  size : 0 ≤ o.obuSize
  total : 1 ≤ o.totalObuLen
  /-- What the walk finds there. -/
  read : ∃ x, readObu readLeb128 data offset = some { o with obuSize := x } ∧ x < 2 ^ 31 ∧
    (o.obuSize < 2 ^ 31 → x = o.obuSize)

theorem headerLength_pos (header : UInt8) : 1 ≤ headerLength header := by
  unfold headerLength
  split_ifs
  · exact le_rfl
  · exact Int.le.intro 1 rfl

variable {offset : Int}

theorem byteAt_negative (h : offset < 0) : byteAt data offset = 0 :=
  if_neg (not_le.mpr h)

theorem readObu_none (h : readObu exactSize data offset = none) :
    readObu readLeb128 data offset = none := by
  unfold readObu at h ⊢
  split_ifs at h ⊢
  · rfl
  · rfl
  · rw [Option.map_eq_none_iff] at h ⊢
    exact (readLeb128_exact _).1 h

theorem found_of_readObu {o : Obu} (h : readObu exactSize data offset = some o) :
    Found data offset o := by
  have hpos := headerLength_pos (byteAt data offset)
  have hrange : 0 ≤ offset := by
    by_contra hneg
    have hzero : byteAt data offset = 0 := byteAt_negative (not_le.mp hneg)
    unfold readObu at h
    rw [hzero] at h
    split_ifs at h with _ hsized
    exact hsized (by decide)
  unfold readObu at h
  split_ifs at h with hend hsized
  rw [Option.map_eq_some_iff] at h
  obtain ⟨size, hexact, rfl⟩ := h
  obtain ⟨hnonneg, x, hx, hlt, hsame⟩ := (readLeb128_exact _).2 size hexact
  refine ⟨rfl, hrange, hexact, hnonneg, ?_, x, ?_, hlt, hsame⟩
  · unfold Obu.totalObuLen
    dsimp only
    omega
  · unfold readObu
    rw [if_neg hend, if_neg hsized, hx]
    rfl

/-- What an exact reader meets from an offset on is below 2^31 and lies in the array. -/
def Good (w : Walker) (data : Bytes) (o : Obu) : Prop :=
  o.obuSize < 2 ^ 31 ∧ (w.admits o = true → o.stop ≤ data.length)

theorem readObu_of_small {o : Obu} (h : Found data offset o)
    (hsmall : o.obuSize < 2 ^ 31) : readObu readLeb128 data offset = some o := by
  obtain ⟨x, hread, _, hsame⟩ := h.read
  rw [hread, hsame hsmall]

theorem reads_of_good (offset : Int)
    (h : ∀ o ∈ w.reads exactSize data fuel offset, Good w data o) :
    w.reads readLeb128 data fuel offset = w.reads exactSize data fuel offset ∧
      w.halts readLeb128 data fuel offset = w.halts exactSize data fuel offset := by
  induction fuel generalizing offset with
  | zero => exact ⟨rfl, rfl⟩
  | succ fuel ih =>
    unfold Walker.reads at h ⊢
    unfold Walker.halts
    by_cases hlt : offset < w.limit
    · simp only [hlt, if_true] at h ⊢
      cases hread : readObu exactSize data offset with
      | none => simp only [readObu_none hread, and_self]
      | some o =>
        simp only [hread] at h
        have hgood : Good w data o := by
          apply h
          split_ifs
          · exact List.mem_cons_self
          · exact List.mem_singleton_self o
        simp only [readObu_of_small (found_of_readObu hread) hgood.1]
        by_cases hon : (w.admits o && !w.last o) = true
        · simp only [hon, if_true] at h ⊢
          have hrest := ih o.stop fun o' ho' => h o' (List.mem_cons_of_mem o ho')
          exact ⟨by rw [hrest.1], hrest.2⟩
        · simp only [hon, Bool.false_eq_true, if_false, and_self]
    · simp only [hlt, if_false, and_self]

/-- The units of an exact reader come one after the other. -/
theorem starts_of_exact (offset : Int) :
    (∀ o ∈ (w.reads exactSize data fuel offset).head?, o.start = offset) ∧
      List.IsChain (fun o o' => o.start < o'.start) (w.reads exactSize data fuel offset) ∧
      ∀ o ∈ w.reads exactSize data fuel offset, Found data o.start o := by
  induction fuel generalizing offset with
  | zero => simp [Walker.reads]
  | succ fuel ih =>
    unfold Walker.reads
    split_ifs with hlt
    · cases hread : readObu exactSize data offset with
      | none => simp
      | some o =>
        have hfound := found_of_readObu hread
        have hself : Found data o.start o := hfound.start ▸ hfound
        obtain ⟨hhead, hchain, hall⟩ := ih o.stop
        dsimp only
        split_ifs
        · refine ⟨by simp [hfound.start], ?_, ?_⟩
          · refine List.isChain_cons.mpr ⟨fun o' ho' => ?_, hchain⟩
            have hnext := hhead o' ho'
            have htotal := hfound.total
            unfold Obu.stop at hnext
            omega
          · intro o' ho'
            rcases List.mem_cons.mp ho' with rfl | ho'
            · exact hself
            · exact hall o' ho'
        · refine ⟨by simp [hfound.start], List.isChain_singleton o, ?_⟩
          intro o' ho'
          rwa [List.mem_singleton.mp ho']
    · simp

/-- Each unit brings the walk nearer to its limit. -/
theorem halts_of_exact (offset : Int) (h : w.limit < offset + fuel) :
    w.halts exactSize data fuel offset = true ∨ fuel = 0 := by
  induction fuel generalizing offset with
  | zero => exact Or.inr rfl
  | succ fuel ih =>
    left
    unfold Walker.halts
    split_ifs with hlt
    · cases hread : readObu exactSize data offset with
      | none => rfl
      | some o =>
        have hfound := found_of_readObu hread
        have hstart := hfound.start
        have htotal := hfound.total
        dsimp only
        split_ifs
        · rcases ih o.stop (by unfold Obu.stop; push_cast at h; omega) with hhalts | hzero
          · exact hhalts
          · push_cast at h
            omega
        · rfl
    · rfl

/-- What the walk reads exactly, an exact reader reads too. -/
theorem reads_of_exact (offset : Int)
    (h : ∀ o ∈ w.reads readLeb128 data fuel offset, o.Exact data) :
    w.reads exactSize data fuel offset = w.reads readLeb128 data fuel offset ∧
      ∀ o ∈ w.reads readLeb128 data fuel offset, o.obuSize < 2 ^ 31 := by
  induction fuel generalizing offset with
  | zero => exact ⟨rfl, by simp [Walker.reads]⟩
  | succ fuel ih =>
    unfold Walker.reads at h ⊢
    by_cases hlt : offset < w.limit
    · simp only [hlt, if_true] at h ⊢
      cases hread : readObu exactSize data offset with
      | none => simp [readObu_none hread]
      | some o =>
        have hfound := found_of_readObu hread
        obtain ⟨x, hx, hsmall, _⟩ := hfound.read
        have hexact : Obu.Exact data { o with obuSize := x } := by
          simp only [hx] at h
          apply h
          split_ifs
          · exact List.mem_cons_self
          · exact List.mem_singleton_self _
        have hsize : x = o.obuSize :=
          (Prod.mk.inj (Option.some.inj (hexact.symm.trans hfound.exact))).1
        rw [hsize] at hx hsmall
        have hx : readObu readLeb128 data offset = some o := hx
        simp only [hx] at h ⊢
        by_cases hon : (w.admits o && !w.last o) = true
        · simp only [hon, if_true] at h ⊢
          have hrest := ih o.stop fun o' ho' => h o' (List.mem_cons_of_mem o ho')
          refine ⟨by rw [hrest.1], fun o' ho' => ?_⟩
          rcases List.mem_cons.mp ho' with rfl | ho'
          · exact hsmall
          · exact hrest.2 o' ho'
        · simp only [hon, Bool.false_eq_true, if_false, true_and]
          intro o' ho'
          rwa [List.mem_singleton.mp ho']
    · simp [hlt]

theorem sound_iff (w : Walker) (data : Bytes) :
    ((∃ fuel, w.halts readLeb128 data fuel 0 = true) ∧ Sound w data) ↔
      ∀ fuel, ∀ o ∈ w.reads exactSize data fuel 0, Good w data o := by
  constructor
  · intro h fuel
    have hsame := reads_of_exact fuel 0 fun o ho => (h.2.exact fuel o ho).1
    rw [hsame.1]
    exact fun o ho => ⟨hsame.2 o ho, fun hadmits => (h.2.inside fuel o ho hadmits).2⟩
  · intro h
    constructor
    · refine ⟨w.limit.toNat + 1, ?_⟩
      rw [(reads_of_good _ 0 (h _)).2]
      have hends : w.halts exactSize data (w.limit.toNat + 1) 0 = true ∨ w.limit.toNat + 1 = 0 :=
        halts_of_exact (w.limit.toNat + 1) 0 (by push_cast; omega)
      exact hends.resolve_right (Nat.succ_ne_zero _)
    · have hreads : ∀ fuel, w.reads readLeb128 data fuel 0 = w.reads exactSize data fuel 0 :=
        fun fuel => (reads_of_good fuel 0 (h fuel)).1
      exact
        { exact := by
            intro fuel o ho
            rw [hreads] at ho
            have hfound := (starts_of_exact fuel 0).2.2 o ho
            exact ⟨hfound.exact, hfound.size⟩
          inside := by
            intro fuel o ho hadmits
            rw [hreads] at ho
            exact ⟨((starts_of_exact fuel 0).2.2 o ho).inRange, (h fuel o ho).2 hadmits⟩
          progress := by
            intro fuel
            rw [hreads]
            exact (starts_of_exact fuel 0).2.1 }

theorem findSequenceHeader_isSome :
    (findSequenceHeader (fuel + 1) data).isSome =
      (finder data).halts readLeb128 data (fuel + 1) 0 := by
  unfold findSequenceHeader
  split_ifs with hshort
  · have hlimit : ¬(0 : Int) < (finder data).limit := by
      change ¬(0 : Int) < data.length - 1
      omega
    simp [Walker.halts, hlimit]
  · exact findFrom_isSome _ _

theorem stripNonEssentialObus_isSome :
    (stripNonEssentialObus (fuel + 1) data).isSome =
      (stripper data).halts readLeb128 data (fuel + 1) 0 := by
  unfold stripNonEssentialObus
  split_ifs with hshort
  · have hlimit : ¬(0 : Int) < (stripper data).limit := by
      change ¬(0 : Int) < data.length
      omega
    simp [Walker.halts, hlimit]
  · exact stripFrom_isSome _ _ _

theorem findSequenceHeader_ends_iff :
    (∃ fuel, (findSequenceHeader fuel data).isSome = true) ↔
      ∃ fuel, (finder data).halts readLeb128 data fuel 0 = true := by
  constructor
  · intro ⟨fuel, h⟩
    cases fuel with
    | zero =>
      unfold findSequenceHeader at h
      split_ifs at h with hshort
      · refine ⟨1, ?_⟩
        rw [← findSequenceHeader_isSome]
        simp [findSequenceHeader, hshort]
      · cases h
    | succ fuel => exact ⟨fuel + 1, by rw [← findSequenceHeader_isSome]; exact h⟩
  · intro ⟨fuel, h⟩
    cases fuel with
    | zero => cases h
    | succ fuel => exact ⟨fuel + 1, by rw [findSequenceHeader_isSome]; exact h⟩

theorem stripNonEssentialObus_ends_iff :
    (∃ fuel, (stripNonEssentialObus fuel data).isSome = true) ↔
      ∃ fuel, (stripper data).halts readLeb128 data fuel 0 = true := by
  constructor
  · intro ⟨fuel, h⟩
    cases fuel with
    | zero =>
      unfold stripNonEssentialObus at h
      split_ifs at h with hshort
      · refine ⟨1, ?_⟩
        rw [← stripNonEssentialObus_isSome]
        simp [stripNonEssentialObus, hshort]
      · cases h
    | succ fuel => exact ⟨fuel + 1, by rw [← stripNonEssentialObus_isSome]; exact h⟩
  · intro ⟨fuel, h⟩
    cases fuel with
    | zero => cases h
    | succ fuel => exact ⟨fuel + 1, by rw [stripNonEssentialObus_isSome]; exact h⟩

/-- The walks end, read sizes as they are, go forward and stay in the array exactly when an
exact reader of the same units meets no size from 2^31 on and, on the way to the sequence
header, no unit that is cut short. -/
theorem walks_sound_iff (data : Bytes) :
    (((∃ fuel, (findSequenceHeader fuel data).isSome = true) ∧ Sound (finder data) data) ↔
      ∀ fuel, ∀ o ∈ (finder data).reads exactSize data fuel 0,
        o.obuSize < 2 ^ 31 ∧ o.stop ≤ data.length) ∧
    (((∃ fuel, (stripNonEssentialObus fuel data).isSome = true) ∧ Sound (stripper data) data) ↔
      ∀ fuel, ∀ o ∈ (stripper data).reads exactSize data fuel 0, o.obuSize < 2 ^ 31) := by
  have hfinder : ∀ o : Obu, Good (finder data) data o ↔
      o.obuSize < 2 ^ 31 ∧ o.stop ≤ data.length := by
    intro o
    exact ⟨fun h => ⟨h.1, h.2 rfl⟩, fun h => ⟨h.1, fun _ => h.2⟩⟩
  have hstripper : ∀ o : Obu, Good (stripper data) data o ↔ o.obuSize < 2 ^ 31 := by
    intro o
    exact ⟨fun h => h.1, fun h => ⟨h, fun hadmits => of_decide_eq_true hadmits⟩⟩
  constructor
  · rw [findSequenceHeader_ends_iff, sound_iff]
    simp only [hfinder]
  · rw [stripNonEssentialObus_ends_iff, sound_iff]
    simp only [hstripper]

def standing : Bytes := [0x12, 0xfa, 0xff, 0xff, 0xff, 0x0f, 0x0a, 0]

theorem findFrom_standing : findFrom standing fuel 0 = none := by
  induction fuel with
  | zero => rfl
  | succ fuel ih =>
    have hread : readObu readLeb128 standing 0 = some ⟨0, 2, 1, 5, -6⟩ := by decide +kernel
    have hstop : Obu.stop ⟨0, 2, 1, 5, -6⟩ = 0 := by decide
    unfold findFrom
    rw [if_pos (by decide), hread]
    dsimp only
    rw [if_neg (by decide), hstop]
    exact ih

theorem never_found :
    ¬∀ data : Bytes, (∃ fuel, (findSequenceHeader fuel data).isSome = true) ∧
      Sound (finder data) data := by
  intro h
  obtain ⟨fuel, hsome⟩ := (h standing).1
  have hnone : findSequenceHeader fuel standing = none := by
    unfold findSequenceHeader
    rw [if_neg (by decide)]
    exact findFrom_standing fuel
  rw [hnone] at hsome
  cases hsome

end MoonlightWeb.Frontend.Av1Utils
