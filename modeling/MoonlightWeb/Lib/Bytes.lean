import Mathlib

/-! # Bytes on a wire

Numbers of a fixed width with the highest byte first, fields behind their
length, and the array a writer fills from left to right.
-/

namespace MoonlightWeb.Lib.Bytes

open List

/-- The `width` low bytes of a number, the highest first. -/
def bigEndian : Nat → Nat → List UInt8
  | 0, _ => []
  | width + 1, n => bigEndian width (n / 256) ++ [UInt8.ofNat n]

variable (bytes : List UInt8)

def bigEndianValue : Nat :=
  bytes.foldl (fun v b => v * 256 + b.toNat) 0

@[simp] theorem bigEndian_length (width n : Nat) : (bigEndian width n).length = width := by
  induction width generalizing n with
  | zero => rfl
  | succ width ih => simp [bigEndian, ih]

theorem bigEndianValue_snoc (b : UInt8) :
    bigEndianValue (bytes ++ [b]) = bigEndianValue bytes * 256 + b.toNat := by
  simp [bigEndianValue]

theorem bigEndianValue_bigEndian (width n : Nat) :
    bigEndianValue (bigEndian width n) = n % 256 ^ width := by
  induction width generalizing n with
  | zero => simp [bigEndian, bigEndianValue, Nat.mod_one]
  | succ width ih =>
    have hbyte : (UInt8.ofNat n).toNat = n % 256 := by simp
    rw [bigEndian, bigEndianValue_snoc, ih, hbyte, pow_succ, Nat.mul_comm (256 ^ width) 256,
      Nat.mod_mul]
    omega

theorem bigEndianValue_of_lt {width n : Nat} (h : n < 256 ^ width) :
    bigEndianValue (bigEndian width n) = n := by
  rw [bigEndianValue_bigEndian, Nat.mod_eq_of_lt h]

theorem bigEndian_inj {width n m : Nat} (hn : n < 256 ^ width) (hm : m < 256 ^ width)
    (h : bigEndian width n = bigEndian width m) : n = m := by
  rw [← bigEndianValue_of_lt hn, h, bigEndianValue_of_lt hm]

theorem bigEndianValue_lt : bigEndianValue bytes < 256 ^ bytes.length := by
  induction bytes using List.reverseRecOn with
  | nil => simp [bigEndianValue]
  | append_singleton bytes b ih =>
    have hb : b.toNat < 256 := b.toNat_lt
    rw [bigEndianValue_snoc, length_append, length_singleton, pow_succ]
    have hstep : (bigEndianValue bytes + 1) * 256 ≤ 256 ^ bytes.length * 256 :=
      Nat.mul_le_mul_right 256 ih
    omega

theorem bigEndian_bigEndianValue :
    bigEndian bytes.length (bigEndianValue bytes) = bytes := by
  induction bytes using List.reverseRecOn with
  | nil => rfl
  | append_singleton bytes b ih =>
    have hb : b.toNat < 256 := b.toNat_lt
    have hhigh : (bigEndianValue bytes * 256 + b.toNat) / 256 = bigEndianValue bytes := by omega
    have hlow : UInt8.ofNat (bigEndianValue bytes * 256 + b.toNat) = b := by
      apply UInt8.toNat_inj.mp
      rw [UInt8.toNat_ofNat']
      omega
    rw [length_append, length_singleton, bigEndian, bigEndianValue_snoc, hhigh, hlow,
      ih]

theorem low_byte (w : UInt32) : (w &&& 0xFF).toUInt8 = UInt8.ofNat w.toNat := by
  apply UInt8.toNat_inj.mp
  have hmask : w.toNat % 256 &&& 255 = w.toNat % 256 := by
    have hmod := Nat.and_two_pow_sub_one_eq_mod (w.toNat % 256) 8
    simpa using hmod
  simp [hmask]

/-- The four bytes of a word, shifted out one after the other. -/
theorem bytes_uint32 (v : UInt32) :
    [((v >>> 24) &&& 0xFF).toUInt8, ((v >>> 16) &&& 0xFF).toUInt8, ((v >>> 8) &&& 0xFF).toUInt8,
      (v &&& 0xFF).toUInt8] = bigEndian 4 v.toNat := by
  have hshift : ∀ k : Nat, k < 32 → (v >>> UInt32.ofNat k).toNat = v.toNat / 2 ^ k := by
    intro k hk
    rw [UInt32.toNat_shiftRight, UInt32.toNat_ofNat', Nat.mod_eq_of_lt (by omega),
      Nat.mod_eq_of_lt (by omega), Nat.shiftRight_eq_div_pow]
  have h24 := hshift 24 (by omega)
  have h16 := hshift 16 (by omega)
  have h8 := hshift 8 (by omega)
  rw [low_byte, low_byte, low_byte, low_byte]
  simp only [bigEndian, Nat.div_div_eq_div_mul, nil_append, cons_append]
  congr 1
  · exact congrArg UInt8.ofNat h24
  · congr 1
    · exact congrArg UInt8.ofNat h16
    · congr 1
      exact congrArg UInt8.ofNat h8

theorem bytes_uint16 (v : UInt16) :
    [((v >>> 8) &&& 0xFF).toUInt8, (v &&& 0xFF).toUInt8] = bigEndian 2 v.toNat := by
  have hlow : ∀ w : UInt16, (w &&& 0xFF).toUInt8 = UInt8.ofNat w.toNat := by
    intro w
    apply UInt8.toNat_inj.mp
    have hmask : w.toNat % 256 &&& 255 = w.toNat % 256 := by
      have hmod := Nat.and_two_pow_sub_one_eq_mod (w.toNat % 256) 8
      simpa using hmod
    simp [hmask]
  have h8 : (v >>> 8).toNat = v.toNat / 2 ^ 8 := by
    rw [UInt16.toNat_shiftRight]
    exact Nat.shiftRight_eq_div_pow v.toNat 8
  rw [hlow, hlow]
  simp only [bigEndian, nil_append, cons_append]
  congr 1
  exact congrArg UInt8.ofNat h8

/-- Slices of one width, end to end, are the start of the list they are cut from. -/
theorem flatMap_slices {α : Type*} (data : List α) (width n : Nat) :
    ((List.range n).flatMap fun i => (data.drop (i * width)).take width) =
      data.take (n * width) := by
  induction n with
  | zero => simp
  | succ n ih =>
    rw [range_succ, flatMap_append, ih, flatMap_singleton, Nat.succ_mul,
      take_add]

/-- Each field preceded by its length in `width` bytes. -/
def lengthPrefixed (width : Nat) (fields : List (List UInt8)) : List UInt8 :=
  fields.flatMap fun f => bigEndian width f.length ++ f

/-- The length in front of the first field fixes it, and with it the rest. -/
theorem lengthPrefixed_cons_inj {width : Nat} {f f' : List UInt8} {rest rest' : List (List UInt8)}
    (hshort : f.length < 256 ^ width) (hshort' : f'.length < 256 ^ width)
    (h : lengthPrefixed width (f :: rest) = lengthPrefixed width (f' :: rest')) :
    f = f' ∧ lengthPrefixed width rest = lengthPrefixed width rest' := by
  simp only [lengthPrefixed, flatMap_cons, append_assoc] at h
  obtain ⟨hstart, htail⟩ := append_inj h (by simp)
  exact append_inj htail (bigEndian_inj hshort hshort' hstart)

theorem lengthPrefixed_injective {width : Nat} (hwidth : 0 < width)
    {fields fields' : List (List UInt8)} (hshort : ∀ f ∈ fields, f.length < 256 ^ width)
    (hshort' : ∀ f ∈ fields', f.length < 256 ^ width)
    (h : lengthPrefixed width fields = lengthPrefixed width fields') : fields = fields' := by
  have hnonempty : ∀ (f : List UInt8) (rest : List (List UInt8)),
      lengthPrefixed width (f :: rest) ≠ [] := by
    intro f rest hnil
    have hlength := congrArg List.length hnil
    simp [lengthPrefixed] at hlength
    omega
  induction fields generalizing fields' with
  | nil =>
    cases fields' with
    | nil => rfl
    | cons f' rest' => exact absurd h.symm (hnonempty f' rest')
  | cons f rest ih =>
    cases fields' with
    | nil => exact absurd h (hnonempty f rest)
    | cons f' rest' =>
      obtain ⟨hfield, hrest⟩ :=
        lengthPrefixed_cons_inj (hshort f (by simp)) (hshort' f' (by simp)) h
      rw [hfield, ih (fun g hg => hshort g (by simp [hg]))
        (fun g hg => hshort' g (by simp [hg])) hrest]

/-- The fields behind lengths of `width` bytes, if the bytes end with a field. -/
def readLengthPrefixed (width : Nat) : Nat → List UInt8 → Option (List (List UInt8))
  | _, [] => some []
  | 0, _ => none
  | fuel + 1, b :: rest =>
      if (b :: rest).length < width + bigEndianValue ((b :: rest).take width) then none
      else
        (readLengthPrefixed width fuel
          ((b :: rest).drop (width + bigEndianValue ((b :: rest).take width)))).map fun fields =>
            ((b :: rest).drop width).take (bigEndianValue ((b :: rest).take width)) :: fields

theorem readLengthPrefixed_lengthPrefixed {width : Nat} (hwidth : 0 < width)
    (fields : List (List UInt8)) (hshort : ∀ f ∈ fields, f.length < 256 ^ width) (fuel : Nat)
    (hfuel : fields.length ≤ fuel) :
    readLengthPrefixed width fuel (lengthPrefixed width fields) = some fields := by
  induction fields generalizing fuel with
  | nil =>
    cases fuel with
    | zero => rfl
    | succ fuel => rfl
  | cons f rest ih =>
    obtain ⟨fuel, rfl⟩ : ∃ n, fuel = n + 1 :=
      ⟨fuel - 1, by simp only [length_cons] at hfuel; omega⟩
    have hprefix : (bigEndian width f.length).length = width := bigEndian_length _ _
    have hbytes : lengthPrefixed width (f :: rest) =
        bigEndian width f.length ++ (f ++ lengthPrefixed width rest) := by
      simp [lengthPrefixed]
    have htake : (lengthPrefixed width (f :: rest)).take width = bigEndian width f.length := by
      rw [hbytes, take_left' hprefix]
    have hvalue : bigEndianValue (bigEndian width f.length) = f.length :=
      bigEndianValue_of_lt (hshort f mem_cons_self)
    have hdrop : (lengthPrefixed width (f :: rest)).drop width =
        f ++ lengthPrefixed width rest := by
      rw [hbytes, drop_left' hprefix]
    have hlen : (lengthPrefixed width (f :: rest)).length =
        width + f.length + (lengthPrefixed width rest).length := by
      rw [hbytes, length_append, length_append, hprefix, Nat.add_assoc]
    obtain ⟨b, more, hcons⟩ : ∃ b more, lengthPrefixed width (f :: rest) = b :: more :=
      exists_cons_of_ne_nil (ne_nil_of_length_pos (by omega))
    rw [hcons] at htake hdrop hlen ⊢
    unfold readLengthPrefixed
    rw [htake, hvalue, if_neg (by omega), ← drop_drop, hdrop, drop_left,
      take_left, ih (fun g hg => hshort g (mem_cons_of_mem f hg)) fuel
        (by simp only [length_cons] at hfuel; omega)]
    rfl

/-- The array with some bytes put in place from an offset on. -/
def overwrite (out : List UInt8) (offset : Nat) (bytes : List UInt8) : List UInt8 :=
  out.take offset ++ bytes ++ out.drop (offset + bytes.length)

/-- Writing where the written part ends makes it longer. -/
theorem overwrite_next (done bytes rest : List UInt8) :
    overwrite (done ++ rest) done.length bytes = done ++ bytes ++ rest.drop bytes.length := by
  unfold overwrite
  rw [take_left, ← drop_drop, drop_left]

end MoonlightWeb.Lib.Bytes
