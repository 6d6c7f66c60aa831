import Mathlib

/-! # Bits of bytes and numbers

Bits stand with the most significant first, in a byte as in a number of a given width.
-/

namespace MoonlightWeb.Lib.Bits

open List

variable (b : UInt8)

def ofByte : List Bool := (List.range 8).map fun i => b.toNat.testBit (7 - i)

variable (bytes : List UInt8)

def ofBytes : List Bool := bytes.flatMap ofByte

@[simp] theorem length_ofByte : (ofByte b).length = 8 := by
  simp [ofByte]

@[simp] theorem ofBytes_nil : ofBytes [] = [] := rfl

@[simp] theorem ofBytes_cons (rest : List UInt8) :
    ofBytes (b :: rest) = ofByte b ++ ofBytes rest := rfl

@[simp] theorem ofBytes_append (left right : List UInt8) :
    ofBytes (left ++ right) = ofBytes left ++ ofBytes right := by
  simp [ofBytes]

@[simp] theorem length_ofBytes : (ofBytes bytes).length = 8 * bytes.length := by
  induction bytes with
  | nil => rfl
  | cons b rest ih =>
      rw [ofBytes_cons, length_append, ih, length_ofByte, length_cons]
      omega

theorem ofByte_getElem? {i : Nat} (h : i < 8) :
    (ofByte b)[i]? = some (b.toNat.testBit (7 - i)) := by
  simp [ofByte, h]

theorem ofBytes_getElem? (i : Nat) :
    (ofBytes bytes)[i]? = bytes[i / 8]?.map fun b => b.toNat.testBit (7 - i % 8) := by
  induction bytes generalizing i with
  | nil => simp
  | cons b rest ih =>
    rw [ofBytes_cons]
    by_cases h : i < 8
    · have hdiv : i / 8 = 0 := by omega
      have hmod : i % 8 = i := by omega
      rw [List.getElem?_append_left (by simpa using h), ofByte_getElem? b h, hdiv, hmod]
      rfl
    · have hdiv : i / 8 = (i - 8) / 8 + 1 := by omega
      have hmod : i % 8 = (i - 8) % 8 := by omega
      rw [List.getElem?_append_right (by simpa using h), length_ofByte, ih, hdiv, hmod,
        List.getElem?_cons_succ]

/-- The `n` low bits of a number. -/
def toBits : Nat → Nat → List Bool
  | 0, _ => []
  | n + 1, v => v.testBit n :: toBits n v

variable (bits : List Bool)

def ofBits : Nat := bits.foldl (fun v b => 2 * v + b.toNat) 0

@[simp] theorem length_toBits (n v : Nat) : (toBits n v).length = n := by
  induction n with
  | zero => rfl
  | succ n ih => rw [toBits, length_cons, ih]

theorem foldl_ofBits (v : Nat) (bits : List Bool) :
    bits.foldl (fun v b => 2 * v + b.toNat) v = v * 2 ^ bits.length + ofBits bits := by
  induction bits using List.reverseRecOn with
  | nil => simp [ofBits]
  | append_singleton bits b ih =>
    unfold ofBits at ih ⊢
    rw [foldl_append, foldl_append, ih, length_append, length_singleton]
    simp only [foldl_cons, foldl_nil]
    ring

theorem ofBits_cons (b : Bool) (bits : List Bool) :
    ofBits (b :: bits) = b.toNat * 2 ^ bits.length + ofBits bits := by
  change bits.foldl _ (2 * 0 + b.toNat) = _
  rw [foldl_ofBits, Nat.mul_zero, Nat.zero_add]

theorem ofBits_lt : ofBits bits < 2 ^ bits.length := by
  induction bits with
  | nil => exact Nat.one_pos
  | cons b bits ih =>
    have hb : b.toNat ≤ 1 := Bool.toNat_le b
    rw [ofBits_cons, length_cons, pow_succ]
    nlinarith

theorem ofBits_toBits (n v : Nat) : ofBits (toBits n v) = v % 2 ^ n := by
  induction n with
  | zero => rw [pow_zero, Nat.mod_one]; rfl
  | succ n ih =>
    have htop : (v.testBit n).toNat = v / 2 ^ n % 2 := by
      rw [Nat.testBit_eq_decide_div_mod_eq]
      rcases Nat.mod_two_eq_zero_or_one (v / 2 ^ n) with h | h <;> rw [h] <;> rfl
    rw [toBits, ofBits_cons, ih, length_toBits, Nat.mod_pow_succ, htop, Nat.mul_comm]
    omega

theorem toBits_congr {n v w : Nat} (h : v % 2 ^ n = w % 2 ^ n) : toBits n v = toBits n w := by
  induction n with
  | zero => rfl
  | succ n ih =>
    have htop : v.testBit n = w.testBit n := by
      have hbit := congrArg (fun m => m.testBit n) h
      simpa [Nat.testBit_mod_two_pow] using hbit
    have hlow : v % 2 ^ n = w % 2 ^ n := by
      have hmod := congrArg (fun m => m % 2 ^ n) h
      have hdvd : 2 ^ n ∣ 2 ^ (n + 1) := pow_dvd_pow 2 (Nat.le_succ n)
      simpa [Nat.mod_mod_of_dvd _ hdvd] using hmod
    rw [toBits, toBits, htop, ih hlow]

theorem toBits_ofBits : toBits bits.length (ofBits bits) = bits := by
  induction bits with
  | nil => rfl
  | cons b bits ih =>
    have hlt := ofBits_lt bits
    have htop : (ofBits (b :: bits)).testBit bits.length = b := by
      rw [ofBits_cons, Nat.mul_comm, Nat.testBit_two_pow_mul_add _ hlt]
      cases b <;> simp
    have hlow : ofBits (b :: bits) % 2 ^ bits.length = ofBits bits % 2 ^ bits.length := by
      rw [ofBits_cons, Nat.mul_comm, Nat.mul_add_mod]
    rw [length_cons, toBits, htop, toBits_congr hlow, ih]

end MoonlightWeb.Lib.Bits

/-! ## Readers of bits

A reader moves a position over bits and may fail. What it reads is said of the bits that
stand at its position, and put together from the parts of the reader.
-/

namespace MoonlightWeb.Lib.BitReading
open Lib.Bits

/-- A reader at its position. -/
abbrev Reader := StateT Nat Option

section
variable {α β : Type} (bits : List Bool)

/-- Wherever the bits `w` stand, `m` reads them and gives `a`. -/
def Reads (m : Reader α) (w : List Bool) (a : α) : Prop :=
  ∀ pos rest, bits.drop pos = w ++ rest → m.run pos = some (a, pos + w.length)

/-- From within `size` bits `m` does not go past their end. -/
def Stays (size : Nat) (m : Reader α) : Prop :=
  ∀ pos a stop, pos ≤ size → m.run pos = some (a, stop) → stop ≤ size

end

section
variable {α β : Type} {bits w w' : List Bool} {m : Reader α} {k : α → Reader β} {a : α} {b : β}

theorem Reads.pure (bits : List Bool) (a : α) : Reads bits (pure a) [] a :=
  fun _ _ _ => rfl

/-- One reader behind the other. -/
theorem Reads.bind (hm : Reads bits m w a) (hk : Reads bits (k a) w' b) :
    Reads bits (m >>= k) (w ++ w') b := by
  intro pos rest hdrop
  have hfirst : bits.drop pos = w ++ (w' ++ rest) := by rw [hdrop, List.append_assoc]
  have hsecond : bits.drop (pos + w.length) = w' ++ rest := by
    rw [← List.drop_drop, hfirst, List.drop_left]
  rw [StateT.run_bind, hm pos (w' ++ rest) hfirst]
  show (k a).run (pos + w.length) = _
  rw [hk (pos + w.length) rest hsecond, List.length_append, Nat.add_assoc]

theorem Reads.done (hm : Reads bits m w a) (hk : Reads bits (k a) [] b) :
    Reads bits (m >>= k) w b := by
  have h := hm.bind hk
  rwa [List.append_nil] at h

/-- The last reader, and what is made of its value. -/
theorem Reads.last {g : α → β} (hm : Reads bits m w a) :
    Reads bits (m >>= fun x => Pure.pure (g x)) w (g a) :=
  hm.done (Reads.pure bits (g a))

theorem Stays.pure (size : Nat) (a : α) : Stays size (pure a : Reader α) := by
  intro pos a' stop hpos hrun
  cases hrun
  exact hpos

theorem Stays.bind {size : Nat} (hm : Stays size m) (hk : ∀ a, Stays size (k a)) :
    Stays size (m >>= k) := by
  intro pos b stop hpos hrun
  rw [StateT.run_bind] at hrun
  obtain ⟨⟨a, middle⟩, hfirst, hsecond⟩ := Option.bind_eq_some_iff.mp hrun
  exact hk a middle b stop (hm pos a middle hpos hfirst) hsecond

theorem Stays.ite {size : Nat} {c : Prop} [Decidable c] {m' : Reader α} (hm : Stays size m)
    (hm' : Stays size m') : Stays size (if c then m else m') := by
  split_ifs
  · exact hm
  · exact hm'

end

end MoonlightWeb.Lib.BitReading
