import Mathlib

/-! # Little-endian base 128

A number is written as bytes of seven bits, the lowest first, where every byte but the last
has its top bit set. `decode` gives the exact number, whatever its size, and the number of
bytes it took.
-/

namespace MoonlightWeb.Lib.Leb128

def continues (b : UInt8) : Bool := 128 ≤ b.toNat

/-- The number read from the byte of place `index` on, of at most `limit` bytes. -/
def decodeFrom (limit : Nat) : Nat → Nat → List UInt8 → Option (Nat × Nat)
  | _, _, [] => none
  | index, acc, b :: rest =>
      if limit ≤ index then none
      else if continues b then
        decodeFrom limit (index + 1) (acc + b.toNat % 128 * 128 ^ index) rest
      else some (acc + b.toNat % 128 * 128 ^ index, index + 1)

def decode (limit : Nat) (bytes : List UInt8) : Option (Nat × Nat) := decodeFrom limit 0 0 bytes

/-- The bytes of the digits, lowest first. -/
def encode : List (Fin 128) → List UInt8
  | [] => []
  | [d] => [UInt8.ofNat d]
  | d :: rest => UInt8.ofNat (d + 128) :: encode rest

def value (digits : List (Fin 128)) : Nat := Nat.ofDigits 128 (digits.map Fin.val)

@[simp] theorem encode_length (digits : List (Fin 128)) :
    (encode digits).length = digits.length := by
  induction digits with
  | nil => rfl
  | cons d rest ih =>
      cases rest with
      | nil => rfl
      | cons d' rest' => simpa [encode] using ih

variable (d : Fin 128)

theorem value_cons (rest : List (Fin 128)) :
    value (d :: rest) = d + 128 * value rest := by
  simp [value, Nat.ofDigits_cons]

theorem continues_more : continues (UInt8.ofNat (d + 128)) = true := by
  have h : (UInt8.ofNat (d + 128)).toNat = d + 128 := by
    simp only [UInt8.toNat_ofNat']
    omega
  unfold continues
  rw [h]
  exact decide_eq_true (by omega)

theorem continues_last : continues (UInt8.ofNat d) = false := by
  have h : (UInt8.ofNat (d : Nat)).toNat = d := by
    simp only [UInt8.toNat_ofNat']
    omega
  unfold continues
  rw [h]
  exact decide_eq_false (by omega)

theorem digit_more : (UInt8.ofNat (d + 128)).toNat % 128 = d := by
  simp only [UInt8.toNat_ofNat']
  omega

theorem digit_last : (UInt8.ofNat (d : Nat)).toNat % 128 = d := by
  simp only [UInt8.toNat_ofNat']
  omega

theorem decodeFrom_encode {limit : Nat} (digits : List (Fin 128)) (hne : digits ≠ [])
    (rest : List UInt8) (index acc : Nat) (hlen : index + digits.length ≤ limit) :
    decodeFrom limit index acc (encode digits ++ rest) =
      some (acc + value digits * 128 ^ index, index + digits.length) := by
  induction digits generalizing index acc with
  | nil => exact absurd rfl hne
  | cons d more ih =>
    have hroom : ¬limit ≤ index := by
      simp only [List.length_cons] at hlen
      omega
    cases more with
    | nil =>
      simp only [encode, List.cons_append, List.nil_append, decodeFrom, hroom, if_false,
        continues_last, Bool.false_eq_true, digit_last]
      simp [value]
    | cons d' more' =>
      have hrest := ih (by simp) (index + 1) (acc + d * 128 ^ index)
        (by simp only [List.length_cons] at hlen ⊢; omega)
      simp only [encode, List.cons_append, decodeFrom, hroom, if_false, continues_more,
        if_true, digit_more]
      rw [hrest, value_cons d]
      simp only [List.length_cons, Option.some.injEq, Prod.mk.injEq]
      constructor
      · rw [pow_succ]
        ring
      · omega

/-- What digits write is what is read. -/
theorem decode_encode {limit : Nat} (digits : List (Fin 128)) (hne : digits ≠ [])
    (hlen : digits.length ≤ limit) (rest : List UInt8) :
    decode limit (encode digits ++ rest) = some (value digits, digits.length) := by
  have h : decodeFrom limit 0 0 (encode digits ++ rest) = _ :=
    decodeFrom_encode digits hne rest 0 0 (by omega)
  simpa [decode] using h

end MoonlightWeb.Lib.Leb128
