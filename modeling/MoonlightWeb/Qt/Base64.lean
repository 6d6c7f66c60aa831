import MoonlightWeb.Qt.QString
import Mathlib

/-! # Base64 there and back

A group of three bytes is four characters, and `fromBase64` is between groups
with nothing left in its buffer. A text of the alphabet is ASCII, so it is the
same as a `QString`.
-/

namespace MoonlightWeb.Qt.QByteArray

open Qt

theorem base64Value_base64Unit {v : Nat} (h : v < 64) : base64Value (base64Unit v) = some v := by
  have hall : ∀ v : Fin 64, base64Value (base64Unit v) = some v.val := by decide
  exact hall ⟨v, h⟩

theorem base64Unit_lt {v : Nat} (h : v < 64) : base64Unit v < 128 := by
  have hall : ∀ v : Fin 64, base64Unit v < 128 := by decide
  exact hall ⟨v, h⟩

/-- The first two characters of a group: six bits wait, then one byte is out. -/
theorem fromBase64From_two {v w : Nat} (hv : v < 64) (hw : w < 64) (rest : QByteArray) :
    fromBase64From 0 0 (base64Unit v :: base64Unit w :: rest) =
      UInt8.ofNat ((v * 64 + w) / 16) :: fromBase64From ((v * 64 + w) % 16) 4 rest := by
  simp [fromBase64From, base64Value_base64Unit hv, base64Value_base64Unit hw]

theorem fromBase64From_third {buffer v : Nat} (hv : v < 64) (rest : QByteArray) :
    fromBase64From buffer 4 (base64Unit v :: rest) =
      UInt8.ofNat ((buffer * 64 + v) / 4) :: fromBase64From ((buffer * 64 + v) % 4) 2 rest := by
  simp [fromBase64From, base64Value_base64Unit hv]

theorem fromBase64From_fourth {buffer v : Nat} (hv : v < 64) (rest : QByteArray) :
    fromBase64From buffer 2 (base64Unit v :: rest) =
      UInt8.ofNat (buffer * 64 + v) :: fromBase64From 0 0 rest := by
  simp [fromBase64From, base64Value_base64Unit hv, Nat.mod_one]

theorem ofNat_of_eq {n : Nat} {a : UInt8} (h : n = a.toNat) : UInt8.ofNat n = a := by
  rw [h, UInt8.ofNat_toNat]

theorem base64Value_padding : base64Value 0x3D = none := rfl

theorem fromBase64_toBase64 (b : QByteArray) : fromBase64 (toBase64 b) = b := by
  unfold fromBase64
  induction b using toBase64.induct with
  | case1 => rfl
  | case2 a =>
    have ha := a.toNat_lt
    rw [toBase64, fromBase64From_two (by omega) (by omega)]
    simp only [fromBase64From, base64Value_padding]
    rw [ofNat_of_eq (a := a) (by omega)]
  | case3 a b =>
    have ha := a.toNat_lt
    have hb := b.toNat_lt
    rw [toBase64, fromBase64From_two (by omega) (by omega), fromBase64From_third (by omega)]
    simp only [fromBase64From, base64Value_padding]
    rw [ofNat_of_eq (a := a) (by omega), ofNat_of_eq (a := b) (by omega)]
  | case4 a b c rest ih =>
    have ha := a.toNat_lt
    have hb := b.toNat_lt
    have hc := c.toNat_lt
    rw [toBase64, fromBase64From_two (by omega) (by omega), fromBase64From_third (by omega),
      fromBase64From_fourth (by omega), ih]
    rw [ofNat_of_eq (a := a) (by omega), ofNat_of_eq (a := b) (by omega),
      ofNat_of_eq (a := c) (by omega)]

theorem toBase64_lt (b : QByteArray) : ∀ u ∈ toBase64 b, u < 128 := by
  induction b using toBase64.induct with
  | case1 => simp [toBase64]
  | case2 a =>
    have ha := a.toNat_lt
    intro u hu
    simp only [toBase64, List.mem_cons, List.not_mem_nil, or_false] at hu
    rcases hu with rfl | rfl | rfl | rfl
    · exact base64Unit_lt (by omega)
    · exact base64Unit_lt (by omega)
    · decide
    · decide
  | case3 a b =>
    have ha := a.toNat_lt
    have hb := b.toNat_lt
    intro u hu
    simp only [toBase64, List.mem_cons, List.not_mem_nil, or_false] at hu
    rcases hu with rfl | rfl | rfl | rfl
    · exact base64Unit_lt (by omega)
    · exact base64Unit_lt (by omega)
    · exact base64Unit_lt (by omega)
    · decide
  | case4 a b c rest ih =>
    have ha := a.toNat_lt
    have hb := b.toNat_lt
    have hc := c.toNat_lt
    intro u hu
    simp only [toBase64, List.mem_cons] at hu
    rcases hu with rfl | rfl | rfl | rfl | hu
    · exact base64Unit_lt (by omega)
    · exact base64Unit_lt (by omega)
    · exact base64Unit_lt (by omega)
    · exact base64Unit_lt (by omega)
    · exact ih u hu

/-- An ASCII byte array read as Latin-1 is the same bytes in UTF-8. -/
theorem toUtf8_toQString {b : QByteArray} (h : ∀ u ∈ b, u < 128) : b.toQString.toUtf8 = b := by
  have hascii : ∀ u ∈ b.toQString, u < 128 := by
    intro u hu
    obtain ⟨v, hv, rfl⟩ := List.mem_map.mp hu
    have hlt := h v hv
    rw [UInt8.lt_iff_toNat_lt] at hlt
    rw [UInt16.lt_iff_toNat_lt]
    simp at hlt ⊢
    omega
  rw [QString.toUtf8_ascii hascii, toQString, List.map_map]
  conv_rhs => rw [← List.map_id b]
  apply List.map_congr_left
  intro v hv
  have hlt := v.toNat_lt
  simp only [Function.comp_apply, id_eq]
  apply ofNat_of_eq
  simp

/-- What a document holds of a key reads back as the key. -/
theorem fromBase64_toQString_toBase64 (b : QByteArray) :
    fromBase64 (toBase64 b).toQString.toUtf8 = b := by
  rw [toUtf8_toQString (toBase64_lt b), fromBase64_toBase64]

end MoonlightWeb.Qt.QByteArray
