import MoonlightWeb.Lib.BitGrammar
import MoonlightWeb.NativeHost.H264Vui

/-! # What a bit writer holds

The writer's bytes are the bits it was given, filled up with zeros.
-/

namespace MoonlightWeb.NativeHost.H264Vui

open Lib Bits Grammar List

namespace BitWriter

def put (bits : List Bool) (w : BitWriter) : BitWriter := bits.foldl bit w

theorem put_append (left right : List Bool) (w : BitWriter) :
    put (left ++ right) w = put right (put left w) := foldl_append

theorem u_eq_put (n v : Nat) (w : BitWriter) : u n v w = put (toBits n v) w := by
  induction n generalizing w with
  | zero => rfl
  | succ n ih => exact ih (w.bit (v.testBit n))

theorem toBits_zero (n : Nat) : toBits n 0 = List.replicate n false := by
  induction n with
  | zero => rfl
  | succ n ih => rw [toBits, Nat.zero_testBit, ih, replicate_succ]

/-- A code of a value below the greatest `uint32_t`. -/
theorem ue_eq_put {v : Nat} (hv : v < 2 ^ 32 - 1) (w : BitWriter) :
    w.ue v = put (Grammar.ue.write v) w := by
  have hmod : (v + 1) % 2 ^ 32 = v + 1 := Nat.mod_eq_of_lt (by omega)
  have hwrite : Grammar.ue.write v =
      List.replicate (v + 1).log2 false ++ toBits ((v + 1).log2 + 1) (v + 1) := rfl
  unfold ue
  rw [hwrite, put_append, u_eq_put, u_eq_put, toBits_zero, hmod]

/-- The bytes are the bits and as many zeros as the last byte has left. -/
def Holds (w : BitWriter) (bits : List Bool) : Prop :=
  ∃ left < 8, Bits.ofBytes w.bytes = bits ++ List.replicate left false ∧ w.used + left = 8

theorem holds_new : Holds new [] := ⟨0, by omega, rfl, rfl⟩

theorem ofByte_or (b : UInt8) {i : Nat} (hi : i < 8) :
    ofByte (b ||| 0x80 >>> UInt8.ofNat i) = (ofByte b).set i true := by
  have htestBit : ∀ j < 8, (b ||| 0x80 >>> UInt8.ofNat i).toNat.testBit (7 - j) =
      (b.toNat.testBit (7 - j) || decide (j = i)) := by
    intro j hj
    rw [UInt8.toNat_or, Nat.testBit_or]
    congr 1
    interval_cases i <;> interval_cases j <;> decide
  apply ext_getElem?
  intro j
  by_cases hj : j < 8
  · rw [ofByte_getElem? _ hj, htestBit j hj, List.getElem?_set]
    by_cases hij : i = j
    · subst hij
      simp [hi]
    · rw [if_neg hij, ofByte_getElem? _ hj, decide_eq_false fun h => hij h.symm, Bool.or_false]
  · rw [List.getElem?_eq_none (by simpa using hj), List.getElem?_eq_none (by simpa using hj)]

theorem ofBytes_orBack {bytes : List UInt8} (hne : bytes ≠ []) {i : Nat} (hi : i < 8) :
    Bits.ofBytes (orBack bytes (0x80 >>> UInt8.ofNat i)) =
      (Bits.ofBytes bytes).set (8 * bytes.length - 8 + i) true := by
  obtain ⟨front, last, rfl⟩ : ∃ front last, bytes = front ++ [last] :=
    ⟨_, _, (dropLast_append_getLast hne).symm⟩
  have hat : 8 * (front ++ [last]).length - 8 + i = (Bits.ofBytes front).length + i := by
    simp
    omega
  unfold orBack
  rw [dropLast_concat, getLastD_concat, Bits.ofBytes_append, Bits.ofBytes_append, hat,
    set_append_right _ _ (Nat.le_add_right _ i), Nat.add_sub_cancel_left]
  congr 1
  simp only [Bits.ofBytes_cons, Bits.ofBytes_nil, append_nil]
  exact ofByte_or last hi

variable {bits : List Bool} {w : BitWriter}

/-- The last byte is open. -/
theorem holds_opened (h : Holds w bits) :
    ∃ left < 8, w.opened.used = 7 - left ∧ w.opened.bytes ≠ [] ∧
      Bits.ofBytes w.opened.bytes = bits ++ List.replicate (left + 1) false := by
  obtain ⟨left, hleft, hbytes, hused⟩ := h
  unfold opened
  by_cases hfull : w.used = 8
  · have hzero : left = 0 := by omega
    subst hzero
    rw [if_pos hfull]
    refine ⟨7, by omega, rfl, by simp, ?_⟩
    rw [Bits.ofBytes_append, hbytes, replicate_zero, append_nil]
    congr 1
  · obtain ⟨fewer, rfl⟩ : ∃ fewer, left = fewer + 1 := ⟨left - 1, by omega⟩
    rw [if_neg hfull]
    refine ⟨fewer, by omega, by omega, ?_, hbytes⟩
    intro hnil
    rw [hnil, replicate_succ] at hbytes
    simp at hbytes

theorem Holds.bit (h : Holds w bits) (b : Bool) :
    Holds (w.bit b) (bits ++ [b]) := by
  obtain ⟨left, hleft, hused, hne, hbytes⟩ := holds_opened h
  refine ⟨left, hleft, ?_, ?_⟩
  · have hlength := congrArg List.length hbytes
    simp only [length_ofBytes, length_append, length_replicate] at hlength
    unfold BitWriter.bit
    cases b with
    | false =>
      rw [if_neg (by decide), hbytes, append_assoc]
      rfl
    | true =>
      have hat : 8 * w.opened.bytes.length - 8 + w.opened.used = bits.length := by omega
      rw [if_pos rfl, ofBytes_orBack hne (by omega), hat, hbytes,
        set_append_right _ _ (Nat.le_refl _), Nat.sub_self, append_assoc]
      rfl
  · change w.opened.used + 1 + left = 8
    omega

theorem Holds.put (h : Holds w bits) (more : List Bool) :
    Holds (put more w) (bits ++ more) := by
  induction more generalizing w bits with
  | nil => rwa [append_nil]
  | cons b more ih =>
    have hmore := ih (h.bit b)
    rwa [append_assoc] at hmore

end BitWriter

def pack (bits : List Bool) : Bytes := (BitWriter.new.put bits).bytes

theorem ofBytes_pack (bits : List Bool) :
    ∃ left < 8, Bits.ofBytes (pack bits) = bits ++ List.replicate left false := by
  obtain ⟨left, hleft, hbytes, _⟩ := BitWriter.holds_new.put bits
  exact ⟨left, hleft, hbytes⟩

end MoonlightWeb.NativeHost.H264Vui
