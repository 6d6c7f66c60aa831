import Mathlib

/-! # Emulation prevention

A byte 3 is put before a byte of at most 3 that two zeros precede, so that start codes do not
occur inside a unit. Both directions carry the length of the run of zeros that was passed.
-/

namespace MoonlightWeb.Lib.EmulationPrevention

open List

variable (zeros : Nat)

/-- The run of zeros once a byte was passed. -/
def zerosAfter (b : UInt8) : Nat := if b = 0 then zeros + 1 else 0

def escapeFrom : Nat → List UInt8 → List UInt8
  | _, [] => []
  | zeros, b :: rest =>
      if 2 ≤ zeros ∧ b ≤ 3 then 3 :: b :: escapeFrom (zerosAfter 0 b) rest
      else b :: escapeFrom (zerosAfter zeros b) rest

def unescapeFrom : Nat → List UInt8 → List UInt8
  | _, [] => []
  | zeros, b :: rest =>
      if 2 ≤ zeros ∧ b = 3 then unescapeFrom 0 rest
      else b :: unescapeFrom (zerosAfter zeros b) rest

variable (bytes : List UInt8)

def escape : List UInt8 := escapeFrom 0 bytes

def unescape : List UInt8 := unescapeFrom 0 bytes

/-- No start code, and no three bytes that stand for one. -/
def Clean : Prop := ∀ b : UInt8, b ≤ 2 → ¬[0, 0, b] <:+: bytes

variable {bytes : List UInt8} {b : UInt8}

theorem Clean.tail (h : Clean (b :: bytes)) : Clean bytes :=
  fun c hc hin => h c hc (hin.trans (infix_cons (infix_refl bytes)))

theorem clean_of_length_lt (h : bytes.length < 3) : Clean bytes := by
  intro b _ hin
  have hle := hin.length_le
  simp only [length_cons, length_nil] at hle
  omega

theorem unescapeFrom_escapeFrom (bytes : List UInt8) :
    unescapeFrom zeros (escapeFrom zeros bytes) = bytes := by
  induction bytes generalizing zeros with
  | nil => rfl
  | cons b rest ih =>
    unfold escapeFrom
    by_cases h : 2 ≤ zeros ∧ b ≤ 3
    · have hkept : ¬(2 ≤ 0 ∧ b = 3) := fun h => by omega
      rw [if_pos h, unescapeFrom, if_pos ⟨h.1, rfl⟩, unescapeFrom, if_neg hkept, ih]
    · have hkept : ¬(2 ≤ zeros ∧ b = 3) := by
        intro hthree
        exact h ⟨hthree.1, by rw [hthree.2]; decide⟩
      rw [if_neg h, unescapeFrom, if_neg hkept, ih]

theorem unescape_escape (bytes : List UInt8) : unescape (escape bytes) = bytes :=
  unescapeFrom_escapeFrom 0 bytes

theorem length_unescapeFrom_le (bytes : List UInt8) :
    (unescapeFrom zeros bytes).length ≤ bytes.length := by
  induction bytes generalizing zeros with
  | nil => exact Nat.le_refl 0
  | cons b rest ih =>
    unfold unescapeFrom
    split_ifs
    · exact Nat.le_succ_of_le (ih 0)
    · exact Nat.succ_le_succ (ih _)

/-- A scan that never meets a byte of at most 2 behind two zeros. -/
def CleanFrom : Nat → List UInt8 → Prop
  | _, [] => True
  | zeros, b :: rest => ¬(2 ≤ zeros ∧ b ≤ 2) ∧ CleanFrom (zerosAfter zeros b) rest

theorem CleanFrom.drop {zeros : Nat} {before bytes : List UInt8}
    (h : CleanFrom zeros (before ++ bytes)) : ∃ zeros', CleanFrom zeros' bytes := by
  induction before generalizing zeros with
  | nil => exact ⟨zeros, h⟩
  | cons b rest ih => exact ih h.2

theorem CleanFrom.clean {zeros : Nat} (h : CleanFrom zeros bytes) :
    Clean bytes := by
  intro b hb hin
  obtain ⟨before, after, rfl⟩ := hin
  rw [append_assoc] at h
  obtain ⟨zeros', hzeros⟩ := h.drop
  have htwo : 2 ≤ zerosAfter (zerosAfter zeros' 0) 0 := by simp [zerosAfter]
  exact hzeros.2.2.1 ⟨htwo, hb⟩

theorem cleanFrom_escapeFrom (bytes : List UInt8) :
    CleanFrom zeros (escapeFrom zeros bytes) := by
  induction bytes generalizing zeros with
  | nil => exact trivial
  | cons b rest ih =>
    unfold escapeFrom
    by_cases h : 2 ≤ zeros ∧ b ≤ 3
    · rw [if_pos h]
      exact ⟨fun hlow => absurd hlow.2 (by decide), fun hlow => by
        have hzero : zerosAfter zeros 3 = 0 := by simp [zerosAfter]
        omega, ih _⟩
    · rw [if_neg h]
      exact ⟨fun hlow => h ⟨hlow.1, UInt8.le_trans hlow.2 (by decide)⟩, ih _⟩

theorem clean_escape (bytes : List UInt8) : Clean (escape bytes) :=
  (cleanFrom_escapeFrom 0 bytes).clean

/-- A byte that is not 0 in front starts no run. -/
theorem clean_cons_escape (hb : b ≠ 0) (bytes : List UInt8) :
    Clean (b :: escape bytes) := by
  have hfrom : CleanFrom 0 (b :: escape bytes) := by
    refine ⟨fun h => by omega, ?_⟩
    rw [zerosAfter, if_neg hb]
    exact cleanFrom_escapeFrom 0 bytes
  exact hfrom.clean

/-- The other way to remove: wherever two zeros and a 3 stand, the 3 is left out. -/
def dropAhead : List UInt8 → List UInt8
  | 0 :: 0 :: 3 :: rest => 0 :: 0 :: dropAhead rest
  | b :: rest => b :: dropAhead rest
  | [] => []

theorem dropAhead_cons {rest : List UInt8}
    (h : ∀ more, b :: rest ≠ 0 :: 0 :: 3 :: more) : dropAhead (b :: rest) = b :: dropAhead rest := by
  rw [dropAhead.eq_2]
  intro more hb hrest
  exact h more (by rw [hb, hrest])

theorem dropAhead_three (rest : List UInt8) :
    dropAhead (List.replicate (zeros + 2) 0 ++ 3 :: rest) =
      List.replicate (zeros + 2) 0 ++ dropAhead rest := by
  induction zeros with
  | zero => rfl
  | succ zeros ih =>
    change 0 :: dropAhead (List.replicate (zeros + 2) 0 ++ 3 :: rest) = _
    rw [ih]
    rfl

theorem dropAhead_other (hb : b ≠ 0) (h : ¬(2 ≤ zeros ∧ b = 3)) (rest : List UInt8) :
    dropAhead (List.replicate zeros 0 ++ b :: rest) =
      List.replicate zeros 0 ++ b :: dropAhead rest := by
  induction zeros with
  | zero =>
    apply dropAhead_cons
    intro more heq
    exact hb (List.cons.inj heq).1
  | succ zeros ih =>
    rw [replicate_succ, cons_append, cons_append,
      ← ih fun hthree => h ⟨by omega, hthree.2⟩]
    apply dropAhead_cons
    intro more heq
    -- two zeros and a 3 in front would be the run and the byte behind it
    match zeros, h, heq with
    | 0, _, heq => exact hb (List.cons.inj (List.cons.inj heq).2).1
    | 1, h, heq =>
      exact h ⟨by omega, (List.cons.inj (List.cons.inj (List.cons.inj heq).2).2).1⟩
    | zeros + 2, _, heq =>
      exact absurd (List.cons.inj (List.cons.inj (List.cons.inj heq).2).2).1 (by decide)

theorem dropAhead_zeros :
    dropAhead (List.replicate zeros 0) = List.replicate zeros 0 := by
  induction zeros with
  | zero => rfl
  | succ zeros ih =>
    rw [replicate_succ]
    rw [dropAhead_cons, ih]
    intro more heq
    have hthree : (3 : UInt8) ∈ 0 :: List.replicate zeros 0 := by
      rw [heq]
      simp
    rcases mem_cons.mp hthree with h | h
    · exact absurd h (by decide)
    · exact absurd (eq_of_mem_replicate h) (by decide)

/-- Looking ahead and counting zeros remove the same bytes. -/
theorem dropAhead_replicate (bytes : List UInt8) :
    dropAhead (List.replicate zeros 0 ++ bytes) =
      List.replicate zeros 0 ++ unescapeFrom zeros bytes := by
  induction bytes generalizing zeros with
  | nil => simpa [unescapeFrom] using dropAhead_zeros zeros
  | cons b rest ih =>
    unfold unescapeFrom
    by_cases hthree : 2 ≤ zeros ∧ b = 3
    · obtain ⟨hzeros, rfl⟩ := hthree
      obtain ⟨more, rfl⟩ : ∃ n, zeros = n + 2 := ⟨zeros - 2, by omega⟩
      rw [if_pos ⟨hzeros, rfl⟩, dropAhead_three]
      congr 1
      exact ih 0
    · rw [if_neg hthree]
      by_cases hzero : b = 0
      · subst hzero
        have hshift : List.replicate zeros (0 : UInt8) ++ 0 :: rest =
            List.replicate (zeros + 1) 0 ++ rest := by
          rw [replicate_succ', append_assoc]
          rfl
        have hback : List.replicate zeros (0 : UInt8) ++ 0 :: unescapeFrom (zeros + 1) rest =
            List.replicate (zeros + 1) 0 ++ unescapeFrom (zeros + 1) rest := by
          rw [replicate_succ', append_assoc]
          rfl
        rw [hshift, ih (zeros + 1), zerosAfter, if_pos rfl, hback]
      · rw [dropAhead_other zeros hzero hthree, zerosAfter, if_neg hzero]
        congr 2
        exact ih 0

theorem dropAhead_eq_unescape (bytes : List UInt8) : dropAhead bytes = unescape bytes :=
  dropAhead_replicate 0 bytes

end MoonlightWeb.Lib.EmulationPrevention
