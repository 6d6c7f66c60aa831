import MoonlightWeb.Server.ShareManager

/-! # Comparing in constant time

The comparison runs over the longer text and keeps one byte of differences, which begins
with the difference of the sizes. Two texts whose sizes agree in their low byte and which
differ in zeros at the end are taken for equal.
-/

namespace MoonlightWeb.Server.ConstantTime

open Qt

/-- `const int n` of a size. -/
def toInt (n : Nat) : Int :=
  if n % 2 ^ 32 < 2 ^ 31 then (n % 2 ^ 32 : Nat) else (n % 2 ^ 32 : Nat) - 2 ^ 32

variable (ba bb : QByteArray)

/-- The places the loop visits: those below the longer size, as an `int`. -/
def places : Nat :=
  (toInt (max ba.length bb.length)).toNat

/-- `i < ba.size() ? ba[i] : 0` -/
def byteAt (ba : QByteArray) (i : Nat) : UInt8 :=
  ba.getD i 0

def differences : UInt8 :=
  (List.range (places ba bb)).foldl (fun diff i => diff ||| (byteAt ba i ^^^ byteAt bb i))
    (UInt8.ofNat (ba.length ^^^ bb.length))

def equalBytes : Bool :=
  differences ba bb = 0

/-- `AuthManager::constantTimeEquals`, of the bytes of its texts. -/
def authManagerEquals : Bool :=
  equalBytes ba bb

/-- `ShareManager::constantTimeEquals`, of the bytes of its texts. -/
def shareManagerEquals : Bool :=
  equalBytes ba bb

theorem foldl_or_eq_zero (f : Nat → UInt8) (l : List Nat) (diff : UInt8) :
    l.foldl (fun diff i => diff ||| f i) diff = 0 ↔ diff = 0 ∧ ∀ i ∈ l, f i = 0 := by
  induction l generalizing diff with
  | nil => simp
  | cons i l ih =>
    rw [List.foldl_cons, ih, UInt8.or_eq_zero_iff]
    simp only [List.mem_cons, forall_eq_or_imp]
    exact and_assoc

theorem sizes_eq_zero_iff (m n : Nat) : UInt8.ofNat (m ^^^ n) = 0 ↔ m % 256 = n % 256 := by
  rw [UInt8.ofNat_xor, UInt8.xor_eq_zero_iff]
  constructor
  · intro h
    simpa using congrArg UInt8.toNat h
  · intro h
    apply UInt8.toNat_inj.mp
    simpa using h

theorem equalBytes_iff :
    equalBytes ba bb = true ↔
      ba.length % 256 = bb.length % 256 ∧ ∀ i < places ba bb, byteAt ba i = byteAt bb i := by
  unfold equalBytes differences
  rw [decide_eq_true_eq, foldl_or_eq_zero, sizes_eq_zero_iff]
  simp only [List.mem_range, UInt8.xor_eq_zero_iff]

structure Collide (ba bb : QByteArray) : Prop where
  ne : ba ≠ bb
  sizes : ba.length % 256 = bb.length % 256
  bytes : ∀ i < places ba bb, byteAt ba i = byteAt bb i

/-- The second is the first, followed by a multiple of 256 zeros. -/
def ZeroTail : Prop :=
  ∃ k > 0, bb = ba ++ List.replicate (256 * k) 0

variable {ba bb : QByteArray}

theorem places_eq (h : max ba.length bb.length < 2 ^ 31) :
    places ba bb = max ba.length bb.length := by
  unfold places toInt
  rw [Nat.mod_eq_of_lt (by omega), if_pos h]
  exact Int.toNat_natCast _

theorem byteAt_append_zeros (ba : QByteArray) (n i : Nat) :
    byteAt (ba ++ List.replicate n 0) i = byteAt ba i := by
  unfold byteAt
  simp only [List.getD_eq_getElem?_getD]
  by_cases hi : i < ba.length
  · rw [List.getElem?_append_left hi]
  · rw [List.getElem?_append_right (by omega), List.getElem?_eq_none (by omega : ba.length ≤ i),
      List.getElem?_replicate]
    split <;> rfl

/-- A longer text with the same bytes, zeros beyond the end, is the shorter and zeros. -/
theorem eq_append_zeros (hle : ba.length ≤ bb.length)
    (h : ∀ i < bb.length, byteAt ba i = byteAt bb i) :
    bb = ba ++ List.replicate (bb.length - ba.length) 0 := by
  apply List.ext_getElem (by simp; omega)
  intro i hi hi'
  have hsame := h i hi
  rw [← byteAt_append_zeros ba (bb.length - ba.length) i] at hsame
  unfold byteAt at hsame
  simp only [List.getD_eq_getElem?_getD, List.getElem?_eq_getElem hi,
    List.getElem?_eq_getElem hi', Option.getD_some] at hsame
  exact hsame.symm

theorem ZeroTail.collide (h : ZeroTail ba bb) : Collide ba bb := by
  obtain ⟨k, hk, rfl⟩ := h
  exact {
    ne := by
      intro heq
      have hlen := congrArg List.length heq
      rw [List.length_append, List.length_replicate] at hlen
      omega
    sizes := by
      rw [List.length_append, List.length_replicate]
      omega
    bytes := fun i _ => (byteAt_append_zeros ba _ i).symm }

theorem Collide.symm (h : Collide ba bb) : Collide bb ba where
  ne := h.ne.symm
  sizes := h.sizes.symm
  bytes i hi := by
    refine (h.bytes i ?_).symm
    unfold places at hi ⊢
    rwa [max_comm]

theorem Collide.zeroTail (h : Collide ba bb) (hle : ba.length ≤ bb.length)
    (hint : bb.length < 2 ^ 31) : ZeroTail ba bb := by
  have hplaces : places ba bb = bb.length := by
    rw [places_eq (by omega)]
    omega
  have hbytes := h.bytes
  rw [hplaces] at hbytes
  have hzeros := eq_append_zeros hle hbytes
  have hsizes := h.sizes
  have hlonger : ba.length ≠ bb.length := by
    intro hsame
    rw [hsame, Nat.sub_self, List.replicate_zero, List.append_nil] at hzeros
    exact h.ne hzeros.symm
  refine ⟨(bb.length - ba.length) / 256, by omega, ?_⟩
  rw [show 256 * ((bb.length - ba.length) / 256) = bb.length - ba.length by omega]
  exact hzeros

theorem equalBytes_eq_iff (ba bb : QByteArray) :
    (equalBytes ba bb = true ↔ ba = bb) ↔ ¬ Collide ba bb := by
  rw [equalBytes_iff]
  constructor
  · intro h hcollide
    exact hcollide.ne (h.mp ⟨hcollide.sizes, hcollide.bytes⟩)
  · intro h
    constructor
    · rintro ⟨hsizes, hbytes⟩
      by_contra hne
      exact h ⟨hne, hsizes, hbytes⟩
    · rintro rfl
      exact ⟨rfl, fun i _ => rfl⟩

/-- Both copies are equality on two texts unless the two collide, which for sizes an `int`
holds means that one is the other followed by a positive multiple of 256 zeros. -/
theorem equality_iff (ba bb : QByteArray) :
    ((authManagerEquals ba bb = true ↔ ba = bb) ∧ (shareManagerEquals ba bb = true ↔ ba = bb) ↔
      ¬ Collide ba bb) ∧
    (max ba.length bb.length < 2 ^ 31 → (Collide ba bb ↔ ZeroTail ba bb ∨ ZeroTail bb ba)) := by
  constructor
  · have hboth := equalBytes_eq_iff ba bb
    constructor
    · rintro ⟨hauth, -⟩
      exact hboth.mp hauth
    · intro h
      exact ⟨hboth.mpr h, hboth.mpr h⟩
  · intro hint
    constructor
    · intro h
      rcases Nat.le_total ba.length bb.length with hle | hle
      · exact Or.inl (h.zeroTail hle (by omega))
      · exact Or.inr (h.symm.zeroTail hle (by omega))
    · rintro (h | h)
      · exact h.collide
      · exact h.collide.symm

/-- Nothing and 256 zeros. -/
theorem empty_equals_zeros :
    authManagerEquals [] (List.replicate 256 0) = true ∧
      shareManagerEquals [] (List.replicate 256 0) = true ∧ [] ≠ List.replicate 256 (0 : UInt8) := by
  decide +kernel

end MoonlightWeb.Server.ConstantTime
