import MoonlightWeb.NativeHost.BitWriting
import MoonlightWeb.NativeHost.H264Syntax
import MoonlightWeb.NativeHost.ScalingSums

/-! # The reader on a parameter set that follows the syntax

Where the bits ahead are those of an element, the part of the reader that is for it passes
exactly these bits.
-/

namespace MoonlightWeb.NativeHost.H264Vui

open Lib Bits Grammar Grammar List

namespace BitReader

def ahead (r : BitReader) : List Bool := (Bits.ofBytes r.bytes).drop r.pos

def advance (r : BitReader) (n : Nat) : BitReader := { r with pos := r.pos + n }

theorem advance_advance (r : BitReader) (n m : Nat) :
    (r.advance n).advance m = r.advance (n + m) := by
  simp [advance, Nat.add_assoc]

variable {tail : List Bool} {r : BitReader}

variable (bits : List Bool)

theorem ahead_advance (h : r.ahead = bits ++ tail) :
    (r.advance bits.length).ahead = tail := by
  change (Bits.ofBytes r.bytes).drop (r.pos + bits.length) = tail
  rw [← drop_drop]
  change r.ahead.drop bits.length = tail
  rw [h, drop_left' rfl]

theorem bitAt_of_ahead {b : Bool} (h : r.ahead = b :: tail) :
    ¬r.pos ≥ r.bytes.length * 8 ∧ bitAt r.bytes r.pos = b.toNat := by
  have hlt : r.pos < (Bits.ofBytes r.bytes).length := by
    by_contra hge
    rw [ahead, drop_eq_nil_of_le (by omega)] at h
    cases h
  have hget : (Bits.ofBytes r.bytes)[r.pos]? = some b := by
    have hhead := congrArg List.head? h
    rwa [ahead, List.head?_drop] at hhead
  rw [length_ofBytes] at hlt
  refine ⟨by omega, ?_⟩
  rw [ofBytes_getElem?, Option.map_eq_some_iff] at hget
  obtain ⟨byte, hbyte, hbit⟩ := hget
  unfold bitAt
  rw [getD_eq_getElem?_getD, hbyte, ← hbit, Nat.shiftRight_eq_div_pow, Option.getD_some,
    Nat.testBit_eq_decide_div_mod_eq]
  rcases Nat.mod_two_eq_zero_or_one (byte.toNat / 2 ^ (7 - r.pos % 8)) with hmod | hmod <;>
    rw [hmod] <;> rfl

theorem uFrom_ahead (v : Nat) (h : r.ahead = bits ++ tail) :
    uFrom bits.length (v % 2 ^ 32) r =
      (bits.foldl (fun v b => 2 * v + b.toNat) v % 2 ^ 32, r.advance bits.length) := by
  induction bits generalizing r v with
  | nil => rfl
  | cons b bits ih =>
    obtain ⟨hend, hbit⟩ := bitAt_of_ahead h
    have hnext : (r.advance 1).ahead = bits ++ tail := ahead_advance [b] h
    have hmod : (2 * (v % 2 ^ 32) + b.toNat) % 2 ^ 32 = (2 * v + b.toNat) % 2 ^ 32 := by omega
    rw [length_cons, uFrom, if_neg hend, hbit, hmod, foldl_cons]
    refine (ih (2 * v + b.toNat) hnext).trans ?_
    rw [advance_advance, Nat.add_comm 1]

theorem u_ahead (h : r.ahead = bits ++ tail) :
    r.u bits.length = (ofBits bits % 2 ^ 32, r.advance bits.length) := uFrom_ahead bits 0 h

theorem zerosFrom_ahead (k zeros : Nat) {left : Nat} (hk : k ≤ left) (hover : r.overrun = false)
    (h : r.ahead = List.replicate k false ++ true :: tail) :
    r.zerosFrom left zeros = (some (zeros + k), r.advance (k + 1)) := by
  induction k generalizing left zeros r with
  | zero =>
    have hone : r.u 1 = (1, r.advance 1) := u_ahead [true] h
    unfold zerosFrom
    rw [hone]
    rfl
  | succ k ih =>
    obtain ⟨fewer, rfl⟩ : ∃ fewer, left = fewer + 1 := ⟨left - 1, by omega⟩
    have hzero : r.u 1 = (0, r.advance 1) := u_ahead [false] h
    have hover' : ¬(r.advance 1).overrun = true := by
      change ¬r.overrun = true
      rw [hover]
      decide
    have hnext : (r.advance 1).ahead = List.replicate k false ++ true :: tail :=
      ahead_advance [false] h
    have hrest := ih (zeros + 1) (by omega : k ≤ fewer) (r := r.advance 1) hover hnext
    unfold zerosFrom
    rw [hzero]
    dsimp only
    rw [if_neg (by decide), if_neg hover', hrest, advance_advance]
    congr 2
    · omega
    · omega

theorem ue_ahead {v : Nat} (hv : v < 2 ^ 32 - 1)
    (hover : r.overrun = false) (h : r.ahead = Grammar.ue.write v ++ tail) :
    r.ue = (v, r.advance (Grammar.ue.write v).length) := by
  have hne : v + 1 ≠ 0 := Nat.succ_ne_zero v
  have hlog : (v + 1).log2 < 32 := (Nat.log2_lt hne).mpr (by omega)
  have hwrite : Grammar.ue.write v =
      List.replicate (v + 1).log2 false ++ true :: toBits (v + 1).log2 (v + 1) := by
    rw [← toBits_log2 hne]
    rfl
  rw [hwrite, append_assoc, cons_append] at h
  have hzeros := zerosFrom_ahead (v + 1).log2 0 (by omega : _ ≤ 31) hover h
  have hafter : (r.advance ((v + 1).log2 + 1)).ahead =
      toBits (v + 1).log2 (v + 1) ++ tail := by
    have hsplit : r.ahead = (List.replicate (v + 1).log2 false ++ [true]) ++
        (toBits (v + 1).log2 (v + 1) ++ tail) := by rw [h]; simp
    have hlength : (List.replicate (v + 1).log2 false ++ [true]).length = (v + 1).log2 + 1 := by
      simp
    rw [← hlength]
    exact ahead_advance _ hsplit
  have hlow := u_ahead _ hafter
  rw [length_toBits, ofBits_toBits] at hlow
  have hge : 2 ^ (v + 1).log2 ≤ v + 1 := Nat.log2_self_le hne
  have hlt : v + 1 < 2 * 2 ^ (v + 1).log2 := by
    rw [← pow_succ']
    exact Nat.lt_log2_self
  have hmod : (v + 1) % 2 ^ (v + 1).log2 = v + 1 - 2 ^ (v + 1).log2 := by
    rw [Nat.mod_eq_sub_mod hge]
    exact Nat.mod_eq_of_lt (by omega)
  have hsmall : (v + 1 - 2 ^ (v + 1).log2) % 2 ^ 32 = v + 1 - 2 ^ (v + 1).log2 :=
    Nat.mod_eq_of_lt (by omega)
  unfold ue
  rw [hzeros, Nat.zero_add]
  dsimp only
  rw [hlow, hmod, hsmall, advance_advance, hwrite]
  simp only [length_append, length_replicate, length_cons, length_toBits]
  congr 1
  · have hvalue : 2 ^ (v + 1).log2 - 1 + (v + 1 - 2 ^ (v + 1).log2) = v := by
      have := Nat.two_pow_pos (v + 1).log2
      omega
    rw [hvalue]
    exact Nat.mod_eq_of_lt (by omega)
  · congr 1
    omega

end BitReader

/-- With these bits ahead, a reading gives this value and passes the bits. -/
def Reads {α : Type} (m : Reading α) (bits : List Bool) (a : α) : Prop :=
  ∀ (r : BitReader) (tail : List Bool), r.overrun = false → r.ahead = bits ++ tail →
    m r = .ok (a, r.advance bits.length)

namespace Reads

variable {α β : Type}

variable {m : Reading α} {a : α}

theorem bind {f : α → Reading β} {first second : List Bool} {b : β}
    (hm : Reads m first a) (hf : Reads (f a) second b) : Reads (m >>= f) (first ++ second) b := by
  intro r tail hover h
  rw [append_assoc] at h
  have hsecond := hf (r.advance first.length) tail hover (BitReader.ahead_advance first h)
  rw [run_bind, hm r _ hover h]
  change f a (r.advance first.length) = _
  rw [hsecond, BitReader.advance_advance, length_append]

variable {bits : List Bool}

/-- What follows goes on behind the bits that were passed. -/
theorem run (hm : Reads m bits a) (f : α → Reading β)
    {r : BitReader} {tail : List Bool} (hover : r.overrun = false) (h : r.ahead = bits ++ tail) :
    (m >>= f) r = f a (r.advance bits.length) := by
  rw [run_bind, hm r tail hover h]
  rfl

theorem pure (a : α) : Reads (Pure.pure a : Reading α) [] a := fun _ _ _ _ => rfl

/-- The last of some readings, whose value is not used. -/
theorem last (hm : Reads m bits a) :
    Reads (do let _ ← m) bits () := by
  have h := hm.bind (f := fun _ => (Pure.pure () : Reading Unit)) (pure ())
  rwa [append_nil] at h

theorem u {n v : Nat} (hn : n ≤ 32) (hv : (u n).Valid v) :
    Reads (Reading.u n) ((u n).write v) v := by
  intro r tail _ h
  have hu := BitReader.u_ahead (toBits n v) h
  have hv : v < 2 ^ n := hv
  have hlt : v < 2 ^ 32 := lt_of_lt_of_le hv (Nat.pow_le_pow_right Nat.two_pos hn)
  rw [length_toBits, ofBits_toBits, Nat.mod_eq_of_lt hv, Nat.mod_eq_of_lt hlt] at hu
  change Except.ok (r.u n) = .ok (v, r.advance (toBits n v).length)
  rw [hu, length_toBits]

/-- Bits that are only passed. -/
theorem skipped {n : Nat} (h : bits.length = n) :
    Reads (Reading.u n) bits (ofBits bits % 2 ^ 32) := by
  intro r tail _ hahead
  have hu := BitReader.u_ahead bits hahead
  change Except.ok (r.u n) = _
  rw [← h, hu]

theorem skip {n : Nat} (h : bits.length = n) :
    Reads (do let _ ← Reading.u n) bits () := last (skipped h)

theorem flag (b : Bool) : Reads (Reading.u 1) [b] b.toNat := by
  intro r tail _ h
  have hu := BitReader.u_ahead [b] h
  change Except.ok (r.u 1) = _
  rw [show (1 : Nat) = [b].length from rfl, hu]
  cases b <;> rfl

theorem ue {v : Nat} (hv : ue.Valid v) : Reads Reading.ue (ue.write v) v := by
  intro r tail hover h
  change Except.ok r.ue = _
  rw [BitReader.ue_ahead hv hover h]

theorem se {v : Int} (hv : se.Valid v) : Reads Reading.se (se.write v) v := by
  intro r tail hover h
  rw [se_run, BitReader.ue_ahead hv hover h]
  have hback : signed (codeNum v) = v := ofCodeNum_codeNum v
  dsimp only
  rw [hback]
  rfl

theorem overrun : Reads Reading.overrun [] false := by
  intro r tail hover _
  change Except.ok (r.overrun, r) = _
  rw [hover]
  rfl

theorem refuseOverrun : Reads Reading.refuseOverrun [] () := by
  intro r tail hover _
  unfold Reading.refuseOverrun
  rw [hover]
  rfl

theorem opt {g : Grammar α} {m : Reading Unit} {present condition : Bool}
    (hcondition : condition = present) (hm : ∀ a, g.Valid a → Reads m (g.write a) ())
    {o : Option α} (ho : (opt present g).Valid o) :
    Reads (Reading.optionally condition m) ((opt present g).write o) () := by
  obtain ⟨hpresent, hvalid⟩ := ho
  subst hcondition
  cases o with
  | none =>
    have hfalse : condition = false := hpresent.symm
    subst hfalse
    exact pure ()
  | some a =>
    have htrue : condition = true := hpresent.symm
    subst htrue
    exact hm a (hvalid a rfl)

/-- A part of the VUI behind its flag. -/
theorem present {g : Grammar α} {m : Reading Unit} (hm : ∀ a, g.Valid a → Reads m (g.write a) ())
    {o : Option α} (ho : (flagged g).Valid o) :
    Reads (skipPresent m) ((flagged g).write o) o.isSome := by
  have hcondition : decide (o.isSome.toNat ≠ 0) = o.isSome := by
    cases o <;> rfl
  have hopt := opt hcondition hm (o := o) ⟨rfl, ho⟩
  have hafter : Reads (do
      Reading.optionally (decide (o.isSome.toNat ≠ 0)) m
      return decide (o.isSome.toNat ≠ 0)) ((Grammar.opt o.isSome g).write o ++ [])
        (decide (o.isSome.toNat ≠ 0)) := hopt.bind (Reads.pure _)
  rw [append_nil] at hafter
  have hreads : Reads (skipPresent m) ([o.isSome] ++ (Grammar.opt o.isSome g).write o) _ :=
    (flag o.isSome).bind hafter
  rw [hcondition] at hreads
  exact hreads

theorem ite_pos {p : Prop} [Decidable p] {m n : Reading α} (hp : p)
    (hm : Reads m bits a) : Reads (if p then m else n) bits a := by
  rwa [if_pos hp]

theorem ite_neg {p : Prop} [Decidable p] {m n : Reading α} (hp : ¬p)
    (hn : Reads n bits a) : Reads (if p then m else n) bits a := by
  rwa [if_neg hp]

/-- The turn of a loop that goes on as long as nothing was read behind the end. -/
theorem turn {n : Reading α} (hm : Reads m bits a) :
    Reads (do if ← Reading.overrun then n else m) bits a :=
  overrun.bind (f := fun ended => if ended = true then n else m) (ite_neg (by decide) hm)

end Reads

end MoonlightWeb.NativeHost.H264Vui
