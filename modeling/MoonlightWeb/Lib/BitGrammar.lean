import MoonlightWeb.Lib.Bits

/-! # Grammars of bits

A grammar writes the values it admits as bits and reads them back from the front of a longer
string; it reads exactly what it writes. Descriptors of fixed width, Exp-Golomb codes and the
ways to put grammars together follow the tables of video coding standards.
-/

namespace MoonlightWeb.Lib

open Bits List Option

structure Grammar (α : Type) where
  Valid : α → Prop
  write : α → List Bool
  read : List Bool → Option (α × List Bool)
  read_write : ∀ a rest, Valid a → read (write a ++ rest) = some (a, rest)
  read_sound : ∀ bits a rest, read bits = some (a, rest) → Valid a ∧ bits = write a ++ rest

namespace Grammar

variable {α β : Type}

/-- `u(n)`. -/
def u (n : Nat) : Grammar Nat where
  Valid v := v < 2 ^ n
  write v := toBits n v
  read bits := if n ≤ bits.length then some (ofBits (bits.take n), bits.drop n) else none
  read_write v rest hv := by
    have hlen : (toBits n v).length = n := length_toBits n v
    rw [if_pos (by simp), take_left' hlen, drop_left' hlen, ofBits_toBits,
      Nat.mod_eq_of_lt hv]
  read_sound bits v rest h := by
    by_cases hlen : n ≤ bits.length
    · rw [if_pos hlen] at h
      obtain ⟨rfl, rfl⟩ := Prod.mk.inj (Option.some.inj h)
      have htake : (bits.take n).length = n := by simpa using hlen
      have hlt := ofBits_lt (bits.take n)
      have hback := toBits_ofBits (bits.take n)
      rw [htake] at hlt hback
      exact ⟨hlt, by rw [hback, take_append_drop]⟩
    · rw [if_neg hlen] at h
      cases h

/-- `u(1)` as a flag. -/
def flag : Grammar Bool where
  Valid _ := True
  write b := [b]
  read
    | [] => none
    | b :: rest => some (b, rest)
  read_write _ _ _ := rfl
  read_sound bits b rest h := by
    cases bits with
    | nil => cases h
    | cons c bits =>
        obtain ⟨rfl, rfl⟩ := Prod.mk.inj (Option.some.inj h)
        exact ⟨trivial, rfl⟩

variable (bits : List Bool)

def zerosOf : Nat := (bits.takeWhile (!·)).length

theorem zerosOf_replicate (k : Nat) (rest : List Bool) :
    zerosOf (List.replicate k false ++ true :: rest) = k := by
  induction k with
  | zero => rfl
  | succ k ih =>
    rw [replicate_succ, cons_append]
    unfold zerosOf at ih ⊢
    rw [takeWhile_cons_of_pos rfl, length_cons, ih]

theorem lt_zerosOf (k : Nat) (rest : List Bool) :
    k < zerosOf (List.replicate k false ++ false :: rest) := by
  induction k with
  | zero => simp [zerosOf]
  | succ k ih =>
    rw [replicate_succ, cons_append]
    unfold zerosOf at ih ⊢
    rw [takeWhile_cons_of_pos rfl, length_cons]
    omega

theorem eq_replicate_zerosOf :
    bits = List.replicate (zerosOf bits) false ++ bits.drop (zerosOf bits) := by
  induction bits with
  | nil => rfl
  | cons b bits ih =>
    cases b with
    | true => rfl
    | false =>
      unfold zerosOf at ih ⊢
      rw [takeWhile_cons_of_pos rfl, length_cons, replicate_succ,
        cons_append, drop_succ_cons, ← ih]

def golomb (x : Nat) : List Bool := List.replicate x.log2 false ++ toBits (x.log2 + 1) x

theorem toBits_log2 {x : Nat} (hx : x ≠ 0) :
    toBits (x.log2 + 1) x = true :: toBits x.log2 x := by
  rw [toBits, Nat.testBit_log2 hx]

/-- The number read from a code of at most 32 bits after its zeros. -/
def readGolomb : Option (Nat × List Bool) :=
  if 31 < zerosOf bits then none
  else (u (zerosOf bits + 1)).read (bits.drop (zerosOf bits))

theorem readGolomb_golomb {x : Nat} (hx : x ≠ 0) (hlt : x < 2 ^ 32) (rest : List Bool) :
    readGolomb (golomb x ++ rest) = some (x, rest) := by
  have hlog : x.log2 < 32 := (Nat.log2_lt hx).mpr hlt
  have hzeros : zerosOf (golomb x ++ rest) = x.log2 := by
    rw [golomb, toBits_log2 hx, append_assoc]
    exact zerosOf_replicate _ _
  have hdrop : (golomb x ++ rest).drop x.log2 = toBits (x.log2 + 1) x ++ rest := by
    rw [golomb, append_assoc]
    exact drop_left' (by simp)
  have hvalid : (u (x.log2 + 1)).Valid x := Nat.lt_log2_self
  unfold readGolomb
  rw [hzeros, if_neg (by omega), hdrop]
  exact (u (x.log2 + 1)).read_write x rest hvalid

theorem readGolomb_sound {bits : List Bool} {x : Nat} {rest : List Bool}
    (h : readGolomb bits = some (x, rest)) :
    x ≠ 0 ∧ x < 2 ^ 32 ∧ bits = golomb x ++ rest := by
  unfold readGolomb at h
  by_cases hmany : 31 < zerosOf bits
  · rw [if_pos hmany] at h
    cases h
  · rw [if_neg hmany] at h
    obtain ⟨hvalid, hbits⟩ := (u (zerosOf bits + 1)).read_sound _ _ _ h
    have hlt : x < 2 ^ (zerosOf bits + 1) := hvalid
    -- the bit behind the zeros is a one
    have hone : x.testBit (zerosOf bits) = true := by
      by_contra hzero
      rw [Bool.not_eq_true] at hzero
      have hfront : bits.drop (zerosOf bits) = false :: toBits (zerosOf bits) x ++ rest := by
        rw [hbits]
        change toBits _ _ ++ rest = _
        rw [toBits, hzero]
      have hwhole := eq_replicate_zerosOf bits
      rw [hfront] at hwhole
      have hcount := congrArg zerosOf hwhole
      have hmore := lt_zerosOf (zerosOf bits) (toBits (zerosOf bits) x ++ rest)
      simp only [cons_append] at hcount
      omega
    have hge : 2 ^ zerosOf bits ≤ x := Nat.ge_two_pow_of_testBit hone
    have hne : x ≠ 0 := by
      have := Nat.two_pow_pos (zerosOf bits)
      omega
    have hlog : x.log2 = zerosOf bits := by
      apply Nat.le_antisymm
      · exact Nat.lt_succ_iff.mp ((Nat.log2_lt hne).mpr hlt)
      · exact (Nat.le_log2 hne).mpr hge
    refine ⟨hne, lt_of_lt_of_le hlt (Nat.pow_le_pow_right (by omega) (by omega)), ?_⟩
    rw [golomb, hlog, append_assoc]
    have hwhole := eq_replicate_zerosOf bits
    rw [hbits] at hwhole
    exact hwhole

/-- `ue(v)`. -/
def ue : Grammar Nat where
  Valid v := v < 2 ^ 32 - 1
  write v := golomb (v + 1)
  read bits := (readGolomb bits).map fun (x, rest) => (x - 1, rest)
  read_write v rest hv := by
    rw [readGolomb_golomb (Nat.succ_ne_zero v) (by omega)]
    rfl
  read_sound bits v rest h := by
    rw [map_eq_some_iff] at h
    obtain ⟨⟨x, rest'⟩, hread, heq⟩ := h
    obtain ⟨rfl, rfl⟩ := Prod.mk.inj heq
    obtain ⟨hne, hlt, rfl⟩ := readGolomb_sound hread
    have hback : x - 1 + 1 = x := Nat.succ_pred_eq_of_ne_zero hne
    exact ⟨by omega, by rw [hback]⟩

def codeNum (v : Int) : Nat := if 0 < v then (2 * v - 1).toNat else (-2 * v).toNat

def ofCodeNum (k : Nat) : Int := if k % 2 = 1 then (k + 1) / 2 else -(k / 2)

theorem ofCodeNum_codeNum (v : Int) : ofCodeNum (codeNum v) = v := by
  unfold ofCodeNum codeNum
  split_ifs <;> omega

theorem codeNum_ofCodeNum (k : Nat) : codeNum (ofCodeNum k) = k := by
  unfold ofCodeNum codeNum
  split_ifs <;> omega

variable (g : Grammar α)

/-- The same grammar for values told in another way. -/
def iso (into : α → β) (back : β → α) (back_into : ∀ a, back (into a) = a)
    (into_back : ∀ b, into (back b) = b) : Grammar β where
  Valid b := g.Valid (back b)
  write b := g.write (back b)
  read bits := (g.read bits).map fun (a, rest) => (into a, rest)
  read_write b rest hb := by
    rw [g.read_write _ rest hb, map_some]
    dsimp only
    rw [into_back]
  read_sound bits b rest h := by
    rw [map_eq_some_iff] at h
    obtain ⟨⟨a, rest'⟩, hread, heq⟩ := h
    obtain ⟨rfl, rfl⟩ := Prod.mk.inj heq
    rw [back_into]
    exact g.read_sound _ _ _ hread

/-- `se(v)`. -/
def se : Grammar Int := iso ue ofCodeNum codeNum codeNum_ofCodeNum ofCodeNum_codeNum

/-- The values of a grammar with a property. -/
def such (p : α → Prop) [DecidablePred p] : Grammar α where
  Valid a := g.Valid a ∧ p a
  write := g.write
  read bits := (g.read bits).filter fun (a, _) => p a
  read_write a rest ha := by
    rw [g.read_write _ rest ha.1, filter_some, if_pos (by simpa using ha.2)]
  read_sound bits a rest h := by
    rw [filter_eq_some_iff] at h
    obtain ⟨hread, hp⟩ := h
    obtain ⟨hvalid, hbits⟩ := g.read_sound _ _ _ hread
    exact ⟨⟨hvalid, by simpa using hp⟩, hbits⟩

/-- A value, then one of a grammar that depends on it. -/
def bind (g : Grammar α) (next : α → Grammar β) : Grammar (α × β) where
  Valid p := g.Valid p.1 ∧ (next p.1).Valid p.2
  write p := g.write p.1 ++ (next p.1).write p.2
  read bits :=
    (g.read bits).bind fun (a, rest) => ((next a).read rest).map fun (b, rest) => ((a, b), rest)
  read_write p rest hp := by
    rw [append_assoc, g.read_write _ _ hp.1, bind_some]
    dsimp only
    rw [(next p.1).read_write _ _ hp.2]
    rfl
  read_sound bits p rest h := by
    rw [bind_eq_some_iff] at h
    obtain ⟨⟨a, middle⟩, hfirst, h⟩ := h
    rw [map_eq_some_iff] at h
    obtain ⟨⟨b, rest'⟩, hsecond, heq⟩ := h
    obtain ⟨rfl, rfl⟩ := Prod.mk.inj heq
    obtain ⟨hvalid, rfl⟩ := g.read_sound _ _ _ hfirst
    obtain ⟨hvalid', rfl⟩ := (next a).read_sound _ _ _ hsecond
    exact ⟨⟨hvalid, hvalid'⟩, by rw [append_assoc]⟩

def pair (h : Grammar β) : Grammar (α × β) := bind g fun _ => h

/-- A value that is there exactly when a condition holds. -/
def opt (present : Bool) (g : Grammar α) : Grammar (Option α) where
  Valid o := o.isSome = present ∧ ∀ a, o = some a → g.Valid a
  write o := o.elim [] g.write
  read bits :=
    if present then (g.read bits).map fun (a, rest) => (some a, rest) else some (none, bits)
  read_write o rest ho := by
    cases o with
    | none =>
        have hnot : present = false := ho.1.symm
        rw [hnot]
        rfl
    | some a =>
        have hpresent : present = true := ho.1.symm
        rw [hpresent, if_pos rfl]
        change Option.map _ (g.read (g.write a ++ rest)) = _
        rw [g.read_write a rest (ho.2 a rfl)]
        rfl
  read_sound bits o rest h := by
    cases present with
    | false =>
        rw [if_neg (by decide)] at h
        obtain ⟨rfl, rfl⟩ := Prod.mk.inj (Option.some.inj h)
        exact ⟨⟨rfl, fun a ha => by cases ha⟩, rfl⟩
    | true =>
        rw [if_pos rfl, map_eq_some_iff] at h
        obtain ⟨⟨a, rest'⟩, hread, heq⟩ := h
        obtain ⟨rfl, rfl⟩ := Prod.mk.inj heq
        obtain ⟨hvalid, rfl⟩ := g.read_sound _ _ _ hread
        exact ⟨⟨rfl, fun b hb => Option.some.inj hb ▸ hvalid⟩, rfl⟩

/-- A flag, and a value if it is set. -/
def flagged : Grammar (Option α) where
  Valid o := ∀ a, o = some a → g.Valid a
  write o := o.isSome :: o.elim [] g.write
  read bits := (flag.read bits).bind fun (present, rest) => (opt present g).read rest
  read_write o rest ho := (opt o.isSome g).read_write o rest ⟨rfl, ho⟩
  read_sound bits o rest h := by
    rw [bind_eq_some_iff] at h
    obtain ⟨⟨present, middle⟩, hflag, h⟩ := h
    obtain ⟨_, rfl⟩ := flag.read_sound _ _ _ hflag
    obtain ⟨⟨rfl, hvalid⟩, rfl⟩ := (opt present g).read_sound _ _ _ h
    exact ⟨hvalid, rfl⟩

/-- No value of any. -/
def nil : Grammar (List α) where
  Valid as := as = []
  write _ := []
  read bits := some ([], bits)
  read_write as rest has := by rw [has]; rfl
  read_sound bits as rest h := by
    obtain ⟨rfl, rfl⟩ := Prod.mk.inj (Option.some.inj h)
    exact ⟨rfl, rfl⟩

/-- A value, then those of a grammar that depends on it. -/
def cons (next : α → Grammar (List α)) : Grammar (List α) where
  Valid as := ∃ a more, as = a :: more ∧ g.Valid a ∧ (next a).Valid more
  write as :=
    match as with
    | [] => []
    | a :: more => g.write a ++ (next a).write more
  read bits := ((bind g next).read bits).map fun (p, rest) => (p.1 :: p.2, rest)
  read_write := by
    intro as rest ⟨a, more, has, ha, hmore⟩
    have h := (bind g next).read_write (a, more) rest ⟨ha, hmore⟩
    subst has
    change Option.map _ ((bind g next).read ((bind g next).write (a, more) ++ rest)) = _
    rw [h]
    rfl
  read_sound := by
    intro bits as rest h
    rw [map_eq_some_iff] at h
    obtain ⟨⟨⟨a, more⟩, rest'⟩, hread, heq⟩ := h
    obtain ⟨rfl, rfl⟩ := Prod.mk.inj heq
    obtain ⟨hvalid, rfl⟩ := (bind g next).read_sound _ _ _ hread
    exact ⟨⟨a, more, rfl, hvalid.1, hvalid.2⟩, rfl⟩

def each : List (Grammar α) → Grammar (List α)
  | [] => nil
  | g :: gs => cons g fun _ => each gs

end Grammar

end MoonlightWeb.Lib
