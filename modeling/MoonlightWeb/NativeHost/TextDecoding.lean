import MoonlightWeb.NativeHost.UinputInput
import MoonlightWeb.Qt.QString

/-! # What a malformed byte costs

`decodeUtf8` skips a byte that starts no character and stops where a lead byte promises more
bytes than are left, before it looks at them. A text behind malformed bytes is read whole
unless a lead byte among them promises more than follows.
-/

namespace MoonlightWeb.NativeHost.UinputInput

open Qt.QString (utf8)
open List

/-- The inner loop from the read of `p[i + k]` on; nothing comes of a read behind the end. -/
def readContinued (p : List UInt8) (i : Nat) : Nat → Nat → Nat → Option (Option Nat)
  | 0, _, cp => some (some cp)
  | left + 1, k, cp =>
      (p[i + k]?).bind fun cc =>
        if cc.toNat &&& 0xC0 ≠ 0x80 then some none
        else readContinued p i left (k + 1) ((cp <<< 6) ||| (cc.toNat &&& 0x3F))

/-- The loop from `i` on, on some turns; nothing comes of a read behind the end. -/
def decodeAt (p : List UInt8) : Nat → Nat → Option (List Nat)
  | 0, _ => none
  | turns + 1, i =>
      if i < p.length then
        (p[i]?).bind fun c =>
          match leadByte c.toNat with
          | none => decodeAt p turns (i + 1)
          | some (cp, extra) =>
              if extra ≥ p.length - i then some []
              else
                (readContinued p i extra 1 cp).bind fun
                  | none => decodeAt p turns (i + 1)
                  | some cp =>
                      (decodeAt p turns (i + (extra + 1))).map fun following =>
                        if (0xD800 ≤ cp ∧ cp ≤ 0xDFFF) ∨ cp > 0x10FFFF then following
                        else cp :: following
      else some []

theorem readContinued_eq (p : List UInt8) (i left k cp : Nat) (h : i + k + left ≤ p.length) :
    readContinued p i left k cp = some (continued cp ((p.drop (i + k)).take left)) := by
  induction left generalizing k cp with
  | zero => simp [readContinued, continued]
  | succ left ih =>
    have hread : i + k < p.length := by omega
    rw [readContinued, List.getElem?_eq_getElem hread, Option.bind_some,
      drop_eq_getElem_cons hread, take_succ_cons, continued]
    split_ifs
    · rfl
    · rw [ih (k + 1) _ (by omega), Nat.add_assoc]

/-- Turns beyond the length change nothing. -/
theorem decodeFrom_eq (turns : Nat) (text : List UInt8) (h : text.length ≤ turns) :
    decodeFrom turns text = decodeUtf8 text := by
  unfold decodeUtf8
  induction turns using Nat.strongRecOn generalizing text with
  | ind turns ih =>
    cases text with
    | nil => cases turns <;> rfl
    | cons c rest =>
      obtain ⟨turns, rfl⟩ : ∃ n, turns = n + 1 := ⟨turns - 1, by simp at h; omega⟩
      have hrest : rest.length ≤ turns := by simpa using h
      have hskip := ih turns (by omega) rest hrest
      have hdrop : ∀ extra, decodeFrom turns (rest.drop extra) =
          decodeFrom rest.length (rest.drop extra) := by
        intro extra
        have hshort : (rest.drop extra).length ≤ rest.length := by simp
        rw [ih turns (by omega) _ (hshort.trans hrest)]
        rcases Nat.lt_or_ge rest.length (turns + 1) with hlt | hge
        · exact (ih rest.length (by omega) _ hshort).symm
        · omega
      simp only [length_cons, decodeFrom, hskip, hdrop]

/-- One turn of the loop. -/
theorem decodeUtf8_cons (c : UInt8) (rest : List UInt8) :
    decodeUtf8 (c :: rest) =
      match leadByte c.toNat with
      | none => decodeUtf8 rest
      | some (cp, extra) =>
        if extra ≥ rest.length + 1 then []
        else
          match continued cp (rest.take extra) with
          | none => decodeUtf8 rest
          | some cp =>
            let following := decodeUtf8 (rest.drop extra)
            if (0xD800 ≤ cp ∧ cp ≤ 0xDFFF) ∨ cp > 0x10FFFF then following
            else cp :: following := by
  have hdrop : ∀ extra, decodeFrom rest.length (rest.drop extra) = decodeUtf8 (rest.drop extra) :=
    fun extra => decodeFrom_eq _ _ (by simp)
  conv_lhs => rw [decodeUtf8, length_cons, decodeFrom]
  simp only [hdrop]
  rfl

/-- With a turn for each byte and one to end, the loop ends and no read is behind the end. -/
theorem decodeAt_eq (p : List UInt8) (turns i : Nat) (hi : i ≤ p.length)
    (hturns : p.length - i < turns) : decodeAt p turns i = some (decodeUtf8 (p.drop i)) := by
  induction turns generalizing i with
  | zero => omega
  | succ turns ih =>
    rw [decodeAt]
    split_ifs with hlt
    · rw [List.getElem?_eq_getElem hlt, Option.bind_some, drop_eq_getElem_cons hlt,
        decodeUtf8_cons, length_drop]
      have hskip := ih (i + 1) (by omega) (by omega)
      cases leadByte p[i].toNat with
      | none => exact hskip
      | some lead =>
        obtain ⟨cp, extra⟩ := lead
        dsimp only
        rw [show p.length - (i + 1) + 1 = p.length - i by omega]
        split_ifs with hcut
        · rfl
        · rw [readContinued_eq p i extra 1 cp (by omega), Option.bind_some]
          cases continued cp ((p.drop (i + 1)).take extra) with
          | none => exact hskip
          | some cp =>
            dsimp only
            rw [ih (i + (extra + 1)) (by omega) (by omega), drop_drop,
              show i + 1 + extra = i + (extra + 1) by omega, Option.map_some]
    · rw [drop_eq_nil_of_le (by omega)]
      rfl

/-- Only scalar values come out. -/
theorem decodeFrom_scalar (turns : Nat) (text : List UInt8) :
    ∀ cp ∈ decodeFrom turns text, cp ≤ 0x10FFFF ∧ ¬ (0xD800 ≤ cp ∧ cp ≤ 0xDFFF) := by
  induction turns generalizing text with
  | zero => simp [decodeFrom]
  | succ turns ih =>
    cases text with
    | nil => simp [decodeFrom]
    | cons c rest =>
      rw [decodeFrom]
      cases leadByte c.toNat with
      | none => exact ih rest
      | some lead =>
        dsimp only
        split_ifs
        · simp
        · cases continued lead.1 (rest.take lead.2) with
          | none => exact ih rest
          | some cp =>
            dsimp only
            split_ifs with hbad
            · exact ih _
            · intro x hx
              rcases mem_cons.mp hx with rfl | hx
              · omega
              · exact ih _ x hx

def Continues (b : UInt8) : Prop := 0x80 ≤ b.toNat ∧ b.toNat < 0xC0

theorem leadByte_eq {c : Nat} (hc : c < 256) :
    leadByte c =
      if c < 0x80 then some (c, 0)
      else if c < 0xC0 then none
      else if c < 0xE0 then some (c - 0xC0, 1)
      else if c < 0xF0 then some (c - 0xE0, 2)
      else if c < 0xF8 then some (c - 0xF0, 3)
      else none := by
  have hall : ∀ c : Fin 256, leadByte c.val =
      if c.val < 0x80 then some (c.val, 0)
      else if c.val < 0xC0 then none
      else if c.val < 0xE0 then some (c.val - 0xC0, 1)
      else if c.val < 0xF0 then some (c.val - 0xE0, 2)
      else if c.val < 0xF8 then some (c.val - 0xF0, 3)
      else none := by decide +kernel
  exact hall ⟨c, hc⟩

instance (b : UInt8) : Decidable (Continues b) := inferInstanceAs (Decidable (_ ∧ _))

theorem continued_cons (cp : Nat) (cc : UInt8) (rest : List UInt8) :
    continued cp (cc :: rest) =
      if Continues cc then continued (cp * 64 + cc.toNat % 64) rest else none := by
  have hall : ∀ c : Fin 256, (c.val &&& 0xC0 = 0x80 ↔ 0x80 ≤ c.val ∧ c.val < 0xC0) ∧
      c.val &&& 0x3F = c.val % 64 := by decide +kernel
  obtain ⟨hbits, hlow⟩ := hall ⟨cc.toNat, cc.toNat_lt⟩
  have hsum : (cp <<< 6) ||| (cc.toNat % 64) = cp * 64 + cc.toNat % 64 := by
    rw [← Nat.shiftLeft_add_eq_or_of_lt (Nat.mod_lt _ (by decide)), Nat.shiftLeft_eq]
  dsimp only at hbits hlow
  rw [continued, hlow, hsum]
  by_cases h : Continues cc
  · rw [if_neg (not_not.mpr (hbits.mpr h)), if_pos h]
  · rw [if_pos (fun he => h (hbits.mp he)), if_neg h]

theorem leadByte_of_continues {b : UInt8} (h : Continues b) : leadByte b.toNat = none := by
  rw [leadByte_eq b.toNat_lt, if_neg (by have := h.1; omega), if_pos h.2]

theorem continues_of_continued {l : List UInt8} {cp v : Nat} (h : continued cp l = some v) :
    ∀ b ∈ l, Continues b := by
  induction l generalizing cp with
  | nil => simp
  | cons cc rest ih =>
    rw [continued_cons] at h
    split_ifs at h with hcc
    intro b hb
    rcases mem_cons.mp hb with rfl | hb
    · exact hcc
    · exact ih h b hb

/-- A text does not begin in the middle of a character. -/
def Begins (t : List UInt8) : Prop := ∀ b ∈ t.head?, ¬ Continues b

/-- A lead byte promises more bytes than are left of a prefix and the text behind it. -/
def Starved (bad : List UInt8) (text : Nat) : Prop :=
  ∃ front lead back cp extra, bad = front ++ lead :: back ∧
    leadByte lead.toNat = some (cp, extra) ∧ back.length + text < extra

theorem Starved.of_append {skipped rest : List UInt8} {k : Nat} (h : Starved rest k) :
    Starved (skipped ++ rest) k := by
  obtain ⟨front, lead, back, cp, extra, rfl, hlead, hshort⟩ := h
  exact ⟨skipped ++ front, lead, back, cp, extra, by rw [append_assoc], hlead, hshort⟩

/-- Where the first byte is not starved, the starved one is behind the bytes it takes. -/
theorem Starved.behind {c : UInt8} {skipped rest : List UInt8} {k : Nat}
    (hcontinues : ∀ b ∈ skipped, Continues b)
    (hc : ∀ cp extra, leadByte c.toNat = some (cp, extra) → extra ≤ (skipped ++ rest).length + k)
    (h : Starved (c :: (skipped ++ rest)) k) : Starved rest k := by
  obtain ⟨front, lead, back, cp, extra, heq, hlead, hshort⟩ := h
  cases front with
  | nil =>
    obtain ⟨rfl, rfl⟩ := List.cons.inj heq
    exact absurd (hc cp extra hlead) (by omega)
  | cons x front =>
    obtain ⟨-, heq⟩ := List.cons.inj heq
    rcases append_eq_append_iff.mp heq with ⟨as, rfl, hrest⟩ | ⟨bs, rfl, hrest⟩
    · exact ⟨as, lead, back, cp, extra, hrest, hlead, hshort⟩
    · cases bs with
      | nil => exact ⟨[], lead, back, cp, extra, hrest.symm, hlead, hshort⟩
      | cons b bs =>
        obtain ⟨rfl, rfl⟩ := List.cons.inj hrest
        have hb := leadByte_of_continues (hcontinues lead (by simp))
        rw [hb] at hlead
        cases hlead

/-- The first byte of a prefix is starved and ends the walk, or it yields the same characters
whatever text of that length follows, and takes bytes that start none. -/
theorem decodeUtf8_turn (c : UInt8) (rest : List UInt8) (k : Nat) :
    (Starved (c :: rest) k ∧ ∀ t, t.length = k → decodeUtf8 (c :: rest ++ t) = []) ∨
      ∃ chars skipped rest', rest = skipped ++ rest' ∧ (∀ b ∈ skipped, Continues b) ∧
        (∀ cp extra, leadByte c.toNat = some (cp, extra) → extra ≤ rest.length + k) ∧
        ∀ t, Begins t → t.length = k →
          decodeUtf8 (c :: rest ++ t) = chars ++ decodeUtf8 (rest' ++ t) := by
  cases hlead : leadByte c.toNat with
  | none =>
    refine Or.inr ⟨[], [], rest, rfl, by simp, by simp, fun t _ _ => ?_⟩
    rw [cons_append, decodeUtf8_cons, hlead]
    rfl
  | some lead =>
    obtain ⟨cp, extra⟩ := lead
    by_cases hcut : rest.length + k < extra
    · refine Or.inl ⟨⟨[], c, rest, cp, extra, rfl, hlead, hcut⟩, fun t ht => ?_⟩
      rw [cons_append, decodeUtf8_cons, hlead]
      exact if_pos (by rw [length_append]; omega)
    · have hroom : ∀ cp' extra', some (cp, extra) = some (cp', extra') →
          extra' ≤ rest.length + k := by
        intro cp' extra' heq
        obtain ⟨-, rfl⟩ := Prod.mk.inj (Option.some.inj heq)
        omega
      by_cases hinside : extra ≤ rest.length
      · have htake : ∀ t, (rest ++ t).take extra = rest.take extra :=
          fun t => take_append_of_le_length hinside
        have hdrop : ∀ t, (rest ++ t).drop extra = rest.drop extra ++ t :=
          fun t => drop_append_of_le_length hinside
        cases hread : continued cp (rest.take extra) with
        | none =>
          refine Or.inr ⟨[], [], rest, rfl, by simp, hroom, fun t _ ht => ?_⟩
          rw [cons_append, decodeUtf8_cons, hlead]
          dsimp only
          rw [if_neg (by rw [length_append]; omega), htake, hread]
          rfl
        | some v =>
          refine Or.inr ⟨if (0xD800 ≤ v ∧ v ≤ 0xDFFF) ∨ v > 0x10FFFF then [] else [v],
            rest.take extra, rest.drop extra, (take_append_drop _ _).symm,
            continues_of_continued hread, hroom, fun t _ ht => ?_⟩
          rw [cons_append, decodeUtf8_cons, hlead]
          dsimp only
          rw [if_neg (by rw [length_append]; omega), htake, hdrop, hread]
          dsimp only
          split_ifs <;> rfl
      · -- the bytes promised run into the text, which does not continue a character
        refine Or.inr ⟨[], [], rest, rfl, by simp, hroom, fun t hbegins ht => ?_⟩
        have hnone : continued cp ((rest ++ t).take extra) = none := by
          by_contra hsome
          obtain ⟨v, hv⟩ := Option.ne_none_iff_exists'.mp hsome
          cases t with
          | nil => simp at ht; omega
          | cons b t =>
            refine hbegins b rfl (continues_of_continued hv b ?_)
            rw [take_append, mem_append]
            obtain ⟨n, hn⟩ : ∃ n, extra - rest.length = n + 1 :=
              ⟨extra - rest.length - 1, by omega⟩
            rw [hn, take_succ_cons]
            exact Or.inr mem_cons_self
        rw [cons_append, decodeUtf8_cons, hlead]
        dsimp only
        rw [if_neg (by rw [length_append]; omega), hnone]
        rfl

/-- A text is read whole behind a prefix that is not starved. -/
theorem decodeUtf8_append (bad t : List UInt8) (ht : Begins t) (h : ¬ Starved bad t.length) :
    ∃ chars, decodeUtf8 (bad ++ t) = chars ++ decodeUtf8 t := by
  induction hlen : bad.length using Nat.strongRecOn generalizing bad with
  | ind n ih =>
    cases bad with
    | nil => exact ⟨[], rfl⟩
    | cons c rest =>
      rcases decodeUtf8_turn c rest t.length with ⟨hstarved, -⟩ |
        ⟨chars, skipped, rest', rfl, -, -, hturn⟩
      · exact absurd hstarved h
      · have hrest : ¬ Starved rest' t.length := fun hs =>
          h (by rw [← cons_append]; exact hs.of_append)
        obtain ⟨more, hmore⟩ := ih rest'.length (by simp at hlen; omega) rest' hrest rfl
        exact ⟨chars ++ more, by rw [hturn t ht rfl, hmore, append_assoc]⟩

/-- Behind a starved prefix no byte of the text is read. -/
theorem decodeUtf8_starved {bad t t' : List UInt8} (ht : Begins t) (ht' : Begins t')
    (hlen : t.length = t'.length) (h : Starved bad t.length) :
    decodeUtf8 (bad ++ t) = decodeUtf8 (bad ++ t') := by
  induction hn : bad.length using Nat.strongRecOn generalizing bad with
  | ind n ih =>
    cases bad with
    | nil =>
      obtain ⟨front, lead, back, _, _, heq, -⟩ := h
      simp at heq
    | cons c rest =>
      rcases decodeUtf8_turn c rest t.length with ⟨-, hstop⟩ |
        ⟨chars, skipped, rest', rfl, hcontinues, hroom, hturn⟩
      · rw [hstop t rfl, hstop t' hlen.symm]
      · rw [hturn t ht rfl, hturn t' ht' hlen.symm,
          ih rest'.length (by simp at hn; omega) (h.behind hcontinues hroom) rfl]

def encode (l : List Char) : List UInt8 := l.flatMap fun c => utf8 c.toNat

theorem toNat_ofNat_of_lt {n : Nat} (h : n < 256) : (UInt8.ofNat n).toNat = n := by
  rw [UInt8.toNat_ofNat', Nat.mod_eq_of_lt (by omega)]

/-- The lead byte of a character and the value of the bytes that continue it. -/
theorem utf8_spec {n : Nat} (h : n ≤ 0x10FFFF) :
    ∃ lead more cp, utf8 n = lead :: more ∧ ¬ Continues lead ∧
      leadByte lead.toNat = some (cp, more.length) ∧ continued cp more = some n := by
  have hmore : ∀ m, Continues (UInt8.ofNat (0x80 + m % 0x40)) ∧
      (UInt8.ofNat (0x80 + m % 0x40)).toNat % 64 = m % 0x40 := by
    intro m
    have hbyte := toNat_ofNat_of_lt (show 0x80 + m % 0x40 < 256 by omega)
    unfold Continues
    omega
  unfold utf8
  split_ifs with hone htwo hthree
  · have hbyte := toNat_ofNat_of_lt (show n < 256 by omega)
    refine ⟨_, [], n, rfl, by unfold Continues; omega, ?_, rfl⟩
    rw [hbyte, leadByte_eq (by omega), if_pos hone]
    rfl
  · have hbyte := toNat_ofNat_of_lt (show 0xC0 + n / 0x40 < 256 by omega)
    refine ⟨_, _, n / 0x40, rfl, by unfold Continues; omega, ?_, ?_⟩
    · rw [hbyte, leadByte_eq (by omega), if_neg (by omega), if_neg (by omega),
        if_pos (by omega), Nat.add_sub_cancel_left]
      rfl
    · rw [continued_cons, if_pos (hmore n).1, (hmore n).2, continued, Nat.div_add_mod']
  · have hbyte := toNat_ofNat_of_lt (show 0xE0 + n / 0x1000 < 256 by omega)
    refine ⟨_, _, n / 0x1000, rfl, by unfold Continues; omega, ?_, ?_⟩
    · rw [hbyte, leadByte_eq (by omega), if_neg (by omega), if_neg (by omega),
        if_neg (by omega), if_pos (by omega), Nat.add_sub_cancel_left]
      rfl
    · rw [continued_cons, if_pos (hmore _).1, (hmore _).2, continued_cons, if_pos (hmore n).1,
        (hmore n).2, continued]
      exact congrArg some (by omega)
  · have hbyte := toNat_ofNat_of_lt (show 0xF0 + n / 0x40000 < 256 by omega)
    refine ⟨_, _, n / 0x40000, rfl, by unfold Continues; omega, ?_, ?_⟩
    · rw [hbyte, leadByte_eq (by omega), if_neg (by omega), if_neg (by omega),
        if_neg (by omega), if_neg (by omega), if_pos (by omega), Nat.add_sub_cancel_left]
      rfl
    · rw [continued_cons, if_pos (hmore _).1, (hmore _).2, continued_cons, if_pos (hmore _).1,
        (hmore _).2, continued_cons, if_pos (hmore n).1, (hmore n).2, continued]
      exact congrArg some (by omega)

theorem scalar (c : Char) : c.toNat ≤ 0x10FFFF ∧ ¬ (0xD800 ≤ c.toNat ∧ c.toNat ≤ 0xDFFF) := by
  rcases c.valid with h | ⟨h, h'⟩
  · have h : c.toNat < 0xD800 := h
    omega
  · have h : 0xDFFF < c.toNat := h
    have h' : c.toNat < 0x110000 := h'
    omega

theorem begins_encode (l : List Char) : Begins (encode l) := by
  cases l with
  | nil => simp [encode, Begins]
  | cons c l =>
    obtain ⟨lead, more, cp, hbytes, hlead, -, -⟩ := utf8_spec (scalar c).1
    intro b hb
    rw [encode, flatMap_cons, hbytes] at hb
    obtain rfl : lead = b := by simpa using hb
    exact hlead

theorem decodeUtf8_encode (l : List Char) : decodeUtf8 (encode l) = l.map Char.toNat := by
  induction l with
  | nil => rfl
  | cons c l ih =>
    obtain ⟨lead, more, cp, hbytes, -, hlead, hread⟩ := utf8_spec (scalar c).1
    have hkept := (scalar c).2
    have hmax := (scalar c).1
    rw [encode, flatMap_cons, hbytes, cons_append, decodeUtf8_cons, hlead]
    dsimp only
    rw [if_neg (by simp), take_left, hread, drop_left]
    dsimp only
    rw [if_neg (by omega), map_cons, ← ih]
    rfl

/-- Behind some bytes the text is read as the list it encodes. -/
def Reads (bad : List UInt8) (l : List Char) : Prop :=
  ∃ chars, decodeUtf8 (bad ++ encode l) = chars ++ l.map Char.toNat

theorem not_reads {bad : List UInt8} {c d : Char} (hne : c.toNat ≠ d.toNat)
    (hlen : (encode [c]).length = (encode [d]).length) (h : Starved bad (encode [c]).length) :
    ¬ (Reads bad [c] ∧ Reads bad [d]) := by
  rintro ⟨⟨chars, hc⟩, chars', hd⟩
  rw [decodeUtf8_starved (begins_encode _) (begins_encode _) hlen h, hd] at hc
  have hlast := congrArg List.getLast? hc
  simp only [map_cons, map_nil, List.getLast?_concat] at hlast
  exact hne (Option.some.inj hlast).symm

/-- The loop ends within the bytes and yields scalar values only; and the lists of one encoded
length are read whole behind a prefix exactly when it has no lead byte that promises more bytes
than are left. If it has one, nothing of the list is read. -/
theorem decodeUtf8_resynchronises_iff (bad : List UInt8) (k : Nat) :
    (decodeAt bad (bad.length + 1) 0 = some (decodeUtf8 bad) ∧
        ∀ cp ∈ decodeUtf8 bad, cp ≤ 0x10FFFF ∧ ¬ (0xD800 ≤ cp ∧ cp ≤ 0xDFFF)) ∧
      ((∀ l, (encode l).length = k → Reads bad l) ↔ k = 0 ∨ ¬ Starved bad k) ∧
      (Starved bad k → ∀ l l', (encode l).length = k → (encode l').length = k →
        decodeUtf8 (bad ++ encode l) = decodeUtf8 (bad ++ encode l')) := by
  refine ⟨⟨decodeAt_eq bad _ 0 (Nat.zero_le _) (by omega), decodeFrom_scalar _ _⟩, ?_, ?_⟩
  rotate_left
  · rintro hstarved l l' rfl hlen
    exact decodeUtf8_starved (begins_encode l) (begins_encode l') hlen.symm hstarved
  constructor
  · intro hreads
    by_contra hnot
    obtain ⟨hk, hstarved⟩ := not_or.mp hnot
    rw [not_not] at hstarved
    have hsmall : k < 3 := by
      obtain ⟨-, lead, back, cp, extra, -, hlead, hshort⟩ := hstarved
      rw [leadByte_eq lead.toNat_lt] at hlead
      split_ifs at hlead <;>
        · obtain ⟨-, rfl⟩ := Prod.mk.inj (Option.some.inj hlead)
          omega
    have hone : k = 1 ∨ k = 2 := by omega
    rcases hone with rfl | rfl
    · exact not_reads (c := 'a') (d := 'b') (by decide) (by decide) hstarved
        ⟨hreads _ (by decide), hreads _ (by decide)⟩
    · exact not_reads (c := 'é') (d := 'è') (by decide) (by decide) hstarved
        ⟨hreads _ (by decide), hreads _ (by decide)⟩
  · rintro hsafe l rfl
    rcases hsafe with hempty | hsafe
    · have hl : l = [] := by
        cases l with
        | nil => rfl
        | cons c l =>
            obtain ⟨lead, more, -, hbytes, -⟩ := utf8_spec (scalar c).1
            rw [encode, List.flatMap_cons, hbytes] at hempty
            simp at hempty
      exact ⟨decodeUtf8 (bad ++ encode l), by rw [hl, List.map_nil, List.append_nil]⟩
    · obtain ⟨chars, hchars⟩ := decodeUtf8_append bad (encode l) (begins_encode l) hsafe
      exact ⟨chars, by rw [hchars, decodeUtf8_encode]⟩

/-- The first byte of a character of three costs the letter behind it. -/
theorem lone_lead_costs_a_letter : decodeUtf8 (0xE2 :: encode ['a']) = [] ∧
    ¬ ∀ bad l, Reads bad l := by
  refine ⟨by decide, fun hall => ?_⟩
  obtain ⟨chars, hchars⟩ := hall [0xE2] ['a']
  have hnone : decodeUtf8 ([0xE2] ++ encode ['a']) = [] := by decide
  rw [hnone] at hchars
  simp at hchars

end MoonlightWeb.NativeHost.UinputInput
