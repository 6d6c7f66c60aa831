import Mathlib
import MoonlightWeb.Qt.QString
import MoonlightWeb.Lib.Lines

/-! # Reading UTF-8

`QString::fromUtf8`: a byte order mark in front is dropped, and each byte that starts
no well-formed sequence becomes one replacement character. An ASCII byte is itself
wherever it stands, so that lines may be cut before or after decoding.
-/

namespace MoonlightWeb.Qt

open Lib List

namespace QString

def ofCodePoint (n : Nat) : QString :=
  if n < 0x10000 then [UInt16.ofNat n]
  else
    [UInt16.ofNat (0xD800 + (n - 0x10000) / 0x400),
      UInt16.ofNat (0xDC00 + (n - 0x10000) % 0x400)]

/-- `isContinuationByte`. -/
def isContinuation (u : UInt8) : Bool := 0x80 ≤ u.toNat && u.toNat < 0xC0

/-- The code point that `count` more bytes complete. -/
def continued (count acc least : Nat) (rest : QByteArray) : Option (Nat × Nat) :=
  let bytes := rest.take count
  if bytes.length = count ∧ bytes.all isContinuation then
    let n := bytes.foldl (fun v u => v * 64 + (u.toNat - 0x80)) acc
    if least ≤ n ∧ n ≤ 0x10FFFF ∧ ¬ (0xD800 ≤ n ∧ n ≤ 0xDFFF) then some (n, count) else none
  else none

/-- The code point a byte starts, and how many bytes more it takes. -/
def sequence (b : UInt8) (rest : QByteArray) : Option (Nat × Nat) :=
  if b.toNat < 0x80 then some (b.toNat, 0)
  else if b.toNat < 0xC2 then none
  else if b.toNat < 0xE0 then continued 1 (b.toNat - 0xC0) 0x80 rest
  else if b.toNat < 0xF0 then continued 2 (b.toNat - 0xE0) 0x800 rest
  else if b.toNat < 0xF5 then continued 3 (b.toNat - 0xF0) 0x10000 rest
  else none

/-- The text of the bytes after the next `skip`. -/
def decodeFrom : Nat → QByteArray → QString
  | _, [] => []
  | skip + 1, _ :: rest => decodeFrom skip rest
  | 0, b :: rest =>
      match sequence b rest with
      | some (n, more) => ofCodePoint n ++ decodeFrom more rest
      | none => 0xFFFD :: decodeFrom 0 rest

def decode (b : QByteArray) : QString := decodeFrom 0 b

def stripBom : QByteArray → QByteArray
  | 0xEF :: 0xBB :: 0xBF :: rest => rest
  | b => b

def fromUtf8 (b : QByteArray) : QString := decode (stripBom b)

@[simp] theorem decode_nil : decode [] = [] := rfl

theorem decodeFrom_eq (skip : Nat) (b : QByteArray) :
    decodeFrom skip b = decode (b.drop skip) := by
  induction b generalizing skip with
  | nil => cases skip <;> rfl
  | cons u rest ih =>
    cases skip with
    | zero => rfl
    | succ skip => exact ih skip

variable {rest : QByteArray} {b : UInt8}

theorem decode_of_some {n more : Nat} (h : sequence b rest = some (n, more)) :
    decode (b :: rest) = ofCodePoint n ++ decode (rest.drop more) := by
  rw [← decodeFrom_eq, decode, decodeFrom, h]

theorem decode_of_none (h : sequence b rest = none) :
    decode (b :: rest) = 0xFFFD :: decode rest := by
  rw [decode, decodeFrom, h]
  rfl

theorem continued_eq_some {count acc least n more : Nat}
    (h : continued count acc least rest = some (n, more)) :
    more = count ∧ count ≤ rest.length ∧ (rest.take count).all isContinuation = true ∧
      least ≤ n ∧ n ≤ 0x10FFFF := by
  unfold continued at h
  dsimp only at h
  split at h
  case isFalse => cases h
  case isTrue hbytes =>
    split at h
    case isFalse => cases h
    case isTrue hrange =>
      obtain ⟨rfl, rfl⟩ := Prod.mk.inj (Option.some.inj h)
      have hlength := hbytes.1
      rw [length_take] at hlength
      exact ⟨rfl, by omega, hbytes.2, hrange.1, hrange.2.1⟩

/-- A sequence depends on its own bytes alone. -/
theorem continued_take {count acc least : Nat} (h : count ≤ rest.length) (t : QByteArray) :
    continued count acc least (rest.take count ++ t) = continued count acc least rest := by
  have htake : (rest.take count ++ t).take count = rest.take count := by
    rw [take_append_of_le_length (by rw [length_take]; omega), take_take,
      Nat.min_self]
  unfold continued
  rw [htake]

/-- A byte that continues nothing ends every sequence. -/
theorem continued_append {count acc least : Nat} (a t : QByteArray) {c : UInt8}
    (hc : c.toNat < 0x80) :
    continued count acc least (a ++ c :: t) = continued count acc least a := by
  by_cases hle : count ≤ a.length
  · unfold continued
    rw [take_append_of_le_length hle]
  · have hshort : ¬ (a.take count).length = count := by
      rw [length_take]
      omega
    have hmem : c ∈ (a ++ c :: t).take count := by
      obtain ⟨k, hk⟩ : ∃ k, count = a.length + (k + 1) := ⟨count - a.length - 1, by omega⟩
      rw [hk, take_append, take_of_length_le (by omega)]
      simp
    have hbroken : ¬ ((a ++ c :: t).take count).all isContinuation = true := by
      intro hall
      have hcontinues := all_eq_true.mp hall c hmem
      simp only [isContinuation, Bool.and_eq_true, decide_eq_true_eq] at hcontinues
      omega
    unfold continued
    dsimp only
    rw [if_neg fun h => hbroken h.2, if_neg fun h => hshort h.1]

theorem sequence_append (b : UInt8) (a t : QByteArray) {c : UInt8} (hc : c.toNat < 0x80) :
    sequence b (a ++ c :: t) = sequence b a := by
  unfold sequence
  simp only [continued_append a t hc]

theorem sequence_ascii (h : b.toNat < 0x80) (rest : QByteArray) :
    sequence b rest = some (b.toNat, 0) := by
  rw [sequence, if_pos h]

variable {n : Nat}

theorem ofCodePoint_ascii (h : n < 0x80) : ofCodePoint n = [UInt16.ofNat n] := by
  rw [ofCodePoint, if_pos (by omega)]

theorem decode_ascii (h : b.toNat < 0x80) (rest : QByteArray) :
    decode (b :: rest) = UInt16.ofNat b.toNat :: decode rest := by
  rw [decode_of_some (sequence_ascii h rest), ofCodePoint_ascii h]
  rfl

/-- What a longer sequence takes: continuation bytes, for a code point beyond ASCII. -/
theorem sequence_eq_some {n more : Nat}
    (h : sequence b rest = some (n, more)) (hb : ¬ b.toNat < 0x80) :
    (0x80 ≤ n ∧ n ≤ 0x10FFFF) ∧ more ≤ rest.length ∧ (∀ u ∈ rest.take more, 0x80 ≤ u.toNat) ∧
      ∀ t, sequence b (rest.take more ++ t) = some (n, more) := by
  have hkey : ∀ count acc least, 0x80 ≤ least →
      (∀ r, sequence b r = continued count acc least r) →
      (0x80 ≤ n ∧ n ≤ 0x10FFFF) ∧ more ≤ rest.length ∧
        (∀ u ∈ rest.take more, 0x80 ≤ u.toNat) ∧
        ∀ t, sequence b (rest.take more ++ t) = some (n, more) := by
    intro count acc least hleast hsequence
    rw [hsequence] at h
    obtain ⟨rfl, hlength, hall, hn, hmax⟩ := continued_eq_some h
    refine ⟨⟨by omega, hmax⟩, hlength, ?_, ?_⟩
    · intro u hu
      have hcontinues := all_eq_true.mp hall u hu
      simp only [isContinuation, Bool.and_eq_true, decide_eq_true_eq] at hcontinues
      exact hcontinues.1
    · intro t
      rw [hsequence, continued_take hlength, h]
  by_cases hshort : b.toNat < 0xC2
  · rw [sequence, if_neg hb, if_pos hshort] at h
    cases h
  · by_cases htwo : b.toNat < 0xE0
    · refine hkey 1 (b.toNat - 0xC0) 0x80 (by omega) fun r => ?_
      rw [sequence, if_neg hb, if_neg hshort, if_pos htwo]
    · by_cases hthree : b.toNat < 0xF0
      · refine hkey 2 (b.toNat - 0xE0) 0x800 (by omega) fun r => ?_
        rw [sequence, if_neg hb, if_neg hshort, if_neg htwo, if_pos hthree]
      · by_cases hfour : b.toNat < 0xF5
        · refine hkey 3 (b.toNat - 0xF0) 0x10000 (by omega) fun r => ?_
          rw [sequence, if_neg hb, if_neg hshort, if_neg htwo, if_neg hthree, if_pos hfour]
        · rw [sequence, if_neg hb, if_neg hshort, if_neg htwo, if_neg hthree, if_neg hfour] at h
          cases h

variable (a t : QByteArray)

/-- An ASCII byte is itself wherever it stands. -/
theorem decode_append {c : UInt8} (hc : c.toNat < 0x80) :
    decode (a ++ c :: t) = decode a ++ UInt16.ofNat c.toNat :: decode t := by
  induction hl : a.length using Nat.strong_induction_on generalizing a with
  | _ length ih =>
    cases a with
    | nil => exact decode_ascii hc t
    | cons b a =>
      have hless : a.length < length := by
        rw [← hl, length_cons]
        omega
      have hsequence := sequence_append b a t hc
      cases h : sequence b a with
      | none =>
        rw [h] at hsequence
        rw [cons_append, decode_of_none hsequence, decode_of_none h,
          ih a.length hless a rfl]
        rfl
      | some r =>
        obtain ⟨n, more⟩ := r
        rw [h] at hsequence
        have hmore : more ≤ a.length := by
          by_cases hb : b.toNat < 0x80
          · rw [sequence_ascii hb] at h
            obtain ⟨_, rfl⟩ := Prod.mk.inj (Option.some.inj h)
            omega
          · exact (sequence_eq_some h hb).2.1
        rw [cons_append, decode_of_some hsequence, decode_of_some h,
          drop_append_of_le_length hmore,
          ih (a.drop more).length (by rw [length_drop]; omega) (a.drop more) rfl,
          append_assoc]

theorem ofCodePoint_units (h : 0x80 ≤ n) (hn : n ≤ 0x10FFFF) :
    ∀ u ∈ ofCodePoint n, 0x80 ≤ u.toNat := by
  intro u hu
  unfold ofCodePoint at hu
  split at hu
  · obtain rfl := mem_singleton.mp hu
    simp only [UInt16.toNat_ofNat', Nat.reducePow]
    omega
  · simp only [mem_cons, not_mem_nil, or_false] at hu
    cases hu with
    | inl hu =>
      subst hu
      simp only [UInt16.toNat_ofNat', Nat.reducePow]
      omega
    | inr hu =>
      subst hu
      simp only [UInt16.toNat_ofNat', Nat.reducePow]
      omega

/-- A byte beyond ASCII, with those of its sequence, yields units beyond ASCII, whatever
follows up to an ASCII byte. -/
theorem decode_wide (hb : ¬ b.toNat < 0x80) (rest : QByteArray) :
    ∃ bytes t units, rest = bytes ++ t ∧ (∀ u ∈ bytes, 0x80 ≤ u.toNat) ∧ units ≠ [] ∧
      (∀ u ∈ units, 0x80 ≤ u.toNat) ∧ decode (b :: rest) = units ++ decode t ∧
      ∀ l e, t = l ++ e → (∀ c ∈ e.head?, c.toNat < 0x80) →
        decode (b :: (bytes ++ l)) = units ++ decode l := by
  cases h : sequence b rest with
  | none =>
    refine ⟨[], rest, [0xFFFD], rfl, by simp, by simp, by simp, decode_of_none h, ?_⟩
    intro l e he hascii
    have hnone : sequence b l = none := by
      cases e with
      | nil =>
        rw [append_nil] at he
        exact he ▸ h
      | cons c e =>
        rw [he, sequence_append b l e (hascii c rfl)] at h
        exact h
    exact decode_of_none hnone
  | some r =>
    obtain ⟨n, more⟩ := r
    obtain ⟨⟨hwide, hmax⟩, hmore, hbytes, hsame⟩ := sequence_eq_some h hb
    have hunits : ofCodePoint n ≠ [] := by
      unfold ofCodePoint
      split <;> simp
    refine ⟨rest.take more, rest.drop more, ofCodePoint n, (take_append_drop _ _).symm,
      hbytes, hunits, ofCodePoint_units hwide hmax, decode_of_some h, ?_⟩
    intro l e _ _
    have hlength : (rest.take more).length = more := by
      rw [length_take]
      omega
    rw [decode_of_some (hsame l), drop_append_of_le_length (by omega),
      drop_of_length_le (by omega), nil_append]

theorem decode_eq_nil {b : QByteArray} (h : decode b = []) : b = [] := by
  cases b with
  | nil => rfl
  | cons u rest =>
    by_cases hu : u.toNat < 0x80
    · rw [decode_ascii hu] at h
      cases h
    · obtain ⟨_, _, units, _, _, hne, _, hdecode, _⟩ := decode_wide hu rest
      rw [hdecode, append_eq_nil_iff] at h
      exact absurd h.1 hne

theorem decode_head {s : QString} (h : decode rest = 0x0A :: s) :
    ∃ r, rest = 0x0A :: r := by
  cases rest with
  | nil => cases h
  | cons b rest =>
    by_cases hb : b.toNat < 0x80
    · rw [decode_ascii hb] at h
      have hunit := congrArg UInt16.toNat (List.cons.inj h).1
      simp only [UInt16.toNat_ofNat', Nat.reducePow] at hunit
      have hbyte : b.toNat = 0x0A := by
        rw [Nat.mod_eq_of_lt (by omega)] at hunit
        exact hunit
      obtain rfl : b = 0x0A := UInt8.toNat_inj.mp hbyte
      exact ⟨rest, rfl⟩
    · obtain ⟨_, _, units, _, _, hne, hunits, hdecode, _⟩ := decode_wide hb rest
      cases units with
      | nil => exact absurd rfl hne
      | cons u units =>
        rw [hdecode] at h
        obtain rfl : u = 0x0A := (List.cons.inj h).1
        have hwide := hunits 0x0A mem_cons_self
        simp at hwide

/-- `\r\n` in a text, and among bytes. -/
abbrev textLines (s : QString) : List QString := splitLines 0x0D 0x0A s

abbrev byteLines (b : QByteArray) : List QByteArray := splitLines 0x0D 0x0A b

theorem decode_break :
    decode (a ++ 0x0D :: 0x0A :: t) = decode a ++ 0x0D :: 0x0A :: decode t := by
  rw [decode_append a _ (by decide), decode_ascii (by decide)]
  rfl

theorem textLines_decode (b : QByteArray) : textLines (decode b) = (byteLines b).map decode := by
  induction hl : b.length using Nat.strong_induction_on generalizing b with
  | _ length ih =>
    cases b with
    | nil => rfl
    | cons b rest =>
      rw [length_cons] at hl
      have hlines : ∃ l lines, byteLines rest = l :: lines := by
        cases hrest : byteLines rest with
        | nil => exact absurd hrest (splitLines_ne_nil _ _ rest)
        | cons l lines => exact ⟨l, lines, rfl⟩
      by_cases hb : b.toNat < 0x80
      · by_cases hbreak : [0x0D, 0x0A] <+: b :: rest
        · obtain ⟨r, hr⟩ := hbreak
          have hr : 0x0D :: 0x0A :: r = b :: rest := hr
          obtain ⟨rfl, rfl⟩ := List.cons.inj hr
          have hcut := decode_break [] r
          rw [nil_append, decode_nil, nil_append] at hcut
          rw [hcut, textLines, byteLines, splitLines_break,
            splitLines_break, map_cons, decode_nil]
          congr 1
          exact ih r.length (by simp at hl; omega) r rfl
        · have hno : ¬ [0x0D, 0x0A] <+: UInt16.ofNat b.toNat :: decode rest := by
            intro h
            obtain ⟨hcr, hrest⟩ := cons_prefix_cons.mp h
            obtain ⟨s, hs⟩ := hrest
            obtain ⟨r, rfl⟩ := decode_head hs.symm
            have hunit := congrArg UInt16.toNat hcr
            simp only [UInt16.toNat_ofNat', Nat.reducePow] at hunit
            have hbyte : b.toNat = 0x0D := by
              rw [Nat.mod_eq_of_lt (by omega)] at hunit
              exact hunit.symm
            obtain rfl : b = 0x0D := UInt8.toNat_inj.mp hbyte
            exact hbreak ⟨r, rfl⟩
          obtain ⟨l, lines, hsplit⟩ := hlines
          have hrest := ih rest.length (by omega) rest rfl
          rw [decode_ascii hb, textLines, byteLines, splitLines_cons hno,
            splitLines_cons hbreak]
          rw [textLines, byteLines] at hrest
          rw [byteLines] at hsplit
          rw [hrest, hsplit, map_cons, modifyHead_cons, modifyHead_cons,
            map_cons, decode_ascii hb]
      · obtain ⟨bytes, t, units, rfl, hbytes, _, hunits, hdecode, hgo⟩ :=
          decode_wide hb rest
        have hfront : ∀ u ∈ b :: bytes, u ≠ 0x0D := by
          intro u hu hcr
          subst hcr
          cases mem_cons.mp hu with
          | inl hu =>
            subst hu
            exact hb (by decide)
          | inr hu => exact absurd (hbytes _ hu) (by decide)
        have hwide : ∀ u ∈ units, u ≠ 0x0D := by
          intro u hu hcr
          subst hcr
          exact absurd (hunits _ hu) (by decide)
        have hrest := ih t.length (by rw [length_append] at hl; omega) t rfl
        rw [hdecode, textLines, byteLines, splitLines_front hwide, ← cons_append,
          splitLines_front hfront]
        rw [textLines, byteLines] at hrest
        rw [hrest]
        cases hsplit : splitLines 0x0D 0x0A t with
        | nil => exact absurd hsplit (splitLines_ne_nil _ _ t)
        | cons l lines =>
          obtain ⟨e, he, hend⟩ := splitLines_head (s := t) (l := l) (by rw [hsplit]; rfl)
          have hascii : ∀ c ∈ e.head?, c.toNat < 0x80 := by
            intro c hc
            cases hend with
            | inl hnil =>
              subst hnil
              cases hc
            | inr hbreak =>
              obtain ⟨r, rfl⟩ := hbreak
              obtain rfl : 0x0D = c := by simpa using hc
              decide
          rw [map_cons, modifyHead_cons, modifyHead_cons, map_cons,
            cons_append, hgo l e he hascii]

theorem stripBom_append :
    stripBom (a ++ 0x0D :: t) = stripBom a ++ 0x0D :: t := by
  by_cases hbom : ∃ rest, a = 0xEF :: 0xBB :: 0xBF :: rest
  · obtain ⟨rest, rfl⟩ := hbom
    rfl
  · have hsame : ∀ b : QByteArray, (¬ ∃ rest, b = 0xEF :: 0xBB :: 0xBF :: rest) →
        stripBom b = b := by
      intro b hb
      unfold stripBom
      split
      case h_1 rest => exact absurd ⟨rest, rfl⟩ hb
      case h_2 => rfl
    have hlonger : ¬ ∃ rest, a ++ 0x0D :: t = 0xEF :: 0xBB :: 0xBF :: rest := by
      rintro ⟨rest, hrest⟩
      match a, hbom, hrest with
      | [], _, hrest => cases hrest
      | [_], _, hrest => cases hrest
      | [_, _], _, hrest => cases hrest
      | _ :: _ :: _ :: more, hbom, hrest =>
        cases hrest
        exact hbom ⟨more, rfl⟩
    rw [hsame _ hlonger, hsame a hbom]

theorem tail_byteLines_stripBom (b : QByteArray) :
    (byteLines (stripBom b)).tail = (byteLines b).tail := by
  unfold stripBom
  split
  case h_1 rest =>
      have hfront : ∀ u ∈ ([0xEF, 0xBB, 0xBF] : QByteArray), u ≠ 0x0D := by simp
      have hlines : splitLines 0x0D 0x0A ([0xEF, 0xBB, 0xBF] ++ rest) =
          (splitLines 0x0D 0x0A rest).modifyHead ([0xEF, 0xBB, 0xBF] ++ ·) :=
        splitLines_front hfront rest
      rw [byteLines, byteLines]
      change _ = (splitLines 0x0D 0x0A ([0xEF, 0xBB, 0xBF] ++ rest)).tail
      rw [hlines]
      cases splitLines 0x0D 0x0A rest <;> rfl
  case h_2 => rfl

/-- Lines of a text with a break in it, when the bytes before and after are known. -/
theorem textLines_fromUtf8 :
    textLines (fromUtf8 (a ++ 0x0D :: 0x0A :: t)) =
      textLines (fromUtf8 a) ++ textLines (decode t) := by
  unfold fromUtf8
  rw [stripBom_append, decode_break, textLines, splitLines_append (by decide)]

/-- The bytes are a text, encoded. -/
def ValidUtf8 (b : QByteArray) : Prop := ∃ cs : List Char, b = cs.flatMap fun c => utf8 c.toNat

theorem decode_utf8 (hmax : n ≤ 0x10FFFF) (hscalar : ¬ (0xD800 ≤ n ∧ n ≤ 0xDFFF))
    (t : QByteArray) : decode (utf8 n ++ t) = ofCodePoint n ++ decode t := by
  have hcontinues : ∀ m, m < 0x40 → isContinuation (UInt8.ofNat (0x80 + m)) = true ∧
      (UInt8.ofNat (0x80 + m)).toNat = 0x80 + m := by
    intro m hm
    have hbyte : (UInt8.ofNat (0x80 + m)).toNat = 0x80 + m := by
      rw [UInt8.toNat_ofNat', Nat.mod_eq_of_lt (by omega)]
    refine ⟨?_, hbyte⟩
    simp only [isContinuation, hbyte, Bool.and_eq_true, decide_eq_true_eq]
    omega
  have hlast := hcontinues (n % 0x40) (by omega)
  have hmiddle := hcontinues (n / 0x40 % 0x40) (by omega)
  have hfirst := hcontinues (n / 0x1000 % 0x40) (by omega)
  unfold utf8
  by_cases hone : n < 0x80
  · have hbyte : (UInt8.ofNat n).toNat = n := by
      rw [UInt8.toNat_ofNat', Nat.mod_eq_of_lt (by omega)]
    rw [if_pos hone, singleton_append, decode_ascii (by omega), hbyte,
      ofCodePoint_ascii hone]
    rfl
  · rw [if_neg hone]
    by_cases htwo : n < 0x800
    · have hlead : (UInt8.ofNat (0xC0 + n / 0x40)).toNat = 0xC0 + n / 0x40 := by
        rw [UInt8.toNat_ofNat', Nat.mod_eq_of_lt (by omega)]
      have hsequence : sequence (UInt8.ofNat (0xC0 + n / 0x40))
          (UInt8.ofNat (0x80 + n % 0x40) :: t) = some (n, 1) := by
        unfold sequence continued
        simp only [hlead, take_succ_cons, take_zero, all_cons, all_nil,
          hlast.1, hlast.2, foldl_cons, foldl_nil, length_cons, length_nil]
        rw [if_neg (by omega), if_neg (by omega), if_pos (by omega), if_pos (by simp),
          if_pos (by omega)]
        refine congrArg (fun v => some (v, 1)) ?_
        omega
      rw [if_pos htwo, cons_append, singleton_append, decode_of_some hsequence,
        drop_succ_cons, drop_zero]
    · rw [if_neg htwo]
      by_cases hthree : n < 0x10000
      · have hlead : (UInt8.ofNat (0xE0 + n / 0x1000)).toNat = 0xE0 + n / 0x1000 := by
          rw [UInt8.toNat_ofNat', Nat.mod_eq_of_lt (by omega)]
        have hsequence : sequence (UInt8.ofNat (0xE0 + n / 0x1000))
            (UInt8.ofNat (0x80 + n / 0x40 % 0x40) :: UInt8.ofNat (0x80 + n % 0x40) :: t) =
              some (n, 2) := by
          unfold sequence continued
          simp only [hlead, take_succ_cons, take_zero, all_cons, all_nil,
            hlast.1, hlast.2, hmiddle.1, hmiddle.2, foldl_cons, foldl_nil,
            length_cons, length_nil]
          rw [if_neg (by omega), if_neg (by omega), if_neg (by omega), if_pos (by omega),
            if_pos (by simp), if_pos (by omega)]
          refine congrArg (fun v => some (v, 2)) ?_
          omega
        rw [if_pos hthree, cons_append, cons_append, singleton_append,
          decode_of_some hsequence, drop_succ_cons, drop_succ_cons, drop_zero]
      · have hlead : (UInt8.ofNat (0xF0 + n / 0x40000)).toNat = 0xF0 + n / 0x40000 := by
          rw [UInt8.toNat_ofNat', Nat.mod_eq_of_lt (by omega)]
        have hsequence : sequence (UInt8.ofNat (0xF0 + n / 0x40000))
            (UInt8.ofNat (0x80 + n / 0x1000 % 0x40) :: UInt8.ofNat (0x80 + n / 0x40 % 0x40) ::
              UInt8.ofNat (0x80 + n % 0x40) :: t) = some (n, 3) := by
          unfold sequence continued
          simp only [hlead, take_succ_cons, take_zero, all_cons, all_nil,
            hlast.1, hlast.2, hmiddle.1, hmiddle.2, hfirst.1, hfirst.2, foldl_cons,
            foldl_nil, length_cons, length_nil]
          rw [if_neg (by omega), if_neg (by omega), if_neg (by omega), if_neg (by omega),
            if_pos (by omega), if_pos (by simp), if_pos (by omega)]
          refine congrArg (fun v => some (v, 3)) ?_
          omega
        rw [if_neg hthree, cons_append, cons_append, cons_append,
          singleton_append, decode_of_some hsequence, drop_succ_cons,
          drop_succ_cons, drop_succ_cons, drop_zero]

theorem codePoints_ofCodePoint (hmax : n ≤ 0x10FFFF)
    (hscalar : ¬ (0xD800 ≤ n ∧ n ≤ 0xDFFF)) (s : QString) :
    codePoints (ofCodePoint n ++ s) = n :: codePoints s := by
  have hunit : ∀ m, m < 0x10000 → (UInt16.ofNat m).toNat = m := by
    intro m hm
    rw [UInt16.toNat_ofNat', Nat.mod_eq_of_lt (by omega)]
  unfold ofCodePoint
  by_cases hsmall : n < 0x10000
  · rw [if_pos hsmall, singleton_append]
    have hn := hunit n hsmall
    have hhigh : ¬ (0xD800 ≤ UInt16.ofNat n ∧ UInt16.ofNat n ≤ 0xDBFF) := by
      rw [UInt16.le_iff_toNat_le, UInt16.le_iff_toNat_le, hn]
      simp
      omega
    have hlow : ¬ (0xDC00 ≤ UInt16.ofNat n ∧ UInt16.ofNat n ≤ 0xDFFF) := by
      rw [UInt16.le_iff_toNat_le, UInt16.le_iff_toNat_le, hn]
      simp
      omega
    have hboth : ¬ (0xD800 ≤ UInt16.ofNat n ∧ UInt16.ofNat n ≤ 0xDFFF) := by
      rw [UInt16.le_iff_toNat_le, UInt16.le_iff_toNat_le, hn]
      simp
      omega
    cases s with
    | nil =>
      change codePoints [UInt16.ofNat n] = [n]
      rw [codePoints, if_neg hboth, hn]
    | cons v s => rw [codePoints, if_neg hhigh, if_neg hlow, hn]
  · rw [if_neg hsmall, cons_append, singleton_append]
    have hfirst := hunit (0xD800 + (n - 0x10000) / 0x400) (by omega)
    have hsecond := hunit (0xDC00 + (n - 0x10000) % 0x400) (by omega)
    have hhigh : 0xD800 ≤ UInt16.ofNat (0xD800 + (n - 0x10000) / 0x400) ∧
        UInt16.ofNat (0xD800 + (n - 0x10000) / 0x400) ≤ 0xDBFF := by
      rw [UInt16.le_iff_toNat_le, UInt16.le_iff_toNat_le, hfirst]
      simp
      omega
    have hlow : 0xDC00 ≤ UInt16.ofNat (0xDC00 + (n - 0x10000) % 0x400) ∧
        UInt16.ofNat (0xDC00 + (n - 0x10000) % 0x400) ≤ 0xDFFF := by
      rw [UInt16.le_iff_toNat_le, UInt16.le_iff_toNat_le, hsecond]
      simp
      omega
    rw [codePoints, if_pos hhigh, if_pos hlow, hfirst, hsecond]
    refine congrArg (· :: codePoints s) ?_
    omega

theorem toUtf8_decode {b : QByteArray} (h : ValidUtf8 b) : toUtf8 (decode b) = b := by
  obtain ⟨cs, rfl⟩ := h
  induction cs with
  | nil => rfl
  | cons c cs ih =>
    have hvalid : c.toNat ≤ 0x10FFFF ∧ ¬ (0xD800 ≤ c.toNat ∧ c.toNat ≤ 0xDFFF) := by
      have hchar : c.toNat.isValidChar := c.valid
      unfold Nat.isValidChar at hchar
      omega
    rw [flatMap_cons, decode_utf8 hvalid.1 hvalid.2, toUtf8,
      codePoints_ofCodePoint hvalid.1 hvalid.2, flatMap_cons]
    rw [toUtf8] at ih
    rw [ih]

end QString

end MoonlightWeb.Qt

/-! ## Well-formed UTF-16

A `QString` may hold surrogates without their partners. One that was decoded from bytes
does not, and a plain text put between two characters leaves it so.
-/

namespace MoonlightWeb.Qt.QString

/-- `QChar::isHighSurrogate`. -/
def isHighSurrogate (u : UInt16) : Bool := 0xD800 ≤ u.toNat && u.toNat ≤ 0xDBFF

/-- `QChar::isLowSurrogate`. -/
def isLowSurrogate (u : UInt16) : Bool := 0xDC00 ≤ u.toNat && u.toNat ≤ 0xDFFF

/-- `isValidUtf16`: each high surrogate is before a low one, and each low one after it. -/
def isValidUtf16 : QString → Bool
  | [] => true
  | [u] => !isHighSurrogate u && !isLowSurrogate u
  | u :: v :: rest =>
      if isHighSurrogate u then isLowSurrogate v && isValidUtf16 rest
      else !isLowSurrogate u && isValidUtf16 (v :: rest)

/-- A character of one unit. -/
def Plain (u : UInt16) : Prop := u.toNat < 0xD800

instance : DecidablePred Plain := fun u => inferInstanceAs (Decidable (u.toNat < 0xD800))

variable {u : UInt16}

theorem Plain.not_high (h : Plain u) : isHighSurrogate u = false := by
  unfold Plain at h
  simp [isHighSurrogate]
  omega

theorem Plain.not_low (h : Plain u) : isLowSurrogate u = false := by
  unfold Plain at h
  simp [isLowSurrogate]
  omega

theorem isValidUtf16_cons (hhigh : isHighSurrogate u = false)
    (hlow : isLowSurrogate u = false) (s : QString) :
    isValidUtf16 (u :: s) = isValidUtf16 s := by
  cases s with
  | nil => simp [isValidUtf16, hhigh, hlow]
  | cons v s => simp [isValidUtf16, hhigh, hlow]

variable {s : QString}

theorem isValidUtf16_append (h : isValidUtf16 s = true) (t : QString) :
    isValidUtf16 (s ++ t) = isValidUtf16 t := by
  induction s using isValidUtf16.induct with
  | case1 => rfl
  | case2 u =>
    rw [isValidUtf16, Bool.and_eq_true, Bool.not_eq_true', Bool.not_eq_true'] at h
    exact isValidUtf16_cons h.1 h.2 t
  | case3 u v rest hhigh ih =>
    rw [isValidUtf16, if_pos hhigh, Bool.and_eq_true] at h
    rw [List.cons_append, List.cons_append, isValidUtf16, if_pos hhigh, h.1, Bool.true_and]
    exact ih h.2
  | case4 u v rest hhigh ih =>
    rw [isValidUtf16, if_neg hhigh, Bool.and_eq_true, Bool.not_eq_true'] at h
    rw [List.cons_append, isValidUtf16_cons (by simpa using hhigh) h.1]
    exact ih h.2

/-- What stands before a plain character is a text of its own. -/
theorem isValidUtf16_front {t : QString} (hu : Plain u)
    (h : isValidUtf16 (s ++ u :: t) = true) : isValidUtf16 s = true := by
  induction s using isValidUtf16.induct with
  | case1 => rfl
  | case2 v =>
    rw [List.singleton_append, isValidUtf16, hu.not_low, Bool.false_and] at h
    split_ifs at h with hhigh
    rw [Bool.and_eq_true] at h
    rw [isValidUtf16, h.1, Bool.and_true, Bool.not_eq_true']
    simpa using hhigh
  | case3 v w rest hhigh ih =>
    rw [List.cons_append, List.cons_append, isValidUtf16, if_pos hhigh, Bool.and_eq_true] at h
    rw [isValidUtf16, if_pos hhigh, h.1, ih h.2]
    rfl
  | case4 v w rest hhigh ih =>
    rw [List.cons_append, List.cons_append, isValidUtf16, if_neg hhigh, Bool.and_eq_true] at h
    rw [isValidUtf16, if_neg hhigh, h.1, ih h.2]
    rfl

theorem isValidUtf16_plain (h : ∀ u ∈ s, Plain u) : isValidUtf16 s = true := by
  induction s with
  | nil => rfl
  | cons u s ih =>
    have hu := h u (List.mem_cons_self ..)
    rw [isValidUtf16_cons hu.not_high hu.not_low]
    exact ih fun v hv => h v (List.mem_cons_of_mem u hv)

theorem isValidUtf16_insert {s t ins : QString} {u : UInt16} (hu : Plain u)
    (hins : ∀ v ∈ ins, Plain v) (h : isValidUtf16 (s ++ u :: t) = true) :
    isValidUtf16 (s ++ u :: (ins ++ t)) = true := by
  have hfront := isValidUtf16_front hu h
  rw [isValidUtf16_append hfront, isValidUtf16_cons hu.not_high hu.not_low] at h ⊢
  rw [isValidUtf16_append (isValidUtf16_plain hins), h]

end MoonlightWeb.Qt.QString
