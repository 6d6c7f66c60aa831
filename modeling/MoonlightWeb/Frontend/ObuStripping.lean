import MoonlightWeb.Frontend.ObuWalk

/-! # Stripping the units a decoder does not want

A temporal unit is a sequence of units with their sizes. What is left of it are the units
that are neither delimiters nor padding, in their order and byte for byte, if there is one.
-/

namespace MoonlightWeb.Frontend.Av1Utils

open Lib List

/-- A unit with a size, in any of the encodings of its size. -/
structure WrittenObu where
  header : UInt8
  extension : Option UInt8
  digits : List (Fin 128)
  payload : Bytes
  sized : (header >>> 1) &&& 1 ≠ 0
  extended : extension = none ↔ (header >>> 2) &&& 1 = 0
  digits_ne : digits ≠ []
  digits_le : digits.length ≤ 8
  size : Leb128.value digits = payload.length
  small : payload.length < 2 ^ 28

namespace WrittenObu

def bytes (u : WrittenObu) : Bytes :=
  u.header :: (u.extension.toList ++ (Leb128.encode u.digits ++ u.payload))

def obuType (u : WrittenObu) : UInt8 := (u.header >>> 3) &&& 0x0f

def removable (u : WrittenObu) : Bool :=
  u.obuType = OBU_TEMPORAL_DELIMITER ∨ u.obuType = OBU_PADDING

variable (units : List WrittenObu)

def joined : Bytes := units.flatMap bytes

def kept : List WrittenObu := units.filter fun u => !u.removable

/-- What is to be left of a temporal unit. -/
def stripped : Bytes :=
  if kept units = [] then joined units else joined (kept units)

variable {u : WrittenObu}

theorem headerLength_eq (u : WrittenObu) :
    headerLength u.header = 1 + u.extension.toList.length := by
  unfold headerLength
  cases hext : u.extension with
  | none =>
    rw [if_pos (u.extended.mp hext)]
    rfl
  | some e =>
    have hflag : ¬(u.header >>> 2) &&& 1 = 0 := by
      intro hzero
      rw [u.extended.mpr hzero] at hext
      cases hext
    rw [if_neg hflag]
    rfl

theorem bytes_length (u : WrittenObu) :
    u.bytes.length = 1 + u.extension.toList.length + u.digits.length + u.payload.length := by
  simp only [bytes, length_cons, length_append, Leb128.encode_length]
  omega

theorem bytes_ne_nil (u : WrittenObu) : u.bytes ≠ [] := by
  unfold bytes
  exact cons_ne_nil _ _

theorem readLeb128_digits (u : WrittenObu) (after : Bytes) :
    readLeb128 (Leb128.encode u.digits ++ after) =
      some ((u.payload.length : Int), u.digits.length) := by
  have hexact : exactSize (Leb128.encode u.digits ++ after) =
      some ((u.payload.length : Int), u.digits.length) := by
    unfold exactSize
    rw [Leb128.decode_encode u.digits u.digits_ne u.digits_le, ← u.size]
    rfl
  obtain ⟨_, x, hx, _, hsame⟩ := (readLeb128_exact _).2 _ hexact
  have hsmall := u.small
  rw [hx, hsame (by dsimp only; omega)]

theorem readObu_written (u : WrittenObu) (before after : Bytes) :
    readObu readLeb128 (before ++ (u.bytes ++ after)) before.length =
      some ⟨before.length, u.obuType, 1 + u.extension.toList.length, u.digits.length,
        u.payload.length⟩ := by
  have hbyte : byteAt (before ++ (u.bytes ++ after)) before.length = u.header := by
    unfold byteAt
    rw [if_pos (by omega)]
    simp [bytes]
  have hdigits : 0 < u.digits.length := length_pos_of_ne_nil u.digits_ne
  have hroom : ¬((before ++ (u.bytes ++ after)).length : Int) ≤
      before.length + headerLength u.header := by
    rw [headerLength_eq, length_append, length_append, bytes_length]
    push_cast
    omega
  have hdrop : (before ++ (u.bytes ++ after)).drop
      (before.length + headerLength u.header : Int).toNat =
        Leb128.encode u.digits ++ (u.payload ++ after) := by
    have hnat : (before.length + headerLength u.header : Int).toNat =
        before.length + (1 + u.extension.toList.length) := by
      rw [headerLength_eq]
      omega
    rw [hnat, ← drop_drop, drop_left, Nat.add_comm 1]
    simp [bytes]
  unfold readObu
  rw [hbyte, if_neg hroom, if_neg u.sized, hdrop, readLeb128_digits, headerLength_eq]
  rfl

end WrittenObu

theorem slice_append (before middle after : Bytes) :
    slice (before ++ (middle ++ after)) before.length (before.length + middle.length) =
      middle := by
  have hstart : relative (before ++ (middle ++ after)) before.length = before.length := by
    simp [relative]
  have hstop : relative (before ++ (middle ++ after)) (before.length + middle.length) =
      before.length + middle.length := by
    unfold relative
    rw [if_neg (by omega)]
    simp only [length_append]
    omega
  unfold slice
  rw [hstart, hstop, drop_left, Nat.add_sub_cancel_left, take_left]

/-- A range of an array: not empty, and inside the first `stop` bytes. -/
structure Within (stop : Nat) (r : Int × Int) : Prop where
  start : 0 ≤ r.1
  order : r.1 < r.2
  stop : r.2 ≤ stop

variable {data : Bytes} {r : Int × Int}

theorem slice_within (h : Within data.length r) :
    slice data r.1 r.2 = (data.drop r.1.toNat).take (r.2.toNat - r.1.toNat) := by
  obtain ⟨h0, h1, h2⟩ := h
  have hstart : relative data r.1 = r.1.toNat := by
    unfold relative
    rw [if_neg (by omega)]
    omega
  have hstop : relative data r.2 = r.2.toNat := by
    unfold relative
    rw [if_neg (by omega)]
    omega
  unfold slice
  rw [hstart, hstop]

theorem slice_length (h : Within data.length r) :
    ((slice data r.1 r.2).length : Int) = r.2 - r.1 := by
  have h0 := h.start
  have h1 := h.order
  have h2 := h.stop
  rw [slice_within h, length_take, length_drop]
  omega

/-- Two ranges that meet are one. -/
theorem slice_join {s m e : Int} (hs : Within data.length (s, m))
    (he : Within data.length (m, e)) : slice data s e = slice data s m ++ slice data m e := by
  have h0 := hs.start
  have h1 := hs.order
  have h2 := he.order
  have h3 := he.stop
  have hse : Within data.length (s, e) := ⟨h0, h1.trans h2, h3⟩
  have h1' := slice_within hse
  have h2' := slice_within hs
  have h3' := slice_within he
  dsimp only at *
  rw [h1', h2', h3']
  have hsplit : e.toNat - s.toNat = (m.toNat - s.toNat) + (e.toNat - m.toNat) := by omega
  have hmid : m.toNat = s.toNat + (m.toNat - s.toNat) := by omega
  rw [hsplit, take_add, drop_drop]
  congr 3
  omega

namespace Kept

def bytes (data : Bytes) (ranges : List (Int × Int)) : Bytes :=
  ranges.flatMap fun r => slice data r.1 r.2

theorem set_append (before bytes after : Bytes) (n : Nat) (hn : n = bytes.length) :
    set (before ++ (List.replicate n 0 ++ after)) bytes before.length =
      some (before ++ (bytes ++ after)) := by
  subst hn
  unfold set
  rw [if_neg (by simp only [length_append, length_replicate]; push_cast; omega)]
  simp

theorem copy_bytes {data : Bytes} (ranges : List (Int × Int))
    (h : ∀ r ∈ ranges, Within data.length r) (before : Bytes) :
    copy data ranges (before ++ List.replicate (bytes data ranges).length 0) before.length =
      some (before ++ bytes data ranges) := by
  induction ranges generalizing before with
  | nil => simp [copy, bytes]
  | cons r rest ih =>
    have hr := slice_length (h r mem_cons_self)
    have hset := set_append before (slice data r.1 r.2)
      (List.replicate (bytes data rest).length 0) _ rfl
    have hrest := ih (fun r' hr' => h r' (mem_cons_of_mem r hr'))
      (before ++ slice data r.1 r.2)
    have hlen : (bytes data (r :: rest)).length =
        (slice data r.1 r.2).length + (bytes data rest).length := by
      simp [bytes]
    have hpos : (before.length : Int) + (r.2 - r.1) =
        (before ++ slice data r.1 r.2).length := by
      rw [← hr, length_append]
      push_cast
      rfl
    unfold copy
    rw [hlen, replicate_add, hset]
    dsimp only
    rw [hpos, ← append_assoc, hrest, append_assoc]
    rfl

theorem sum_of_ranges {data : Bytes} (ranges : List (Int × Int))
    (h : ∀ r ∈ ranges, Within data.length r) :
    (ranges.map fun r : Int × Int => r.2 - r.1).sum = (bytes data ranges).length := by
  induction ranges with
  | nil => rfl
  | cons r rest ih =>
    have hr := slice_length (h r mem_cons_self)
    have hrest := ih fun r' hr' => h r' (mem_cons_of_mem r hr')
    have hlen : (bytes data (r :: rest)).length =
        (slice data r.1 r.2).length + (bytes data rest).length := by
      simp [bytes]
    rw [map_cons, sum_cons, hrest, hlen, ← hr]
    push_cast
    rfl

end Kept

open WrittenObu

/-- What is kept once the walk has passed some units. -/
structure Passed (data : Bytes) (done : List WrittenObu) (k : Kept) : Prop where
  within : ∀ r ∈ k.ranges, Within (joined done).length r
  bytes : Kept.bytes data k.ranges = joined (kept done)
  removed : k.removed = done.any removable

variable {done : List WrittenObu}

theorem joined_length_le (after : Bytes)
    (hdata : data = joined done ++ after) : (joined done).length ≤ data.length := by
  rw [hdata, length_append]
  omega

theorem Within.mono {n m : Nat} (h : Within n r) (hle : n ≤ m) : Within m r :=
  ⟨h.start, h.order, h.stop.trans (by omega)⟩

theorem joined_snoc (done : List WrittenObu) (u : WrittenObu) :
    joined (done ++ [u]) = joined done ++ u.bytes := by
  simp [joined]

variable {u : WrittenObu}

theorem kept_snoc_removable (h : u.removable = true) :
    kept (done ++ [u]) = kept done := by
  simp [kept, h]

theorem kept_snoc (h : u.removable = false) :
    kept (done ++ [u]) = kept done ++ [u] := by
  simp [kept, h]

variable {k : Kept}

/-- A range more, joined with the last or not. -/
theorem push_bytes {start stop : Int}
    (hk : ∀ r ∈ k.ranges, Within data.length r) (h : Within data.length (start, stop)) :
    Kept.bytes data (k.push start stop).ranges =
        Kept.bytes data k.ranges ++ slice data start stop ∧
      (k.push start stop).removed = k.removed := by
  unfold Kept.push
  cases hlast : k.ranges.getLast? with
  | none =>
    rw [List.getLast?_eq_none_iff] at hlast
    simp [hlast, Kept.bytes]
  | some r =>
    obtain ⟨s, e⟩ := r
    have hsplit : k.ranges = k.ranges.dropLast ++ [(s, e)] :=
      (dropLast_append_getLast? (s, e) hlast).symm
    have hmem : (s, e) ∈ k.ranges := mem_of_getLast? hlast
    dsimp only
    split_ifs with hmeet
    · subst hmeet
      refine ⟨?_, rfl⟩
      conv_rhs => rw [hsplit]
      simp only [Kept.bytes, flatMap_append, flatMap_cons, flatMap_nil,
        append_nil, append_assoc]
      rw [slice_join (hk (s, e) hmem) h]
    · exact ⟨by simp [Kept.bytes], rfl⟩

theorem push_within {start stop : Int} {n : Nat}
    (hk : ∀ r ∈ k.ranges, Within n r) (h : Within n (start, stop)) :
    ∀ r ∈ (k.push start stop).ranges, Within n r := by
  unfold Kept.push
  cases hlast : k.ranges.getLast? with
  | none =>
    intro r hr
    rwa [mem_singleton.mp hr]
  | some r =>
    obtain ⟨s, e⟩ := r
    have hmem : (s, e) ∈ k.ranges := mem_of_getLast? hlast
    dsimp only
    split_ifs with hmeet
    · intro r hr
      rcases mem_append.mp hr with hold | hnew
      · exact hk r (mem_of_mem_dropLast hold)
      · rw [mem_singleton.mp hnew]
        subst hmeet
        exact ⟨(hk _ hmem).start, (hk _ hmem).order.trans h.order, h.stop⟩
    · intro r hr
      rcases mem_append.mp hr with hold | hnew
      · exact hk r hold
      · rwa [mem_singleton.mp hnew]

/-- The unit as the walk reads it behind others. -/
def readAfter (done : List WrittenObu) (u : WrittenObu) : Obu :=
  ⟨(joined done).length, u.obuType, 1 + u.extension.toList.length, u.digits.length,
    u.payload.length⟩

theorem readAfter_stop (done : List WrittenObu) (u : WrittenObu) :
    (readAfter done u).stop = (joined done).length + u.bytes.length := by
  rw [bytes_length]
  unfold Obu.stop Obu.totalObuLen readAfter
  push_cast
  ring

theorem Passed.note {data after : Bytes}
    (h : Passed data done k) (hdata : data = joined done ++ (u.bytes ++ after)) :
    Passed data (done ++ [u]) (k.note (readAfter done u)) := by
  have hlen : (joined (done ++ [u])).length = (joined done).length + u.bytes.length := by
    rw [joined_snoc, length_append]
  have htotal : (joined (done ++ [u])).length ≤ data.length :=
    joined_length_le after (by rw [joined_snoc, hdata, append_assoc])
  have hold : ∀ r ∈ k.ranges, Within (joined (done ++ [u])).length r :=
    fun r hr => (h.within r hr).mono (by omega)
  unfold Kept.note
  by_cases hremovable : u.removable = true
  · have htype : (readAfter done u).obuType = OBU_TEMPORAL_DELIMITER ∨
        (readAfter done u).obuType = OBU_PADDING := of_decide_eq_true hremovable
    rw [if_pos htype]
    exact
      { within := hold
        bytes := by rw [kept_snoc_removable hremovable]; exact h.bytes
        removed := by simp [hremovable] }
  · have hkept : u.removable = false := by simpa using hremovable
    have htype : ¬((readAfter done u).obuType = OBU_TEMPORAL_DELIMITER ∨
        (readAfter done u).obuType = OBU_PADDING) := of_decide_eq_false hkept
    have hne := length_pos_of_ne_nil u.bytes_ne_nil
    have hrange : Within (joined (done ++ [u])).length
        ((joined done).length, (joined done).length + u.bytes.length) :=
      ⟨by dsimp only; omega, by dsimp only; omega, by dsimp only; omega⟩
    have hpush := push_bytes (k := k) (fun r hr => (hold r hr).mono htotal) (hrange.mono htotal)
    rw [if_neg htype, readAfter_stop]
    exact
      { within := push_within hold hrange
        bytes := by
          change Kept.bytes data (k.push (joined done).length
            ((joined done).length + u.bytes.length)).ranges = _
          rw [hpush.1, h.bytes, kept_snoc hkept, joined_snoc]
          congr 1
          rw [hdata]
          exact slice_append _ _ _
        removed := by
          change (k.push (joined done).length
            ((joined done).length + u.bytes.length)).removed = _
          rw [hpush.2, h.removed]
          simp [hkept] }

theorem stripFrom_units (rest done : List WrittenObu) (k : Kept) (fuel : Nat)
    (hdata : data = joined done ++ joined rest) (h : Passed data done k)
    (hfuel : rest.length < fuel) :
    ∃ k', stripFrom data fuel (joined done).length k = some (k'.result data) ∧
      Passed data (done ++ rest) k' := by
  induction rest generalizing done k fuel with
  | nil =>
    obtain ⟨fuel, rfl⟩ : ∃ n, fuel = n + 1 := ⟨fuel - 1, by omega⟩
    refine ⟨k, ?_, by simpa using h⟩
    have hend : ¬((joined done).length : Int) < data.length := by
      rw [hdata]
      simp [joined]
    unfold stripFrom
    rw [if_neg hend]
  | cons u rest ih =>
    obtain ⟨fuel, rfl⟩ : ∃ n, fuel = n + 1 := ⟨fuel - 1, by omega⟩
    have hdata' : data = joined done ++ (u.bytes ++ joined rest) := by
      rw [hdata]
      simp [joined]
    have hread : readObu readLeb128 data (joined done).length = some (readAfter done u) := by
      rw [hdata']
      exact readObu_written u (joined done) (joined rest)
    have hne := length_pos_of_ne_nil u.bytes_ne_nil
    have hlt : ((joined done).length : Int) < data.length := by
      rw [hdata', length_append, length_append]
      omega
    have hfits : ¬(data.length : Int) < (readAfter done u).stop := by
      rw [readAfter_stop, hdata', length_append, length_append]
      omega
    have hstop : (readAfter done u).stop = (joined (done ++ [u])).length := by
      rw [readAfter_stop, joined_snoc, length_append]
      push_cast
      rfl
    obtain ⟨k', hstrip, hpassed⟩ := ih (done ++ [u]) (k.note (readAfter done u)) fuel
      (by rw [joined_snoc, hdata', append_assoc]) (h.note hdata')
      (by simp only [length_cons] at hfuel; omega)
    refine ⟨k', ?_, by simpa using hpassed⟩
    unfold stripFrom
    rw [if_pos hlt, hread]
    dsimp only
    rw [if_neg hfits, hstop, hstrip]

variable {units : List WrittenObu}

theorem kept_eq_self (h : units.any removable = false) :
    kept units = units := by
  unfold kept
  rw [filter_eq_self]
  intro u hu
  have hnot := any_eq_false.mp h u hu
  simpa using hnot

theorem joined_eq_nil_iff : joined units = [] ↔ units = [] := by
  cases units with
  | nil => simp [joined]
  | cons u rest => simp [joined, u.bytes_ne_nil]

theorem ranges_eq_nil_iff {ranges : List (Int × Int)}
    (h : ∀ r ∈ ranges, Within data.length r) : Kept.bytes data ranges = [] ↔ ranges = [] := by
  cases ranges with
  | nil => simp [Kept.bytes]
  | cons r rest =>
    have hr := h r mem_cons_self
    have hlen := slice_length hr
    have horder := hr.order
    have hne : slice data r.1 r.2 ≠ [] := by
      intro hnil
      rw [hnil] at hlen
      simp only [length_nil, Nat.cast_zero] at hlen
      omega
    simp [Kept.bytes, hne]

theorem result_of_passed
    (h : Passed (joined units) units k) : k.result (joined units) = some (stripped units) := by
  have hempty : k.ranges = [] ↔ kept units = [] := by
    rw [← ranges_eq_nil_iff h.within, h.bytes, joined_eq_nil_iff]
  unfold Kept.result stripped
  by_cases hremoved : units.any removable = true
  · by_cases hnone : kept units = []
    · rw [if_pos (Or.inr (hempty.mpr hnone)), if_pos hnone]
    · have hranges : k.ranges ≠ [] := fun hnil => hnone (hempty.mp hnil)
      rw [if_neg (by simp [h.removed, hremoved, hranges]), if_neg hnone, ← h.bytes]
      split
      · rename_i s e hone
        simp [hone, Kept.bytes]
      · have hcopy := Kept.copy_bytes k.ranges h.within []
        rw [Kept.sum_of_ranges k.ranges h.within, if_neg (by omega)]
        simpa using hcopy
  · have hall : units.any removable = false := by simpa using hremoved
    have hkept := kept_eq_self hall
    rw [if_pos (Or.inl (by simp [h.removed, hall])), hkept]
    split_ifs <;> rfl

theorem strip_joined (units : List WrittenObu) (fuel : Nat) (hfuel : units.length < fuel) :
    stripNonEssentialObus fuel (joined units) = some (some (stripped units)) := by
  unfold stripNonEssentialObus
  split_ifs with hshort
  · have hnil : joined units = [] := length_eq_zero_iff.mp (by omega)
    have hunits := joined_eq_nil_iff.mp hnil
    subst hunits
    rfl
  · have hstart : Passed (joined units) [] Kept.nothing :=
      { within := by
          intro r hr
          cases hr
        bytes := rfl
        removed := rfl }
    obtain ⟨k, hstrip, hpassed⟩ := stripFrom_units units [] Kept.nothing fuel
      (by simp [joined]) hstart hfuel
    have hresult := result_of_passed (by simpa using hpassed)
    rw [← hresult]
    exact hstrip

/-- Stripping leaves the units that are neither delimiters nor padding, or, where there is
none, all of them; and stripping again changes nothing. -/
theorem strips_units (units : List WrittenObu) :
    ∃ steps, ∀ fuel, steps ≤ fuel →
      stripNonEssentialObus fuel (joined units) = some (some (stripped units)) ∧
      stripNonEssentialObus fuel (stripped units) = some (some (stripped units)) := by
  refine ⟨units.length + 1, fun fuel hfuel => ⟨strip_joined units fuel (by omega), ?_⟩⟩
  by_cases hnone : kept units = []
  · have hsame : stripped units = joined units := if_pos hnone
    rw [hsame]
    rw [strip_joined units fuel (by omega), hsame]
  · have hsame : stripped units = joined (kept units) := if_neg hnone
    have hle : (kept units).length ≤ units.length := List.length_filter_le _ _
    have htwice : stripped (kept units) = joined (kept units) := by
      have hkept : kept (kept units) = kept units := by simp [kept]
      unfold stripped
      rw [hkept, if_neg hnone]
    rw [hsame, strip_joined (kept units) fuel (by omega), htwice]

/-- A unit that is nothing but a delimiter. -/
def delimiter : WrittenObu where
  header := 0x12
  extension := none
  digits := [0]
  payload := []
  sized := by decide
  extended := by decide
  digits_ne := by decide
  digits_le := by decide
  size := by decide
  small := by decide

theorem delimiter_stays :
    stripNonEssentialObus 2 (joined [delimiter]) = some (some (joined [delimiter])) ∧
      joined (kept [delimiter]) ≠ joined [delimiter] := by
  decide

end MoonlightWeb.Frontend.Av1Utils
