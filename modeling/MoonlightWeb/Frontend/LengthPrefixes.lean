import MoonlightWeb.Frontend.Mp4Muxer

/-! # Units split and put behind length prefixes

The units of a buffer come out as they were joined, and the output of `toAvcc` holds, each
behind its length, those that are meant for the decoder.
-/

namespace MoonlightWeb.Frontend.Mp4Muxer

open Lib AnnexB Bytes List

variable (n : Bytes)

def isParam264 : Bool := h264Type n = H264_SPS ∨ h264Type n = H264_PPS

def isParamHevc : Bool :=
  hevcType n = HEVC_VPS ∨ hevcType n = HEVC_SPS ∨ hevcType n = HEVC_PPS

/-- Too short for the header of an HEVC unit. -/
def isShort : Bool := n.length < 2

def isIrap : Bool := 2 ≤ n.length ∧ 16 ≤ hevcType n ∧ hevcType n ≤ 21

/-- Where parameter sets are stripped, all but these is kept, and for HEVC nothing with a
header before the first IRAP unit. -/
def meant (m : Mode) (units : List Bytes) : List Bytes :=
  if m.stripParams && !m.useAnnexB then
    match m.codec with
    | some .h264 => units.filter fun n => !isParam264 n
    | some .hevc =>
        (units.takeWhile fun n => !isIrap n).filter isShort ++
          (units.dropWhile fun n => !isIrap n).filter fun n => isShort n || !isParamHevc n
    | none => units.filter fun n => !(isShort n && isParam264 n)
  else units

section Selected

variable {m : Mode} {units : List Bytes}

theorem selected_all (h : (m.stripParams && !m.useAnnexB) = false) (irap : Bool)
    (hne : ∀ n ∈ units, n ≠ []) : selected m irap units = units := by
  induction units with
  | nil => rfl
  | cons n rest ih =>
    have hlen : ¬n.length < 1 := by
      have := length_pos_of_ne_nil (hne n mem_cons_self)
      omega
    have hstrips : strips m irap n = (false, irap) := by simp [strips, h]
    unfold selected
    rw [if_neg hlen, hstrips]
    simp only [Bool.false_eq_true, if_false]
    rw [ih fun n' hn' => hne n' (mem_cons_of_mem n hn')]

variable (h : (m.stripParams && !m.useAnnexB) = true)

include h

theorem selected_h264 (hc : m.codec = some .h264)
    (irap : Bool) (hne : ∀ n ∈ units, n ≠ []) :
    selected m irap units = units.filter fun n => !isParam264 n := by
  induction units with
  | nil => rfl
  | cons n rest ih =>
    have hlen : ¬n.length < 1 := by
      have := length_pos_of_ne_nil (hne n mem_cons_self)
      omega
    have hstrips : strips m irap n = (isParam264 n, irap) := by
      unfold strips isParam264
      rw [if_pos h, hc]
      by_cases hparam : h264Type n = H264_SPS ∨ h264Type n = H264_PPS
      · simp [hparam]
      · simp [hparam]
    unfold selected
    rw [if_neg hlen, hstrips, ih fun n' hn' => hne n' (mem_cons_of_mem n hn')]
    by_cases hparam : isParam264 n = true
    · simp [hparam]
    · simp [hparam]

theorem selected_none (hc : m.codec = none)
    (irap : Bool) (hne : ∀ n ∈ units, n ≠ []) :
    selected m irap units = units.filter fun n => !(isShort n && isParam264 n) := by
  induction units with
  | nil => rfl
  | cons n rest ih =>
    have hlen : ¬n.length < 1 := by
      have := length_pos_of_ne_nil (hne n mem_cons_self)
      omega
    have hstrips : strips m irap n = (isShort n && isParam264 n, irap) := by
      unfold strips isParam264 isShort
      rw [if_pos h, hc]
      by_cases hshort : n.length < 2
      · by_cases hparam : h264Type n = H264_SPS ∨ h264Type n = H264_PPS
        · simp [hshort, hparam]
        · simp [hshort, hparam]
      · simp [hshort]
    unfold selected
    rw [if_neg hlen, hstrips, ih fun n' hn' => hne n' (mem_cons_of_mem n hn')]
    by_cases hparam : (isShort n && isParam264 n) = true
    · rw [if_pos hparam, filter_cons_of_neg (by rw [hparam]; decide)]
    · have hkept : (!(isShort n && isParam264 n)) = true := by
        rw [Bool.not_eq_true']
        exact Bool.eq_false_iff.mpr hparam
      rw [if_neg hparam, filter_cons, if_pos hkept]

/-- Once an IRAP unit was found, only parameter sets go. -/
theorem selected_found (hc : m.codec = some .hevc)
    (hne : ∀ n ∈ units, n ≠ []) :
    selected m true units = units.filter fun n => isShort n || !isParamHevc n := by
  induction units with
  | nil => rfl
  | cons n rest ih =>
    have hlen : ¬n.length < 1 := by
      have := length_pos_of_ne_nil (hne n mem_cons_self)
      omega
    have hstrips : strips m true n = (!(isShort n || !isParamHevc n), true) := by
      unfold strips isParamHevc isShort
      rw [if_pos h, hc]
      by_cases hshort : n.length < 2
      · have hlong : ¬2 ≤ n.length := by omega
        simp [hshort, hlong]
      · have hlong : 2 ≤ n.length := by omega
        by_cases hparam : hevcType n = HEVC_VPS ∨ hevcType n = HEVC_SPS ∨ hevcType n = HEVC_PPS
        · simp [hshort, hlong, hparam]
        · simp [hshort, hlong, hparam]
    unfold selected
    rw [if_neg hlen, hstrips, ih fun n' hn' => hne n' (mem_cons_of_mem n hn')]
    by_cases hkept : (isShort n || !isParamHevc n) = true
    · simp [hkept]
    · simp [hkept]

omit h

/-- A parameter set is no IRAP unit. -/
theorem isParamHevc_of_isIrap {n : Bytes} (h : isIrap n = true) : isParamHevc n = false := by
  have hirap : 2 ≤ n.length ∧ 16 ≤ hevcType n ∧ hevcType n ≤ 21 := of_decide_eq_true h
  unfold isParamHevc
  rw [decide_eq_false_iff_not]
  rintro (hvps | hsps | hpps)
  · rw [hvps] at hirap
    exact absurd hirap.2.2 (by decide)
  · rw [hsps] at hirap
    exact absurd hirap.2.2 (by decide)
  · rw [hpps] at hirap
    exact absurd hirap.2.2 (by decide)

theorem selected_hevc (h : (m.stripParams && !m.useAnnexB) = true) (hc : m.codec = some .hevc)
    (hne : ∀ n ∈ units, n ≠ []) :
    selected m false units = (units.takeWhile fun n => !isIrap n).filter isShort ++
      (units.dropWhile fun n => !isIrap n).filter fun n => isShort n || !isParamHevc n := by
  induction units with
  | nil => rfl
  | cons n rest ih =>
    have hrest : ∀ n' ∈ rest, n' ≠ [] := fun n' hn' => hne n' (mem_cons_of_mem n hn')
    have hlen : ¬n.length < 1 := by
      have := length_pos_of_ne_nil (hne n mem_cons_self)
      omega
    by_cases hirap : isIrap n = true
    · have hparam := isParamHevc_of_isIrap hirap
      have hlong : 2 ≤ n.length ∧ 16 ≤ hevcType n ∧ hevcType n ≤ 21 := of_decide_eq_true hirap
      have hnot : ¬(hevcType n = HEVC_VPS ∨ hevcType n = HEVC_SPS ∨ hevcType n = HEVC_PPS) :=
        of_decide_eq_false hparam
      have hstrips : strips m false n = (false, true) := by
        unfold strips
        rw [if_pos h, if_pos ⟨hc, hlong.1⟩, if_neg hnot]
        simp [hlong.2]
      unfold selected
      rw [if_neg hlen, hstrips, selected_found h hc hrest]
      simp [hirap, hparam]
    · have hirap : isIrap n = false := by simpa using hirap
      have hstrips : strips m false n = (!isShort n, false) := by
        unfold strips
        rw [if_pos h]
        by_cases hshort : n.length < 2
        · have hlong : ¬2 ≤ n.length := by omega
          simp [isShort, hc, hshort, hlong]
        · have hlong : 2 ≤ n.length := by omega
          have hother : ¬(16 ≤ hevcType n ∧ hevcType n ≤ 21) := by
            intro hrange
            exact of_decide_eq_false hirap ⟨hlong, hrange⟩
          rw [if_pos ⟨hc, hlong⟩]
          by_cases hparam : hevcType n = HEVC_VPS ∨ hevcType n = HEVC_SPS ∨
              hevcType n = HEVC_PPS
          · simp [isShort, hshort, hparam]
          · simp [isShort, hshort, hparam, hother]
      unfold selected
      rw [if_neg hlen, hstrips, ih hrest]
      by_cases hshort : isShort n = true
      · simp [hirap, hshort]
      · simp [hirap, hshort]

theorem selected_eq_meant (m : Mode) (hne : ∀ n ∈ units, n ≠ []) :
    selected m false units = meant m units := by
  unfold meant
  by_cases h : (m.stripParams && !m.useAnnexB) = true
  · rw [if_pos h]
    split
    · rename_i hc
      exact selected_h264 h hc false hne
    · rename_i hc
      exact selected_hevc h hc hne
    · rename_i hc
      exact selected_none h hc false hne
  · rw [if_neg h]
    exact selected_all (by simpa using h) false hne

theorem mem_of_mem_selected {irap : Bool} {n : Bytes} (hn : n ∈ selected m irap units) :
    n ∈ units := by
  induction units generalizing irap with
  | nil => cases hn
  | cons u rest ih =>
    unfold selected at hn
    split_ifs at hn
    · exact mem_cons_of_mem u (ih hn)
    · exact mem_cons_of_mem u (ih hn)
    · rcases mem_cons.mp hn with rfl | hn
      · exact mem_cons_self
      · exact mem_cons_of_mem u (ih hn)

end Selected

theorem copied_prefixed {m : Mode} (hm : ¬(m.useAnnexB = true ∧ m.codec = some .hevc))
    (units : List Bytes) (hshort : ∀ n ∈ units, n.length < 2 ^ 32) (done : Bytes) :
    copied m units (done ++ List.replicate (units.map fun n => 4 + n.length).sum 0) done.length =
      done ++ lengthPrefixed 4 units := by
  induction units generalizing done with
  | nil => simp [copied, lengthPrefixed]
  | cons n rest ih =>
    have hlen : lengthBytes m (UInt32.ofNat n.length) = bigEndian 4 n.length := by
      have hn : (UInt32.ofNat n.length).toNat = n.length := by
        rw [UInt32.toNat_ofNat']
        exact Nat.mod_eq_of_lt (hshort n mem_cons_self)
      unfold lengthBytes
      rw [if_neg hm, bytes_uint32, hn]
    have hfirst : overwrite
        (done ++ List.replicate ((n :: rest).map fun n => 4 + n.length).sum 0) done.length
          (bigEndian 4 n.length) = (done ++ bigEndian 4 n.length) ++
            List.replicate (n.length + (rest.map fun n => 4 + n.length).sum) 0 := by
      rw [overwrite_next, bigEndian_length, drop_replicate]
      simp only [map_cons, sum_cons]
      congr 2
      omega
    have hpos : done.length + 4 = (done ++ bigEndian 4 n.length).length := by simp
    have hsecond : overwrite ((done ++ bigEndian 4 n.length) ++
        List.replicate (n.length + (rest.map fun n => 4 + n.length).sum) 0)
          (done ++ bigEndian 4 n.length).length n =
        (done ++ bigEndian 4 n.length ++ n) ++
          List.replicate (rest.map fun n => 4 + n.length).sum 0 := by
      rw [overwrite_next, drop_replicate, Nat.add_sub_cancel_left]
    have hnext : (done ++ bigEndian 4 n.length).length + n.length =
        (done ++ bigEndian 4 n.length ++ n).length := length_append.symm
    unfold copied
    rw [hlen, hfirst, hpos, hsecond, hnext,
      ih fun n' hn' => hshort n' (mem_cons_of_mem n hn')]
    simp [lengthPrefixed]

theorem toAvcc_prefixed {m : Mode} (hm : ¬(m.useAnnexB = true ∧ m.codec = some .hevc))
    (annexB : Bytes) (hshort : ∀ n ∈ splitNals annexB, n.length < 2 ^ 32) :
    toAvcc m annexB = lengthPrefixed 4 (selected m false (splitNals annexB)) := by
  have h := copied_prefixed hm (selected m false (splitNals annexB))
    (fun n hn => hshort n (mem_of_mem_selected hn)) []
  simpa [toAvcc] using h

theorem splitNals_join (items : List (StartCode × NalUnit)) :
    splitNals (join items) = items.map fun item => item.2.bytes := by
  have hlen : items.length ≤ (join items).length := by
    induction items with
    | nil => exact le_rfl
    | cons item rest ih =>
      have hne := length_pos_of_ne_nil item.2.ne
      rw [join_cons, length_append, length_append, length_cons]
      omega
  unfold splitNals
  rw [split_join items _ (by omega), map_map]
  rfl

/-- The units come out as they went in, and behind the length prefixes of the output are
exactly those that are meant for the decoder. -/
theorem units_kept (items : List (StartCode × NalUnit)) :
    splitNals (join items) = items.map (fun item => item.2.bytes) ∧
    ((∀ item ∈ items, item.2.bytes.length < 2 ^ 32) →
      ∀ m : Mode, ¬(m.useAnnexB = true ∧ m.codec = some .hevc) →
        ∃ steps, ∀ fuel, steps ≤ fuel →
          readLengthPrefixed 4 fuel (toAvcc m (join items)) =
            some (meant m (items.map fun item => item.2.bytes))) := by
  refine ⟨splitNals_join items, fun hsmall m hm => ?_⟩
  have hshort : ∀ n ∈ splitNals (join items), n.length < 2 ^ 32 := by
    rw [splitNals_join]
    intro n hn
    obtain ⟨item, hitem, rfl⟩ := List.mem_map.mp hn
    exact hsmall item hitem
  have hne : ∀ n ∈ splitNals (join items), n ≠ [] := by
    rw [splitNals_join]
    intro n hn
    obtain ⟨item, _, rfl⟩ := List.mem_map.mp hn
    exact item.2.ne
  have hmeant := selected_eq_meant m hne
  have hmem : ∀ n ∈ meant m (splitNals (join items)), n.length < 256 ^ 4 := by
    intro n hn
    rw [← hmeant] at hn
    have := hshort n (mem_of_mem_selected hn)
    norm_num at this ⊢
    exact this
  refine ⟨(meant m (splitNals (join items))).length, fun fuel hfuel => ?_⟩
  rw [toAvcc_prefixed hm _ hshort, hmeant,
    readLengthPrefixed_lengthPrefixed (by norm_num) _ hmem fuel hfuel, splitNals_join]

def delimiter : NalUnit :=
  ⟨[9, 0xf0], by decide, EmulationPrevention.clean_of_length_lt (by decide), by decide⟩

def shortSps : NalUnit :=
  ⟨[0x67, 0x64], by decide, EmulationPrevention.clean_of_length_lt (by decide), by decide⟩

theorem units_kept_sps :
    ∃ steps, ∀ fuel, steps ≤ fuel →
      readLengthPrefixed 4 fuel
        (toAvcc ⟨true, some .h264, false⟩ (join [(.long, delimiter), (.short, shortSps)])) =
          some [[9, 0xf0]] :=
  (units_kept [(.long, delimiter), (.short, shortSps)]).2 (by decide)
    ⟨true, some .h264, false⟩ (by decide)

end MoonlightWeb.Frontend.Mp4Muxer
