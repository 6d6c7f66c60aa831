import MoonlightWeb.Frontend.LengthPrefixes
import MoonlightWeb.NativeHost.ParameterSets

/-! # Emulation prevention on both sides

The encoding host counts zeros, the relay and the browser look ahead. All of them remove the
same bytes, from any string.
-/

namespace MoonlightWeb.Streaming.HevcPatch

open Lib EmulationPrevention

def removeHvcEp (data : List UInt8) : List UInt8 := dropAhead data

def addHvcEp (rbsp : List UInt8) : List UInt8 := escapeFrom 0 rbsp

end MoonlightWeb.Streaming.HevcPatch

namespace MoonlightWeb.Streaming.EmulationAgreement

open Lib EmulationPrevention
open NativeHost.H264Vui NativeHost.ParameterSets HevcPatch Frontend.Mp4Muxer AnnexB

theorem escapeInto_eq (rbsp out : List UInt8) : escapeInto rbsp out = out ++ escape rbsp := rfl

theorem unescape_eq_removeHvcEp (bytes : List UInt8) :
    NativeHost.H264Vui.unescape bytes = removeHvcEp bytes :=
  (dropAhead_eq_unescape bytes).symm

/-- What was escaped on either side holds no start code and is read back, and the three ways to
remove the escapes agree on every string. -/
theorem escapes_agree (bytes : List UInt8) :
    (NativeHost.H264Vui.unescape (escapeInto bytes []) = bytes ∧
        Clean (escapeInto bytes [])) ∧
      (removeHvcEp (addHvcEp bytes) = bytes ∧ Clean (addHvcEp bytes)) ∧
      NativeHost.H264Vui.unescape bytes = removeHvcEp bytes ∧
      removeHvcEp bytes = removeEmulationPrevention bytes := by
  have hnative : escapeInto bytes [] = escape bytes := escapeInto_eq bytes []
  have hrelay : removeHvcEp (addHvcEp bytes) = bytes := by
    rw [← unescape_eq_removeHvcEp]
    exact unescape_escape bytes
  refine ⟨⟨?_, ?_⟩, ⟨hrelay, clean_escape bytes⟩, unescape_eq_removeHvcEp bytes, rfl⟩
  · rw [hnative]
    exact unescape_escape bytes
  · rw [hnative]
    exact clean_escape bytes

/-- Two zeros and a 3 at the end lose the 3. -/
example : removeHvcEp [1, 0, 0, 3] = [1, 0, 0] := by decide

/-- A unit of the host's own writing. -/
structure Written where
  header : List UInt8
  codes : List Code
  marked : 0 ∉ header

theorem escape_append {header : List UInt8} (h : 0 ∉ header) (rbsp : List UInt8) :
    escape (header ++ rbsp) = header ++ escape rbsp := by
  induction header with
  | nil => rfl
  | cons b rest ih =>
    obtain ⟨hb, hrest⟩ := (List.mem_cons.not.trans not_or).mp h
    rw [List.cons_append, escape, escapeFrom, if_neg (by omega), zerosAfter, if_neg (Ne.symm hb)]
    exact congrArg _ (ih hrest)

theorem escapeFrom_last (zeros : Nat) (bytes : List UInt8) (b : UInt8) :
    (escapeFrom zeros (bytes ++ [b])).getLast? = some b := by
  induction bytes generalizing zeros with
  | nil =>
    rw [List.nil_append, escapeFrom]
    split_ifs <;> rfl
  | cons c rest ih =>
    rw [List.cons_append, escapeFrom]
    split_ifs <;> simp [List.getLast?_cons, ih]

/-- The last byte holds the stop bit. -/
theorem rbsp_last (codes : List Code) :
    ∃ before b, rbsp codes = before ++ [b] ∧ b ≠ 0 := by
  obtain ⟨left, hleft, -, hused⟩ := BitWriter.holds_new.put (codes.flatMap Code.bits)
  have hopen : (BitWriter.new.put (codes.flatMap Code.bits)).opened.used < 8 := by
    unfold BitWriter.opened
    split_ifs
    · exact Nat.zero_lt_succ 7
    · omega
  have hpack : pack (codes.flatMap Code.bits ++ [true]) =
      ((BitWriter.new.put (codes.flatMap Code.bits)).bit true).bytes := by
    rw [pack, BitWriter.put_append]
    rfl
  refine ⟨_, _, (rbsp_eq codes).trans hpack, fun hzero => ?_⟩
  have hmem : true ∈ Bits.ofByte 0 := by
    rw [← hzero, BitWriter.ofByte_or _ hopen]
    exact List.mem_set (by rwa [Bits.length_ofByte]) _
  exact absurd hmem (by decide)

theorem Written.last (w : Written) :
    ∃ hne : escape (w.header ++ rbsp w.codes) ≠ [],
      (escape (w.header ++ rbsp w.codes)).getLast hne ≠ 0 := by
  obtain ⟨before, b, hrbsp, hb⟩ := rbsp_last w.codes
  have hlast : (escape (w.header ++ rbsp w.codes)).getLast? = some b := by
    rw [hrbsp, ← List.append_assoc]
    exact escapeFrom_last 0 _ b
  have hne : escape (w.header ++ rbsp w.codes) ≠ [] := by
    intro hnil
    rw [hnil] at hlast
    cases hlast
  refine ⟨hne, fun hzero => hb ?_⟩
  rw [List.getLast?_eq_some_getLast hne, hzero] at hlast
  exact (Option.some.inj hlast).symm

def Written.unit (w : Written) : NalUnit :=
  ⟨escape (w.header ++ rbsp w.codes), w.last.fst, clean_escape _, w.last.snd⟩

/-- What the host writes, the browser splits into its units, and no escape is left in them. -/
theorem units_received (sent : List Written) :
    (splitNals (sent.flatMap fun w => nal w.header w.codes)).map removeEmulationPrevention =
      sent.map fun w => w.header ++ rbsp w.codes := by
  have hjoin : sent.flatMap (fun w => nal w.header w.codes) =
      join (sent.map fun w => (.long, w.unit)) := by
    rw [join, List.flatMap_map]
    refine List.flatMap_congr fun w _ => ?_
    rw [nal, escapeInto_eq, List.append_assoc, ← escape_append w.marked]
    rfl
  rw [hjoin, splitNals_join, List.map_map, List.map_map]
  refine List.map_congr_left fun w _ => ?_
  exact (dropAhead_eq_unescape (escape _)).trans (unescape_escape _)

end MoonlightWeb.Streaming.EmulationAgreement
