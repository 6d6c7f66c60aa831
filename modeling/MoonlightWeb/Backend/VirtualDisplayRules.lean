import MoonlightWeb.Lib.Blocks
import MoonlightWeb.Qt.Ascii
import MoonlightWeb.Qt.Utf8

/-! # A mode added to another driver's settings

`VirtualDisplayRules` adds the client's mode to a settings file that someone else wrote:
whether the mode is listed goes by a lazy pattern over the whole text, where the block is
inserted by a plain search. The text may hold anything.
-/

namespace MoonlightWeb.Backend.VirtualDisplayRules

open Lib Qt QString List

def kModeMin : Int := 480

def kModeMax : Int := 4096

def kRateMin : Int := 24

def kRateMax : Int := 240

def kRefreshHz : Int := 120

/-- `v & ~1` within the bounds of a mode. -/
def pin (v : Int) : Int :=
  let bounded := min kModeMax (max kModeMin v)
  bounded - bounded % 2

def normaliseMode (width height : Int) : Option (Int × Int) :=
  if width ≤ 0 ∨ height ≤ 0 then none
  else some (pin width, pin height)

def normaliseRate (hz : Int) : Option Int :=
  if hz ≤ 0 then none
  else some (min kRateMax (max kRateMin hz))

/-- `arg` of a normalised number, none of which is negative. -/
def arg (v : Int) : QString := number v.toNat

def resolutionBlock (width height refresh : Int) (indent : QString) : QString :=
  (indent ++ qs "<resolution>\n") ++
  (indent ++ qs "  <width>" ++ arg width ++ qs "</width>\n") ++
  (indent ++ qs "  <height>" ++ arg height ++ qs "</height>\n") ++
  (indent ++ qs "  <refresh_rate>" ++ arg refresh ++ qs "</refresh_rate>\n") ++
  (indent ++ qs "</resolution>\n")

/-- `contains`. -/
def contains (s t : QString) : Bool := decide (t <:+: s)

variable (existing : QString)

/-- `globalMatch` of `<resolution>.*?</resolution>`, the dot matching everything. A subject
that is not UTF-16 is not matched at all. -/
def blockMatches : List QString :=
  if isValidUtf16 existing then
    blocks (qs "<resolution>") (qs "</resolution>") existing
  else []

/-- `remove(' ')` and `remove('\t')`. -/
def unspaced (s : QString) : QString := s.filter fun u => u ≠ unit ' ' && u ≠ unit '\t'

/-- A match lists the mode when the three tags are in it. -/
def lists (width height refresh : Int) (captured : QString) : Bool :=
  let one := unspaced captured
  contains one (qs "<width>" ++ arg width ++ qs "</width>") &&
    contains one (qs "<height>" ++ arg height ++ qs "</height>") &&
    contains one (qs "<refresh_rate>" ++ arg refresh ++ qs "</refresh_rate>")

/-- The text with the mode in it, and whether it was changed. -/
def settingsWithMode (width height refresh : Int) : QString × Bool :=
  match normaliseMode width height with
  | none => (existing, false)
  | some (width, height) =>
      let refresh := (normaliseRate refresh).getD kRefreshHz
      if (blockMatches existing).any (lists width height refresh) then (existing, false)
      else
        match indexOf (qs "<resolutions>") existing with
        | none => (existing, false)
        | some opened =>
            let after := opened + (qs "<resolutions>").length
            (existing.take after ++
              (unit '\n' :: resolutionBlock width height refresh (qs "    ")) ++
              existing.drop after, true)

/-- The block is one resolution with the three numbers, spaces apart. -/
def Offers (block : QString) (width height refresh : Int) : Prop :=
  block.filter (fun u => !isSpace u) =
    qs "<resolution>" ++
      (qs "<width>" ++ arg width ++ qs "</width>") ++
      (qs "<height>" ++ arg height ++ qs "</height>") ++
      (qs "<refresh_rate>" ++ arg refresh ++ qs "</refresh_rate>") ++
    qs "</resolution>"

/-- The text is another with one block after its first `<resolutions>` tag, which offers the
mode that was asked for, normalised. -/
def Inserted (width height refresh : Int) (out : QString) : Prop :=
  ∃ before block after, existing = before ++ qs "<resolutions>" ++ after ∧
    (∀ i < before.length, ¬ qs "<resolutions>" <+: existing.drop i) ∧
    out = before ++ qs "<resolutions>" ++ block ++ after ∧
    ∃ w h, normaliseMode width height = some (w, h) ∧
      Offers block w h ((normaliseRate refresh).getD kRefreshHz)

theorem digit_of_mem_arg {v : Int} {u : UInt16} (h : u ∈ arg v) : isDigit u :=
  isDigit_of_mem_number h

theorem filter_arg (p : UInt16 → Bool) (h : ∀ u, isDigit u → p u = true) (v : Int) :
    (arg v).filter p = arg v :=
  filter_eq_self.mpr fun u hu => h u (digit_of_mem_arg hu)

/-- What stands between the tags of a block that is indented by four spaces. -/
def innerLines (width height refresh : Int) : QString :=
  qs "\n" ++
  (qs "    " ++ qs "  <width>" ++ arg width ++ qs "</width>\n") ++
  (qs "    " ++ qs "  <height>" ++ arg height ++ qs "</height>\n") ++
  (qs "    " ++ qs "  <refresh_rate>" ++ arg refresh ++ qs "</refresh_rate>\n") ++
  qs "    "

theorem resolutionBlock_eq (width height refresh : Int) :
    resolutionBlock width height refresh (qs "    ") =
      qs "    " ++ qs "<resolution>" ++ innerLines width height refresh ++
        (qs "</resolution>" ++ qs "\n") := by
  have hopen : qs "<resolution>\n" = qs "<resolution>" ++ qs "\n" := by decide
  have hclose : qs "</resolution>\n" = qs "</resolution>" ++ qs "\n" := by decide
  simp only [resolutionBlock, innerLines, hopen, hclose, append_assoc]

theorem offers_resolutionBlock (width height refresh : Int) :
    Offers (unit '\n' :: resolutionBlock width height refresh (qs "    ")) width height refresh := by
  have hdigit : ∀ u, isDigit u → (!isSpace u) = true := by
    intro u hu
    rw [hu.printable.not_isSpace]
    rfl
  have hbreak : (!isSpace (unit '\n')) = false := by decide
  have hindent : (qs "    ").filter (fun u => !isSpace u) = [] := by decide
  have hopen : (qs "<resolution>\n").filter (fun u => !isSpace u) = qs "<resolution>" := by
    decide
  have hwidth : (qs "  <width>").filter (fun u => !isSpace u) = qs "<width>" := by decide
  have hwidth' : (qs "</width>\n").filter (fun u => !isSpace u) = qs "</width>" := by decide
  have hheight : (qs "  <height>").filter (fun u => !isSpace u) = qs "<height>" := by decide
  have hheight' : (qs "</height>\n").filter (fun u => !isSpace u) = qs "</height>" := by
    decide
  have hrate : (qs "  <refresh_rate>").filter (fun u => !isSpace u) =
      qs "<refresh_rate>" := by decide
  have hrate' : (qs "</refresh_rate>\n").filter (fun u => !isSpace u) =
      qs "</refresh_rate>" := by decide
  have hclose : (qs "</resolution>\n").filter (fun u => !isSpace u) =
      qs "</resolution>" := by decide
  unfold Offers resolutionBlock
  simp only [filter_cons, hbreak, Bool.false_eq_true, if_false, filter_append,
    filter_arg _ hdigit, hindent, hopen, hwidth, hwidth', hheight, hheight', hrate, hrate', hclose,
    nil_append, append_assoc]

theorem avoids_innerLines (width height refresh : Int) :
    Avoids (qs "</resolution>")
      (qs "    " ++ qs "<resolution>" ++ innerLines width height refresh) := by
  have hnumber : ∀ v : Int, Avoids (qs "</resolution>") (arg v) := by
    intro v
    have hhead : qs "</resolution>" = unit '<' :: qs "/resolution>" := by decide
    rw [hhead]
    refine avoids_of_not_mem fun h => ?_
    exact absurd (digit_of_mem_arg h) (by decide)
  have hindent : Avoids (qs "</resolution>") (qs "    ") := by decide
  have hopen : Avoids (qs "</resolution>") (qs "<resolution>") := by decide
  have hbreak : Avoids (qs "</resolution>") (qs "\n") := by decide
  have hline : ∀ (v : Int) {start tail : QString}, Avoids (qs "</resolution>") start →
      Avoids (qs "</resolution>") tail →
      Avoids (qs "</resolution>") (qs "    " ++ start ++ arg v ++ tail) :=
    fun v _ _ hstart htail => ((hindent.append hstart).append (hnumber v)).append htail
  have hwidth := hline width (show Avoids _ (qs "  <width>") by decide)
    (show Avoids _ (qs "</width>\n") by decide)
  have hheight := hline height (show Avoids _ (qs "  <height>") by decide)
    (show Avoids _ (qs "</height>\n") by decide)
  have hrate := hline refresh (show Avoids _ (qs "  <refresh_rate>") by decide)
    (show Avoids _ (qs "</refresh_rate>\n") by decide)
  exact (hindent.append hopen).append
    ((((hbreak.append hwidth).append hheight).append hrate).append hindent)

theorem unspaced_line {start stop first last : QString} (hstart : unspaced start = first)
    (hstop : unspaced stop = last ++ qs "\n") (v : Int) :
    first ++ arg v ++ last <:+: unspaced (start ++ arg v ++ stop) := by
  have hdigit : ∀ u, isDigit u → (u ≠ unit ' ' && u ≠ unit '\t') = true := by
    intro u hu
    have hprintable := printable_iff.mp hu.printable
    have hspace : u ≠ unit ' ' := fun h => by
      rw [h] at hprintable
      exact absurd hprintable (by decide)
    have htab : u ≠ unit '\t' := fun h => by
      rw [h] at hprintable
      exact absurd hprintable (by decide)
    simp [hspace, htab]
  have hline : unspaced (start ++ arg v ++ stop) = first ++ arg v ++ (last ++ qs "\n") := by
    rw [← hstart, ← hstop]
    unfold unspaced
    rw [filter_append, filter_append, filter_arg _ hdigit]
  rw [hline, ← append_assoc]
  exact (prefix_append _ _).isInfix

theorem lists_of_innerLines {width height refresh : Int} {captured : QString}
    (h : innerLines width height refresh <:+: captured) :
    lists width height refresh captured = true := by
  have hfound : ∀ {line tag : QString}, line <:+: innerLines width height refresh →
      tag <:+: unspaced line → contains (unspaced captured) tag = true := by
    intro line tag hline htag
    exact decide_eq_true (htag.trans ((hline.trans h).filter _))
  have hwidth : qs "<width>" ++ arg width ++ qs "</width>" <:+:
      unspaced (qs "  <width>" ++ arg width ++ qs "</width>\n") :=
    unspaced_line (by decide) (by decide) width
  have hheight : qs "<height>" ++ arg height ++ qs "</height>" <:+:
      unspaced (qs "  <height>" ++ arg height ++ qs "</height>\n") :=
    unspaced_line (by decide) (by decide) height
  have hrate : qs "<refresh_rate>" ++ arg refresh ++ qs "</refresh_rate>" <:+:
      unspaced (qs "  <refresh_rate>" ++ arg refresh ++ qs "</refresh_rate>\n") :=
    unspaced_line (by decide) (by decide) refresh
  have hinWidth : qs "  <width>" ++ arg width ++ qs "</width>\n" <:+:
      innerLines width height refresh :=
    ⟨qs "\n" ++ qs "    ",
      (qs "    " ++ qs "  <height>" ++ arg height ++ qs "</height>\n") ++
        (qs "    " ++ qs "  <refresh_rate>" ++ arg refresh ++ qs "</refresh_rate>\n") ++ qs "    ",
      by simp only [innerLines, append_assoc]⟩
  have hinHeight : qs "  <height>" ++ arg height ++ qs "</height>\n" <:+:
      innerLines width height refresh :=
    ⟨qs "\n" ++ (qs "    " ++ qs "  <width>" ++ arg width ++ qs "</width>\n") ++ qs "    ",
      (qs "    " ++ qs "  <refresh_rate>" ++ arg refresh ++ qs "</refresh_rate>\n") ++ qs "    ",
      by simp only [innerLines, append_assoc]⟩
  have hinRate : qs "  <refresh_rate>" ++ arg refresh ++ qs "</refresh_rate>\n" <:+:
      innerLines width height refresh :=
    ⟨qs "\n" ++ (qs "    " ++ qs "  <width>" ++ arg width ++ qs "</width>\n") ++
        (qs "    " ++ qs "  <height>" ++ arg height ++ qs "</height>\n") ++ qs "    ",
      qs "    ", by simp only [innerLines, append_assoc]⟩
  rw [lists, hfound hinWidth hwidth, hfound hinHeight hheight, hfound hinRate hrate]
  rfl

theorem plain_block (width height refresh : Int) :
    ∀ u ∈ unit '\n' :: resolutionBlock width height refresh (qs "    "), Plain u := by
  have hnumber : ∀ v : Int, ∀ u ∈ arg v, Plain u := by
    intro v u hu
    have hprintable := printable_iff.mp (digit_of_mem_arg hu).printable
    unfold Plain
    omega
  have hliteral : ∀ {s : QString}, s.all (fun u => decide (Plain u)) = true →
      ∀ u ∈ s, Plain u :=
    fun hs u hu => of_decide_eq_true (all_eq_true.mp hs u hu)
  have hline : ∀ (v : Int) {start stop : QString},
      start.all (fun u => decide (Plain u)) = true →
      stop.all (fun u => decide (Plain u)) = true →
      ∀ u ∈ qs "    " ++ start ++ arg v ++ stop, Plain u := by
    intro v start stop hstart hstop u hu
    simp only [mem_append] at hu
    rcases hu with ((hu | hu) | hu) | hu
    · exact hliteral (by decide) u hu
    · exact hliteral hstart u hu
    · exact hnumber v u hu
    · exact hliteral hstop u hu
  intro u hu
  rw [resolutionBlock, mem_cons, mem_append, mem_append, mem_append,
    mem_append] at hu
  rcases hu with rfl | (((hu | hu) | hu) | hu) | hu
  · decide
  · exact hliteral (by decide) u hu
  · exact hline width (by decide) (by decide) u hu
  · exact hline height (by decide) (by decide) u hu
  · exact hline refresh (by decide) (by decide) u hu
  · exact hliteral (by decide) u hu

theorem lists_inserted {w h refresh : Int} {before after : QString} (hvalid : isValidUtf16
      (before ++ (unit '\n' :: resolutionBlock w h refresh (qs "    ")) ++ after) = true) :
    (blockMatches (before ++ (unit '\n' :: resolutionBlock w h refresh (qs "    ")) ++ after)).any
      (lists w h refresh) = true := by
  obtain ⟨b, hb, hin⟩ := @exists_mem_blocks _ _ (qs "<resolution>") (qs "</resolution>")
    (qs "    ") (innerLines w h refresh) (unit '\n') (by decide) (by decide) (by decide)
    (by decide) (by decide) (avoids_innerLines w h refresh) before (qs "\n" ++ after)
  refine any_eq_true.mpr ⟨b, ?_, lists_of_innerLines hin⟩
  rw [blockMatches, if_pos hvalid, resolutionBlock_eq]
  simpa only [append_assoc, cons_append] using hb

/-- What the function answers: the text itself, or the text with the block in it. -/
theorem settingsWithMode_cases (width height refresh : Int) :
    settingsWithMode existing width height refresh = (existing, false) ∨
    ∃ w h opened, normaliseMode width height = some (w, h) ∧
      indexOf (qs "<resolutions>") existing = some opened ∧
      settingsWithMode existing width height refresh = (existing.take (opened + 13) ++
          (unit '\n' :: resolutionBlock w h ((normaliseRate refresh).getD kRefreshHz) (qs "    ")) ++
          existing.drop (opened + 13), true) := by
  have htag : (qs "<resolutions>").length = 13 := by decide
  cases hmode : normaliseMode width height with
  | none => exact Or.inl (by rw [settingsWithMode, hmode])
  | some mode =>
    obtain ⟨w, h⟩ := mode
    by_cases hlisted : (blockMatches existing).any
        (lists w h ((normaliseRate refresh).getD kRefreshHz)) = true
    · exact Or.inl (by simp only [settingsWithMode, hmode, hlisted, if_true])
    · cases hopened : indexOf (qs "<resolutions>") existing with
      | none =>
        exact Or.inl (by simp only [settingsWithMode, hmode, hlisted, hopened, ite_self])
      | some opened =>
        refine Or.inr ⟨w, h, opened, rfl, rfl, ?_⟩
        simp only [settingsWithMode, hmode, if_neg hlisted, hopened, htag]

section

variable {existing : QString} {opened : Nat}
  (hopened : indexOf (qs "<resolutions>") existing = some opened)

include hopened in
theorem cut_after_tag :
    existing = existing.take opened ++ qs "<resolutions>" ++ existing.drop (opened + 13) ∧
      existing.take (opened + 13) = existing.take opened ++ qs "<resolutions>" := by
  have htag : (qs "<resolutions>").length = 13 := by decide
  obtain ⟨⟨after, hafter⟩, _⟩ := indexOf_eq_some hopened
  have hdrop : existing.drop (opened + 13) = after := by
    rw [← drop_drop, ← hafter, ← htag, drop_left]
  have htake : existing.take (opened + 13) = existing.take opened ++ qs "<resolutions>" := by
    rw [take_add, ← hafter, ← htag, take_left]
  refine ⟨?_, htake⟩
  rw [← htake, take_append_drop]

include hopened in
theorem inserted_at {width height refresh w h : Int}
    (hmode : normaliseMode width height = some (w, h)) :
    Inserted existing width height refresh (existing.take (opened + 13) ++
        (unit '\n' :: resolutionBlock w h ((normaliseRate refresh).getD kRefreshHz) (qs "    ")) ++
        existing.drop (opened + 13)) := by
  obtain ⟨hcut, htake⟩ := cut_after_tag hopened
  refine ⟨existing.take opened, _, existing.drop (opened + 13), hcut, ?_, ?_, w, h, hmode,
    offers_resolutionBlock w h _⟩
  · intro i hi
    exact (indexOf_eq_some hopened).2 i (lt_of_lt_of_le hi (length_take_le _ _))
  · rw [htake]

include hopened in
theorem isValidUtf16_inserted {w h refresh : Int} (hvalid : isValidUtf16 existing = true) :
    isValidUtf16 (existing.take (opened + 13) ++
      (unit '\n' :: resolutionBlock w h refresh (qs "    ")) ++
      existing.drop (opened + 13)) = true := by
  have hlast : qs "<resolutions>" = qs "<resolutions" ++ [unit '>'] := by decide
  obtain ⟨hcut, htake⟩ := cut_after_tag hopened
  have hplain : Plain (unit '>') := by decide
  rw [hcut, hlast] at hvalid
  have hinsert := @isValidUtf16_insert (existing.take opened ++ qs "<resolutions")
    (existing.drop (opened + 13)) _ (unit '>') hplain (plain_block w h refresh)
    (by simpa only [append_assoc, singleton_append] using hvalid)
  rw [htake, hlast]
  simpa only [append_assoc, cons_append, nil_append] using hinsert

end

/-- Whatever the text, it is returned as it is or with one block after its first tag; and the
second application finds the block of the first. -/
theorem settingsWithMode_edits (existing : QString) (width height refresh : Int) :
    ((settingsWithMode existing width height refresh).1 = existing ∨
      Inserted existing width height refresh (settingsWithMode existing width height refresh).1) ∧
    (isValidUtf16 existing = true →
      (settingsWithMode (settingsWithMode existing width height refresh).1 width height refresh).1 =
        (settingsWithMode existing width height refresh).1) := by
  rcases settingsWithMode_cases existing width height refresh with
    hsame | ⟨w, h, opened, hmode, hopened, hgrown⟩
  · rw [hsame]
    exact ⟨Or.inl rfl, fun _ => by rw [hsame]⟩
  · rw [hgrown]
    refine ⟨Or.inr (inserted_at hopened hmode), fun hvalid => ?_⟩
    have hlisted := @lists_inserted w h ((normaliseRate refresh).getD kRefreshHz) _ _
      (isValidUtf16_inserted hopened hvalid)
    simp only [settingsWithMode, hmode, hlisted, if_true]

/-- A list that another driver wrote, with a tag that is never closed before it. -/
theorem edits_twice :
    (settingsWithMode (settingsWithMode (qs "<!-- <resolution> --><resolutions></resolutions>")
        2532 1170 120).1 2532 1170 120).1 =
      (settingsWithMode (qs "<!-- <resolution> --><resolutions></resolutions>") 2532 1170 120).1 :=
  (settingsWithMode_edits (qs "<!-- <resolution> --><resolutions></resolutions>") 2532 1170
    120).2 (by decide)

end MoonlightWeb.Backend.VirtualDisplayRules
