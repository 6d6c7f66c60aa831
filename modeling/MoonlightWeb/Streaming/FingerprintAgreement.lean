import MoonlightWeb.Streaming.SdpFingerprint
import MoonlightWeb.Frontend.PairingCrypto
import MoonlightWeb.Qt.Simplified

/-! # Two readings of one fingerprint line

The host and the pages read a line in the same steps and differ in what they
take for a blank, in how they compare the algorithm and in what they take for a
value. `Reader` has these three as parameters, `Spelling` is its grammar.
-/

namespace MoonlightWeb.Streaming.SdpFingerprint

open Lib Qt Js
open Bootstrap.Pairing (hexPairs isUpperHex)
open QString JsString List

abbrev Text := List UInt16

def attributeName : Text := qs "a=fingerprint:"

/-- No blank is taken for a letter at an edge of the attribute. -/
def Sparing (blank : UInt16 → Bool) : Prop :=
  ∀ u, fold u = unit 'a' ∨ fold u = unit ':' → blank u = false

structure Reader where
  blank : UInt16 → Bool
  algorithm : Text → Bool
  value : Text → Text
  sparing : Sparing blank
  value_nil : value [] = []

open Reader

variable (r : Reader)

/-- What a line says: nothing (`none`), or a value, empty when it is refused. -/
def Reader.read (rawLine : Text) : Option Text :=
  let line := trim r.blank rawLine
  if !startsWithFolded line attributeName then none
  else
    let body := trim r.blank (line.drop attributeName.length)
    let sep := body.idxOf (unit ' ')
    if sep = 0 ∨ sep = body.length then some []
    else if !r.algorithm (body.take sep) then some []
    else some (r.value (trim r.blank (body.drop (sep + 1))))

/-- A line cut into what is in front of the attribute, the attribute, a gap, the
algorithm, the space after it, a gap, the value and what is behind it. -/
structure Spelling where
  lead : Text
  name : Text
  gap : Text
  algorithm : Text
  gap' : Text
  text : Text
  tail : Text

def Spelling.core (sp : Spelling) : Text :=
  sp.name ++ (sp.gap ++ (sp.algorithm ++ unit ' ' :: (sp.gap' ++ sp.text)))

def Spelling.line (sp : Spelling) : Text := sp.lead ++ sp.core ++ sp.tail

/-- The cuts are where a reader with these blanks makes them. -/
structure Spelling.Fits (blank : UInt16 → Bool) (sp : Spelling) : Prop where
  lead : ∀ u ∈ sp.lead, blank u = true
  name : sp.name.map fold = attributeName
  gap : ∀ u ∈ sp.gap, blank u = true
  algorithm : unit ' ' ∉ sp.algorithm
  algorithm_head : ∃ u rest, sp.algorithm = u :: rest ∧ blank u = false
  gap' : ∀ u ∈ sp.gap', blank u = true
  text : Trimmed blank sp.text
  text_ne : sp.text ≠ []
  tail : ∀ u ∈ sp.tail, blank u = true

def Reader.Spells (line value : Text) : Prop :=
  ∃ sp : Spelling, sp.line = line ∧ sp.Fits r.blank ∧ r.algorithm sp.algorithm = true ∧
    r.value sp.text = value ∧ value ≠ []

theorem startsWith_iff (s : Text) : startsWithFolded s attributeName = true ↔
    ∃ name rest, s = name ++ rest ∧ name.map fold = attributeName := by
  have hfolded : attributeName.map fold = attributeName := by decide
  rw [startsWithFolded, hfolded, isPrefixOf_iff_prefix]
  constructor
  · rintro ⟨more, hmore⟩
    refine ⟨s.take attributeName.length, s.drop attributeName.length,
      (take_append_drop _ s).symm, ?_⟩
    rw [map_take, ← hmore, take_left' rfl]
  · rintro ⟨name, rest, rfl, hname⟩
    exact ⟨rest.map fold, by rw [map_append, hname]⟩

theorem attribute_length {name : Text} (h : name.map fold = attributeName) :
    name.length = attributeName.length := by
  rw [← h, length_map]

variable {blank : UInt16 → Bool}

/-- The attribute starts and ends with letters no reader takes for blanks. -/
theorem Sparing.attribute_edges (hblank : Sparing blank) {name : Text}
    (h : name.map fold = attributeName) : Trimmed blank name := by
  have hhead : attributeName.head? = some (unit 'a') := by decide
  have hlast : attributeName.getLast? = some (unit ':') := by decide
  constructor
  · intro u hu
    apply hblank u
    rw [← h, List.head?_map, Option.mem_def.mp hu] at hhead
    exact Or.inl (by simpa using hhead)
  · intro u hu
    apply hblank u
    rw [← h, List.getLast?_map, Option.mem_def.mp hu] at hlast
    exact Or.inr (by simpa using hlast)

/-- A list with an unblank start and an unblank end. -/
theorem trimmed_append {front back : Text} (hfront : front ≠ [])
    (hback : back ≠ []) (hf : Trimmed blank front) (hb : Trimmed blank back) (middle : Text) :
    Trimmed blank (front ++ (middle ++ back)) := by
  constructor
  · intro u hu
    apply hf.head u
    rw [List.head?_append_of_ne_nil _ hfront] at hu
    exact hu
  · intro u hu
    apply hb.last u
    rw [← append_assoc, List.getLast?_append_of_ne_nil _ hback] at hu
    exact hu

variable {sp : Spelling}

theorem Spelling.Fits.core_trimmed (h : sp.Fits blank)
    (hblank : Sparing blank) : Trimmed blank sp.core := by
  have hname : sp.name ≠ [] := by
    intro hnil
    have hlength := attribute_length h.name
    rw [hnil] at hlength
    exact absurd hlength (by decide)
  have hcore := trimmed_append hname h.text_ne (hblank.attribute_edges h.name) h.text
    (sp.gap ++ (sp.algorithm ++ unit ' ' :: sp.gap'))
  simpa [Spelling.core] using hcore

theorem Spelling.Fits.body_trimmed (h : sp.Fits blank) :
    Trimmed blank (sp.algorithm ++ unit ' ' :: (sp.gap' ++ sp.text)) := by
  obtain ⟨u, rest, halgorithm, hu⟩ := h.algorithm_head
  have hhead : Trimmed blank [u] := by
    constructor <;> simpa using hu
  have hbody := trimmed_append (by simp) h.text_ne hhead h.text (rest ++ unit ' ' :: sp.gap')
  simpa [halgorithm] using hbody

/-- A reader reads a value from a line exactly when the line spells it. -/
theorem Reader.read_eq_some {line value : Text} (hvalue : value ≠ []) :
    r.read line = some value ↔ r.Spells line value := by
  constructor
  · intro hread
    obtain ⟨lead, tail, hline, hlead, htail⟩ := trim_spec r.blank line
    unfold read at hread
    by_cases hnamed : startsWithFolded (trim r.blank line) attributeName = true
    · obtain ⟨name, rest, htrim, hname⟩ := (startsWith_iff _).mp hnamed
      have hdrop : (trim r.blank line).drop attributeName.length = rest := by
        rw [htrim, ← attribute_length hname, drop_left]
      obtain ⟨gap, tail', hrest, hgap, htail'⟩ := trim_spec r.blank rest
      have hbody := trim_trimmed r.blank rest
      simp only [hnamed, hdrop, Bool.not_true, Bool.false_eq_true, if_false] at hread
      generalize trim r.blank rest = body at hrest hbody hread
      by_cases hsep : body.idxOf (unit ' ') = 0 ∨ body.idxOf (unit ' ') = body.length
      · rw [if_pos hsep] at hread
        exact absurd (Option.some.inj hread).symm hvalue
      · rw [if_neg hsep] at hread
        push Not at hsep
        have hinside : body.idxOf (unit ' ') < body.length :=
          lt_of_le_of_ne idxOf_le_length hsep.2
        obtain ⟨algorithm, more, hcut, hfirst, hlength⟩ := exists_first hinside
        have hmore : body.drop (algorithm.length + 1) = more := by
          rw [hcut, ← drop_drop, drop_left]
          rfl
        rw [← hlength, hmore] at hread
        rw [hcut, take_left] at hread
        obtain ⟨gap', tail'', hspell, hgap', htail''⟩ := trim_spec r.blank more
        have htext := trim_trimmed r.blank more
        generalize trim r.blank more = text at hspell htext hread
        by_cases halgorithm : r.algorithm algorithm = true
        · simp only [halgorithm, Bool.not_true, Bool.false_eq_true, if_false,
            Option.some.injEq] at hread
          have hne : text ≠ [] := by
            rintro rfl
            exact hvalue (hread ▸ r.value_nil)
          refine ⟨⟨lead, name, gap, algorithm, gap', text, tail'' ++ (tail' ++ tail)⟩, ?_,
            ⟨hlead, hname, hgap, hfirst, ?_, hgap', htext, hne, ?_⟩, halgorithm, hread, hvalue⟩
          · rw [hline, htrim, hrest, hcut, hspell]
            simp [Spelling.line, Spelling.core]
          · cases algorithm with
            | nil => exact absurd hlength.symm hsep.1
            | cons u others => exact ⟨u, others, rfl, hbody.head u (by simp [hcut])⟩
          · intro u hu
            rcases mem_append.mp hu with hu | hu
            · exact htail'' u hu
            · rcases mem_append.mp hu with hu | hu
              · exact htail' u hu
              · exact htail u hu
        · simp only [halgorithm, Bool.not_false, if_true] at hread
          exact absurd (Option.some.inj hread).symm hvalue
    · simp [hnamed] at hread
  · rintro ⟨sp, rfl, hfits, halgorithm, htext, -⟩
    have hline : trim r.blank sp.line = sp.core := trim_eq hfits.lead hfits.tail
      (hfits.core_trimmed r.sparing)
    have hnamed : startsWithFolded sp.core attributeName = true :=
      (startsWith_iff _).mpr ⟨sp.name, _, rfl, hfits.name⟩
    have hbody : trim r.blank (sp.core.drop attributeName.length) =
        sp.algorithm ++ unit ' ' :: (sp.gap' ++ sp.text) := by
      have hcut := trim_eq hfits.gap (forall_mem_nil _) hfits.body_trimmed
      rw [Spelling.core, ← attribute_length hfits.name, drop_left]
      simpa using hcut
    have hsep := idxOf_first (sp.gap' ++ sp.text) hfits.algorithm
    have hvalue' : trim r.blank (sp.gap' ++ sp.text) = sp.text := by
      have hcut := trim_eq hfits.gap' (forall_mem_nil _) hfits.text
      simpa using hcut
    obtain ⟨u, more, hcons, -⟩ := hfits.algorithm_head
    have hinside : ¬ (sp.algorithm.length = 0 ∨ sp.algorithm.length =
        (sp.algorithm ++ unit ' ' :: (sp.gap' ++ sp.text)).length) := by
      simp [hcons]
    unfold read
    simp only [hline, hnamed, hbody, hsep, Bool.not_true, Bool.false_eq_true, if_false]
    rw [if_neg hinside, take_left, halgorithm]
    have hafter : (sp.algorithm ++ unit ' ' :: (sp.gap' ++ sp.text)).drop
        (sp.algorithm.length + 1) = sp.gap' ++ sp.text := by
      rw [← drop_drop, drop_left]
      rfl
    simp only [Bool.not_true, Bool.false_eq_true, if_false, hafter, hvalue', htext]

/-- A line is cut in one way only. -/
theorem Spelling.Fits.unique (hblank : Sparing blank) {sp sp' : Spelling}
    (h : sp.Fits blank) (h' : sp'.Fits blank) (hline : sp.line = sp'.line) : sp = sp' := by
  have hcore_ne : sp.core ≠ [] := by
    intro hnil
    have hempty : sp.text = [] := by simp_all [Spelling.core]
    exact h.text_ne hempty
  obtain ⟨hlead, hcore, htail⟩ := trim_unique hline h.lead h.tail h'.lead h'.tail
    (h.core_trimmed hblank) (h'.core_trimmed hblank) hcore_ne
  have hnames : sp.name.length = sp'.name.length := by
    rw [attribute_length h.name, attribute_length h'.name]
  obtain ⟨hname, hrest⟩ := append_inj hcore hnames
  obtain ⟨hgap, hbody, -⟩ := trim_unique (by simpa using hrest) h.gap
    (forall_mem_nil _) h'.gap (forall_mem_nil _) h.body_trimmed h'.body_trimmed (by simp)
  obtain ⟨halgorithm, hmore⟩ := first_unique hbody h.algorithm h'.algorithm
  obtain ⟨hgap', htext, -⟩ := trim_unique (by simpa using hmore) h.gap'
    (forall_mem_nil _) h'.gap' (forall_mem_nil _) h.text h'.text h.text_ne
  cases sp
  cases sp'
  simp_all

theorem Spelling.Fits.widen {blank wider : UInt16 → Bool} (h : sp.Fits blank)
    (hwider : ∀ u, blank u = true → wider u = true)
    (halgorithm : ∀ u ∈ sp.algorithm.head?, wider u = false) (htext : Trimmed wider sp.text) :
    sp.Fits wider where
  lead u hu := hwider u (h.lead u hu)
  name := h.name
  gap u hu := hwider u (h.gap u hu)
  algorithm := h.algorithm
  algorithm_head := by
    obtain ⟨u, rest, hcons, -⟩ := h.algorithm_head
    exact ⟨u, rest, hcons, halgorithm u (by simp [hcons])⟩
  gap' u hu := hwider u (h.gap' u hu)
  text := htext
  text_ne := h.text_ne
  tail u hu := hwider u (h.tail u hu)

variable (u : UInt16)

theorem isHexDigit_iff : isHexDigit u = true ↔
    (48 ≤ u.toNat ∧ u.toNat ≤ 57) ∨ (97 ≤ u.toNat ∧ u.toNat ≤ 102) ∨
      (65 ≤ u.toNat ∧ u.toNat ≤ 70) := by
  simp [isHexDigit, unit, UInt16.le_iff_toNat_le, or_assoc]

theorem isUpperHex_iff : isUpperHex u = true ↔
    (48 ≤ u.toNat ∧ u.toNat ≤ 57) ∨ (65 ≤ u.toNat ∧ u.toNat ≤ 70) := by
  simp [isUpperHex, unit, UInt16.le_iff_toNat_le]

def anyBlank : Bool := isSpace u || isWhiteSpace u

def commonBlank : Bool := isSpace u && isWhiteSpace u

theorem anyBlank_iff : anyBlank u = true ↔
    u.toNat = 32 ∨ (9 ≤ u.toNat ∧ u.toNat ≤ 13) ∨ u.toNat = 0x85 ∨ u.toNat = 0xA0 ∨
      u.toNat = 0x1680 ∨ (0x2000 ≤ u.toNat ∧ u.toNat ≤ 0x200A) ∨ u.toNat = 0x2028 ∨
      u.toNat = 0x2029 ∨ u.toNat = 0x202F ∨ u.toNat = 0x205F ∨ u.toNat = 0x3000 ∨
      u.toNat = 0xFEFF := by
  simp [anyBlank, isSpace, isWhiteSpace, UInt16.le_iff_toNat_le,
    ← UInt16.toNat_inj]
  omega

theorem fold_cases {u c : UInt16} (h : fold u = c) :
    u = c ∨ (65 ≤ u.toNat ∧ u.toNat ≤ 90 ∧ u.toNat + 32 = c.toNat) ∨
      (u = 0x017F ∧ c = unit 's') ∨ (u = 0x212A ∧ c = unit 'k') := by
  unfold fold at h
  split_ifs at h with hupper hs hk
  · have hlow : 65 ≤ u.toNat := by simpa [unit, UInt16.le_iff_toNat_le] using hupper.1
    have hhigh : u.toNat ≤ 90 := by simpa [unit, UInt16.le_iff_toNat_le] using hupper.2
    have hsum : (u + 32).toNat = u.toNat + 32 := by
      rw [UInt16.toNat_add]
      have h32 : (32 : UInt16).toNat = 32 := rfl
      omega
    exact Or.inr (Or.inl ⟨hlow, hhigh, by rw [← h, hsum]⟩)
  · exact Or.inr (Or.inr (Or.inl ⟨hs, h.symm⟩))
  · exact Or.inr (Or.inr (Or.inr ⟨hk, h.symm⟩))
  · exact Or.inl h

variable {u : UInt16}

theorem not_anyBlank (h : ¬ anyBlank u = true) : anyBlank u = false := by
  simpa using h

theorem sparing_anyBlank : Sparing anyBlank := by
  intro u hu
  apply not_anyBlank
  rw [anyBlank_iff]
  have ha : (unit 'a').toNat = 97 := rfl
  have hcolon : (unit ':').toNat = 58 := rfl
  rcases hu with hu | hu
  · rcases fold_cases hu with rfl | ⟨-, -, hsum⟩ | ⟨-, hc⟩ | ⟨-, hc⟩
    · omega
    · omega
    · exact absurd hc (by decide)
    · exact absurd hc (by decide)
  · rcases fold_cases hu with rfl | ⟨-, -, hsum⟩ | ⟨-, hc⟩ | ⟨-, hc⟩
    · omega
    · omega
    · exact absurd hc (by decide)
    · exact absurd hc (by decide)

theorem Sparing.mono {blank wider : UInt16 → Bool} (h : Sparing wider)
    (hwider : ∀ u, blank u = true → wider u = true) : Sparing blank := by
  intro u hu
  have hw := h u hu
  cases hb : blank u with
  | false => rfl
  | true => exact absurd (hwider u hb) (by simp [hw])

theorem anyBlank_of_isSpace (h : isSpace u = true) : anyBlank u = true := by
  simp [anyBlank, h]

theorem anyBlank_of_isWhiteSpace (h : isWhiteSpace u = true) :
    anyBlank u = true := by
  simp [anyBlank, h]

def host : Reader where
  blank := isSpace
  algorithm a := equalsFolded (trimmed a) (qs "sha-256")
  value := normalise
  sparing := sparing_anyBlank.mono fun _ => anyBlank_of_isSpace
  value_nil := by decide

def pageValue (text : Text) : Text :=
  if hexPairs 31 (toUpperCase text) then toUpperCase text else []

def page : Reader where
  blank := isWhiteSpace
  algorithm a := toLowerCase a = qs "sha-256"
  value := pageValue
  sparing := sparing_anyBlank.mono fun _ => anyBlank_of_isWhiteSpace
  value_nil := by decide

theorem trimmed_eq (s : Text) : trimmed s = trim isSpace s := rfl

variable (line : Text)

theorem lineValue_eq_host : lineValue line = host.read line := by
  simp only [lineValue, Reader.read, host, trimmed_eq, attributeName]
  rfl

/-- Where lowering and folding part: at two letters, and none of them is ASCII. -/
theorem lowerUnit_cases (u : UInt16) :
    lowerUnit u = [fold u] ∨
      (u = 0x0130 ∧ lowerUnit u = [unit 'i', 0x0307] ∧ fold u = 0x0130) ∨
      (u = 0x017F ∧ lowerUnit u = [0x017F] ∧ fold u = unit 's') := by
  by_cases hdot : u = 0x0130
  · subst hdot
    exact Or.inr (Or.inl (by decide))
  · by_cases hlong : u = 0x017F
    · subst hlong
      exact Or.inr (Or.inr (by decide))
    · apply Or.inl
      unfold lowerUnit fold
      split_ifs <;> rfl

/-- Lowered or folded, a text starts with the same ASCII letters, `s` apart. -/
theorem startsWith_lower {start s : Text} (hstart : ∀ c ∈ start, c.toNat < 128 ∧ c ≠ unit 's')
    (hlast : start.getLast? ≠ some (unit 'i')) :
    start.isPrefixOf (toLowerCase s) = start.isPrefixOf (s.map fold) := by
  induction s generalizing start with
  | nil => rfl
  | cons u s ih =>
    cases start with
    | nil => simp
    | cons c start =>
      have hc := hstart c (by simp)
      have hrest : start.isPrefixOf (toLowerCase s) =
          start.isPrefixOf (s.map fold) := by
        cases start with
        | nil => simp
        | cons d start =>
          exact ih (fun e he => hstart e (mem_cons_of_mem c he)) (by simpa using hlast)
      have hunits : toLowerCase (u :: s) =
          lowerUnit u ++ toLowerCase s := rfl
      rw [hunits, map_cons]
      rcases lowerUnit_cases u with hsame | ⟨-, hlower, hfold⟩ | ⟨-, hlower, hfold⟩
      · rw [hsame, singleton_append, isPrefixOf_cons_cons, isPrefixOf_cons_cons, hrest]
      · have hnot : c ≠ 0x0130 := by
          rintro rfl
          exact absurd hc.1 (by decide)
        rw [hlower, hfold, cons_append, isPrefixOf_cons_cons, isPrefixOf_cons_cons,
          beq_eq_false_iff_ne.mpr hnot, Bool.false_and]
        cases start with
        | nil =>
          have hi : c ≠ unit 'i' := by simpa using hlast
          rw [beq_eq_false_iff_ne.mpr hi, Bool.false_and]
        | cons d start =>
          have hd : d ≠ 0x0307 := by
            rintro rfl
            exact absurd (hstart 0x0307 (by simp)).1 (by decide)
          rw [singleton_append, isPrefixOf_cons_cons, beq_eq_false_iff_ne.mpr hd,
            Bool.false_and, Bool.and_false]
      · have hnot : c ≠ 0x017F := by
          rintro rfl
          exact absurd hc.1 (by decide)
        rw [hlower, hfold, singleton_append, isPrefixOf_cons_cons,
          isPrefixOf_cons_cons, beq_eq_false_iff_ne.mpr hnot,
          beq_eq_false_iff_ne.mpr hc.2, Bool.false_and, Bool.false_and]

theorem pageLineValue_eq :
    (Bootstrap.Pairing.lineValue line).map (fun value => value.getD []) = page.read line := by
  have hstarts : ∀ s : Text, (qs "a=fingerprint:").isPrefixOf (toLowerCase s) =
      startsWithFolded s (qs "a=fingerprint:") := by
    intro s
    have hfolded : (qs "a=fingerprint:").map fold = qs "a=fingerprint:" := by decide
    have hletters : qs "a=fingerprint:" =
        [97, 61, 102, 105, 110, 103, 101, 114, 112, 114, 105, 110, 116, 58] := by decide
    rw [startsWithFolded, hfolded, hletters]
    exact startsWith_lower (by simp [unit]) (by decide)
  have htrim : ∀ s : Text, trim s = trim isWhiteSpace s := fun _ => rfl
  simp only [Bootstrap.Pairing.lineValue, Reader.read, page, htrim, attributeName, hstarts,
    pageValue]
  split_ifs <;> simp_all

def ValueUnit (u : UInt16) : Prop := isHexDigit u = true ∨ u = unit ':'

def upperHex (u : UInt16) : UInt16 := if unit 'a' ≤ u ∧ u ≤ unit 'z' then u - 32 else u

/-- 32 bytes in hex, a colon between two. -/
def Canonical (text : Text) : Prop :=
  ∃ bytes : List Text, bytes.length = sha256Bytes ∧
    (∀ b ∈ bytes, b.length = 2 ∧ ∀ u ∈ b, isHexDigit u = true) ∧
    text = [unit ':'].intercalate bytes

theorem colon_not_hex : isHexDigit (unit ':') = false := by decide

theorem upperHex_toNat (u : UInt16) :
    (upperHex u).toNat = if 97 ≤ u.toNat ∧ u.toNat ≤ 122 then u.toNat - 32 else u.toNat := by
  have hrange : (unit 'a' ≤ u ∧ u ≤ unit 'z') ↔ (97 ≤ u.toNat ∧ u.toNat ≤ 122) := by
    simp [unit, UInt16.le_iff_toNat_le]
  unfold upperHex
  by_cases hlower : 97 ≤ u.toNat ∧ u.toNat ≤ 122
  · have h32 : (32 : UInt16) ≤ u := by
      rw [UInt16.le_iff_toNat_le]
      have hn : (32 : UInt16).toNat = 32 := rfl
      omega
    rw [if_pos (hrange.mpr hlower), if_pos hlower, UInt16.toNat_sub_of_le _ _ h32]
    rfl
  · rw [if_neg (fun h => hlower (hrange.mp h)), if_neg hlower]

theorem upperUnit_plain (h : ∀ key ∈ upperExpansions.map Prod.fst, u ≠ key) :
    upperUnit u = [upperHex u] := by
  have hnone : upperExpansions.lookup u = none := by
    rw [lookup_eq_none_iff]
    intro entry hentry
    simpa using h entry.1 (mem_map_of_mem hentry)
  unfold upperUnit upperHex
  rw [hnone]
  split_ifs <;> rfl

theorem upperUnit_of_valueUnit (hu : ValueUnit u) :
    upperUnit u = [upperHex u] := by
  have hkeys : ∀ key ∈ upperExpansions.map Prod.fst, 0xDF ≤ key.toNat := by
    simp [upperExpansions]
  have hsmall : u.toNat < 0xDF := by
    rcases hu with hhex | rfl
    · rw [isHexDigit_iff] at hhex
      omega
    · decide
  apply upperUnit_plain
  rintro key hkey rfl
  have hlarge := hkeys _ hkey
  omega

theorem upperUnit_of_blank (hu : anyBlank u = true) : upperUnit u = [u] := by
  have hkeys : ∀ key ∈ upperExpansions.map Prod.fst, anyBlank key = false := by
    simp [upperExpansions, anyBlank, isSpace, isWhiteSpace]
  have hsame : upperHex u = u := by
    apply UInt16.toNat_inj.mp
    rw [upperHex_toNat, if_neg]
    rw [anyBlank_iff] at hu
    omega
  rw [upperUnit_plain, hsame]
  rintro key hkey rfl
  simp [hkeys _ hkey] at hu

variable {text : Text}

theorem toUpperCase_value (h : ∀ u ∈ text, ValueUnit u) :
    toUpperCase text = text.map upperHex := by
  induction text with
  | nil => rfl
  | cons u text ih =>
    rw [toUpperCase, flatMap_cons, upperUnit_of_valueUnit (h u (by simp)),
      map_cons, ← ih fun v hv => h v (mem_cons_of_mem u hv)]
    rfl

theorem splitAtColons (text : Text) :
    text.splitOnP (fun u => decide (u = unit ':')) = text.splitOn (unit ':') := by
  rw [splitOn_eq_splitOnP]
  congr 1

theorem normalise_units (h : normalise text ≠ []) : ∀ u ∈ text, ValueUnit u := by
  intro u hu
  unfold normalise splitSkipEmpty at h
  rw [splitAtColons] at h
  have hjoin : [unit ':'].intercalate (text.splitOn (unit ':')) = text :=
    intercalate_splitOn _
  rw [← hjoin] at hu
  rcases intercalate_mem hu with ⟨piece, hpiece, hmem⟩ | hcolon
  · apply Or.inl
    simp only at h
    split_ifs at h with hcount hall
    · exact absurd rfl h
    · have hbyte := all_eq_true.mp hall piece (by
        rw [mem_filter]
        refine ⟨hpiece, ?_⟩
        cases piece with
        | nil => simp at hmem
        | cons v rest => rfl)
      rw [Bool.and_eq_true] at hbyte
      exact all_eq_true.mp hbyte.2 u hmem
    · exact absurd rfl h
  · exact Or.inr hcolon

theorem canonical_units (h : Canonical text) : ∀ u ∈ text, ValueUnit u := by
  obtain ⟨bytes, -, hbytes, rfl⟩ := h
  intro u hu
  rcases intercalate_mem hu with ⟨b, hb, hmem⟩ | hcolon
  · exact Or.inl ((hbytes b hb).2 u hmem)
  · exact Or.inr hcolon

theorem map_intercalate (f : UInt16 → UInt16) (x : UInt16) (pieces : List Text) :
    ([x].intercalate pieces).map f = [f x].intercalate (pieces.map (List.map f)) := by
  induction pieces with
  | nil => rfl
  | cons piece pieces ih =>
    cases pieces with
    | nil => simp
    | cons next rest =>
      rw [intercalate_cons_cons, map_append, map_append, ih]
      exact intercalate_cons_cons.symm

theorem normalise_canonical (h : Canonical text) :
    normalise text = text.map upperHex := by
  obtain ⟨bytes, hcount, hbytes, rfl⟩ := h
  have hne : bytes ≠ [] := by
    rintro rfl
    simp [sha256Bytes] at hcount
  have hcolons : ∀ b ∈ bytes, unit ':' ∉ b := by
    intro b hb hmem
    have hhex := (hbytes b hb).2 _ hmem
    rw [colon_not_hex] at hhex
    cases hhex
  have hpieces : splitSkipEmpty (fun u => decide (u = unit ':'))
      ([unit ':'].intercalate bytes) = bytes := by
    rw [splitSkipEmpty, splitAtColons, splitOn_intercalate _ hcolons hne,
      filter_eq_self]
    intro b hb
    have htwo := (hbytes b hb).1
    cases b with
    | nil => simp at htwo
    | cons v rest => rfl
  have hall : (bytes.all fun b => b.length = 2 && b.all isHexDigit) = true := by
    rw [all_eq_true]
    intro b hb
    rw [Bool.and_eq_true, all_eq_true]
    exact ⟨by simpa using (hbytes b hb).1, (hbytes b hb).2⟩
  have hcolon : upperHex (unit ':') = unit ':' := by decide
  rw [normalise, map_intercalate, hcolon]
  simp only [hpieces, hcount, ne_eq, not_true_eq_false, if_false]
  rw [if_pos hall]
  rfl

theorem upperHex_isUpperHex (h : isHexDigit u = true) :
    isUpperHex (upperHex u) = true := by
  rw [isHexDigit_iff] at h
  rw [isUpperHex_iff, upperHex_toNat]
  split_ifs <;> omega

theorem hexPairs_intercalate {n : Nat} {bytes : List Text} (hcount : bytes.length = n + 1)
    (hbytes : ∀ b ∈ bytes, b.length = 2 ∧ ∀ u ∈ b, isHexDigit u = true) :
    hexPairs n (([unit ':'].intercalate bytes).map upperHex) = true := by
  induction n generalizing bytes with
  | zero =>
    obtain ⟨b, rfl⟩ := length_eq_one_iff.mp hcount
    obtain ⟨htwo, hhex⟩ := hbytes b (by simp)
    obtain ⟨x, y, rfl⟩ := length_eq_two.mp htwo
    simp [hexPairs, upperHex_isUpperHex (hhex x (by simp)), upperHex_isUpperHex (hhex y (by simp))]
  | succ n ih =>
    cases bytes with
    | nil => simp at hcount
    | cons b bytes =>
      obtain ⟨htwo, hhex⟩ := hbytes b (by simp)
      obtain ⟨x, y, rfl⟩ := length_eq_two.mp htwo
      have hrest := @ih bytes (by simpa using hcount) fun c hc =>
        hbytes c (mem_cons_of_mem _ hc)
      have hne : bytes ≠ [] := by
        rintro rfl
        simp at hcount
      have hcolon : upperHex (unit ':') = unit ':' := by decide
      rw [intercalate_cons_of_ne_nil hne]
      simp only [cons_append, nil_append, map_cons, hexPairs, hcolon, hrest,
        upperHex_isUpperHex (hhex x (by simp)), upperHex_isUpperHex (hhex y (by simp)),
        decide_true, Bool.and_self]

/-- Letters of a value whose upper case has the pattern are a canonical value. -/
theorem exists_bytes {n : Nat} (hunits : ∀ u ∈ text, ValueUnit u)
    (h : hexPairs n (text.map upperHex) = true) :
    ∃ bytes : List Text, bytes.length = n + 1 ∧
      (∀ b ∈ bytes, b.length = 2 ∧ ∀ u ∈ b, isHexDigit u = true) ∧
      text = [unit ':'].intercalate bytes := by
  have hdigit : ∀ u ∈ text, isUpperHex (upperHex u) = true → isHexDigit u = true := by
    intro u hu hupper
    rcases hunits u hu with hhex | rfl
    · exact hhex
    · exact absurd hupper (by decide)
  induction n generalizing text with
  | zero =>
    match text, h with
    | [x, y], h =>
      simp only [map_cons, map_nil, hexPairs, Bool.and_eq_true] at h
      have hx := hdigit x (by simp) h.1
      have hy := hdigit y (by simp) h.2
      exact ⟨[[x, y]], rfl, by simp [hx, hy], by simp⟩
  | succ n ih =>
    match text, h with
    | x :: y :: c :: rest, h =>
      simp only [map_cons, hexPairs, Bool.and_eq_true, decide_eq_true_eq] at h
      obtain ⟨⟨⟨hx, hy⟩, hc⟩, hrest⟩ := h
      obtain ⟨bytes, hcount, hbytes, rfl⟩ := ih
        (fun u hu => hunits u (by simp [hu])) hrest (fun u hu => hdigit u (by simp [hu]))
      have hx' := hdigit x (by simp) hx
      have hy' := hdigit y (by simp) hy
      have hcolon : c = unit ':' := by
        rcases hunits c (by simp) with hhex | hcolon
        · have hupper := upperHex_isUpperHex hhex
          rw [hc] at hupper
          exact absurd hupper (by decide)
        · exact hcolon
      have hne : bytes ≠ [] := by
        rintro rfl
        simp at hcount
      refine ⟨[x, y] :: bytes, by simp [hcount], ?_, ?_⟩
      · intro b hb
        rcases mem_cons.mp hb with rfl | hb
        · simp [hx', hy']
        · exact hbytes b hb
      · rw [intercalate_cons_of_ne_nil hne, hcolon]
        rfl

theorem pageValue_canonical (h : Canonical text) :
    pageValue text = text.map upperHex := by
  have hupper := toUpperCase_value (canonical_units h)
  obtain ⟨bytes, hcount, hbytes, rfl⟩ := h
  have hpairs := hexPairs_intercalate (n := 31) hcount hbytes
  rw [pageValue, hupper, if_pos hpairs]

theorem canonical_of_both (hhost : normalise text ≠ []) (hpage : pageValue text ≠ []) :
    Canonical text := by
  have hunits := normalise_units hhost
  have hpairs : hexPairs 31 (text.map upperHex) = true := by
    rw [← toUpperCase_value hunits]
    unfold pageValue at hpage
    split_ifs at hpage with hpairs
    · exact hpairs
    · exact absurd rfl hpage
  exact exists_bytes hunits hpairs

theorem valueUnit_not_blank (h : ValueUnit u) : anyBlank u = false := by
  apply not_anyBlank
  rw [anyBlank_iff]
  rcases h with hhex | rfl
  · rw [isHexDigit_iff] at hhex
    omega
  · decide

theorem hexPairs_units {n : Nat} (h : hexPairs n text = true) :
    ∀ u ∈ text, isUpperHex u = true ∨ u = unit ':' := by
  induction n generalizing text with
  | zero =>
    match text, h with
    | [x, y], h =>
      simp only [hexPairs, Bool.and_eq_true] at h
      simp [h.1, h.2]
  | succ n ih =>
    match text, h with
    | x :: y :: c :: rest, h =>
      simp only [hexPairs, Bool.and_eq_true, decide_eq_true_eq] at h
      obtain ⟨⟨⟨hx, hy⟩, hc⟩, hrest⟩ := h
      intro u hu
      simp only [mem_cons] at hu
      rcases hu with rfl | rfl | rfl | hu
      · exact Or.inl hx
      · exact Or.inl hy
      · exact Or.inr hc
      · exact ih hrest u hu

theorem pageValue_units (h : pageValue text ≠ []) :
    ∀ u ∈ text, anyBlank u = false := by
  intro u hu
  unfold pageValue at h
  split_ifs at h with hpairs
  · cases hblank : anyBlank u with
    | false => rfl
    | true =>
      have hmem : u ∈ toUpperCase text :=
        mem_flatMap.mpr ⟨u, hu, by simp [upperUnit_of_blank hblank]⟩
      have hvalue : ValueUnit u := by
        rcases hexPairs_units hpairs u hmem with hupper | hcolon
        · rw [isUpperHex_iff] at hupper
          exact Or.inl ((isHexDigit_iff u).mpr (by omega))
        · exact Or.inr hcolon
      rw [valueUnit_not_blank hvalue] at hblank
      cases hblank
  · exact absurd rfl h

/-- Only blanks both sides know, the algorithm in ASCII letters right before its
space, and a canonical value. -/
def Strict : Prop :=
  ∃ sp : Spelling, sp.line = line ∧ sp.Fits commonBlank ∧
    toLowerCase sp.algorithm = qs "sha-256" ∧ Canonical sp.text

theorem folded_s_not_blank (h : fold u = unit 's') : anyBlank u = false := by
  apply not_anyBlank
  rw [anyBlank_iff]
  have hs : (unit 's').toNat = 115 := rfl
  rcases fold_cases h with rfl | ⟨-, -, hsum⟩ | ⟨rfl, -⟩ | ⟨-, hc⟩
  · omega
  · omega
  · decide
  · exact absurd hc (by decide)

theorem sha256_letters : qs "sha-256" = [115, 104, 97, 45, 50, 53, 54] := by decide

/-- The host's algorithm starts with an `s`. -/
theorem host_algorithm_head {rest : Text} (hblank : isSpace u = false)
    (h : host.algorithm (u :: rest) = true) : anyBlank u = false := by
  obtain ⟨lead, tail, hcut, hlead, -⟩ := trim_spec isSpace (u :: rest)
  have hfolded : (trim isSpace (u :: rest)).map fold = qs "sha-256" := by
    have hsame : (qs "sha-256").map fold = qs "sha-256" := by decide
    simpa [host, equalsFolded, hsame, trimmed_eq] using h
  have hnil : lead = [] := by
    cases lead with
    | nil => rfl
    | cons v lead =>
      have huv : u = v := by simpa using congrArg List.head? hcut
      rw [huv, hlead v (by simp)] at hblank
      cases hblank
  cases htrim : trim isSpace (u :: rest) with
  | nil =>
    rw [htrim] at hfolded
    exact absurd hfolded (by decide)
  | cons v text =>
    rw [hnil, htrim] at hcut
    have huv : u = v := by simpa using congrArg List.head? hcut
    rw [htrim, map_cons, sha256_letters] at hfolded
    exact folded_s_not_blank (huv ▸ (List.cons.inj hfolded).1)

theorem lower_eq_fold {text lowered : Text} (h : toLowerCase text = lowered)
    (hletters : ∀ c ∈ lowered, c ≠ 0x0307 ∧ c ≠ 0x017F) : text.map fold = lowered := by
  induction text generalizing lowered with
  | nil => simpa [toLowerCase] using h
  | cons u text ih =>
    rw [toLowerCase, flatMap_cons] at h
    rcases lowerUnit_cases u with hsame | ⟨-, hlower, -⟩ | ⟨-, hlower, -⟩
    · rw [hsame, singleton_append] at h
      subst h
      rw [map_cons, ih rfl fun c hc => hletters c (mem_cons_of_mem _ hc)]
      rfl
    · rw [hlower] at h
      exact absurd rfl (hletters 0x0307 (by simp [← h])).1
    · rw [hlower] at h
      exact absurd rfl (hletters 0x017F (by simp [← h])).2

theorem page_algorithm_folded {a : Text} (h : toLowerCase a = qs "sha-256") :
    a.map fold = qs "sha-256" :=
  lower_eq_fold h (by simp [sha256_letters])

theorem page_algorithm_head {rest : Text}
    (h : toLowerCase (u :: rest) = qs "sha-256") : anyBlank u = false := by
  have hfolded := page_algorithm_folded h
  rw [map_cons, sha256_letters] at hfolded
  exact folded_s_not_blank (List.cons.inj hfolded).1

theorem host_algorithm_of_lower {a : Text} (h : toLowerCase a = qs "sha-256") :
    host.algorithm a = true := by
  have hfolded := page_algorithm_folded h
  have hedges : Trimmed isSpace a := by
    have hsix : ∀ u, fold u = 54 → isSpace u = false := by
      intro u hu
      rcases fold_cases hu with rfl | ⟨hlow, -, hsum⟩ | ⟨-, hc⟩ | ⟨-, hc⟩
      · decide
      · have h54 : (54 : UInt16).toNat = 54 := rfl
        omega
      · exact absurd hc (by decide)
      · exact absurd hc (by decide)
    constructor
    · intro u hu
      cases a with
      | nil => simp at hu
      | cons v rest =>
        have huv : v = u := by simpa using hu
        have hblank := page_algorithm_head h
        simp only [anyBlank, Bool.or_eq_false_iff] at hblank
        exact huv ▸ hblank.1
    · intro u hu
      apply hsix u
      have hlast := congrArg List.getLast? hfolded
      rw [List.getLast?_map, Option.mem_def.mp hu, sha256_letters] at hlast
      simpa using hlast
  have htrim : trim isSpace a = a := by
    simpa using trim_eq (forall_mem_nil _) (forall_mem_nil _) hedges
  have hsame : (qs "sha-256").map fold = qs "sha-256" := by decide
  simp [host, equalsFolded, trimmed_eq, htrim, hfolded, hsame]

theorem trimmed_of_unblank (h : ∀ u ∈ text, anyBlank u = false) :
    Trimmed anyBlank text :=
  ⟨fun u hu => h u (mem_of_mem_head? hu), fun u hu => h u (mem_of_mem_getLast? hu)⟩

theorem strict_of_spells {line value value' : Text} (hhost : host.Spells line value)
    (hpage : page.Spells line value') : Strict line := by
  obtain ⟨sp, rfl, hfits, halgorithm, htext, hvalue⟩ := hhost
  obtain ⟨sp', hline, hfits', halgorithm', htext', hvalue'⟩ := hpage
  have hnormalise : normalise sp.text ≠ [] := by
    rw [show normalise sp.text = value from htext]
    exact hvalue
  have hpageValue : pageValue sp'.text ≠ [] := by
    rw [show pageValue sp'.text = value' from htext']
    exact hvalue'
  have hunits : ∀ u ∈ sp.text, anyBlank u = false := fun u hu =>
    valueUnit_not_blank (normalise_units hnormalise u hu)
  have hunits' : ∀ u ∈ sp'.text, anyBlank u = false := pageValue_units hpageValue
  have hlower : toLowerCase sp'.algorithm = qs "sha-256" := by
    simpa [page] using halgorithm'
  have hwide : sp.Fits anyBlank := by
    refine hfits.widen (fun _ => anyBlank_of_isSpace) ?_ (trimmed_of_unblank hunits)
    intro u hu
    obtain ⟨v, rest, hcons, hblank⟩ := hfits.algorithm_head
    obtain rfl : v = u := by simpa [hcons] using hu
    exact host_algorithm_head hblank (hcons ▸ halgorithm)
  have hwide' : sp'.Fits anyBlank := by
    refine hfits'.widen (fun _ => anyBlank_of_isWhiteSpace) ?_ (trimmed_of_unblank hunits')
    intro u hu
    obtain ⟨v, rest, hcons, -⟩ := hfits'.algorithm_head
    obtain rfl : v = u := by simpa [hcons] using hu
    exact page_algorithm_head (hcons ▸ hlower)
  obtain rfl : sp' = sp := hwide'.unique sparing_anyBlank hwide hline
  have hcommon : ∀ u, isSpace u = true → isWhiteSpace u = true →
      commonBlank u = true := fun u h h' => by simp [commonBlank, h, h']
  have hunblank : ∀ u, anyBlank u = false → commonBlank u = false := by
    intro u hu
    simp only [anyBlank, Bool.or_eq_false_iff] at hu
    simp [commonBlank, hu.1]
  refine ⟨sp', rfl, ?_, hlower, canonical_of_both hnormalise hpageValue⟩
  exact {
    lead := fun u hu => hcommon u (hfits.lead u hu) (hfits'.lead u hu)
    name := hfits.name
    gap := fun u hu => hcommon u (hfits.gap u hu) (hfits'.gap u hu)
    algorithm := hfits.algorithm
    algorithm_head := by
      obtain ⟨u, rest, hcons, hblank⟩ := hwide.algorithm_head
      exact ⟨u, rest, hcons, hunblank u hblank⟩
    gap' := fun u hu => hcommon u (hfits.gap' u hu) (hfits'.gap' u hu)
    text := ⟨fun u hu => hunblank u (hwide.text.head u hu),
      fun u hu => hunblank u (hwide.text.last u hu)⟩
    text_ne := hfits.text_ne
    tail := fun u hu => hcommon u (hfits.tail u hu) (hfits'.tail u hu) }

theorem Strict.spells {line : Text} (h : Strict line) :
    ∃ value, host.Spells line value ∧ page.Spells line value := by
  obtain ⟨sp, rfl, hfits, hlower, hcanonical⟩ := h
  have hunits : ∀ u ∈ sp.text, anyBlank u = false := fun u hu =>
    valueUnit_not_blank (canonical_units hcanonical u hu)
  have hne : sp.text.map upperHex ≠ [] := by
    intro hnil
    exact hfits.text_ne (map_eq_nil_iff.mp hnil)
  have hhead : ∀ u ∈ sp.algorithm.head?, anyBlank u = false := by
    intro u hu
    obtain ⟨v, rest, hcons, -⟩ := hfits.algorithm_head
    obtain rfl : v = u := by simpa [hcons] using hu
    exact page_algorithm_head (hcons ▸ hlower)
  have hspare : ∀ u, anyBlank u = false →
      isSpace u = false ∧ isWhiteSpace u = false := by
    intro u hu
    simpa [anyBlank] using hu
  refine ⟨sp.text.map upperHex, ⟨sp, rfl, ?_, host_algorithm_of_lower hlower,
    normalise_canonical hcanonical, hne⟩, ⟨sp, rfl, ?_, by simpa [page] using hlower,
    pageValue_canonical hcanonical, hne⟩⟩
  · refine hfits.widen (fun u hu => ?_) (fun u hu => (hspare u (hhead u hu)).1)
      ⟨fun u hu => (hspare u (hunits u (mem_of_mem_head? hu))).1,
        fun u hu => (hspare u (hunits u (mem_of_mem_getLast? hu))).1⟩
    simp only [commonBlank, Bool.and_eq_true] at hu
    exact hu.1
  · refine hfits.widen (fun u hu => ?_) (fun u hu => (hspare u (hhead u hu)).2)
      ⟨fun u hu => (hspare u (hunits u (mem_of_mem_head? hu))).2,
        fun u hu => (hspare u (hunits u (mem_of_mem_getLast? hu))).2⟩
    simp only [commonBlank, Bool.and_eq_true] at hu
    exact hu.2

def Reader.Names (line : Text) : Prop :=
  startsWithFolded (trim r.blank line) attributeName = true

/-- Some line names a fingerprint, and each that does spells this value. -/
def Reader.Speaks (lines : List Text) (value : Text) : Prop :=
  (∃ line ∈ lines, r.Names line) ∧ ∀ line ∈ lines, r.Names line → r.Spells line value

/-- The loop over the lines, for any reader. -/
def Reader.gather (r : Reader) (found : Text) : List Text → Text
  | [] => found
  | rawLine :: rest =>
      match r.read rawLine with
      | none => r.gather found rest
      | some value =>
          if value = [] then []
          else if found = [] then r.gather value rest
          else if found = value then r.gather found rest
          else []

theorem Reader.read_eq_none (line : Text) : r.read line = none ↔ ¬ r.Names line := by
  unfold read Names
  simp only
  split_ifs with hnamed <;> simp_all

variable {value : Text}

/-- The loop ends with a value when each line named spells it and either one
does or it was found before. -/
theorem Reader.gather_eq (hvalue : value ≠ []) (lines : List Text) (found : Text) :
    r.gather found lines = value ↔
      (found = value ∨ found = [] ∧ ∃ line ∈ lines, r.Names line) ∧
        ∀ line ∈ lines, r.Names line → r.Spells line value := by
  induction lines generalizing found with
  | nil => simp [gather]
  | cons line lines ih =>
    cases hread : r.read line with
    | none =>
      have hnot : ¬ r.Names line := (r.read_eq_none line).mp hread
      rw [gather, hread]
      simp only
      rw [ih]
      simp [hnot]
    | some read =>
      have hnamed : r.Names line := by
        by_contra hnot
        rw [← r.read_eq_none, hread] at hnot
        cases hnot
      have hspells : ∀ v, v ≠ [] → (r.Spells line v ↔ read = v) := by
        intro v hv
        rw [← r.read_eq_some hv, hread, Option.some.injEq]
      have hall : (∀ l ∈ line :: lines, r.Names l → r.Spells l value) ↔
          read = value ∧ ∀ l ∈ lines, r.Names l → r.Spells l value := by
        rw [forall_mem_cons, ← hspells value hvalue]
        exact and_congr_left fun _ => ⟨fun h => h hnamed, fun h _ => h⟩
      have hsome : ∃ l ∈ line :: lines, r.Names l := ⟨line, by simp, hnamed⟩
      rw [gather, hread, hall]
      simp only
      by_cases hrefused : read = []
      · rw [if_pos hrefused]
        exact iff_of_false hvalue.symm fun h => hvalue (h.2.1 ▸ hrefused)
      · rw [if_neg hrefused]
        by_cases hfirst : found = []
        · rw [if_pos hfirst, ih]
          constructor
          · rintro ⟨hvalue' | ⟨hnil, -⟩, hrest⟩
            · exact ⟨Or.inr ⟨hfirst, hsome⟩, hvalue', hrest⟩
            · exact absurd hnil hrefused
          · rintro ⟨-, hvalue', hrest⟩
            exact ⟨Or.inl hvalue', hrest⟩
        · rw [if_neg hfirst]
          by_cases hsame : found = read
          · rw [if_pos hsame, ih]
            constructor
            · rintro ⟨hvalue' | ⟨hnil, -⟩, hrest⟩
              · exact ⟨Or.inl hvalue', hsame ▸ hvalue', hrest⟩
              · exact absurd hnil hfirst
            · rintro ⟨-, hvalue', hrest⟩
              exact ⟨Or.inl (hsame.trans hvalue'), hrest⟩
          · rw [if_neg hsame]
            refine iff_of_false hvalue.symm ?_
            rintro ⟨hfound | ⟨hnil, -⟩, hvalue', -⟩
            · exact hsame (hfound.trans hvalue'.symm)
            · exact hfirst hnil

theorem Reader.gather_speaks (hvalue : value ≠ [])
    (lines : List Text) : r.gather [] lines = value ↔ r.Speaks lines value := by
  rw [r.gather_eq hvalue, Speaks]
  simp [hvalue.symm]

theorem extractFrom_eq (found : Text) (lines : List Text) :
    extractFrom found lines = host.gather found lines := by
  induction lines generalizing found with
  | nil => rfl
  | cons line lines ih =>
    rw [extractFrom, gather, lineValue_eq_host]
    cases host.read line with
    | none => exact ih found
    | some value =>
      simp only
      rw [ih, ih]

theorem extract_speaks {sdp value : Text} (hvalue : value ≠ []) :
    extract sdp = value ↔ host.Speaks (lines sdp) value := by
  rw [extract, extractFrom_eq, host.gather_speaks hvalue]

def accepted (value : Text) : Option Text := if value = [] then none else some value

theorem pageLineValue_accepted :
    Bootstrap.Pairing.lineValue line = (page.read line).map accepted := by
  rw [← pageLineValue_eq]
  cases hread : Bootstrap.Pairing.lineValue line with
  | none => rfl
  | some read =>
    cases read with
    | none => rfl
    | some value =>
      have hne : value ≠ [] := by
        rintro rfl
        unfold Bootstrap.Pairing.lineValue at hread
        simp only at hread
        split_ifs at hread with hnamed hsep halgorithm hpairs
        · simp at hread
        · simp at hread
        · rw [Option.some.inj (Option.some.inj hread)] at hpairs
          exact absurd hpairs (by decide)
        · simp at hread
      simp [accepted, hne]

theorem page_extractFrom_eq (found : Text) (lines : List Text) :
    Bootstrap.Pairing.extractFrom (accepted found) lines = accepted (page.gather found lines) := by
  induction lines generalizing found with
  | nil => rfl
  | cons line lines ih =>
    rw [Bootstrap.Pairing.extractFrom, gather, pageLineValue_accepted]
    cases page.read line with
    | none => exact ih found
    | some value =>
      simp only [Option.map_some]
      by_cases hvalue : value = []
      · simp [hvalue, accepted]
      · have hsome : accepted value = some value := if_neg hvalue
        rw [hsome, if_neg hvalue]
        by_cases hfound : found = []
        · rw [if_pos hfound, ← ih, hsome, hfound]
          rfl
        · have hfound' : accepted found = some found := if_neg hfound
          rw [if_neg hfound, hfound']
          simp only
          by_cases hsame : found = value
          · rw [if_pos hsame, if_neg (by simpa using hsame), ← ih, hfound']
          · rw [if_neg hsame, if_pos hsame]
            rfl

/-- The pieces that are not empty, split one way or the other. -/
theorem splitRuns_nonempty (p : UInt16 → Bool) (s : Text) :
    (splitRuns p s).filter (fun piece => !piece.isEmpty) =
      splitSkipEmpty p s := by
  unfold splitRuns splitSkipEmpty
  cases s.splitOnP p with
  | nil => rfl
  | cons first rest =>
    cases hlast : rest.getLast? with
    | none =>
      rw [List.getLast?_eq_none_iff] at hlast
      simp [hlast]
    | some last =>
      have hrest : rest = rest.dropLast ++ [last] := by
        obtain ⟨front, rfl⟩ := List.getLast?_eq_some_iff.mp hlast
        simp
      simp only [hlast]
      conv_rhs => rw [hrest]
      simp [filter_cons, filter_append]

/-- An empty piece says nothing. -/
theorem page_gather_nonempty (found : Text) (lines : List Text) :
    page.gather found lines =
      page.gather found (lines.filter fun piece => !piece.isEmpty) := by
  induction lines generalizing found with
  | nil => rfl
  | cons line lines ih =>
    cases line with
    | nil =>
      have hnil : page.read [] = none := by decide
      rw [gather, hnil]
      exact ih found
    | cons u rest =>
      have hkeep : (!(u :: rest).isEmpty) = true := rfl
      rw [filter_cons_of_pos (p := fun piece : Text => !piece.isEmpty) hkeep, gather, gather]
      cases page.read (u :: rest) with
      | none => exact ih found
      | some value =>
        simp only
        rw [← ih, ← ih]

theorem extractFingerprint_eq (sdp : Text) :
    Bootstrap.Pairing.extractFingerprint sdp = accepted (page.gather [] (lines sdp)) := by
  unfold Bootstrap.Pairing.extractFingerprint
  by_cases hnil : sdp = []
  · subst hnil
    rw [if_pos rfl]
    rfl
  · have hloop := page_extractFrom_eq [] (splitRuns
      (fun u => u = unit '\r' || u = unit '\n') sdp)
    rw [page_gather_nonempty, splitRuns_nonempty] at hloop
    rw [if_neg hnil]
    exact hloop

theorem extractFingerprint_speaks {sdp value : Text} :
    Bootstrap.Pairing.extractFingerprint sdp = some value ↔
      value ≠ [] ∧ page.Speaks (lines sdp) value := by
  rw [extractFingerprint_eq]
  unfold accepted
  split_ifs with hnil
  · refine iff_of_false (by simp) ?_
    rintro ⟨hvalue, hspeaks⟩
    rw [← page.gather_speaks hvalue, hnil] at hspeaks
    exact hvalue hspeaks.symm
  · rw [Option.some.injEq]
    constructor
    · rintro rfl
      exact ⟨hnil, (page.gather_speaks hnil _).mp rfl⟩
    · rintro ⟨hvalue, hspeaks⟩
      exact (page.gather_speaks hvalue _).mpr hspeaks

/-- What one side makes of a description is no news to the other: of the lines
both read all are strict, and the lines the other reads alone spell the same. -/
def Shared (r other : Reader) (lines : List Text) : Prop :=
  ∀ value, r.Speaks lines value →
    (∃ line ∈ lines, other.Names line) ∧
      ∀ line ∈ lines, other.Names line →
        (r.Names line → Strict line) ∧ (¬ r.Names line → other.Spells line value)

theorem speaks_of_shared {r other : Reader} {lines : List Text}
    (hstrict : ∀ line, Strict line → ∃ v, r.Spells line v ∧ other.Spells line v)
    (hshared : Shared r other lines) (h : r.Speaks lines value) : other.Speaks lines value := by
  obtain ⟨hsome, hall⟩ := hshared value h
  refine ⟨hsome, ?_⟩
  intro line hline hnamed
  by_cases hboth : r.Names line
  · obtain ⟨v, hv, hv'⟩ := hstrict line ((hall line hline hnamed).1 hboth)
    have hsame : v = value := by
      have hne : v ≠ [] := hv.choose_spec.2.2.2.2
      have hspells := h.2 line hline hboth
      have hne' : value ≠ [] := hspells.choose_spec.2.2.2.2
      have hread := (r.read_eq_some hne).mpr hv
      rw [(r.read_eq_some hne').mpr hspells] at hread
      exact (Option.some.inj hread).symm
    exact hsame ▸ hv'
  · exact (hall line hline hnamed).2 hboth

/-- The host's extractor and the two pages' agree on a description exactly when
its lines are shared both ways. -/
theorem extractors_agree_iff (sdp : Text) :
    (Bootstrap.Pairing.extractFingerprint sdp = accepted (extract sdp) ∧
        Frontend.PairingCrypto.extractFingerprint sdp = accepted (extract sdp)) ↔
      Shared host page (lines sdp) ∧ Shared page host (lines sdp) := by
  have hcopies : Frontend.PairingCrypto.extractFingerprint sdp =
      Bootstrap.Pairing.extractFingerprint sdp := rfl
  have hvalues : Bootstrap.Pairing.extractFingerprint sdp = accepted (extract sdp) ↔
      ∀ value, value ≠ [] → (host.Speaks (lines sdp) value ↔ page.Speaks (lines sdp) value) := by
    constructor
    · intro hagree value hvalue
      have hpage := @extractFingerprint_speaks sdp value
      rw [hagree, accepted] at hpage
      rw [← extract_speaks hvalue]
      split_ifs at hpage with hnil
      · rw [hnil]
        exact iff_of_false hvalue.symm fun hspeaks => by simpa using hpage.mpr ⟨hvalue, hspeaks⟩
      · rw [Option.some.injEq] at hpage
        rw [hpage]
        exact and_iff_right hvalue
    · intro hsame
      apply Option.ext
      intro value
      rw [extractFingerprint_speaks, accepted]
      split_ifs with hnil
      · refine iff_of_false ?_ (by simp)
        rintro ⟨hvalue, hspeaks⟩
        rw [← hsame value hvalue, ← extract_speaks hvalue, hnil] at hspeaks
        exact hvalue hspeaks.symm
      · rw [Option.some.injEq]
        constructor
        · rintro ⟨hvalue, hspeaks⟩
          exact (extract_speaks hvalue).mpr ((hsame value hvalue).mpr hspeaks)
        · rintro rfl
          exact ⟨hnil, (hsame _ hnil).mp ((extract_speaks hnil).mp rfl)⟩
  have hnonempty : ∀ {r : Reader} {value}, r.Speaks (lines sdp) value → value ≠ [] := by
    rintro r value ⟨⟨line, hline, hnamed⟩, hall⟩
    exact (hall line hline hnamed).choose_spec.2.2.2.2
  have hstrict : ∀ line, Strict line → ∃ v, host.Spells line v ∧ page.Spells line v :=
    fun line h => h.spells
  have hstrict' : ∀ line, Strict line → ∃ v, page.Spells line v ∧ host.Spells line v := by
    intro line h
    obtain ⟨v, hv, hv'⟩ := h.spells
    exact ⟨v, hv', hv⟩
  rw [hcopies, and_self, hvalues]
  constructor
  · intro hsame
    constructor
    · intro value hspeaks
      have hother := (hsame value (hnonempty hspeaks)).mp hspeaks
      refine ⟨hother.1, fun line hline hnamed => ⟨fun hboth => ?_, fun _ => ?_⟩⟩
      · exact strict_of_spells (hspeaks.2 line hline hboth) (hother.2 line hline hnamed)
      · exact hother.2 line hline hnamed
    · intro value hspeaks
      have hother := (hsame value (hnonempty hspeaks)).mpr hspeaks
      refine ⟨hother.1, fun line hline hnamed => ⟨fun hboth => ?_, fun _ => ?_⟩⟩
      · exact strict_of_spells (hother.2 line hline hnamed) (hspeaks.2 line hline hboth)
      · exact hother.2 line hline hnamed
  · rintro ⟨hhost, hpage⟩ value -
    exact ⟨speaks_of_shared hstrict hhost, speaks_of_shared hstrict' hpage⟩

def trailingColon : Text :=
  qs "a=fingerprint:sha-256 " ++ (List.replicate 32 (qs "0A:")).flatten

theorem trailingColon_split :
    extract trailingColon = [unit ':'].intercalate (List.replicate 32 (qs "0A")) ∧
      Bootstrap.Pairing.extractFingerprint trailingColon = none := by
  decide +kernel

end MoonlightWeb.Streaming.SdpFingerprint
