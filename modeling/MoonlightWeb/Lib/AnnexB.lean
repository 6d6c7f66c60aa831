import MoonlightWeb.Lib.EmulationPrevention

/-! # Units between start codes

A byte stream in which a start code of three or four bytes stands before each unit. The split
looks for the codes from left to right, as long as four bytes are left; it undoes the join of
units that hold no code and do not end in a zero.
-/

namespace MoonlightWeb.Lib.AnnexB

open EmulationPrevention

inductive StartCode
  | short
  | long
deriving DecidableEq, Repr

namespace StartCode

def bytes : StartCode → List UInt8
  | short => [0, 0, 1]
  | long => [0, 0, 0, 1]

end StartCode

/-- The start code in front, where at least four bytes are left. -/
def codeAt : List UInt8 → Option StartCode
  | 0 :: 0 :: 1 :: _ :: _ => some .short
  | 0 :: 0 :: 0 :: 1 :: _ => some .long
  | _ => none

/-- What stands before the next start code, and the rest from there. -/
def untilCode : List UInt8 → List UInt8 × List UInt8
  | [] => ([], [])
  | b :: rest =>
      match codeAt (b :: rest) with
      | some _ => ([], b :: rest)
      | none => (b :: (untilCode rest).1, (untilCode rest).2)

/-- The units with their start codes; what stands before the first code is left out. -/
def split : Nat → List UInt8 → List (StartCode × List UInt8)
  | 0, _ => []
  | _, [] => []
  | fuel + 1, b :: rest =>
      match codeAt (b :: rest) with
      | none => split fuel rest
      | some code =>
          (code, (untilCode ((b :: rest).drop code.bytes.length)).1) ::
            split fuel (untilCode ((b :: rest).drop code.bytes.length)).2

structure NalUnit where
  bytes : List UInt8
  ne : bytes ≠ []
  clean : Clean bytes
  last : bytes.getLast ne ≠ 0

variable (items : List (StartCode × NalUnit))

def join : List UInt8 :=
  items.flatMap fun item => item.1.bytes ++ item.2.bytes

theorem codeAt_code (code : StartCode) (unit : List UInt8) (h : unit ≠ []) :
    codeAt (code.bytes ++ unit) = some code := by
  obtain ⟨b, rest, rfl⟩ := List.exists_cons_of_ne_nil h
  cases code with
  | short => rfl
  | long => rfl

/-- No start code begins inside a unit. -/
theorem codeAt_inside {bytes : List UInt8} (hne : bytes ≠ []) (hclean : Clean bytes)
    (hlast : bytes.getLast hne ≠ 0) (after : List UInt8) : codeAt (bytes ++ after) = none := by
  match bytes, hne, hclean, hlast with
  | [a], _, _, hlast =>
    have ha : a ≠ 0 := hlast
    unfold codeAt
    split
    · rename_i heq
      exact absurd (List.cons.inj heq).1 ha
    · rename_i heq
      exact absurd (List.cons.inj heq).1 ha
    · rfl
  | [a, b], _, _, hlast =>
    have hb : b ≠ 0 := hlast
    unfold codeAt
    split
    · rename_i heq
      exact absurd (List.cons.inj (List.cons.inj heq).2).1 hb
    · rename_i heq
      exact absurd (List.cons.inj (List.cons.inj heq).2).1 hb
    · rfl
  | a :: b :: c :: rest, _, hclean, _ =>
    unfold codeAt
    split
    · rename_i heq
      simp only [List.cons_append, List.cons.injEq] at heq
      rw [heq.1, heq.2.1, heq.2.2.1] at hclean
      exact absurd ⟨[], rest, rfl⟩ (hclean 1 (by decide))
    · rename_i heq
      simp only [List.cons_append, List.cons.injEq] at heq
      rw [heq.1, heq.2.1, heq.2.2.1] at hclean
      exact absurd ⟨[], rest, rfl⟩ (hclean 0 (by decide))
    · rfl

theorem untilCode_unit {bytes : List UInt8} (hne : bytes ≠ []) (hclean : Clean bytes)
    (hlast : bytes.getLast hne ≠ 0) (after : List UInt8)
    (hafter : after = [] ∨ ∃ code, codeAt after = some code) :
    untilCode (bytes ++ after) = (bytes, after) := by
  induction bytes with
  | nil => exact absurd rfl hne
  | cons b rest ih =>
    have hnone := codeAt_inside hne hclean hlast after
    have hrest : untilCode (rest ++ after) = (rest, after) := by
      cases rest with
      | nil =>
        rcases hafter with rfl | ⟨code, hcode⟩
        · rfl
        · cases after with
          | nil => cases hcode
          | cons c more =>
            change untilCode (c :: more) = _
            unfold untilCode
            rw [hcode]
      | cons c more => exact ih (by simp) hclean.tail (by simpa using hlast)
    rw [List.cons_append] at hnone ⊢
    unfold untilCode
    rw [hnone, hrest]

theorem join_cons (item : StartCode × NalUnit) (rest : List (StartCode × NalUnit)) :
    join (item :: rest) = item.1.bytes ++ (item.2.bytes ++ join rest) := by
  simp [join]

theorem join_head :
    join items = [] ∨ ∃ code, codeAt (join items) = some code := by
  cases items with
  | nil => exact Or.inl rfl
  | cons item rest =>
    rw [join_cons]
    exact Or.inr ⟨item.1, codeAt_code item.1 _ (by simp [item.2.ne])⟩

theorem split_join (fuel : Nat) (hfuel : items.length < fuel) :
    split fuel (join items) = items.map fun item => (item.1, item.2.bytes) := by
  induction items generalizing fuel with
  | nil =>
    cases fuel with
    | zero => rfl
    | succ fuel => rfl
  | cons item rest ih =>
    obtain ⟨fuel, rfl⟩ : ∃ n, fuel = n + 1 := ⟨fuel - 1, by omega⟩
    have hcode := codeAt_code item.1 (item.2.bytes ++ join rest) (by simp [item.2.ne])
    have huntil := untilCode_unit item.2.ne item.2.clean item.2.last (join rest) (join_head rest)
    have hdrop : (item.1.bytes ++ (item.2.bytes ++ join rest)).drop item.1.bytes.length =
        item.2.bytes ++ join rest := List.drop_left
    have hrest := ih fuel (by simp only [List.length_cons] at hfuel; omega)
    rw [join_cons, List.map_cons]
    obtain ⟨b, more, hbytes⟩ : ∃ b more, item.1.bytes ++ (item.2.bytes ++ join rest) =
        b :: more := by
      cases item.1 with
      | short => exact ⟨_, _, rfl⟩
      | long => exact ⟨_, _, rfl⟩
    rw [hbytes] at hcode hdrop ⊢
    unfold split
    rw [hcode]
    dsimp only
    rw [hdrop, huntil, hrest]

end MoonlightWeb.Lib.AnnexB
