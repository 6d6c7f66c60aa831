import MoonlightWeb.NativeHost.ReferenceSlots

/-! # How far back a loss is repaired

The slot a table answers is the newest frame it still holds before the loss, over every
run of marks, drops and clears. A table filled at the stride reaches one stride less far
than `reachFrames` says, and the frames since the last mark more.
-/

namespace MoonlightWeb.NativeHost.Encode

namespace ReferenceSlots

inductive Op
  | marked (slot : Int) (frameNumber : Nat)
  | dropFrom (lostFrom : Nat)
  | clear

def apply (t : ReferenceSlots) : Op → ReferenceSlots
  | .marked slot frameNumber => t.marked slot frameNumber
  | .dropFrom lostFrom => t.dropFrom lostFrom
  | .clear => t.clear

def run (t : ReferenceSlots) (ops : List Op) : ReferenceSlots := ops.foldl apply t

variable {t : ReferenceSlots}

@[simp] theorem run_snoc (ops : List Op) (op : Op) : t.run (ops ++ [op]) = (t.run ops).apply op := by
  simp [run]

theorem run_append (ops more : List Op) : t.run (ops ++ more) = (t.run ops).run more := by
  simp [run]

@[simp] theorem apply_count (op : Op) : (t.apply op).count = t.count := by
  cases op <;> simp [apply]

@[simp] theorem apply_stride (op : Op) : (t.apply op).stride = t.stride := by
  cases op <;> simp [apply]

theorem run_shape (ops : List Op) : (t.run ops).count = t.count ∧ (t.run ops).stride = t.stride := by
  induction ops using List.reverseRecOn with
  | nil => exact ⟨rfl, rfl⟩
  | append_singleton ops op ih => simpa using ih

/-- The operation leaves the frame `f` in the slot `s`. -/
def Op.Spares (s f : Nat) : Op → Prop
  | .marked slot _ => slot ≠ s
  | .dropFrom lostFrom => f < lostFrom
  | .clear => False

/-- Some mark put the frame `f` into the slot `s`, and everything since spared it. -/
def StillHeld (count : Nat) (ops : List Op) (s f : Nat) : Prop :=
  s < count ∧ ∃ earlier later, ops = earlier ++ .marked s f :: later ∧ ∀ op ∈ later, op.Spares s f

theorem stillHeld_snoc {count : Nat} {ops : List Op} {op : Op} {s f : Nat} :
    StillHeld count (ops ++ [op]) s f ↔
      (s < count ∧ op = .marked s f) ∨ (StillHeld count ops s f ∧ op.Spares s f) := by
  constructor
  · rintro ⟨hs, earlier, later, hops, hspares⟩
    induction later using List.reverseRecOn with
    | nil =>
      obtain ⟨_, hop⟩ := List.append_inj' hops rfl
      exact Or.inl ⟨hs, by simpa using hop⟩
    | append_singleton later last _ =>
      have hsplit : ops ++ [op] = (earlier ++ .marked s f :: later) ++ [last] := by
        simpa using hops
      obtain ⟨hfront, hop⟩ := List.append_inj' hsplit rfl
      obtain rfl : op = last := by simpa using hop
      exact Or.inr ⟨⟨hs, earlier, later, hfront, fun o ho => hspares o (by simp [ho])⟩,
        hspares op (by simp)⟩
  · rintro (⟨hs, rfl⟩ | ⟨⟨hs, earlier, later, rfl, hspares⟩, hlast⟩)
    · exact ⟨hs, ops, [], rfl, by simp⟩
    · refine ⟨hs, earlier, later ++ [op], by simp, ?_⟩
      intro o ho
      rcases List.mem_append.mp ho with hold | hnew
      · exact hspares o hold
      · obtain rfl := List.mem_singleton.mp hnew
        exact hlast

theorem heldAt_apply {op : Op} {s f : Nat} :
    (t.apply op).HeldAt s f ↔
      (s < t.count ∧ op = .marked s f) ∨ (t.HeldAt s f ∧ op.Spares s f) := by
  cases op with
  | marked slot n =>
    simp only [apply, heldAt_marked, Op.Spares, Op.marked.injEq]
    by_cases hslot : 0 ≤ slot ∧ slot = s ∧ s < t.count
    · rw [if_pos hslot]
      constructor
      · rintro rfl
        exact Or.inl ⟨hslot.2.2, hslot.2.1, rfl⟩
      · rintro (⟨_, _, hn⟩ | ⟨_, hne⟩)
        · exact hn.symm
        · exact absurd hslot.2.1 hne
    · rw [if_neg hslot]
      constructor
      · intro hheld
        have hs := hheld.1
        exact Or.inr ⟨hheld, by omega⟩
      · rintro (⟨hs, hn, _⟩ | ⟨hheld, _⟩)
        · exact absurd ⟨by omega, hn, hs⟩ hslot
        · exact hheld
  | dropFrom lost => simp [apply, heldAt_dropFrom, Op.Spares]
  | clear => simp [apply, not_heldAt_clear, Op.Spares]

theorem heldAt_run (slots stride : Int) (ops : List Op) (s f : Nat) :
    ((new slots stride).run ops).HeldAt s f ↔ StillHeld (new slots stride).count ops s f := by
  induction ops using List.reverseRecOn with
  | nil =>
    constructor
    · exact fun h => absurd h (not_heldAt_new slots stride s f)
    · rintro ⟨_, earlier, later, hops, _⟩
      simp at hops
  | append_singleton ops op ih =>
    rw [run_snoc, heldAt_apply, stillHeld_snoc, ih, (run_shape ops).1]

def turnMarks (t : ReferenceSlots) (frames : List Nat) : List Op :=
  frames.filterMap fun n => (t.slotFor n false).map fun (s : Nat) => .marked (s : Int) n

/-- The marks of the frames `first` to `newest`. -/
def strideMarks (t : ReferenceSlots) (first newest : Nat) : List Op :=
  t.turnMarks (List.range' first (newest + 1 - first))

/-- Every slot had its turn among the frames `first` to `newest`. -/
def Filled (t : ReferenceSlots) (first newest : Nat) : Prop :=
  ∀ s < t.count, ∃ n, first ≤ n ∧ n ≤ newest ∧ t.slotFor n false = some s

theorem slotFor_eq_some {n s : Nat} :
    t.slotFor n false = some s ↔
      0 < t.count ∧ ∃ k, n = k * t.stride ∧ k % t.count = s := by
  have hpos := t.stride_pos
  unfold slotFor
  by_cases hcount : t.count = 0
  · simp [hcount]
  · rw [if_neg hcount]
    by_cases hturn : n % t.stride = 0
    · rw [if_neg (by simp [hturn]), Option.some.injEq]
      obtain ⟨k, rfl⟩ := Nat.dvd_of_mod_eq_zero hturn
      rw [Nat.mul_div_cancel_left k hpos]
      constructor
      · exact fun h => ⟨by omega, k, Nat.mul_comm _ _, h⟩
      · rintro ⟨_, k', hk, hs⟩
        rw [Nat.mul_comm] at hk
        rwa [Nat.eq_of_mul_eq_mul_right hpos hk]
    · rw [if_pos (by simp [hturn])]
      constructor
      · intro h
        cases h
      · rintro ⟨_, k, rfl, _⟩
        exact absurd (Nat.mul_mod_left k t.stride) hturn

theorem turnMarks_succ (first m : Nat) :
    t.turnMarks (List.range' first (m + 1)) =
      t.turnMarks (List.range' first m) ++ ((t.slotFor (first + m) false).map fun (s : Nat) =>
          Op.marked (s : Int) (first + m)).toList := by
  unfold turnMarks
  rw [List.range'_1_concat, List.filterMap_append]
  cases hturn : t.slotFor (first + m) false <;> simp [hturn]

theorem mod_ne_of_round {count k k' : Nat} (hlt : k < k') (hround : k' < k + count) :
    k' % count ≠ k % count := by
  intro hmod
  have hdvd : count ∣ k' - k := (Nat.modEq_iff_dvd' hlt.le).mp hmod.symm
  have hle := Nat.le_of_dvd (by omega) hdvd
  omega

theorem heldAt_turnMarks (start : ReferenceSlots) (hcount : start.count = t.count)
    {first m k : Nat} (hfirst : first ≤ k * t.stride) (hmarked : k * t.stride < first + m)
    (hround : first + m ≤ (k + t.count) * t.stride) :
    (start.run (t.turnMarks (List.range' first m))).HeldAt (k % t.count) (k * t.stride) := by
  have hslots : 0 < t.count := by
    by_contra hzero
    rw [show t.count = 0 by omega, Nat.add_zero] at hround
    omega
  induction m with
  | zero => omega
  | succ m ih =>
    rw [turnMarks_succ]
    cases hturn : t.slotFor (first + m) false with
    | none =>
      have hother : k * t.stride ≠ first + m := by
        intro hk
        have hsome : t.slotFor (first + m) false = some (k % t.count) :=
          slotFor_eq_some.mpr ⟨hslots, k, hk.symm, rfl⟩
        rw [hturn] at hsome
        cases hsome
      simpa using ih (by omega) (by omega)
    | some s =>
      obtain ⟨_, k', hk', rfl⟩ := slotFor_eq_some.mp hturn
      rw [Option.map_some, Option.toList_some, run_snoc, heldAt_apply, (run_shape _).1, hcount,
        hk']
      by_cases hsame : k' = k
      · exact Or.inl ⟨Nat.mod_lt _ hslots, by rw [hsame]⟩
      · have hle : k * t.stride ≤ k' * t.stride := by omega
        have hless : k < k' := lt_of_le_of_ne (Nat.le_of_mul_le_mul_right hle t.stride_pos)
          (Ne.symm hsame)
        have hlater : k * t.stride < k' * t.stride :=
          Nat.mul_lt_mul_of_pos_right hless t.stride_pos
        have hbefore : k' * t.stride < (k + t.count) * t.stride := by omega
        have hnear : k' < k + t.count := lt_of_mul_lt_mul_right hbefore (Nat.zero_le t.stride)
        refine Or.inr ⟨ih (by omega) (by omega), ?_⟩
        exact fun hslot => mod_ne_of_round hless hnear (Int.ofNat.inj hslot)

/-- What the table promises for one loss: a slot within `reachFrames` of the newest frame,
and in every run the newest frame still held before the loss. -/
structure Recovers (t : ReferenceSlots) (ops : List Op) (first newest lost : Nat) : Prop where
  reached : newest ≤ lost + t.reachFrames →
    (t.run (ops ++ t.strideMarks first newest)).cleanSlotBefore lost ≠ none
  answered : ∀ slot, (t.run ops).cleanSlotBefore lost = some slot →
    ∃ f, StillHeld t.count ops slot f ∧ f < lost ∧
      ∀ s g, StillHeld t.count ops s g → g < lost → g ≤ f
  refused : (t.run ops).cleanSlotBefore lost = none →
    ∀ s f, StillHeld t.count ops s f → lost ≤ f

theorem exists_last_rank {count k last : Nat} (hcount : 0 < count) (hk : k ≤ last) :
    ∃ rank, k ≤ rank ∧ rank ≤ last ∧ last < rank + count ∧ rank % count = k % count := by
  have hsplit := Nat.div_add_mod (last - k) count
  have hmod := Nat.mod_lt (last - k) hcount
  refine ⟨k + count * ((last - k) / count), by omega, by omega, by omega, ?_⟩
  exact Nat.add_mul_mod_self_left k count _

section

variable (start : ReferenceSlots) (hcount : start.count = t.count) {first newest : Nat}
  (hfilled : t.Filled first newest)
include hcount hfilled

/-- A slot of a filled table holds the last frame of its turn. -/
theorem heldAt_strideMarks {s : Nat} (hs : s < t.count) :
    ∃ rank, rank % t.count = s ∧ rank ≤ newest / t.stride ∧
      newest / t.stride < rank + t.count ∧
      (start.run (t.strideMarks first newest)).HeldAt s (rank * t.stride) := by
  obtain ⟨n, hfirst, hnewest, hturn⟩ := hfilled s hs
  obtain ⟨hslots, k, rfl, rfl⟩ := slotFor_eq_some.mp hturn
  have hk : k ≤ newest / t.stride := (Nat.le_div_iff_mul_le t.stride_pos).mpr hnewest
  obtain ⟨rank, hlow, hhigh, hround, hmod⟩ := exists_last_rank hslots hk
  refine ⟨rank, hmod, hhigh, hround, ?_⟩
  have hstart : k * t.stride ≤ rank * t.stride := Nat.mul_le_mul_right _ hlow
  have hlast : rank * t.stride ≤ newest := (Nat.le_div_iff_mul_le t.stride_pos).mp hhigh
  have hnext : newest < (rank + t.count) * t.stride := (Nat.div_lt_iff_lt_mul t.stride_pos).mp hround
  rw [← hmod]
  exact heldAt_turnMarks start hcount (by omega) (by omega) (by omega)

theorem strideMarks_clean (hslots : 0 < t.count) (lost : Nat) :
    (start.run (t.strideMarks first newest)).cleanSlotBefore lost ≠ none ↔
      newest < lost + (t.count - 1) * t.stride + newest % t.stride := by
  have hnewest : t.stride * (newest / t.stride) + newest % t.stride = newest :=
    Nat.div_add_mod newest t.stride
  rw [Nat.mul_comm] at hnewest
  rw [← Option.isSome_iff_ne_none, cleanSlotBefore_isSome_iff]
  constructor
  · rintro ⟨s, f, hheld, hless⟩
    have hs : s < t.count := by
      have hin := hheld.1
      rwa [(run_shape _).1, hcount] at hin
    obtain ⟨rank, _, _, hround, hlast⟩ := heldAt_strideMarks start hcount hfilled hs
    obtain rfl := hheld.unique hlast
    have hspan : newest / t.stride * t.stride ≤ (rank + (t.count - 1)) * t.stride :=
      Nat.mul_le_mul_right _ (by omega)
    rw [Nat.add_mul] at hspan
    omega
  · intro hless
    -- The oldest mark is in the slot the next one would take.
    obtain ⟨rank, hmod, hhigh, hround, hheld⟩ := heldAt_strideMarks start hcount hfilled
      (Nat.mod_lt (newest / t.stride + 1) hslots)
    have holdest : rank + t.count = newest / t.stride + 1 := by
      by_contra hne
      exact mod_ne_of_round (show rank < newest / t.stride + 1 by omega) (by omega) hmod.symm
    have hspan : newest / t.stride * t.stride = (rank + (t.count - 1)) * t.stride := by
      rw [show newest / t.stride = rank + (t.count - 1) by omega]
    rw [Nat.add_mul] at hspan
    exact ⟨_, _, hheld, by omega⟩

end

/-- The repair reaches as far as promised exactly where the loss is among the frames the
marks of a full table span; the slot answered is the right one in every run. -/
theorem recovers_iff (fps slots : Int) (hslots : 0 < slots) (ops : List Op)
    (first newest lost : Nat) (hfilled : (new slots (strideFor fps slots)).Filled first newest) :
    (new slots (strideFor fps slots)).Recovers ops first newest lost ↔
      let t := new slots (strideFor fps slots)
      newest ≤ lost + t.reachFrames →
        newest < lost + (t.count - 1) * t.stride + newest % t.stride := by
  have hcount : 0 < (new slots (strideFor fps slots)).count := by
    show 0 < min slots.toNat kMaxSlots
    unfold kMaxSlots
    omega
  have hclean := strideMarks_clean ((new slots (strideFor fps slots)).run ops)
    (run_shape ops).1 hfilled hcount lost
  rw [← run_append] at hclean
  constructor
  · intro h t hwithin
    exact hclean.mp (h.reached hwithin)
  · intro hspan
    refine ⟨fun hwithin => hclean.mpr (hspan hwithin), ?_, ?_⟩
    · intro slot hslot
      obtain ⟨hheld, hless, hnewest⟩ := cleanSlotBefore_eq_some hslot
      refine ⟨_, (heldAt_run _ _ ops _ _).mp hheld, hless, ?_⟩
      exact fun s g hg => hnewest s g ((heldAt_run _ _ ops s g).mpr hg)
    · intro hnone s f hf
      exact cleanSlotBefore_eq_none hnone s f ((heldAt_run _ _ ops s f).mpr hf)

theorem filled_four : (new 4 (strideFor 60 4)).Filled 0 20 := by
  intro s hs
  have hs : s < 4 := hs
  exact ⟨s * 2, Nat.zero_le _, by omega,
    slotFor_eq_some.mpr ⟨Nat.zero_lt_succ 3, s, rfl, Nat.mod_eq_of_lt hs⟩⟩

/-- The frame 15 is five behind, and the frame 14 is still held. -/
theorem recovers_iff_four : (new 4 (strideFor 60 4)).Recovers [] 0 20 15 :=
  (recovers_iff 60 4 (by decide) [] 0 20 15 filled_four).mpr fun _ => by decide

/-- The frame 13 is seven behind, within the eight promised, and the frame 12 is gone. -/
theorem reach_overstated :
    ¬ ∀ fps slots ops first newest lost, 0 < slots →
      (new slots (strideFor fps slots)).Filled first newest →
        (new slots (strideFor fps slots)).Recovers ops first newest lost := by
  intro hall
  exact (hall 60 4 [] 0 20 13 (by decide) filled_four).reached (by decide) (by decide)

end ReferenceSlots

end MoonlightWeb.NativeHost.Encode
