import Mathlib.Data.List.Basic
import Mathlib.Tactic.Common

/-! # A stream cut into reads

What arrives on a stream comes in chunks whose borders mean nothing. Reading a number of
elements takes them from as many chunks as it needs, and what it yields depends on the
elements alone.
-/

namespace MoonlightWeb.Lib.Chunks

universe u

variable {α : Type u}

/-- The next `n` elements and the chunks after them, unless the stream ends first. -/
def readFull : Nat → List (List α) → Option (List α × List (List α))
  | n, [] => if n = 0 then some ([], []) else none
  | n, chunk :: rest =>
      if n ≤ chunk.length then some (chunk.take n, chunk.drop n :: rest)
      else (readFull (n - chunk.length) rest).map fun read => (chunk ++ read.1, read.2)

theorem readFull_eq_none {n : Nat} {chunks : List (List α)} :
    readFull n chunks = none ↔ chunks.flatten.length < n := by
  induction chunks generalizing n with
  | nil =>
    by_cases hn : n = 0
    · simp [readFull, hn]
    · simp [readFull, hn, Nat.pos_of_ne_zero hn]
  | cons chunk rest ih =>
    rw [List.flatten_cons, List.length_append]
    by_cases hn : n ≤ chunk.length
    · rw [readFull, if_pos hn]
      refine iff_of_false (by simp) ?_
      omega
    · rw [readFull, if_neg hn, Option.map_eq_none_iff, ih]
      omega

theorem readFull_eq_some {n : Nat} {chunks rest : List (List α)} {read : List α}
    (h : readFull n chunks = some (read, rest)) :
    read.length = n ∧ read ++ rest.flatten = chunks.flatten := by
  induction chunks generalizing n read rest with
  | nil =>
    by_cases hn : n = 0
    · rw [readFull, if_pos hn] at h
      obtain ⟨rfl, rfl⟩ := Prod.mk.inj (Option.some.inj h)
      exact ⟨hn.symm, rfl⟩
    · rw [readFull, if_neg hn] at h
      cases h
  | cons chunk chunks ih =>
    by_cases hn : n ≤ chunk.length
    · rw [readFull, if_pos hn] at h
      obtain ⟨rfl, rfl⟩ := Prod.mk.inj (Option.some.inj h)
      refine ⟨by simp [hn], ?_⟩
      rw [List.flatten_cons, ← List.append_assoc, List.take_append_drop, List.flatten_cons]
    · rw [readFull, if_neg hn] at h
      obtain ⟨⟨first, left⟩, hrest, heq⟩ := Option.map_eq_some_iff.mp h
      obtain ⟨rfl, rfl⟩ := Prod.mk.inj heq
      obtain ⟨hlength, hflatten⟩ := ih hrest
      refine ⟨?_, ?_⟩
      · rw [List.length_append, hlength]
        omega
      · rw [List.append_assoc, hflatten, List.flatten_cons]

/-- The borders of the chunks mean nothing. -/
theorem readFull_congr {n : Nat} {chunks chunks' : List (List α)}
    (h : chunks.flatten = chunks'.flatten) :
    (readFull n chunks).map (fun read => (read.1, read.2.flatten)) =
      (readFull n chunks').map fun read => (read.1, read.2.flatten) := by
  cases hread : readFull n chunks with
  | none =>
    have hshort := readFull_eq_none.mp hread
    rw [h] at hshort
    rw [readFull_eq_none.mpr hshort]
  | some found =>
    cases hread' : readFull n chunks' with
    | none =>
      have hshort := readFull_eq_none.mp hread'
      obtain ⟨hlength, hflatten⟩ := readFull_eq_some hread
      rw [← h, ← hflatten, List.length_append] at hshort
      omega
    | some found' =>
      obtain ⟨hlength, hflatten⟩ := readFull_eq_some hread
      obtain ⟨hlength', hflatten'⟩ := readFull_eq_some hread'
      rw [h, ← hflatten'] at hflatten
      obtain ⟨hfirst, hrest⟩ := List.append_inj hflatten (hlength.trans hlength'.symm)
      rw [Option.map_some, Option.map_some, hfirst, hrest]

end MoonlightWeb.Lib.Chunks
