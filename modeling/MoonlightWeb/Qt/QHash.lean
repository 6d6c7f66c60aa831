import MoonlightWeb.Js.Maps

/-! # Hash tables of Qt

A `QHash` visits its keys in an order of its own. Here the keys stand in the
order they came; what is proved of a table speaks of `get` alone.
-/

namespace MoonlightWeb.Qt

open Js

abbrev QHash (K V : Type*) := JsMap K V

end MoonlightWeb.Qt

namespace MoonlightWeb.Js.JsMap

variable {K V : Type*}

variable (m : JsMap K V)

/-- `values()`. -/
def values : List V := m.entries.map Prod.snd

/-- A loop over the table that writes through its iterator. -/
def mapEntries (f : K → V → V) (m : JsMap K V) : JsMap K V where
  entries := m.entries.map fun entry => (entry.1, f entry.1 entry.2)
  nodup := by
    rw [List.map_map]
    exact m.nodup

/-- A loop over the table that removes the entries not kept. -/
def filter (keep : K → V → Bool) (m : JsMap K V) : JsMap K V where
  entries := m.entries.filter fun entry => keep entry.1 entry.2
  nodup := m.nodup.sublist (List.filter_sublist.map Prod.fst)

variable [DecidableEq K]

def contains (key : K) : Bool := (m.get key).isSome

/-- A write through `find(key)`: nothing without the key. -/
def modify (key : K) (f : V → V) : JsMap K V :=
  match m.get key with
  | none => m
  | some value => m.set key (f value)

theorem lookup_map (f : K → V → V) (key : K) (entries : List (K × V)) :
    (entries.map fun entry => (entry.1, f entry.1 entry.2)).lookup key =
      (entries.lookup key).map (f key) := by
  induction entries with
  | nil => rfl
  | cons entry rest ih =>
    rw [List.map_cons, List.lookup_cons, List.lookup_cons]
    by_cases hkey : key = entry.1
    · subst hkey
      simp
    · rw [beq_eq_false_iff_ne.mpr hkey]
      exact ih

theorem get_mapEntries (f : K → V → V) (key : K) :
    (m.mapEntries f).get key = (m.get key).map (f key) :=
  lookup_map f key m.entries

theorem get_filter (keep : K → V → Bool) (key : K) :
    (m.filter keep).get key = (m.get key).filter (keep key) := by
  cases hget : m.get key with
  | none =>
    rw [Option.filter_none, get, List.lookup_eq_none_iff]
    intro entry hentry
    exact List.lookup_eq_none_iff.mp hget entry (List.mem_filter.mp hentry).1
  | some value =>
    have hmem := (m.mem_entries_iff key value).mpr hget
    cases hkeep : keep key value with
    | true =>
      rw [Option.filter_some_pos hkeep, ← mem_entries_iff]
      exact List.mem_filter.mpr ⟨hmem, hkeep⟩
    | false =>
      rw [Option.filter_some_neg (by simp [hkeep])]
      cases hfilter : (m.filter keep).get key with
      | none => rfl
      | some other =>
        have hother := List.mem_filter.mp ((mem_entries_iff _ key other).mpr hfilter)
        have hsame := (m.mem_entries_iff key other).mp hother.1
        rw [hget, Option.some.injEq] at hsame
        rw [hsame, hother.2] at hkeep
        exact absurd hkeep (by decide)

theorem mem_values_iff (value : V) :
    value ∈ m.values ↔ ∃ key, m.get key = some value := by
  unfold values
  rw [List.mem_map]
  constructor
  · rintro ⟨entry, hentry, rfl⟩
    exact ⟨entry.1, (m.mem_entries_iff _ _).mp hentry⟩
  · rintro ⟨key, hget⟩
    exact ⟨(key, value), (m.mem_entries_iff _ _).mpr hget, rfl⟩

/-- Values that carry their key carry each key once. -/
theorem nodup_values_key (keyOf : V → K)
    (hkeyed : ∀ key value, m.get key = some value → keyOf value = key) :
    (m.values.map keyOf).Nodup := by
  have hkeys : m.values.map keyOf = m.entries.map Prod.fst := by
    unfold values
    rw [List.map_map]
    apply List.map_congr_left
    intro entry hentry
    exact hkeyed _ _ ((m.mem_entries_iff _ _).mp hentry)
  rw [hkeys]
  exact m.nodup

theorem setEntries_of_lookup {key : K} {value : V} {entries : List (K × V)}
    (h : entries.lookup key = some value) : setEntries key value entries = entries := by
  induction entries with
  | nil => cases h
  | cons entry rest ih =>
    rw [List.lookup_cons] at h
    by_cases hkey : entry.1 = key
    · subst hkey
      rw [beq_self_eq_true] at h
      obtain rfl : entry.2 = value := Option.some.inj h
      simp [setEntries]
    · have hne : (key == entry.1) = false := beq_eq_false_iff_ne.mpr fun h => hkey h.symm
      rw [hne] at h
      rw [setEntries, if_neg hkey, ih h]

theorem set_of_get {m : JsMap K V} {key : K} {value : V} (h : m.get key = some value) :
    m.set key value = m := by
  cases m with
  | mk entries nodup =>
    have hentries : setEntries key value entries = entries := setEntries_of_lookup h
    simp only [set, hentries]

theorem delete_of_get {m : JsMap K V} {key : K} (h : m.get key = none) : m.delete key = m := by
  have hentries : (m.entries.filter fun entry => entry.1 ≠ key) = m.entries := by
    rw [List.filter_eq_self]
    intro entry hentry
    have hne := bne_iff_ne.mp (List.lookup_eq_none_iff.mp h entry hentry)
    exact decide_eq_true fun heq => hne heq.symm
  cases m with
  | mk entries nodup => simp only [delete, hentries]

theorem get_modify_self (key : K) (f : V → V) :
    (m.modify key f).get key = (m.get key).map f := by
  unfold modify
  cases hget : m.get key with
  | none => simp [hget]
  | some value => simp

theorem get_modify_of_ne {key other : K} (f : V → V) (h : other ≠ key) :
    (m.modify key f).get other = m.get other := by
  unfold modify
  cases m.get key with
  | none => rfl
  | some value => exact get_set_of_ne m _ h

/-- What a table holds after a write through `find`. -/
theorem get_modify (key other : K) (f : V → V) :
    (m.modify key f).get other = if other = key then (m.get other).map f else m.get other := by
  by_cases h : other = key
  · rw [if_pos h, h, get_modify_self]
  · rw [if_neg h, get_modify_of_ne m f h]

end MoonlightWeb.Js.JsMap
