import Mathlib

/-! # Maps of JavaScript

A `Map` keeps its entries in the order their keys came: setting a key that is
there replaces the value where it stands, any other key goes to the end.
-/

namespace MoonlightWeb.Js

open List

/-- The entries of a `Map`, no key twice. -/
structure JsMap (K V : Type*) where
  entries : List (K × V)
  nodup : (entries.map Prod.fst).Nodup

namespace JsMap

variable {K V : Type*}

/-- `new Map()`. -/
def empty : JsMap K V := ⟨[], nodup_nil⟩

variable [DecidableEq K]

variable (m : JsMap K V)

/-- `map.get(key)`. -/
def get (key : K) : Option V := m.entries.lookup key

def setEntries (key : K) (value : V) : List (K × V) → List (K × V)
  | [] => [(key, value)]
  | entry :: rest =>
      if entry.1 = key then (key, value) :: rest else entry :: setEntries key value rest

theorem keys_setEntries (key : K) (value : V) (entries : List (K × V)) :
    (setEntries key value entries).map Prod.fst =
      if key ∈ entries.map Prod.fst then entries.map Prod.fst
      else entries.map Prod.fst ++ [key] := by
  induction entries with
  | nil => rfl
  | cons entry rest ih =>
    by_cases hkey : entry.1 = key
    · simp [setEntries, hkey]
    · have hne : key ≠ entry.1 := fun h => hkey h.symm
      rw [setEntries, if_neg hkey, map_cons, ih]
      by_cases hmem : key ∈ rest.map Prod.fst
      · have hmem' : key ∈ (entry :: rest).map Prod.fst := mem_cons_of_mem _ hmem
        rw [if_pos hmem, if_pos hmem', map_cons]
      · have hmem' : key ∉ (entry :: rest).map Prod.fst := by
          rw [map_cons, mem_cons, not_or]
          exact ⟨hne, hmem⟩
        rw [if_neg hmem, if_neg hmem', map_cons, cons_append]

/-- `map.set(key, value)`. -/
def set (key : K) (value : V) : JsMap K V where
  entries := setEntries key value m.entries
  nodup := by
    rw [keys_setEntries]
    split_ifs with hmem
    · exact m.nodup
    · exact nodup_append.mpr ⟨m.nodup, nodup_singleton key, by
        intro a ha b hb
        rw [mem_singleton.mp hb]
        exact fun h => hmem (h ▸ ha)⟩

/-- `map.delete(key)`. -/
def delete (key : K) : JsMap K V where
  entries := m.entries.filter fun entry => entry.1 ≠ key
  nodup := m.nodup.sublist (filter_sublist.map Prod.fst)

theorem lookup_setEntries_self (key : K) (value : V) (entries : List (K × V)) :
    (setEntries key value entries).lookup key = some value := by
  induction entries with
  | nil => simp [setEntries]
  | cons entry rest ih =>
    by_cases hkey : entry.1 = key
    · simp [setEntries, hkey]
    · have hne : (key == entry.1) = false := beq_eq_false_iff_ne.mpr fun h => hkey h.symm
      rw [setEntries, if_neg hkey, lookup_cons, hne]
      exact ih

variable {key other : K}

theorem lookup_setEntries_of_ne (value : V) (entries : List (K × V))
    (h : other ≠ key) : (setEntries key value entries).lookup other = entries.lookup other := by
  have hother : (other == key) = false := beq_eq_false_iff_ne.mpr h
  induction entries with
  | nil => simp [setEntries, lookup_cons, hother]
  | cons entry rest ih =>
    by_cases hkey : entry.1 = key
    · rw [setEntries, if_pos hkey, lookup_cons, lookup_cons, hkey, hother]
    · rw [setEntries, if_neg hkey, lookup_cons, lookup_cons, ih]

theorem lookup_filter_of_ne (entries : List (K × V)) (h : other ≠ key) :
    (entries.filter fun entry => entry.1 ≠ key).lookup other = entries.lookup other := by
  induction entries with
  | nil => rfl
  | cons entry rest ih =>
    by_cases hkey : entry.1 = key
    · have hne : (other == entry.1) = false := beq_eq_false_iff_ne.mpr (hkey ▸ h)
      rw [filter_cons_of_neg (by simpa using hkey), lookup_cons, hne, ih]
    · rw [filter_cons_of_pos (by simpa using hkey), lookup_cons, lookup_cons, ih]

variable {entries : List (K × V)}

theorem mem_iff_lookup (hnodup : (entries.map Prod.fst).Nodup) (key : K)
    (value : V) : (key, value) ∈ entries ↔ entries.lookup key = some value := by
  induction entries with
  | nil => simp
  | cons entry rest ih =>
    rw [map_cons, nodup_cons] at hnodup
    rw [lookup_cons, mem_cons]
    by_cases hkey : key = entry.1
    · subst hkey
      have hrest : (entry.1, value) ∉ rest := fun hmem =>
        hnodup.1 (mem_map.mpr ⟨(entry.1, value), hmem, rfl⟩)
      rw [beq_self_eq_true]
      simp only [hrest, or_false, Option.some.injEq, Prod.ext_iff, true_and]
      exact eq_comm
    · have hne : (key, value) ≠ entry := fun h => hkey (congrArg Prod.fst h)
      rw [beq_eq_false_iff_ne.mpr hkey]
      simp only [hne, false_or]
      exact ih hnodup.2

@[simp] theorem get_empty (key : K) : (empty : JsMap K V).get key = none := rfl

@[simp] theorem get_set_self (key : K) (value : V) :
    (m.set key value).get key = some value :=
  lookup_setEntries_self key value m.entries

theorem get_set_of_ne (value : V) (h : other ≠ key) :
    (m.set key value).get other = m.get other :=
  lookup_setEntries_of_ne value m.entries h

@[simp] theorem get_delete_self (key : K) : (m.delete key).get key = none := by
  rw [get, lookup_eq_none_iff]
  intro entry hentry
  have hne := of_decide_eq_true (mem_filter.mp hentry).2
  exact bne_iff_ne.mpr fun h => hne h.symm

theorem get_delete_of_ne (h : other ≠ key) :
    (m.delete key).get other = m.get other :=
  lookup_filter_of_ne m.entries h

/-- The entries are what `get` answers. -/
theorem mem_entries_iff (key : K) (value : V) :
    (key, value) ∈ m.entries ↔ m.get key = some value :=
  mem_iff_lookup m.nodup key value

theorem setEntries_of_not_mem {key : K} (value : V)
    (h : entries.lookup key = none) : setEntries key value entries = entries ++ [(key, value)] := by
  induction entries with
  | nil => rfl
  | cons entry rest ih =>
    rw [lookup_cons] at h
    by_cases hkey : entry.1 = key
    · simp [hkey] at h
    · have hne : (key == entry.1) = false := beq_eq_false_iff_ne.mpr fun h => hkey h.symm
      rw [hne] at h
      rw [setEntries, if_neg hkey, ih h, cons_append]

theorem map_setEntries {B : Type*} {key : K} {value old : V}
    (hold : entries.lookup key = some old) (f : K × V → B) (hf : f (key, value) = f (key, old)) :
    (setEntries key value entries).map f = entries.map f := by
  induction entries with
  | nil => simp at hold
  | cons entry rest ih =>
    rw [lookup_cons] at hold
    by_cases hkey : entry.1 = key
    · rw [hkey, beq_self_eq_true] at hold
      have hentry : entry = (key, old) := Prod.ext hkey (Option.some.inj hold)
      rw [setEntries, if_pos hkey, map_cons, map_cons, hf, hentry]
    · have hne : (key == entry.1) = false := beq_eq_false_iff_ne.mpr fun h => hkey h.symm
      rw [hne] at hold
      rw [setEntries, if_neg hkey, map_cons, map_cons, ih hold]

/-- A key that is not there goes to the end. -/
theorem entries_set_of_none {key : K} (value : V) (h : m.get key = none) :
    (m.set key value).entries = m.entries ++ [(key, value)] :=
  setEntries_of_not_mem value h

/-- A value replaced by one that looks the same changes no view of the entries. -/
theorem map_entries_set {B : Type*} (m : JsMap K V) {key : K} {value old : V}
    (hold : m.get key = some old) (f : K × V → B) (hf : f (key, value) = f (key, old)) :
    (m.set key value).entries.map f = m.entries.map f :=
  map_setEntries hold f hf

end JsMap

end MoonlightWeb.Js
