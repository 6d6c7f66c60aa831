import Mathlib.Data.List.Induction
import Mathlib.Data.List.Basic
import Mathlib.Order.Basic
import Mathlib.Tactic.Common

/-! # Sliding-window budgets

A request has a key and a time. It is admitted while fewer than `limit` requests of its
key were admitted in the window before it. Any set of times less than a window apart
then holds at most `limit` admitted requests of one key.
-/

namespace MoonlightWeb.Lib.SlidingWindow

universe u

variable {K : Type u} [DecidableEq K]

/-- The admitted requests and the answers given, oldest first. -/
structure Ledger (K : Type u) where
  log : List (K × Int)
  answers : List Bool

def Ledger.empty : Ledger K := ⟨[], []⟩

variable (log : List (K × Int))

/-- The requests of a key whose time satisfies `p`. -/
def within (key : K) (p : Int → Bool) : List (K × Int) :=
  log.filter fun r => decide (r.1 = key) && p r.2

variable (limit : Nat)

/-- Fewer than `limit` requests of the key were admitted in the window before. -/
def admits (window : Int) (log : List (K × Int)) (r : K × Int) : Bool :=
  decide ((within log r.1 fun t => decide (r.2 - window < t)).length < limit)

def serve (window : Int) (l : Ledger K) (r : K × Int) : Ledger K where
  log := if admits limit window l.log r then l.log ++ [r] else l.log
  answers := l.answers ++ [admits limit window l.log r]

def serveAll (window : Int) (requests : List (K × Int)) : Ledger K :=
  requests.foldl (serve limit window) .empty

theorem serveAll_snoc (window : Int) (requests : List (K × Int)) (r : K × Int) :
    serveAll limit window (requests ++ [r]) =
      serve limit window (serveAll limit window requests) r := by
  simp [serveAll]

theorem mem_of_mem_log (window : Int) {requests : List (K × Int)} {r : K × Int}
    (h : r ∈ (serveAll limit window requests).log) : r ∈ requests := by
  induction requests using List.reverseRecOn with
  | nil => exact h
  | append_singleton requests last ih =>
    rw [serveAll_snoc] at h
    simp only [serve] at h
    split at h
    · rcases List.mem_append.mp h with hold | hlast
      · exact List.mem_append_left _ (ih hold)
      · exact List.mem_append_right _ hlast
    · exact List.mem_append_left _ (ih h)

theorem within_snoc (r : K × Int) (key : K) (p : Int → Bool) :
    within (log ++ [r]) key p =
      within log key p ++ if decide (r.1 = key) && p r.2 then [r] else [] := by
  simp only [within, List.filter_append, List.filter_cons, List.filter_nil]

theorem within_congr {log : List (K × Int)} (key : K) {p q : Int → Bool}
    (h : ∀ r ∈ log, p r.2 = q r.2) : within log key p = within log key q := by
  apply List.filter_congr
  intro r hr
  rw [h r hr]

/-- More requests count where more times do. -/
theorem length_within_le (key : K) {p q : Int → Bool}
    (h : ∀ t, p t = true → q t = true) :
    (within log key p).length ≤ (within log key q).length := by
  apply List.Sublist.length_le
  apply List.monotone_filter_right
  intro r hr
  rw [Bool.and_eq_true] at hr ⊢
  exact ⟨hr.1, h r.2 hr.2⟩

/-- Times less than a window apart hold at most `limit` admitted requests of a key. -/
theorem length_within_serveAll_le (window : Int) (requests : List (K × Int))
    (key : K) {p : Int → Bool} (hclose : ∀ t t', p t = true → p t' = true → t' - t < window) :
    (within (serveAll limit window requests).log key p).length ≤ limit := by
  induction requests using List.reverseRecOn with
  | nil => simp [serveAll, Ledger.empty, within]
  | append_singleton requests r ih =>
    rw [serveAll_snoc]
    simp only [serve]
    cases hadmits : admits limit window (serveAll limit window requests).log r with
    | false => exact ih
    | true =>
      rw [if_pos rfl, within_snoc]
      cases hcounts : decide (r.1 = key) && p r.2 with
      | false => simpa using ih
      | true =>
        -- The last request counts, so all that count with it are in its own window.
        obtain ⟨hkey, hp⟩ := Bool.and_eq_true_iff.mp hcounts
        have hroom : (within (serveAll limit window requests).log r.1
            fun t => decide (r.2 - window < t)).length < limit := of_decide_eq_true hadmits
        have hrecent := length_within_le (serveAll limit window requests).log r.1
          (p := p) (q := fun t => decide (r.2 - window < t)) (by
            intro t ht
            have hapart := hclose t r.2 ht hp
            exact decide_eq_true (by omega))
        rw [if_pos rfl, List.length_append, List.length_singleton,
          ← of_decide_eq_true hkey]
        omega

end MoonlightWeb.Lib.SlidingWindow
