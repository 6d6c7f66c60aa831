import Mathlib.Tactic.Common

/-! # Programs that call their surroundings

An `Interaction` is a program that makes typed calls and continues with each
answer. Between two calls the surroundings may drift: other parties change
what the next answer is read from. `Safe` is the precondition under which no
drift and no answer makes the program issue a call that is not permitted; it
composes along `bind`, so a program is treated one function at a time.
-/

namespace MoonlightWeb.Lib

universe u v

/-- A program that asks its surroundings and continues with the answer. -/
inductive Interaction (C : Type) (R : C → Type) (α : Type u) : Type u
  | done (a : α)
  | ask (c : C) (rest : R c → Interaction C R α)

namespace Interaction

variable {C : Type} {R : C → Type} {α β γ : Type u} {ω : Type v}

protected def bind (p : Interaction C R α) (next : α → Interaction C R β) : Interaction C R β :=
  match p with
  | .done a => next a
  | .ask c rest => .ask c fun r => (rest r).bind next

instance : Monad (Interaction C R) where
  pure := .done
  bind := Interaction.bind

def call {C : Type} {R : C → Type} (c : C) : Interaction C R (R c) := .ask c .done

@[simp] theorem pure_eq (a : α) : (pure a : Interaction C R α) = .done a := rfl

@[simp] theorem done_bind (a : α) (next : α → Interaction C R β) : (done a >>= next) = next a := rfl

@[simp] theorem ask_bind (c : C) (rest : R c → Interaction C R α) (next : α → Interaction C R β) :
    (ask c rest >>= next) = ask c fun r => rest r >>= next := rfl

@[simp] theorem call_bind {C : Type} {R : C → Type} {β : Type} (c : C)
    (next : R c → Interaction C R β) : (call c >>= next) = ask c next := rfl

/-- Starting from `w`, every call is made in a state that permits it and the
result meets `post`, whatever the drift before each call and whatever the answers. -/
def Safe (drift : ω → ω → Prop) (answers : ω → (c : C) → R c → ω → Prop)
    (permits : ω → C → Prop) (post : α → ω → Prop) : Interaction C R α → ω → Prop
  | .done a, w => ∀ w', drift w w' → post a w'
  | .ask c rest, w => ∀ w', drift w w' →
      permits w' c ∧ ∀ r w'', answers w' c r w'' → (rest r).Safe drift answers permits post w''

variable {drift : ω → ω → Prop} {answers : ω → (c : C) → R c → ω → Prop}
  {permits : ω → C → Prop}

variable {p : Interaction C R α}

/-- Drift may be absorbed before the next call. -/
theorem Safe.drifts (trans : ∀ a b c, drift a b → drift b c → drift a c)
    {post : α → ω → Prop} {w w' : ω} (h : p.Safe drift answers permits post w) (hd : drift w w') :
    p.Safe drift answers permits post w' := by
  cases p with
  | done a => exact fun v hv => h v (trans _ _ _ hd hv)
  | ask c rest => exact fun v hv => h v (trans _ _ _ hd hv)

/-- The next call of a safe program is permitted, and the program stays safe after it. -/
theorem Safe.asks (refl : ∀ a, drift a a) {post : α → ω → Prop} {c : C}
    {rest : R c → Interaction C R α} {w : ω} (h : (ask c rest).Safe drift answers permits post w) :
    permits w c ∧ ∀ r w', answers w c r w' → (rest r).Safe drift answers permits post w' :=
  h w (refl w)

theorem Safe.mono {post post' : α → ω → Prop} {w : ω}
    (h : p.Safe drift answers permits post w) (hpost : ∀ a v, post a v → post' a v) :
    p.Safe drift answers permits post' w := by
  induction p generalizing w with
  | done a => exact fun v hv => hpost a v (h v hv)
  | ask c rest ih =>
    intro v hv
    obtain ⟨hc, hrest⟩ := h v hv
    exact ⟨hc, fun r v' hr => ih r (hrest r v' hr)⟩

/-- The sequencing rule: what the first part establishes, the rest starts from. -/
theorem Safe.bind (refl : ∀ a, drift a a) {mid : α → ω → Prop} {post : β → ω → Prop}
    {next : α → Interaction C R β} {w : ω} (h : p.Safe drift answers permits mid w)
    (hnext : ∀ a v, mid a v → (next a).Safe drift answers permits post v) :
    (p >>= next).Safe drift answers permits post w := by
  induction p generalizing w with
  | done a => exact hnext a w (h w (refl w))
  | ask c rest ih =>
    intro v hv
    obtain ⟨hc, hrest⟩ := h v hv
    exact ⟨hc, fun r v' hr => ih r (hrest r v' hr)⟩

/-- The result where the call number `i` is answered by `answers i`. -/
def replay (answers : Nat → (c : C) → R c) : Interaction C R α → α
  | .done a => a
  | .ask c rest => (rest (answers 0 c)).replay fun i => answers (i + 1)

/-- Whatever the answers, the result meets `post`. -/
def Ends (post : α → Prop) : Interaction C R α → Prop
  | .done a => post a
  | .ask _ rest => ∀ r, (rest r).Ends post

theorem Ends.replay {post : α → Prop} (h : p.Ends post)
    (answers : Nat → (c : C) → R c) : post (p.replay answers) := by
  induction p generalizing answers with
  | done a => exact h
  | ask c rest ih => exact ih _ (h _) _

theorem Ends.bind {mid : α → Prop} {post : β → Prop}
    {next : α → Interaction C R β} (h : p.Ends mid) (hnext : ∀ a, mid a → (next a).Ends post) :
    (p >>= next).Ends post := by
  induction p with
  | done a => exact hnext a h
  | ask c rest ih => exact fun r => ih r (h r)

theorem Ends.mono {post post' : α → Prop} (h : p.Ends post)
    (hpost : ∀ a, post a → post' a) : p.Ends post' := by
  induction p with
  | done a => exact hpost a h
  | ask c rest ih => exact fun r => ih r (h r)

theorem Ends.any (p : Interaction C R α) : p.Ends fun _ => True := by
  induction p with
  | done a => exact True.intro
  | ask c rest ih => exact ih

end Interaction

end MoonlightWeb.Lib
