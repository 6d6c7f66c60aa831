import Mathlib.Data.List.Basic

/-! # Two copies of a state that edit each other

A replica and its master each change their own copy and post the change to the other, in
order. The copies differ while changes are under way. What they agree on is the replica
with all it is yet to hear, and the master with all it is yet to obey; where a change
commutes with those it crosses, every step keeps this.
-/

namespace MoonlightWeb.Lib

/-- The replica after its inbox is the master after its own. -/
def Agree {S U D : Type} (hear : S → U → S) (obey : S → D → S) (replica : S) (inbox : List U)
    (master : S) (outbox : List D) : Prop :=
  inbox.foldl hear replica = outbox.foldl obey master

theorem foldl_comm_of_each {S U : Type} {hear : S → U → S} {f : S → S} {inbox : List U}
    (h : ∀ m ∈ inbox, ∀ s, hear (f s) m = f (hear s m)) (s : S) :
    inbox.foldl hear (f s) = f (inbox.foldl hear s) := by
  induction inbox generalizing s with
  | nil => rfl
  | cons m rest ih =>
    have hm := h m List.mem_cons_self s
    rw [List.foldl_cons, List.foldl_cons, hm]
    exact ih (fun other hother => h other (List.mem_cons_of_mem m hother)) (hear s m)

namespace Agree

variable {S U D : Type} {hear : S → U → S} {obey : S → D → S} {replica master : S}
  {inbox : List U} {outbox : List D}

theorem rest (h : Agree hear obey replica [] master []) : replica = master := h

theorem hears {m : U} (h : Agree hear obey replica (m :: inbox) master outbox) :
    Agree hear obey (hear replica m) inbox master outbox := h

theorem obeys {d : D} (h : Agree hear obey replica inbox master (d :: outbox)) :
    Agree hear obey replica inbox (obey master d) outbox := h

variable (h : Agree hear obey replica inbox master outbox)

include h

/-- The replica changes, across what it is yet to hear. -/
theorem orders {d : D}
    (hcross : ∀ m ∈ inbox, ∀ s, hear (obey s d) m = obey (hear s m) d) :
    Agree hear obey (obey replica d) inbox master (outbox ++ [d]) := by
  unfold Agree at h ⊢
  rw [List.foldl_append, ← h]
  exact foldl_comm_of_each (f := fun s => obey s d) hcross replica

/-- The master changes, across what it is yet to obey. -/
theorem tells {m : U}
    (hcross : ∀ d ∈ outbox, ∀ s, obey (hear s m) d = hear (obey s d) m) :
    Agree hear obey replica (inbox ++ [m]) (hear master m) outbox := by
  unfold Agree at h ⊢
  rw [List.foldl_append, h]
  exact (foldl_comm_of_each (f := fun s => hear s m) hcross master).symm

theorem posts_up {m : U}
    (hm : ∀ s, hear s m = s) : Agree hear obey replica (inbox ++ [m]) master outbox := by
  unfold Agree at h ⊢
  rw [List.foldl_append, ← h]
  exact hm _

theorem posts_down {d : D}
    (hd : ∀ s, obey s d = s) : Agree hear obey replica inbox master (outbox ++ [d]) := by
  unfold Agree at h ⊢
  rw [List.foldl_append, h]
  exact (hd _).symm

omit h

end Agree

end MoonlightWeb.Lib
