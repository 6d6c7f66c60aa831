import MoonlightWeb.Backend.MultiSeatBackend

/-! # Who owns a seat

No order of answers makes two devices own one seat. What a device owns can still be taken
from it by a list that leaves its seat out, and a launch can still go to a seat its device
does not own any more, or never did; the steps that avoid these branches keep the law.
-/

namespace MoonlightWeb.Backend.MultiSeatBackend

open Lib Js Qt World JsMap

section

def Named (owners : Owners) : Prop :=
  ∀ device seat, owners.get device = some seat → device ≠ [] ∧ seat ≠ []

variable {owners : Owners} {device other seat : QString} {refs : List SeatRef}

theorem mem_ownedSeats :
    seat ∈ ownedSeats owners ↔ seat ≠ [] ∧ ∃ device, owners.get device = some seat := by
  unfold ownedSeats
  rw [List.mem_filter, mem_values_iff, decide_eq_true_eq, and_comm]

theorem ownedSeat_eq_nil (hnamed : Named owners) :
    ownedSeat owners device = [] ↔ owners.get device = none := by
  unfold ownedSeat
  cases hget : owners.get device with
  | none => simp
  | some seat =>
    obtain ⟨hdevice, hseat⟩ := hnamed device seat hget
    simp [hdevice, hseat]

theorem ownedSeat_eq_iff (hnamed : Named owners) (hseat : seat ≠ []) :
    ownedSeat owners device = seat ↔ owners.get device = some seat := by
  unfold ownedSeat
  cases hget : owners.get device with
  | none =>
    have hne : ([] : QString) ≠ seat := fun h => hseat h.symm
    simp [hne]
  | some owned =>
    obtain ⟨hdevice, _⟩ := hnamed device owned hget
    simp [hdevice]

theorem get_releaseOwnership (hnamed : Named owners) :
    (releaseOwnership owners device).get other = some seat ↔
      other ≠ device ∧ owners.get other = some seat := by
  unfold releaseOwnership
  by_cases hdevice : device = []
  · rw [if_pos hdevice]
    refine ⟨fun hget => ⟨?_, hget⟩, fun h => h.2⟩
    rw [hdevice]
    exact (hnamed other seat hget).1
  · rw [if_neg hdevice]
    by_cases hsame : other = device
    · subst hsame
      simp
    · rw [get_delete_of_ne _ hsame]
      simp [hsame]

theorem get_claimOwnership :
    (claimOwnership owners device seat).get other =
      if other = device ∧ device ≠ [] then some seat else owners.get other := by
  unfold claimOwnership
  by_cases hdevice : device = []
  · simp [hdevice]
  · rw [if_neg hdevice]
    by_cases hsame : other = device
    · subst hsame
      simp [hdevice]
    · rw [get_set_of_ne _ _ hsame]
      simp [hsame]

theorem get_releaseSeatOwner (owners : Owners) (device other seat : QString) :
    (releaseSeatOwner owners seat).get device = some other ↔
      owners.get device = some other ∧ other ≠ seat := by
  unfold releaseSeatOwner
  rw [get_filter, Option.filter_eq_some_iff, decide_eq_true_eq]

theorem freeSeat_spec {ref : SeatRef} (h : freeSeat owners refs = some ref) :
    ref ∈ refs ∧ ref.busy = false ∧ (ref.id ≠ [] → ∀ device, owners.get device ≠ some ref.id) := by
  have hfree := List.find?_some h
  rw [Bool.not_eq_true', Bool.or_eq_false_iff, decide_eq_false_iff_not] at hfree
  refine ⟨List.mem_of_find?_eq_some h, hfree.1, fun hid device hget => hfree.2 ?_⟩
  exact mem_ownedSeats.mpr ⟨hid, device, hget⟩

theorem freeSeat_isSome {ref : SeatRef} (href : ref ∈ refs) (hbusy : ref.busy = false)
    (hfree : ∀ device, owners.get device ≠ some ref.id) :
    ∃ other, freeSeat owners refs = some other := by
  cases hfind : freeSeat owners refs with
  | some other => exact ⟨other, rfl⟩
  | none =>
    have hno := List.find?_eq_none.mp hfind ref href
    rw [Bool.not_eq_true', Bool.or_eq_false_iff, decide_eq_false_iff_not] at hno
    refine absurd ⟨hbusy, fun hmem => ?_⟩ hno
    obtain ⟨_, device, hget⟩ := mem_ownedSeats.mp hmem
    exact hfree device hget

/-- A device whose seat is listed keeps it; another takes the first free seat, if any. -/
theorem allocateSeat_cases (hnamed : Named owners) (hids : ∀ ref ∈ refs, ref.id ≠ []) :
    (∃ ref ∈ refs, owners.get device = some ref.id ∧
        allocateSeat owners device refs = (some ref, owners)) ∨
      ((∀ ref ∈ refs, owners.get device ≠ some ref.id) ∧
        allocateSeat owners device refs =
          takeFree (releaseOwnership owners device) device refs) := by
  unfold allocateSeat
  by_cases hnone : ownedSeat owners device = []
  · right
    have hget := (ownedSeat_eq_nil hnamed).mp hnone
    have hsame : releaseOwnership owners device = owners := by
      unfold releaseOwnership
      by_cases hdevice : device = []
      · rw [if_pos hdevice]
      · rw [if_neg hdevice, delete_of_get hget]
    rw [if_pos hnone, hsame]
    refine ⟨fun ref _ hsome => ?_, rfl⟩
    rw [hget] at hsome
    cases hsome
  · rw [if_neg hnone]
    cases hfind : refs.find? (fun ref => ref.id = ownedSeat owners device) with
    | some ref =>
      left
      have href := List.mem_of_find?_eq_some hfind
      have hid : ref.id = ownedSeat owners device := by simpa using List.find?_some hfind
      exact ⟨ref, href, (ownedSeat_eq_iff hnamed (hids ref href)).mp hid.symm, rfl⟩
    | none =>
      right
      refine ⟨fun ref href hget => ?_, rfl⟩
      have hno := List.find?_eq_none.mp hfind ref href
      rw [decide_eq_true_eq] at hno
      exact hno ((ownedSeat_eq_iff hnamed (hids ref href)).mpr hget).symm

/-- The owners after a device whose seat is not listed took what was free. -/
theorem get_takeFree (hnamed : Named owners) :
    (takeFree (releaseOwnership owners device) device refs).2.get other = some seat ↔
      (other = device ∧ device ≠ [] ∧
          ∃ ref, freeSeat (releaseOwnership owners device) refs = some ref ∧ ref.id = seat) ∨
        (other ≠ device ∧ owners.get other = some seat) := by
  unfold takeFree
  cases hfree : freeSeat (releaseOwnership owners device) refs with
  | none =>
    rw [get_releaseOwnership hnamed]
    simp
  | some ref =>
    rw [get_claimOwnership]
    by_cases hclaims : other = device ∧ device ≠ []
    · simp [hclaims]
    · rw [if_neg hclaims, get_releaseOwnership hnamed]
      constructor
      · exact Or.inr
      · rintro (⟨hsame, hdevice, _⟩ | h)
        · exact absurd ⟨hsame, hdevice⟩ hclaims
        · exact h

theorem listed_ids {seats : List MultiSeatSeat} : ∀ ref ∈ listed seats, ref.id ≠ [] := by
  intro ref href
  unfold listed at href
  obtain ⟨seat, hseat, rfl⟩ := List.mem_map.mp href
  have hnamed := (List.mem_filter.mp (List.mem_filter.mp hseat).1).2
  exact of_decide_eq_true hnamed

end

namespace World

structure Inv (w : World) : Prop where
  once : ∀ device other seat, w.Owns device seat → w.Owns other seat → device = other
  named : Named w.owners
  awaited : ∀ device seat, w.Awaited device seat → w.Owns device seat
  asked : ∀ ticket call device asked record,
    w.pending.get ticket = some ⟨.launchSeat call device asked, some (.seat record)⟩ →
      record.id = asked
  served : ∀ seat record, w.service.get seat = some record → record.id = seat
  torn : ∀ seat ∈ w.torn, ∀ device, ¬ w.Owns device seat

namespace Inv

variable {w : World}

theorem initial : Inv initial where
  once := by
    intro device other seat h
    cases h
  named := by
    intro device seat h
    cases h
  awaited := by
    rintro device seat ⟨ticket, call, answer, h⟩
    cases h
  asked := by
    intro ticket call device asked record h
    cases h
  served := by
    intro seat record h
    cases h
  torn := fun seat hseat => absurd hseat (Finset.notMem_empty seat)

variable (h : Inv w)

include h

theorem ask (request : Request)
    (howner : ∀ call device seat, request = .launchSeat call device seat → w.Owns device seat) :
    Inv (w.ask request) where
  once := h.once
  named := h.named
  awaited := by
    rintro device seat ⟨ticket, call, answer, hget⟩
    change (w.pending.set w.fresh ⟨request, none⟩).get ticket = _ at hget
    by_cases hsame : ticket = w.fresh
    · rw [hsame, get_set_self, Option.some.injEq, Pending.mk.injEq] at hget
      exact howner call device seat hget.1
    · rw [get_set_of_ne _ _ hsame] at hget
      exact h.awaited device seat ⟨ticket, call, answer, hget⟩
  asked := by
    intro ticket call device asked record hget
    change (w.pending.set w.fresh ⟨request, none⟩).get ticket = _ at hget
    by_cases hsame : ticket = w.fresh
    · rw [hsame, get_set_self, Option.some.injEq, Pending.mk.injEq] at hget
      cases hget.2
    · rw [get_set_of_ne _ _ hsame] at hget
      exact h.asked ticket call device asked record hget
  served := h.served
  torn := h.torn

theorem withSeatBackend (call : Call) {device seat : QString} (resolved : Bool)
    (howner : w.Owns device seat) : Inv (w.withSeatBackend call device seat resolved) := by
  unfold World.withSeatBackend
  cases resolved with
  | false => exact h
  | true =>
    refine h.ask _ fun call' device' seat' heq => ?_
    obtain ⟨_, rfl, rfl⟩ := Request.launchSeat.inj heq
    exact howner

theorem withDeviceSeat (call : Call) (device : QString) (resolved : Bool) :
    Inv (w.withDeviceSeat call device resolved) := by
  unfold World.withDeviceSeat
  by_cases hnone : ownedSeat w.owners device = []
  · rw [if_neg (by simpa using hnone)]
    cases resolved with
    | false => exact h
    | true => exact h.ask _ fun _ _ _ heq => by cases heq
  · rw [if_pos hnone]
    exact h.withSeatBackend call resolved ((ownedSeat_eq_iff h.named hnone).mp rfl)

/-- The service answers; the answer about a seat is the seat's record. -/
theorem answers {ticket : Nat} {request : Request} (answer : Answer)
    (hget : w.pending.get ticket = some ⟨request, none⟩)
    (hrecord : ∀ call device asked record, request = .launchSeat call device asked →
      answer = .seat record → record.id = asked) : Inv (w.answers ticket request answer) where
  once := h.once
  named := h.named
  awaited := by
    rintro device seat ⟨other, call, answer', hother⟩
    change (w.pending.set ticket _).get other = _ at hother
    by_cases hsame : other = ticket
    · rw [hsame, get_set_self, Option.some.injEq, Pending.mk.injEq] at hother
      exact h.awaited device seat ⟨ticket, call, none, by rw [hget, hother.1]⟩
    · rw [get_set_of_ne _ _ hsame] at hother
      exact h.awaited device seat ⟨other, call, answer', hother⟩
  asked := by
    intro other call device asked record hother
    change (w.pending.set ticket _).get other = _ at hother
    by_cases hsame : other = ticket
    · rw [hsame, get_set_self, Option.some.injEq, Pending.mk.injEq] at hother
      exact hrecord call device asked record hother.1 (Option.some.inj hother.2)
    · rw [get_set_of_ne _ _ hsame] at hother
      exact h.asked other call device asked record hother
  served := h.served
  torn := h.torn

theorem lose (seat : QString) : Inv (w.lose seat) where
  once := h.once
  named := h.named
  awaited := h.awaited
  asked := h.asked
  served := by
    intro other record hget
    change (w.service.delete seat).get other = some record at hget
    by_cases hsame : other = seat
    · rw [hsame, get_delete_self] at hget
      cases hget
    · rw [get_delete_of_ne _ hsame] at hget
      exact h.served other record hget
  torn := h.torn

theorem serve {ticket : Nat} {request : Request}
    (hget : w.pending.get ticket = some ⟨request, none⟩) : Inv (w.serve ticket request) := by
  cases request with
  | allocate device => exact h.answers _ hget fun _ _ _ _ heq => by cases heq
  | launchList call device => exact h.answers _ hget fun _ _ _ _ heq => by cases heq
  | launchSeat call device seat =>
    cases hseat : w.service.get seat with
    | none =>
      simp only [World.serve, hseat]
      exact h.answers _ hget fun _ _ _ _ _ heq => by cases heq
    | some record =>
      simp only [World.serve, hseat]
      refine h.answers _ hget fun _ _ asked record' hrequest hanswer => ?_
      obtain ⟨_, _, rfl⟩ := Request.launchSeat.inj hrequest
      obtain rfl := Answer.seat.inj hanswer
      exact h.served seat record hseat
  | teardown seat => exact (h.lose seat).answers _ hget fun _ _ _ _ heq => by cases heq

theorem releaseSeatOwner {seat : QString} (hfree : ∀ device, ¬ w.Awaited device seat) :
    Inv { w with owners := MultiSeatBackend.releaseSeatOwner w.owners seat } := by
  have howns := fun device other => get_releaseSeatOwner w.owners device other seat
  refine ⟨?_, ?_, ?_, h.asked, h.served, ?_⟩
  · intro device other owned hdevice hother
    exact h.once device other owned ((howns _ _).mp hdevice).1 ((howns _ _).mp hother).1
  · intro device owned hget
    exact h.named device owned ((howns _ _).mp hget).1
  · intro device owned hawaited
    refine (howns _ _).mpr ⟨h.awaited device owned hawaited, ?_⟩
    rintro rfl
    exact hfree device hawaited
  · intro owned htorn device hget
    exact h.torn owned htorn device ((howns _ _).mp hget).1

theorem puts (seat : MultiSeatSeat) :
    Inv { w with service := w.service.set seat.id seat, torn := w.torn.erase seat.id } where
  once := h.once
  named := h.named
  awaited := h.awaited
  asked := h.asked
  served := by
    intro other record hget
    change (w.service.set seat.id seat).get other = some record at hget
    by_cases hsame : other = seat.id
    · rw [hsame, get_set_self, Option.some.injEq] at hget
      rw [hsame, hget]
    · rw [get_set_of_ne _ _ hsame] at hget
      exact h.served other record hget
  torn := fun other hother => h.torn other (Finset.mem_of_mem_erase hother)

theorem arrived (ticket : Nat) : Inv { w with pending := w.pending.delete ticket } := by
  have hkept : ∀ other pending, (w.pending.delete ticket).get other = some pending →
      w.pending.get other = some pending := by
    intro other pending hget
    by_cases hsame : other = ticket
    · rw [hsame, get_delete_self] at hget
      cases hget
    · rwa [get_delete_of_ne _ hsame] at hget
  refine ⟨h.once, h.named, ?_, ?_, h.served, h.torn⟩
  · rintro device seat ⟨other, call, answer, hget⟩
    exact h.awaited device seat ⟨other, call, answer, hkept other _ hget⟩
  · intro other call device asked record hget
    exact h.asked other call device asked record (hkept other _ hget)

/-- An allocation that forgets no seat a launch waits for keeps the law. -/
theorem settle {device : QString} {refs : List SeatRef}
    (hids : ∀ ref ∈ refs, ref.id ≠ []) (hlisted : w.Listed device refs) :
    Inv (w.settle device (allocateSeat w.owners device refs).2) := by
  rcases allocateSeat_cases h.named hids with ⟨ref, _, _, heq⟩ | ⟨hno, heq⟩
  · rw [heq]
    exact ⟨h.once, h.named, h.awaited, h.asked, h.served, h.torn⟩
  have hunlisted := hlisted hno
  have hfree : ∀ {ref}, freeSeat (releaseOwnership w.owners device) refs = some ref →
      ∀ other, other ≠ device → w.owners.get other ≠ some ref.id := by
    intro ref hfind other hother hget
    obtain ⟨href, _, hnobody⟩ := freeSeat_spec hfind
    exact hnobody (hids ref href) other ((get_releaseOwnership h.named).mpr ⟨hother, hget⟩)
  rw [heq]
  refine ⟨?_, ?_, ?_, h.asked, h.served, ?_⟩
  · intro first second seat hfirst hsecond
    rcases (get_takeFree h.named).mp hfirst with ⟨rfl, _, ref, hfind, rfl⟩ | ⟨hne, hget⟩
    · rcases (get_takeFree h.named).mp hsecond with ⟨rfl, _⟩ | ⟨hne', hget'⟩
      · rfl
      · exact absurd hget' (hfree hfind second hne')
    · rcases (get_takeFree h.named).mp hsecond with ⟨rfl, _, ref, hfind, rfl⟩ | ⟨_, hget'⟩
      · exact absurd hget (hfree hfind first hne)
      · exact h.once first second seat hget hget'
  · intro other seat hget
    rcases (get_takeFree h.named).mp hget with ⟨rfl, hdevice, ref, hfind, rfl⟩ | ⟨_, hget'⟩
    · exact ⟨hdevice, hids ref (freeSeat_spec hfind).1⟩
    · exact h.named other seat hget'
  · intro other seat hawaited
    have howned := h.awaited other seat hawaited
    refine (get_takeFree h.named).mpr (Or.inr ⟨?_, howned⟩)
    rintro rfl
    exact (hunlisted.forgets seat howned).2 hawaited
  · intro seat htorn other hget
    rcases (get_takeFree h.named).mp hget with ⟨rfl, hdevice, ref, hfind, rfl⟩ | ⟨_, hget'⟩
    · exact hunlisted.takes hdevice ref hfind htorn
    · exact h.torn seat htorn other hget'

/-- The seat an allocation answers with is the device's, unless the device has no id. -/
theorem settle_owns {device : QString} {refs : List SeatRef} {ref : SeatRef}
    (hids : ∀ ref ∈ refs, ref.id ≠ []) (hnameless : device = [] → freeSeat w.owners refs = none)
    (hgiven : (allocateSeat w.owners device refs).1 = some ref) :
    (w.settle device (allocateSeat w.owners device refs).2).Owns device ref.id := by
  rcases allocateSeat_cases h.named hids with ⟨other, _, howns, heq⟩ | ⟨_, heq⟩
  · rw [heq] at hgiven ⊢
    obtain rfl := Option.some.inj hgiven
    exact howns
  · rw [heq] at hgiven ⊢
    have hfree : freeSeat (releaseOwnership w.owners device) refs = some ref := by
      unfold takeFree at hgiven
      cases hfind : freeSeat (releaseOwnership w.owners device) refs with
      | none => simp [hfind] at hgiven
      | some other => simpa [hfind] using hgiven
    have hdevice : device ≠ [] := by
      rintro rfl
      have hnone := hnameless rfl
      have hfind : freeSeat w.owners refs = some ref := hfree
      rw [hnone] at hfind
      cases hfind
    exact (get_takeFree h.named).mpr (Or.inl ⟨rfl, hdevice, ref, hfree, rfl⟩)

omit h

end Inv

section

variable {w : World} {e : Event}

theorem arriving_eq_some {request : Request} {answer : Answer}
    (h : w.arriving e = some (request, answer)) :
    ∃ ticket resolved, e = .arrives ticket resolved ∧
      w.pending.get ticket = some ⟨request, some answer⟩ ∧
      w.next e =
        { w with pending := w.pending.delete ticket }.callback request answer resolved := by
  cases e with
  | arrives ticket resolved =>
    refine ⟨ticket, resolved, rfl, ?_⟩
    simp only [arriving] at h
    split at h
    · next request' answer' hget =>
        obtain ⟨rfl, rfl⟩ := Prod.mk.inj (Option.some.inj h)
        exact ⟨hget, by simp only [next, hget]⟩
    · cases h
  | _ => cases h

theorem next_idle {ticket : Nat} {resolved : Bool}
    (h : w.arriving (.arrives ticket resolved) = none) : w.next (.arrives ticket resolved) = w := by
  simp only [arriving] at h
  simp only [next]
  split at h
  · cases h
  · rfl

variable {device : QString}

theorem Listed.arrived {refs : List SeatRef} (h : w.Listed device refs)
    (ticket : Nat) : Listed { w with pending := w.pending.delete ticket } device refs := by
  intro hno
  obtain ⟨hforgets, htakes⟩ := h hno
  refine ⟨fun seat howns => ?_, htakes⟩
  obtain ⟨hlapsed, hfree⟩ := hforgets seat howns
  refine ⟨hlapsed, ?_⟩
  rintro ⟨other, call, answer, hget⟩
  refine hfree ⟨other, call, answer, ?_⟩
  by_cases hsame : other = ticket
  · change (w.pending.delete ticket).get other = _ at hget
    rw [hsame, get_delete_self] at hget
    cases hget
  · change (w.pending.delete ticket).get other = _ at hget
    rwa [get_delete_of_ne _ hsame] at hget

variable {w' : World} {seats : List MultiSeatSeat}

/-- What a clear step tells of the request whose answer arrives. -/
theorem Clear.allocate
    (h : w.Clear e w') (harriving : w.arriving e = some (.allocate device, .seats seats)) :
    w.Listed device (listed seats) := by
  simpa only [Clear, harriving] using h

variable {call : Call}

theorem Clear.launchList (h : w.Clear e w')
    (harriving : w.arriving e = some (.launchList call device, .seats seats)) :
    w.Listed device (listed seats) ∧
      (device = [] → freeSeat w.owners (listed seats) = none) := by
  simpa only [Clear, harriving] using h

theorem Clear.teardown {seat : QString} (h : w.Clear e w')
    (harriving : w.arriving e = some (.teardown seat, .done)) :
    ∀ device, ¬ w.Owns device seat := by
  simpa only [Clear, harriving] using h

theorem Clear.missing {device asked : QString} (h : w.Clear e w')
    (harriving : w.arriving e = some (.launchSeat call device asked, .missing)) :
    ∀ seat, ¬ w.Free seat := by
  simpa only [Clear, harriving] using h

theorem Inv.arrives (h : Inv w) (hclear : w.Clear e w') {request : Request}
    {answer : Answer} (harriving : w.arriving e = some (request, answer)) : Inv (w.next e) := by
  obtain ⟨ticket, resolved, _, _, hnext⟩ := arriving_eq_some harriving
  have harrived := h.arrived ticket
  rw [hnext]
  cases answer with
  | seats seats =>
    cases request with
    | allocate device =>
      exact harrived.settle listed_ids ((hclear.allocate harriving).arrived ticket)
    | launchList call device =>
      obtain ⟨hlisted, hnameless⟩ := hclear.launchList harriving
      have hsettled := harrived.settle listed_ids (hlisted.arrived ticket)
      simp only [callback]
      cases hgiven : (allocateSeat w.owners device (listed seats)).1 with
      | none => exact hsettled
      | some ref =>
        exact hsettled.withSeatBackend call resolved
          (harrived.settle_owns listed_ids hnameless hgiven)
    | launchSeat call device seat => exact harrived
    | teardown seat => exact harrived
  | done =>
    cases request with
    | teardown seat =>
      have hfree := hclear.teardown harriving
      refine ⟨h.once, h.named, harrived.awaited, harrived.asked, h.served, ?_⟩
      intro other hother device
      simp only [callback] at hother
      split at hother
      · exact h.torn other hother device
      · rcases Finset.mem_insert.mp hother with rfl | hbefore
        · exact hfree device
        · exact h.torn other hbefore device
    | _ => exact harrived
  | failed => cases request <;> exact harrived
  | missing => cases request <;> exact harrived
  | seat record => cases request <;> exact harrived

theorem Inv.next (h : Inv w) (hclear : w.Clear e w') : Inv (w.next e) := by
  cases e with
  | allocateSeat device resolved =>
    simp only [next]
    cases resolved with
    | false => exact h
    | true => exact h.ask _ fun _ _ _ heq => by cases heq
  | launch call device resolved => exact h.withDeviceSeat call device resolved
  | releaseSeatOwner seat => exact h.releaseSeatOwner hclear
  | teardownSeat seat => exact h.ask _ fun _ _ _ heq => by cases heq
  | puts seat => exact h.puts seat
  | removes seat => exact h.lose seat
  | serves ticket =>
    simp only [next]
    split
    · next request hget => exact h.serve hget
    · exact h
  | fails ticket =>
    simp only [next]
    split
    · next request hget => exact h.answers _ hget fun _ _ _ _ _ heq => by cases heq
    · exact h
  | arrives ticket resolved =>
    cases harriving : w.arriving (.arrives ticket resolved) with
    | none =>
      rw [next_idle harriving]
      exact h
    | some arrived => exact h.arrives hclear harriving

theorem owners_withSeatBackend (w : World) (call : Call) (device seat : QString)
    (resolved : Bool) : (w.withSeatBackend call device seat resolved).owners = w.owners := by
  cases resolved <;> rfl

theorem owners_withDeviceSeat (w : World) (call : Call) (device : QString) (resolved : Bool) :
    (w.withDeviceSeat call device resolved).owners = w.owners := by
  unfold withDeviceSeat
  split
  · exact owners_withSeatBackend w call device _ resolved
  · split <;> rfl

theorem owners_serve (w : World) (ticket : Nat) (request : Request) :
    (w.serve ticket request).owners = w.owners := by
  cases request with
  | launchSeat call device seat =>
    simp only [serve]
    split <;> rfl
  | _ => rfl

theorem owners_launchList (w : World) (call : Call) (device : QString)
    (seats : List MultiSeatSeat) (resolved : Bool) :
    (w.callback (.launchList call device) (.seats seats) resolved).owners =
      (allocateSeat w.owners device (listed seats)).2 := by
  simp only [callback]
  split
  · exact owners_withSeatBackend _ call device _ resolved
  · rfl

theorem Inv.keeps_of_clear (h : Inv w) (hclear : w.Clear e w') {device seat : QString}
    (howns : w.Owns device seat) (hlost : ¬ (w.next e).Owns device seat) :
    e = .releaseSeatOwner seat ∨ w.arriving e = some (.teardown seat, .done) ∨
      device ∈ w.lapsed := by
  have hallocated : ∀ {other : QString} {refs : List SeatRef}, (∀ ref ∈ refs, ref.id ≠ []) →
      w.Listed other refs → (allocateSeat w.owners other refs).2.get device ≠ some seat →
        device ∈ w.lapsed := by
    intro other refs hids hlisted hgone
    rcases allocateSeat_cases h.named hids with ⟨ref, _, _, heq⟩ | ⟨hno, heq⟩
    · rw [heq] at hgone
      exact absurd howns hgone
    · rw [heq] at hgone
      by_cases hsame : device = other
      · subst hsame
        exact ((hlisted hno).forgets seat howns).1
      · exact absurd ((get_takeFree h.named).mpr (Or.inr ⟨hsame, howns⟩)) hgone
  cases e with
  | releaseSeatOwner released =>
    left
    by_contra hother
    have hne : seat ≠ released := by
      rintro rfl
      exact hother rfl
    exact hlost ((get_releaseSeatOwner w.owners device seat released).mpr ⟨howns, hne⟩)
  | arrives ticket resolved =>
    cases harriving : w.arriving (.arrives ticket resolved) with
    | none =>
      rw [next_idle harriving] at hlost
      exact absurd howns hlost
    | some arrived =>
      obtain ⟨request, answer⟩ := arrived
      obtain ⟨_, resolved, _, _, hnext⟩ := arriving_eq_some harriving
      rw [hnext] at hlost
      cases answer with
      | seats seats =>
        cases request with
        | allocate other =>
          exact Or.inr (Or.inr (hallocated listed_ids (hclear.allocate harriving) hlost))
        | launchList call other =>
          unfold Owns at hlost
          rw [owners_launchList] at hlost
          exact Or.inr (Or.inr
            (hallocated listed_ids (hclear.launchList harriving).1 hlost))
        | _ => exact absurd howns hlost
      | _ => cases request <;> exact absurd howns hlost
  | allocateSeat other resolved => cases resolved <;> exact absurd howns hlost
  | launch call other resolved =>
    unfold Owns at hlost
    simp only [World.next] at hlost
    rw [owners_withDeviceSeat] at hlost
    exact absurd howns hlost
  | serves ticket =>
    unfold Owns at hlost
    simp only [World.next] at hlost
    split at hlost
    · rw [owners_serve] at hlost
      exact absurd howns hlost
    · exact absurd howns hlost
  | fails ticket =>
    unfold Owns at hlost
    simp only [World.next] at hlost
    split at hlost <;> exact absurd howns hlost
  | teardownSeat torn => exact absurd howns hlost
  | puts record => exact absurd howns hlost
  | removes lost => exact absurd howns hlost

/-- A launch that was given a list with a free seat has given its device a seat. -/
theorem Inv.first_of_clear (h : Inv w) (hclear : w.Clear e w')
    (harriving : w.arriving e = some (.launchList call device, .seats seats))
    (hfree : ∃ seat ∈ listed seats, seat.busy = false ∧ ∀ other, ¬ w.Owns other seat.id) :
    ∃ seat, (w.next e).Owns device seat := by
  obtain ⟨ref, href, hbusy, hnobody⟩ := hfree
  obtain ⟨_, hnameless⟩ := hclear.launchList harriving
  obtain ⟨ticket, resolved, _, _, hnext⟩ := arriving_eq_some harriving
  unfold Owns
  rw [hnext, owners_launchList]
  change ∃ seat, (allocateSeat w.owners device (listed seats)).2.get device = some seat
  rcases allocateSeat_cases h.named listed_ids with ⟨other, _, howns, heq⟩ | ⟨_, heq⟩
  · rw [heq]
    exact ⟨other.id, howns⟩
  · have hdevice : device ≠ [] := by
      intro hnil
      obtain ⟨other, hfind⟩ := freeSeat_isSome href hbusy hnobody
      rw [hnameless hnil] at hfind
      cases hfind
    have hreleased : ∀ other, (releaseOwnership w.owners device).get other ≠ some ref.id := by
      intro other hget
      exact hnobody other ((get_releaseOwnership h.named).mp hget).2
    obtain ⟨taken, hfind⟩ := freeSeat_isSome href hbusy hreleased
    rw [heq]
    exact ⟨taken.id, (get_takeFree h.named).mpr (Or.inl ⟨rfl, hdevice, taken, hfind, rfl⟩)⟩

theorem lawful_of_clear (h : Inv w) (hclear : w.Clear e (w.next e)) :
    Lawful w e (w.next e) := by
  have hnext := h.next hclear
  refine ⟨hnext.once, ?_, fun device seat => h.keeps_of_clear hclear, hnext.torn, ?_, ?_⟩
  · rintro device seat ⟨call, asked, record, harriving, _, rfl⟩
    obtain ⟨ticket, _, _, hget, _⟩ := arriving_eq_some harriving
    have hasked := h.asked ticket call device asked record hget
    have howns := h.awaited device asked ⟨ticket, call, _, hget⟩
    rw [hasked]
    exact ⟨howns, fun other hother => h.once other device asked hother howns⟩
  · intro call device asked harriving hfree
    obtain ⟨seat, hseat⟩ := hfree
    exact absurd hseat (hclear.missing harriving seat)
  · intro call device seats harriving hfree
    exact h.first_of_clear hclear harriving hfree

end

end World

def seatOne : MultiSeatSeat := ⟨[0x31], .ready, 48100⟩

def allocation : List Event :=
  [.puts seatOne, .allocateSeat [0x41] true, .serves 0, .arrives 0 true]

end MoonlightWeb.Backend.MultiSeatBackend
