import MoonlightWeb.Lib.Mirror
import MoonlightWeb.Network.AllocatorMessages

/-! # The allocator follows its worker

The list of the main thread, with the messages it is yet to handle, is the core's list with
the releases it is yet to make. A slot that is asked for only once at a time has one claim
at most, on its way, held or on its way out.
-/

namespace MoonlightWeb.Network.RouterPortAllocator

open Lib RouterPortCore ToMain Allocator Function

/-- What a message makes of the main thread's list. -/
def hear (held : List Claim) : ToMain → List Claim
  | .claimed _ result => held ++ result.claim.toList
  | .renewed lost => without held lost
  | _ => held

/-- What a message makes of the core's list. -/
def obey (held : List Claim) : ToWorker → List Claim
  | .release claim => removeAll held claim
  | _ => held

def ToMain.asked : ToMain → Option Nat
  | .claimed token _ => some token
  | _ => none

theorem ToMain.token_of_asked {m : ToMain} {t : Nat} (h : m.asked = some t) :
    m.token = some t := by
  cases m with
  | claimed token result => exact h
  | discovered lan => cases h
  | renewed lost => cases h
  | answer token claim why => cases h

/-- No release of a slot's hole comes behind a claim for the slot. -/
def Orderly (m m' : ToWorker) : Prop :=
  ∀ t request c, m = .claim t request → m' = .release c → request.purpose = .media →
    request.slot ≠ c.slot

theorem without_without (held : List Claim) (l : Lost) (lost : List Lost) :
    without (removeAll held l.claim) lost = without held (l :: lost) := by
  unfold without removeAll
  rw [List.filter_filter]
  refine List.filter_congr fun c _ => ?_
  rw [List.all_cons, Bool.and_comm]

theorem removeAll_without (held : List Claim) (claim : Claim) (lost : List Lost) :
    removeAll (without held lost) claim =
      without (removeAll held claim) lost := List.filter_comm _ _ _

theorem removeAll_append (held : List Claim) {claim c : Claim} (h : c.same claim = false) :
    removeAll (held ++ [c]) claim = removeAll held claim ++ [c] := by
  unfold removeAll
  rw [List.filter_append, List.filter_cons_of_pos (by rw [h]; rfl), List.filter_nil]

theorem mem_obeyed {c : Claim} {master : List Claim} {outbox : List ToWorker} (hc : c ∈ master)
    (h : ∀ claim, .release claim ∈ outbox → c.same claim = false) : c ∈ outbox.foldl obey master := by
  induction outbox generalizing master with
  | nil => exact hc
  | cons d rest ih =>
    refine ih ?_ fun claim hclaim => h claim (List.mem_cons_of_mem d hclaim)
    cases d with
    | start previousLan => exact hc
    | claim token request => exact hc
    | release claim =>
      refine List.mem_filter.mpr ⟨hc, ?_⟩
      rw [h claim List.mem_cons_self]
      rfl

theorem mem_heard {c : Claim} {replica : List Claim} {inbox : List ToMain}
    (h : c ∈ inbox.foldl hear replica) :
    c ∈ replica ∨ ∃ token result, .claimed token result ∈ inbox ∧ result.claim = some c := by
  induction inbox generalizing replica with
  | nil => exact Or.inl h
  | cons m rest ih =>
    rcases ih h with hheard | ⟨token, result, hmem, hclaim⟩
    · cases m with
      | discovered lan => exact Or.inl hheard
      | claimed token result =>
        rcases List.mem_append.mp hheard with hold | hnew
        · exact Or.inl hold
        · exact Or.inr ⟨token, result, List.mem_cons_self, Option.mem_toList.mp hnew⟩
      | renewed lost => exact Or.inl (List.mem_filter.mp hheard).1
      | answer token claim why => exact Or.inl hheard
    · exact Or.inr ⟨token, result, List.mem_cons_of_mem m hmem, hclaim⟩

theorem ofSlot_iff {slot : Int} {c : Claim} :
    ofSlot slot c = true ↔ c.purpose = .media ∧ c.slot = slot := by
  simp [ofSlot]

namespace Allocator

variable {a : Allocator}

def asking (a : Allocator) : List Nat :=
  a.toWorker.filterMap ToWorker.token ++ a.toMain.filterMap asked

def inFlight (a : Allocator) (slot : Int) : Nat :=
  a.asking.countP fun t => a.pending t = some ⟨.media, slot⟩

theorem asking_sub (a : Allocator) : ∀ t ∈ a.asking, t ∈ a.tokens := by
  intro t ht
  rcases List.mem_append.mp ht with hdown | hup
  · exact List.mem_append_left _ hdown
  · obtain ⟨m, hm, hasked⟩ := List.mem_filterMap.mp hup
    exact Tokens.token_mem hm (token_of_asked hasked)

/-- A claim of the slot that is not answered is in flight. -/
theorem inFlight_pos {slot : Int} {t : Nat} (ht : t ∈ a.asking)
    (hslot : a.pending t = some ⟨.media, slot⟩) : 0 < a.inFlight slot :=
  List.countP_pos_iff.mpr ⟨t, ht, decide_eq_true hslot⟩

/-- The lists agree, and of every slot one claim at most is on its way or held. -/
structure Slots (a : Allocator) : Prop where
  agree : Agree hear obey a.held a.toMain a.coreHeld a.toWorker
  load : ∀ slot, a.inFlight slot + a.held.countP (ofSlot slot) ≤ 1
  media : ∀ c, ToWorker.release c ∈ a.toWorker → c.purpose = .media
  order : a.toWorker.Pairwise Orderly
  single : ∀ slot, a.coreHeld.countP (ofSlot slot) ≤ 1

namespace Slots

theorem startWorker (h : Slots a) : Slots a.startWorker := by
  have hnone : [ToWorker.start a.settings.routerLanIp].filterMap ToWorker.token = [] := rfl
  have hasking : a.startWorker.asking = a.asking := by
    simp [asking, Allocator.startWorker, hnone]
  refine ⟨h.agree.posts_down fun _ => rfl, fun slot => ?_, fun c hc => ?_, ?_, h.single⟩
  · unfold inFlight
    rw [hasking]
    exact h.load slot
  · rcases List.mem_append.mp hc with hold | hlast
    · exact h.media c hold
    · cases List.mem_singleton.mp hlast
  · refine List.pairwise_append.mpr ⟨h.order, List.pairwise_singleton _ _, ?_⟩
    intro m _ m' hm' t request c _ hrelease
    rw [List.mem_singleton.mp hm'] at hrelease
    cases hrelease

theorem ensureStarted (h : Slots a) (enabled : Bool) : Slots (a.ensureStarted enabled) := by
  unfold Allocator.ensureStarted
  split
  · exact h
  · split
    · exact h
    · exact h.startWorker

theorem discover (h : Slots a) (lanOnly : Bool) : Slots (a.discover lanOnly) := by
  unfold Allocator.discover
  split
  · exact h
  · split
    · exact h.startWorker
    · split
      · exact h
      · exact h.startWorker

/-- A new callback is not one of those that wait. -/
theorem asking_old (htokens : Tokens a) (p : Pending) {t : Nat} (ht : t ∈ a.asking) :
    update a.pending a.nextToken (some p) t = a.pending t := by
  have hlt := htokens.before (a.asking_sub t ht)
  exact update_of_ne (by omega) _ _

theorem submit (h : Slots a) (htokens : Tokens a) (request : Request)
    (honce : request.purpose = .media → a.inFlight request.slot = 0 ∧
      a.held.countP (ofSlot request.slot) = 0) : Slots (a.submit request) := by
  have hperm : (a.submit request).asking.Perm (a.nextToken :: a.asking) := by
    have heq : (a.submit request).asking = a.toWorker.filterMap ToWorker.token ++
        a.nextToken :: a.toMain.filterMap asked := by
      simp [asking, Allocator.submit, ToWorker.token]
    rw [heq]
    exact List.perm_middle
  have hcount : ∀ slot, (a.submit request).inFlight slot = a.inFlight slot +
      if request.purpose = .media ∧ request.slot = slot then 1 else 0 := by
    intro slot
    unfold inFlight
    rw [hperm.countP_eq, List.countP_cons]
    refine congrArg₂ (· + ·) (List.countP_congr fun t ht => ?_) ?_
    · have hold : (a.submit request).pending t = a.pending t := asking_old htokens _ ht
      rw [hold]
    · have hself : (a.submit request).pending a.nextToken =
          some ⟨request.purpose, request.slot⟩ := update_self _ _ _
      rw [hself]
      simp
  refine ⟨h.agree.posts_down fun _ => rfl, fun slot => ?_, fun c hc => ?_, ?_, h.single⟩
  · rw [hcount]
    have hload := h.load slot
    change _ + a.held.countP (ofSlot slot) ≤ 1
    split
    · next hthis =>
      have hfree := honce hthis.1
      rw [hthis.2] at hfree
      omega
    · omega
  · rcases List.mem_append.mp hc with hold | hlast
    · exact h.media c hold
    · cases List.mem_singleton.mp hlast
  · refine List.pairwise_append.mpr ⟨h.order, List.pairwise_singleton _ _, ?_⟩
    intro m _ m' hm' t request' c _ hrelease
    rw [List.mem_singleton.mp hm'] at hrelease
    cases hrelease

theorem answerLater (h : Slots a) (htokens : Tokens a) (purpose : Purpose) (slot : Int)
    (claim : Option Claim) (why : String) : Slots (a.answerLater purpose slot claim why) := by
  have hasking : (a.answerLater purpose slot claim why).asking = a.asking := by
    have hnone : [answer a.nextToken claim why].filterMap asked = [] := rfl
    simp [asking, Allocator.answerLater, hnone]
  refine ⟨h.agree.posts_up fun _ => rfl, fun slot' => ?_, h.media, h.order, h.single⟩
  have hcount : (a.answerLater purpose slot claim why).inFlight slot' = a.inFlight slot' := by
    unfold inFlight
    rw [hasking]
    refine List.countP_congr fun t ht => ?_
    have hold : (a.answerLater purpose slot claim why).pending t = a.pending t :=
      asking_old htokens _ ht
    rw [hold]
  rw [hcount]
  exact h.load slot'

theorem countP_removeAll (held : List Claim) (claim : Claim) (slot : Int) :
    (removeAll held claim).countP (ofSlot slot) ≤ held.countP (ofSlot slot) :=
  List.filter_sublist.countP_le

theorem countP_without (held : List Claim) (lost : List Lost) (slot : Int) :
    (without held lost).countP (ofSlot slot) ≤ held.countP (ofSlot slot) :=
  List.filter_sublist.countP_le

/-- The hole of a slot that is released is not being claimed. -/
theorem releaseMediaPort (h : Slots a) (htokens : Tokens a) (slot : Int) :
    Slots (a.releaseMediaPort slot) := by
  unfold Allocator.releaseMediaPort
  split
  · exact h
  · next claim hclaim =>
    obtain ⟨hheld, hmedia, hslot⟩ := Tokens.heldMediaPort_spec hclaim
    have hfree : a.inFlight slot = 0 := by
      have hload := h.load slot
      have hpos : 0 < a.held.countP (ofSlot slot) :=
        List.countP_pos_iff.mpr ⟨claim, hheld, ofSlot_iff.mpr ⟨hmedia, hslot⟩⟩
      omega
    have hcross : ∀ m ∈ a.toMain, ∀ s,
        hear (obey s (.release claim)) m = obey (hear s m) (.release claim) := by
      intro m hm s
      cases m with
      | discovered lan => rfl
      | renewed lost => exact (removeAll_without s claim lost).symm
      | answer token given why => rfl
      | claimed token result =>
        cases hresult : result.claim with
        | none => simp [hear, obey, hresult]
        | some c =>
          have hgives : (claimed token result).gives = some (token, c) := by
            change result.claim.map _ = _
            rw [hresult]
            rfl
          have hpending := (htokens.gives _ hm _ _ hgives).1
          have hdiffers : c.same claim = false := by
            by_contra hsame
            obtain ⟨hp, hs, _⟩ := (Claim.same_iff c claim).mp (by simpa using hsame)
            rw [hp, hs, hmedia, hslot] at hpending
            have hpos := inFlight_pos (a := a) (List.mem_append_right _
              (List.mem_filterMap.mpr ⟨_, hm, rfl⟩)) hpending
            omega
          simp only [hear, obey, hresult, Option.toList_some]
          exact (removeAll_append s hdiffers).symm
    have hnone : [ToWorker.release claim].filterMap ToWorker.token = [] := rfl
    refine ⟨h.agree.orders hcross, fun slot' => ?_, fun c hc => ?_, ?_, h.single⟩
    · have hcount := countP_removeAll a.held claim slot'
      have hload := h.load slot'
      change (List.filterMap ToWorker.token (a.toWorker ++ [ToWorker.release claim]) ++ _).countP _ +
        (removeAll a.held claim).countP (ofSlot slot') ≤ 1
      rw [List.filterMap_append, hnone, List.append_nil]
      change a.inFlight slot' + _ ≤ 1
      omega
    · rcases List.mem_append.mp hc with hold | hlast
      · exact h.media c hold
      · cases List.mem_singleton.mp hlast
        exact hmedia
    · refine List.pairwise_append.mpr ⟨h.order, List.pairwise_singleton _ _, ?_⟩
      intro m hm m' hm' t request c hasks hrelease hpurpose hsame
      rw [List.mem_singleton.mp hm'] at hrelease
      cases hrelease
      rw [hasks] at hm
      have hpending := htokens.claims t request hm
      rw [hpurpose, hsame, hslot] at hpending
      have hpos := inFlight_pos (a := a) (List.mem_append_left _
        (List.mem_filterMap.mpr ⟨_, hm, rfl⟩)) hpending
      omega

/-- A message is handled that answers no claim of the router's. -/
theorem pops (h : Slots a) {m : ToMain} {rest inbox : List ToMain} {held : List Claim}
    (hagree : Agree hear obey held inbox a.coreHeld a.toWorker)
    (hinbox : a.toMain = m :: rest) (hm : m.asked = none)
    (hrest : inbox = rest ∨ ∃ lost, inbox = .renewed lost :: rest)
    (hheld : ∀ slot, held.countP (ofSlot slot) ≤ a.held.countP (ofSlot slot))
    {pending : Nat → Option Pending} (hpending : ∀ t ∈ a.asking, pending t = a.pending t)
    (state : GatewayState) (settings : AppSettings) (called : List Called) :
    Slots { a with
      state := state
      settings := settings
      held := held
      toMain := inbox
      pending := pending
      called := called } := by
  refine ⟨hagree, fun slot => ?_, h.media, h.order, h.single⟩
  have hasked : inbox.filterMap asked = a.toMain.filterMap asked := by
    rw [hinbox, List.filterMap_cons_none hm]
    rcases hrest with rfl | ⟨lost, rfl⟩
    · rfl
    · exact List.filterMap_cons_none rfl
  have hload := h.load slot
  have hless := hheld slot
  have hcount : (a.toWorker.filterMap ToWorker.token ++ inbox.filterMap asked).countP
      (fun t => pending t = some ⟨.media, slot⟩) = a.inFlight slot := by
    rw [hasked]
    refine List.countP_congr fun t ht => ?_
    rw [hpending t ht]
  change (a.toWorker.filterMap ToWorker.token ++ inbox.filterMap asked).countP
      (fun t => decide (pending t = some ⟨.media, slot⟩)) + held.countP (ofSlot slot) ≤ 1
  rw [hcount]
  omega

theorem deliver_erases (a : Allocator) (token : Nat) (claim : Option Claim) (why : String)
    (alive : Bool) : ∃ called, a.deliver token claim why alive =
      a.withBooks a.settings a.held (update a.pending token none) called := by
  unfold deliver
  split
  · next hnone =>
    refine ⟨a.called, ?_⟩
    rw [update_eq_self_iff.mpr hnone.symm]
    rfl
  · exact ⟨_, rfl⟩

variable (h : Slots a)

include h

/-- An answer of the router's is handled: what was on its way is held, or given up. -/
theorem answered (htokens : Tokens a) {token : Nat} {result : Result}
    {rest : List ToMain} (hinbox : a.toMain = .claimed token result :: rest)
    (settings : AppSettings) (called : List Called) :
    Slots (({ a with toMain := rest } : Allocator).withBooks settings
      (a.held ++ result.claim.toList) (update a.pending token none) called) := by
  have hagree := h.agree
  rw [hinbox] at hagree
  refine ⟨hagree.hears, fun slot => ?_, h.media, h.order, h.single⟩
  have hhead : ToMain.claimed token result ∈ a.toMain := by
    rw [hinbox]
    exact List.mem_cons_self
  have hperm : a.asking.Perm (token :: (a.toWorker.filterMap ToWorker.token ++
      rest.filterMap ToMain.asked)) := by
    have heq : a.asking = a.toWorker.filterMap ToWorker.token ++
        token :: rest.filterMap ToMain.asked := by
      rw [asking, hinbox]
      rfl
    rw [heq]
    exact List.perm_middle
  have htoken : token ∉ a.toWorker.filterMap ToWorker.token ++ rest.filterMap ToMain.asked := by
    have hnodup : a.tokens.Nodup := htokens.nodup
    have heq : a.tokens = a.toWorker.filterMap ToWorker.token ++
        token :: rest.filterMap ToMain.token := by
      rw [tokens, hinbox]
      rfl
    rw [heq] at hnodup
    have hgone := (List.nodup_cons.mp (List.perm_middle.nodup_iff.mp hnodup)).1
    intro hmem
    rcases List.mem_append.mp hmem with hdown | hup
    · exact hgone (List.mem_append_left _ hdown)
    · obtain ⟨m, hm, hasked⟩ := List.mem_filterMap.mp hup
      exact hgone (List.mem_append_right _
        (List.mem_filterMap.mpr ⟨m, hm, token_of_asked hasked⟩))
  have hcount : a.inFlight slot =
      (a.toWorker.filterMap ToWorker.token ++ rest.filterMap asked).countP
        (fun t => update a.pending token none t = some ⟨.media, slot⟩) +
      if a.pending token = some ⟨.media, slot⟩ then 1 else 0 := by
    unfold inFlight
    rw [hperm.countP_eq, List.countP_cons]
    refine congrArg₂ (· + ·) (List.countP_congr fun t ht => ?_) ?_
    · have hdiffers : t ≠ token := fun hsame => htoken (hsame ▸ ht)
      rw [update_of_ne hdiffers]
    · simp
  have hnew : result.claim.toList.countP (ofSlot slot) ≤
      if a.pending token = some ⟨.media, slot⟩ then 1 else 0 := by
    cases hclaim : result.claim with
    | none => exact Nat.zero_le _
    | some c =>
      have hgives : (claimed token result).gives = some (token, c) := by
        change result.claim.map _ = _
        rw [hclaim]
        rfl
      have hpending := (htokens.gives _ hhead _ _ hgives).1
      by_cases hslot : ofSlot slot c = true
      · obtain ⟨hp, hs⟩ := ofSlot_iff.mp hslot
        rw [hpending, hp, hs, if_pos rfl]
        simp [hslot]
      · simp [hslot]
  have hload := h.load slot
  change (a.toWorker.filterMap ToWorker.token ++ rest.filterMap asked).countP
      (fun t => decide (update a.pending token none t = some ⟨.media, slot⟩)) +
    (a.held ++ result.claim.toList).countP (ofSlot slot) ≤ 1
  have happend : (a.held ++ result.claim.toList).countP (ofSlot slot) =
      a.held.countP (ofSlot slot) + result.claim.toList.countP (ofSlot slot) := List.countP_append
  omega

theorem handle (hdiscovery : Discovery a) (htokens : Tokens a) (alive : Bool) :
    Slots (a.handle alive) := by
  have hagree := h.agree
  unfold Allocator.handle
  split
  · exact h
  · next lan rest hinbox =>
    rw [hinbox] at hagree
    cases lan with
    | none =>
      exact h.pops hagree.hears hinbox rfl (Or.inl rfl) (fun _ => le_refl _) (fun _ _ => rfl)
        .missing a.settings a.called
    | some lan =>
      exact h.pops hagree.hears hinbox rfl (Or.inl rfl) (fun _ => le_refl _) (fun _ _ => rfl)
        .ready (a.settings.setRouterLanIp lan) a.called
  · next token result rest hinbox =>
    unfold onClaimed
    split
    · next hmissing =>
      -- no claim is given where no gateway was found
      have hnone : result.claim = none := by
        by_contra hsome
        have hcore := hdiscovery.granted token result (by rw [hinbox]; exact List.mem_cons_self)
          hsome
        exact (hdiscovery.present hcore).1 hmissing
      obtain ⟨called, heq⟩ := deliver_erases { a with toMain := rest } token none "no IGD" alive
      have hanswered := h.answered htokens hinbox a.settings called
      rw [hnone] at hanswered
      rw [heq]
      simpa [withBooks] using hanswered
    · split
      · next hnone =>
        obtain ⟨called, heq⟩ := deliver_erases
          { a with
            toMain := rest
            settings := afterSkips { a with toMain := rest } token result } token none
          "no router port left" alive
        have hanswered := h.answered htokens hinbox
          (afterSkips { a with toMain := rest } token result) called
        rw [hnone] at hanswered
        rw [heq]
        simpa [withBooks] using hanswered
      · next claim hclaim =>
        obtain ⟨called, heq⟩ := deliver_erases
          { a with
            toMain := rest
            settings := remember (whose { a with toMain := rest } token)
              (afterSkips { a with toMain := rest } token result) claim
            held := a.held ++ [claim] } token (some claim) "" alive
        have hanswered := h.answered htokens hinbox
          (remember (whose { a with toMain := rest } token)
            (afterSkips { a with toMain := rest } token result) claim) called
        rw [hclaim] at hanswered
        rw [heq]
        exact hanswered
  · next token claim why rest hinbox =>
    rw [hinbox] at hagree
    obtain ⟨called, heq⟩ := deliver_erases { a with toMain := rest } token claim why alive
    rw [heq]
    refine h.pops hagree.hears hinbox rfl (Or.inl rfl) (fun _ => le_refl _) (fun t ht => ?_)
      a.state a.settings called
    have hnodup := htokens.nodup
    have heq : a.tokens = a.toWorker.filterMap ToWorker.token ++
        token :: rest.filterMap ToMain.token := by
      rw [tokens, hinbox]
      rfl
    rw [heq] at hnodup
    have hgone := (List.nodup_cons.mp (List.perm_middle.nodup_iff.mp hnodup)).1
    refine update_of_ne (fun hsame => hgone ?_) _ _
    rw [← hsame]
    rcases List.mem_append.mp ht with hdown | hup
    · exact List.mem_append_left _ hdown
    · rw [hinbox, List.filterMap_cons_none rfl] at hup
      obtain ⟨m, hm, hasked⟩ := List.mem_filterMap.mp hup
      exact List.mem_append_right _
        (List.mem_filterMap.mpr ⟨m, hm, token_of_asked hasked⟩)
  · next rest hinbox =>
    rw [hinbox] at hagree
    have hsame : without a.held [] = a.held := List.filter_eq_self.mpr fun _ _ => rfl
    have hheard := hagree.hears
    change Agree hear obey (without a.held []) _ _ _ at hheard
    rw [hsame] at hheard
    exact h.pops hheard hinbox rfl (Or.inl rfl) (fun _ => le_refl _) (fun _ _ => rfl)
      a.state a.settings a.called
  · next l rest hinbox =>
    rw [hinbox] at hagree
    have hone : without a.held [l] = removeAll a.held l.claim := by
      refine List.filter_congr fun c _ => ?_
      simp
    have hheard := hagree.hears
    change Agree hear obey (without a.held [l]) _ _ _ at hheard
    rw [hone] at hheard
    exact h.pops hheard hinbox rfl (Or.inl rfl) (countP_removeAll a.held l.claim)
      (fun _ _ => rfl) a.state _ a.called
  · next l l' lost rest hinbox =>
    rw [hinbox] at hagree
    have hheard : Agree hear obey (removeAll a.held l.claim) (.renewed (l' :: lost) :: rest)
        a.coreHeld a.toWorker := by
      unfold Agree at hagree ⊢
      rw [← hagree, List.foldl_cons, List.foldl_cons]
      exact congrArg (List.foldl hear · rest) (without_without a.held l (l' :: lost))
    exact h.pops hheard hinbox rfl (Or.inr ⟨_, rfl⟩) (countP_removeAll a.held l.claim)
      (fun _ _ => rfl) a.state _ a.called

/-- The worker takes a message off its queue and leaves the claims of the core but for those
it drops. -/
theorem worked {d : ToWorker} {rest : List ToWorker} {inbox : List ToMain}
    (core : Option Core) (houtbox : a.toWorker = d :: rest)
    (hagree : Agree hear obey a.held inbox ((core.map Core.held).getD []) rest)
    (hasked : (rest.filterMap ToWorker.token ++ inbox.filterMap asked).Perm a.asking)
    (hsub : ∀ slot, ((core.map Core.held).getD []).countP (ofSlot slot) ≤ 1)
    (obtained : List Claim) :
    Slots { a with core := core, toWorker := rest, toMain := inbox, obtained := obtained } := by
  have hmedia := h.media
  have horder := h.order
  rw [houtbox] at hmedia horder
  refine ⟨hagree, fun slot => ?_, fun c hc => hmedia c (List.mem_cons_of_mem _ hc),
    (List.pairwise_cons.mp horder).2, hsub⟩
  change (rest.filterMap ToWorker.token ++ inbox.filterMap asked).countP
    (fun t => decide (a.pending t = some ⟨.media, slot⟩)) + _ ≤ 1
  rw [hasked.countP_eq]
  exact h.load slot

/-- A slot whose claim is on its way to the core has none there. -/
theorem none_held (htokens : Tokens a) {token : Nat} {request : Request}
    {rest : List ToWorker} (houtbox : a.toWorker = .claim token request :: rest)
    (hpurpose : request.purpose = .media) : a.coreHeld.countP (ofSlot request.slot) = 0 := by
  have hhead : ToWorker.claim token request ∈ a.toWorker := by
    rw [houtbox]
    exact List.mem_cons_self
  have hpending := htokens.claims token request hhead
  rw [hpurpose] at hpending
  have hload := h.load request.slot
  have hasking : a.asking = token :: (rest.filterMap ToWorker.token ++
      a.toMain.filterMap asked) := by
    rw [asking, houtbox]
    rfl
  have hcount : a.inFlight request.slot = (rest.filterMap ToWorker.token ++
      a.toMain.filterMap asked).countP
        (fun t => a.pending t = some ⟨.media, request.slot⟩) + 1 := by
    unfold inFlight
    rw [hasking, List.countP_cons_of_pos (by rw [hpending]; exact decide_eq_true rfl)]
  by_contra hne
  obtain ⟨c, hc, hslot⟩ := List.countP_pos_iff.mp (Nat.pos_of_ne_zero hne)
  obtain ⟨hmedia, hsame⟩ := ofSlot_iff.mp hslot
  -- what the core holds of the slot is not on its way out, for the claim stands before that
  have hstays : c ∈ a.toWorker.foldl obey a.coreHeld := by
    refine mem_obeyed hc fun claim hclaim => ?_
    rw [houtbox] at hclaim
    rcases List.mem_cons.mp hclaim with hno | hlater
    · cases hno
    · have horder := h.order
      rw [houtbox] at horder
      have hbehind := (List.pairwise_cons.mp horder).1 _ hlater token request claim rfl rfl hpurpose
      by_contra hno
      obtain ⟨_, hs, _⟩ := (Claim.same_iff c claim).mp (by simpa using hno)
      exact hbehind (hsame.symm.trans hs)
  have hagree := h.agree
  unfold Agree at hagree
  rw [← hagree] at hstays
  rcases mem_heard hstays with hheld | ⟨t, result, hmem, hclaim⟩
  · have hpos : 0 < a.held.countP (ofSlot request.slot) :=
      List.countP_pos_iff.mpr ⟨c, hheld, hslot⟩
    omega
  · have hgives : (claimed t result).gives = some (t, c) := by
      change result.claim.map _ = _
      rw [hclaim]
      rfl
    have hother := (htokens.gives _ hmem _ _ hgives).1
    rw [hmedia, hsame] at hother
    have hpos : 0 < (rest.filterMap ToWorker.token ++ a.toMain.filterMap asked).countP
        (fun t => a.pending t = some ⟨.media, request.slot⟩) :=
      List.countP_pos_iff.mpr ⟨t, List.mem_append_right _
        (List.mem_filterMap.mpr ⟨_, hmem, rfl⟩), decide_eq_true hother⟩
    omega

theorem work (htokens : Tokens a) (found : Option String)
    (answers : Nat → (c : Call) → c.Answer) : Slots (a.work found answers) := by
  have hagree := h.agree
  unfold Allocator.work
  split
  · exact h
  · next previousLan rest houtbox =>
    rw [houtbox] at hagree
    have hasked : (rest.filterMap ToWorker.token ++ a.toMain.filterMap asked).Perm
        a.asking := by
      rw [asking, houtbox]
      exact List.Perm.refl _
    have hposted : ∀ lan, (a.toMain ++ [discovered lan]).filterMap asked =
        a.toMain.filterMap asked := by
      intro lan
      have hnone : [discovered lan].filterMap asked = [] := rfl
      rw [List.filterMap_append, hnone, List.append_nil]
    split
    · exact h.worked _ houtbox hagree.obeys hasked h.single a.obtained
    · refine h.worked _ houtbox (hagree.obeys.posts_up fun _ => rfl) ?_ h.single a.obtained
      rw [hposted]
      exact hasked
    · next lan hcore =>
      have hempty : a.coreHeld = [] := by
        unfold coreHeld
        rw [hcore]
        rfl
      rw [hempty] at hagree
      refine h.worked _ houtbox (hagree.obeys.posts_up fun _ => rfl) ?_ (fun _ => Nat.zero_le _)
        a.obtained
      rw [hposted]
      exact hasked
  · next token request rest houtbox =>
    have hmedia := h.media
    have horder := h.order
    have hnone := h.none_held htokens houtbox
    rw [houtbox] at hagree hmedia horder
    have hasked : ∀ result, (rest.filterMap ToWorker.token ++
        (a.toMain ++ [claimed token result]).filterMap asked).Perm a.asking := by
      intro result
      have hlast : [claimed token result].filterMap asked = [token] := rfl
      have heq : a.asking = token :: (rest.filterMap ToWorker.token ++
          a.toMain.filterMap asked) := by
        rw [asking, houtbox]
        rfl
      rw [heq, List.filterMap_append, hlast, ← List.append_assoc]
      exact List.perm_append_singleton _ _
    split
    · have hpost := hagree.obeys.posts_up (m := claimed token {}) List.append_nil
      exact h.worked _ houtbox hpost (hasked {}) h.single a.obtained
    · next core hcore =>
      have hheld : a.coreHeld = core.held := by
        unfold coreHeld
        rw [hcore]
        rfl
      have hgranted := (ends_claim core request).replay answers
      generalize (core.claim request).replay answers = r at hgranted
      have hcross : ∀ d ∈ rest, ∀ s, obey (hear s (.claimed token r.2)) d =
          hear (obey s d) (.claimed token r.2) := by
        intro d hd s
        rcases hgranted with ⟨hrefused, _⟩ | ⟨c, hc, _, hp, hs, _⟩
        · simp [hear, hrefused]
        · simp only [hear, hc, Option.toList_some]
          cases d with
          | start previousLan => rfl
          | claim token' request' => rfl
          | release claim =>
            refine removeAll_append s ?_
            by_contra hsame
            obtain ⟨hpurpose, hslot, _⟩ := (Claim.same_iff c claim).mp (by simpa using hsame)
            have hmed := hmedia claim (List.mem_cons_of_mem _ hd)
            refine (List.pairwise_cons.mp horder).1 _ hd token request claim rfl rfl ?_ ?_
            · rw [← hp, hpurpose, hmed]
            · rw [← hs, hslot]
      have hnew : r.1.held = hear a.coreHeld (.claimed token r.2) := by
        rw [hheld]
        rcases hgranted with ⟨hrefused, hsame⟩ | ⟨c, hc, hsame, _⟩
        · simp [hear, hrefused, hsame]
        · simp [hear, hc, hsame]
      have htold := hagree.obeys.tells hcross
      refine h.worked (some r.1) houtbox ?_ (hasked r.2) (fun slot => ?_) _
      · change Agree hear obey a.held _ r.1.held rest
        rw [hnew]
        exact htold
      · change r.1.held.countP (ofSlot slot) ≤ 1
        have hsingle := h.single slot
        rw [hheld] at hsingle hnone
        rcases hgranted with ⟨_, hsame⟩ | ⟨c, _, hsame, hp, hs, _⟩
        · rw [hsame]
          exact hsingle
        · rw [hsame, List.countP_append]
          by_cases hslot : ofSlot slot c = true
          · obtain ⟨hmed, heq⟩ := ofSlot_iff.mp hslot
            have hzero := hnone (hp.symm.trans hmed)
            rw [← hs, heq] at hzero
            simp [hzero, hslot]
          · simpa [hslot] using hsingle
  · next claim rest houtbox =>
    rw [houtbox] at hagree
    have hasked : (rest.filterMap ToWorker.token ++ a.toMain.filterMap asked).Perm
        a.asking := by
      rw [asking, houtbox]
      exact List.Perm.refl _
    have hheld : ((a.core.map fun core => (core.release claim).replay answers).map
        Core.held).getD [] = removeAll a.coreHeld claim := by
      unfold coreHeld
      cases a.core with
      | none => rfl
      | some core => exact (ends_release core claim).replay answers
    refine h.worked _ houtbox ?_ hasked (fun slot => ?_) a.obtained
    · rw [hheld]
      exact hagree.obeys
    · rw [hheld]
      exact (countP_removeAll _ _ _).trans (h.single slot)

theorem renew (answers : Nat → (c : Call) → c.Answer) : Slots (a.renew answers) := by
  unfold Allocator.renew
  split
  · exact h
  · next core hcore =>
    have hheld : a.coreHeld = core.held := by
      unfold coreHeld
      rw [hcore]
      rfl
    have hrenewed := ((ends_renew core).replay answers).1
    generalize core.renew.replay answers = r at hrenewed
    rw [← hheld] at hrenewed
    have hcross : ∀ d ∈ a.toWorker, ∀ s,
        obey (hear s (.renewed r.2)) d = hear (obey s d) (.renewed r.2) := by
      intro d _ s
      cases d with
      | start previousLan => rfl
      | claim token request => rfl
      | release claim => exact removeAll_without s claim r.2
    have hnone : [renewed r.2].filterMap asked = [] := rfl
    refine ⟨?_, fun slot => ?_, h.media, h.order, fun slot => ?_⟩
    · change Agree hear obey a.held (if r.2 = [] then a.toMain else a.toMain ++ [.renewed r.2])
        r.1.held a.toWorker
      rw [hrenewed]
      split
      · next hlost =>
        have hall : without a.coreHeld r.2 = a.coreHeld := by
          rw [hlost]
          exact List.filter_eq_self.mpr fun _ _ => rfl
        rw [hall]
        exact h.agree
      · exact h.agree.tells hcross
    · have hload := h.load slot
      change (_ ++ (if r.2 = [] then a.toMain else a.toMain ++ [.renewed r.2]).filterMap
        asked).countP _ + a.held.countP (ofSlot slot) ≤ 1
      split
      · exact hload
      · rw [List.filterMap_append, hnone, List.append_nil]
        exact hload
    · change r.1.held.countP (ofSlot slot) ≤ 1
      rw [hrenewed]
      exact (countP_without _ _ _).trans (h.single slot)

omit h

theorem ensureStarted_inFlight (a : Allocator) (enabled : Bool) (slot : Int) :
    (a.ensureStarted enabled).inFlight slot = a.inFlight slot := by
  have hnone : [ToWorker.start a.settings.routerLanIp].filterMap ToWorker.token = [] := rfl
  unfold Allocator.ensureStarted
  split
  · rfl
  · split
    · rfl
    · change (List.filterMap _ (a.toWorker ++ [ToWorker.start _]) ++ _).countP _ = _
      rw [List.filterMap_append, hnone, List.append_nil]
      rfl

/-- A claim that is in flight is one the slot has no answer to yet. -/
theorem unanswered (htokens : Tokens a) {slot : Int} (h : a.inFlight slot ≠ 0) :
    a.Unanswered slot := by
  obtain ⟨t, ht, hpending⟩ := List.countP_pos_iff.mp (Nat.pos_of_ne_zero h)
  have hpending := of_decide_eq_true hpending
  rcases List.mem_append.mp ht with hdown | hup
  · obtain ⟨d, hd, htoken⟩ := List.mem_filterMap.mp hdown
    cases d with
    | start previousLan => cases htoken
    | release claim => cases htoken
    | claim token request =>
      obtain rfl := Option.some.inj htoken
      have hfits := htokens.claims _ _ hd
      rw [hpending] at hfits
      obtain ⟨hp, hs⟩ := Pending.mk.inj (Option.some.inj hfits)
      exact Or.inl ⟨token, request, hd, hp.symm, hs.symm⟩
  · obtain ⟨m, hm, hasked⟩ := List.mem_filterMap.mp hup
    cases m with
    | discovered lan => cases hasked
    | renewed lost => cases hasked
    | answer token claim why => cases hasked
    | claimed token result =>
      obtain rfl := Option.some.inj hasked
      exact Or.inr ⟨token, result, hm, hpending⟩

theorem next (h : Slots a) (hdiscovery : Discovery a) (htokens : Tokens a) (e : Event)
    (hclean : a.Clean e (a.next e)) : Slots (a.next e) := by
  cases e with
  | ensureStarted enabled => exact h.ensureStarted enabled
  | discover lanOnly => exact h.discover lanOnly
  | claimTunnelPort enabled =>
    change Slots (a.claimTunnelPort enabled)
    unfold claimTunnelPort
    split
    · exact (h.ensureStarted enabled).answerLater (htokens.ensureStarted enabled) _ _ _ _
    · exact (h.ensureStarted enabled).submit (htokens.ensureStarted enabled) _
        fun hno => nomatch hno
  | claimMediaPort slot internalPort enabled =>
    change Slots (a.claimMediaPort slot internalPort enabled)
    unfold claimMediaPort
    split
    · exact (h.ensureStarted enabled).answerLater (htokens.ensureStarted enabled) _ _ _ _
    · next hallowed =>
      split
      · exact (h.ensureStarted enabled).answerLater (htokens.ensureStarted enabled) _ _ _ _
      · next hnone =>
        refine (h.ensureStarted enabled).submit (htokens.ensureStarted enabled) _ fun _ => ?_
        rw [ensureStarted_inFlight, Tokens.ensureStarted_held]
        constructor
        · by_contra hno
          exact hclean hallowed hnone (unanswered htokens hno)
        · by_contra hno
          obtain ⟨c, hc, hslot⟩ := List.countP_pos_iff.mp (Nat.pos_of_ne_zero hno)
          exact absurd hslot (List.find?_eq_none.mp hnone c hc)
  | releaseMediaPort slot => exact h.releaseMediaPort htokens slot
  | handle alive => exact h.handle hdiscovery htokens alive
  | work found answers => exact h.work htokens found answers
  | renew answers => exact h.renew answers

theorem initial (settings : AppSettings) : Slots (initial settings) where
  agree := rfl
  load := fun _ => Nat.zero_le _
  media := fun _ hc => absurd hc List.not_mem_nil
  order := List.Pairwise.nil
  single := fun _ => Nat.zero_le _

end Slots

end Allocator

end MoonlightWeb.Network.RouterPortAllocator
