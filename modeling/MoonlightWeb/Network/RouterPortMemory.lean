import MoonlightWeb.Network.RouterPortMirror

/-! # The ports that are remembered

While the core holds a port for a slot, that port is what is remembered of the slot, so a
loss forgets the port it is about. With this the allocator follows its worker along every
run that asks for a slot only once at a time.
-/

namespace MoonlightWeb.Network.RouterPortAllocator

open Lib RouterPortCore Allocator List

variable (mem : Int → UInt16)

/-- The port remembered of a slot once a message was handled, where nothing is forgotten. -/
def learn (m : ToMain) (slot : Int) : UInt16 :=
  match m with
  | .claimed _ result =>
      match result.claim with
      | some c => if ofSlot slot c && 0 ≤ slot then c.external else mem slot
      | none => mem slot
  | _ => mem slot

theorem learn_refused {result : Result} (h : result.claim = none) (mem : Int → UInt16)
    (token : Nat) : learn mem (.claimed token result) = mem := by
  funext slot
  simp only [learn, h]

theorem learn_given {result : Result} {c : Claim} (h : result.claim = some c)
    (mem : Int → UInt16) (token : Nat) (slot : Int) :
    learn mem (.claimed token result) slot =
      if ofSlot slot c && 0 ≤ slot then c.external else mem slot := by
  simp only [learn, h]

/-- What is lost of a slot is the port remembered of it, if one is. -/
def Fits (m : ToMain) : Prop :=
  ∀ lost, m = .renewed lost → ∀ l ∈ lost, l.claim.purpose = .media →
    mem l.claim.slot = 0 ∨ mem l.claim.slot = l.claim.external

/-- So it is when each message is handled. -/
def Sound (mem : Int → UInt16) : List ToMain → Prop
  | [] => True
  | m :: rest => Fits mem m ∧ Sound (learn mem m) rest

/-- The second forgot more. -/
def Less (mem mem' : Int → UInt16) : Prop := ∀ slot, mem' slot = mem slot ∨ mem' slot = 0

theorem Less.refl : Less mem mem := fun _ => Or.inl rfl

theorem Less.trans {mem mem' mem'' : Int → UInt16} (h : Less mem mem') (h' : Less mem' mem'') :
    Less mem mem'' := by
  intro slot
  rcases h' slot with hsame | hzero
  · rw [hsame]
    exact h slot
  · exact Or.inr hzero

variable {mem mem' : Int → UInt16}

theorem Less.learn (h : Less mem mem') (m : ToMain) :
    Less (learn mem m) (learn mem' m) := by
  intro slot
  unfold RouterPortAllocator.learn
  split
  · split
    · split
      · exact Or.inl rfl
      · exact h slot
    · exact h slot
  · exact h slot

theorem Less.foldl (h : Less mem mem') (inbox : List ToMain) :
    Less (inbox.foldl RouterPortAllocator.learn mem) (inbox.foldl RouterPortAllocator.learn mem') := by
  induction inbox generalizing mem mem' with
  | nil => exact h
  | cons m rest ih => exact ih (h.learn m)

theorem Less.within (h : Less mem mem') {slot : Int} {port : UInt16}
    (hport : mem slot = 0 ∨ mem slot = port) : mem' slot = 0 ∨ mem' slot = port := by
  rcases h slot with hsame | hzero
  · rw [hsame]
    exact hport
  · exact Or.inl hzero

theorem Sound.less {inbox : List ToMain} (h : Sound mem inbox)
    (hless : Less mem mem') : Sound mem' inbox := by
  induction inbox generalizing mem mem' with
  | nil => exact True.intro
  | cons m rest ih =>
    refine ⟨fun lost hm l hl hmedia => ?_, ih h.2 (hless.learn m)⟩
    exact hless.within (h.1 lost hm l hl hmedia)

theorem Sound.snoc {mem : Int → UInt16} {inbox : List ToMain} {m : ToMain} (h : Sound mem inbox)
    (hm : Fits (inbox.foldl learn mem) m) : Sound mem (inbox ++ [m]) := by
  induction inbox generalizing mem with
  | nil => exact ⟨hm, True.intro⟩
  | cons first rest ih => exact ⟨h.1, ih h.2 hm⟩

theorem learned_negative {mem : Int → UInt16} {slot : Int} (hslot : slot < 0)
    (hmem : mem slot = 0) (inbox : List ToMain) : inbox.foldl learn mem slot = 0 := by
  induction inbox generalizing mem with
  | nil => exact hmem
  | cons m rest ih =>
    refine ih ?_
    unfold learn
    split
    · split
      · rw [if_neg (by simp; omega)]
        exact hmem
      · exact hmem
    · exact hmem

theorem forgetSkipped_less (p : Pending) (settings : AppSettings) (s : Skipped) :
    Less settings.mediaPorts (forgetSkipped p settings s).mediaPorts := by
  intro slot
  unfold forgetSkipped
  split
  · exact Or.inl rfl
  · split
    · exact Or.inl rfl
    · split
      · change (if slot = p.slot then 0 else settings.mediaPorts slot) = _ ∨ _ = 0
        by_cases hslot : slot = p.slot
        · exact Or.inr (if_pos hslot)
        · exact Or.inl (if_neg hslot)
      · exact Or.inl rfl

theorem skips_less (p : Pending) (settings : AppSettings) (skipped : List Skipped) :
    Less settings.mediaPorts (skipped.foldl (forgetSkipped p) settings).mediaPorts := by
  induction skipped generalizing settings with
  | nil => exact Less.refl _
  | cons s rest ih => exact (forgetSkipped_less p settings s).trans (ih _)

/-- A port that was passed over is the only one forgotten. -/
theorem skips_news {p : Pending} {settings : AppSettings} {skipped : List Skipped} {slot : Int}
    (hport : settings.mediaPorts slot ≠ 0)
    (hgone : (skipped.foldl (forgetSkipped p) settings).mediaPorts slot = 0) :
    p = ⟨.media, slot⟩ ∧
      ∃ s ∈ skipped, s.reason ≠ .localBusy ∧ s.port = settings.mediaPorts slot := by
  induction skipped generalizing settings with
  | nil => exact absurd hgone hport
  | cons s rest ih =>
    rcases forgetSkipped_less p settings s slot with hsame | hzero
    · obtain ⟨hp, s', hs', hnews⟩ := ih (by rw [hsame]; exact hport) hgone
      rw [hsame] at hnews
      exact ⟨hp, s', mem_cons_of_mem s hs', hnews⟩
    · unfold forgetSkipped at hzero
      split at hzero
      · exact absurd hzero hport
      · next hreason =>
        split at hzero
        · exact absurd hzero hport
        · next hpurpose =>
          split at hzero
          · next hremembered =>
            change (if slot = p.slot then 0 else settings.mediaPorts slot) = 0 at hzero
            by_cases hslot : slot = p.slot
            · have hmedia : p.purpose = .media := by
                cases hp : p.purpose with
                | tunnel => exact absurd hp hpurpose
                | media => rfl
              refine ⟨?_, s, mem_cons_self, hreason, ?_⟩
              · rw [hslot, ← hmedia]
              · rw [hslot]
                exact hremembered.symm
            · rw [if_neg hslot] at hzero
              exact absurd hzero hport
          · exact absurd hzero hport

theorem remember_ports {c : Claim} (hport : c.external ≠ 0) (settings : AppSettings) (slot : Int) :
    (remember ⟨c.purpose, c.slot⟩ settings c).mediaPorts slot =
      if ofSlot slot c && 0 ≤ slot then c.external else settings.mediaPorts slot := by
  unfold remember
  cases hp : c.purpose with
  | tunnel =>
    have hnot : ofSlot slot c = false := by simp [ofSlot, hp]
    rw [if_pos rfl, hnot]
    unfold AppSettings.rememberTunnelPort
    split <;> rfl
  | media =>
    rw [if_neg (by simp)]
    unfold AppSettings.rememberMediaPort
    by_cases hslot : c.slot < 0
    · rw [dif_pos (Or.inr hslot), if_neg]
      simp only [ofSlot, hp, Bool.and_eq_true, decide_eq_true_eq]
      omega
    · rw [dif_neg (by simp only [hport, false_or]; exact hslot)]
      by_cases hsame : slot = c.slot
      · subst hsame
        have hofSlot : ofSlot c.slot c = true := ofSlot_iff.mpr ⟨hp, rfl⟩
        have hnonneg : 0 ≤ c.slot := by omega
        simp [hofSlot, hnonneg]
      · have hnot : ofSlot slot c = false := by
          simp only [ofSlot, hp, Bool.and_eq_false_iff, decide_eq_false_iff_not]
          exact Or.inr fun heq => hsame heq.symm
        simp [hnot, hsame]

namespace Allocator

variable {a : Allocator}

structure Remembers (a : Allocator) : Prop where
  sound : Sound a.settings.mediaPorts a.toMain
  tells : ∀ c ∈ a.coreHeld, c.purpose = .media →
    a.toMain.foldl learn a.settings.mediaPorts c.slot = 0 ∨
      a.toMain.foldl learn a.settings.mediaPorts c.slot = c.external

namespace Remembers

variable {a' : Allocator}

/-- Nothing here reads what else changes. -/
theorem of_same (h : Remembers a) (hsettings : a'.settings = a.settings)
    (htoMain : a'.toMain = a.toMain) (hheld : ∀ c ∈ a'.coreHeld, c ∈ a.coreHeld) :
    Remembers a' := by
  refine ⟨?_, fun c hc => ?_⟩
  · rw [hsettings, htoMain]
    exact h.sound
  · rw [hsettings, htoMain]
    exact h.tells c (hheld c hc)

/-- A message is posted that teaches no port. -/
theorem posts (h : Remembers a) {m : ToMain}
    (hsettings : a'.settings = a.settings) (htoMain : a'.toMain = a.toMain ++ [m])
    (hm : ∀ mem, learn mem m = mem) (hfits : Fits (a.toMain.foldl learn a.settings.mediaPorts) m)
    (hheld : ∀ c ∈ a'.coreHeld, c ∈ a.coreHeld) : Remembers a' := by
  refine ⟨?_, fun c hc hmedia => ?_⟩
  · rw [hsettings, htoMain]
    exact h.sound.snoc hfits
  · rw [hsettings, htoMain, foldl_append, foldl_cons, foldl_nil, hm]
    exact h.tells c (hheld c hc) hmedia

/-- A message is handled; of what it teaches some may be forgotten. -/
theorem pops (h : Remembers a) {m : ToMain} {rest : List ToMain}
    (hinbox : a.toMain = m :: rest) (htoMain : a'.toMain = rest) (hcore : a'.core = a.core)
    (hless : Less (learn a.settings.mediaPorts m) a'.settings.mediaPorts) : Remembers a' := by
  have hsound := h.sound
  have htells := h.tells
  rw [hinbox] at hsound htells
  refine ⟨?_, fun c hc hmedia => ?_⟩
  · rw [htoMain]
    exact hsound.2.less hless
  · rw [htoMain]
    refine (hless.foldl rest).within (htells c ?_ hmedia)
    unfold coreHeld at hc ⊢
    rw [← hcore]
    exact hc

theorem fits_of_other {m : ToMain} (hm : ∀ lost, m ≠ .renewed lost) (mem : Int → UInt16) :
    Fits mem m := fun lost heq => absurd heq (hm lost)

theorem ensureStarted (h : Remembers a) (enabled : Bool) :
    Remembers (a.ensureStarted enabled) := by
  unfold Allocator.ensureStarted
  split
  · exact h
  · split
    · exact h
    · exact h.of_same rfl rfl fun _ => id

theorem discover (h : Remembers a) (lanOnly : Bool) : Remembers (a.discover lanOnly) := by
  have hstarted : Remembers a.startWorker := h.of_same rfl rfl fun _ => id
  unfold Allocator.discover
  split
  · exact h
  · split
    · exact hstarted
    · split
      · exact h
      · exact hstarted

theorem answerLater (h : Remembers a) (purpose : Purpose) (slot : Int) (claim : Option Claim)
    (why : String) : Remembers (a.answerLater purpose slot claim why) :=
  h.posts rfl rfl (fun _ => rfl) (fits_of_other (by intro lost hno; cases hno) _) fun _ => id

theorem forget_less (a : Allocator) (l : Lost) :
    Less a.settings.mediaPorts (a.onLost l).settings.mediaPorts := by
  intro slot
  unfold onLost
  dsimp only
  split
  · exact Or.inl rfl
  · change (if slot = l.claim.slot then 0 else a.settings.mediaPorts slot) = _ ∨ _ = 0
    by_cases hslot : slot = l.claim.slot
    · exact Or.inr (if_pos hslot)
    · exact Or.inl (if_neg hslot)

theorem deliver_settings (a : Allocator) (token : Nat) (claim : Option Claim) (why : String)
    (alive : Bool) : (a.deliver token claim why alive).settings = a.settings ∧
      (a.deliver token claim why alive).toMain = a.toMain ∧
      (a.deliver token claim why alive).core = a.core := by
  obtain ⟨pending, called, heq⟩ := a.deliver_books token claim why alive
  rw [heq]
  exact ⟨rfl, rfl, rfl⟩

theorem onClaimed_frame (a : Allocator) (token : Nat) (result : Result) (alive : Bool) :
    (a.onClaimed token result alive).toMain = a.toMain ∧
      (a.onClaimed token result alive).core = a.core := by
  obtain ⟨settings, held, pending, called, heq⟩ := a.onClaimed_books token result alive
  rw [heq]
  exact ⟨rfl, rfl⟩

/-- An answer teaches the port it gives, and no other. -/
theorem onClaimed_less (hdiscovery : Discovery a) (htokens : Tokens a) {token : Nat}
    {result : Result} {rest : List ToMain} (hinbox : a.toMain = .claimed token result :: rest)
    (alive : Bool) : Less (learn a.settings.mediaPorts (.claimed token result))
      (({ a with toMain := rest } : Allocator).onClaimed token result alive).settings.mediaPorts := by
  have hhead : ToMain.claimed token result ∈ a.toMain := by
    rw [hinbox]
    exact mem_cons_self
  unfold onClaimed
  split
  · next hmissing =>
    rw [(deliver_settings _ token none _ alive).1]
    intro slot
    cases hclaim : result.claim with
    | none =>
      rw [learn_refused hclaim]
      exact Or.inl rfl
    | some c =>
      have hcore := hdiscovery.granted token result hhead (by
        rw [hclaim]
        exact Option.some_ne_none c)
      exact absurd hmissing (hdiscovery.present hcore).1
  · split
    · next hnone =>
      rw [(deliver_settings _ token none _ alive).1, learn_refused hnone]
      exact skips_less _ a.settings result.skipped
    · next c hclaim =>
      rw [(deliver_settings _ token (some c) _ alive).1]
      intro slot
      have hgives : (ToMain.claimed token result).gives = some (token, c) := by
        change result.claim.map _ = _
        rw [hclaim]
        rfl
      obtain ⟨hpending, hobtained⟩ := htokens.gives _ hhead _ _ hgives
      have hwhose : ({ a with toMain := rest } : Allocator).whose token =
          ⟨c.purpose, c.slot⟩ := by
        unfold whose
        rw [hpending]
        rfl
      change (remember (({ a with toMain := rest } : Allocator).whose token) _ c).mediaPorts slot =
        _ ∨ (remember (({ a with toMain := rest } : Allocator).whose token) _ c).mediaPorts slot = 0
      rw [hwhose, remember_ports (htokens.ports c hobtained), learn_given hclaim]
      split
      · exact Or.inl rfl
      · exact skips_less _ a.settings result.skipped slot

theorem handle (h : Remembers a) (hdiscovery : Discovery a) (htokens : Tokens a) (alive : Bool) :
    Remembers (a.handle alive) := by
  unfold Allocator.handle
  split
  · exact h
  · next lan rest hinbox =>
    cases lan with
    | none => exact h.pops hinbox rfl rfl (Less.refl _)
    | some lan => exact h.pops hinbox rfl rfl (Less.refl _)
  · next token result rest hinbox =>
    obtain ⟨htoMain, hcore⟩ := onClaimed_frame { a with toMain := rest } token result alive
    exact h.pops hinbox htoMain hcore (onClaimed_less hdiscovery htokens hinbox alive)
  · next token claim why rest hinbox =>
    obtain ⟨hsettings, htoMain, hcore⟩ :=
      deliver_settings { a with toMain := rest } token claim why alive
    refine h.pops hinbox htoMain hcore ?_
    rw [hsettings]
    exact Less.refl _
  · next rest hinbox => exact h.pops hinbox rfl rfl (Less.refl _)
  · next l rest hinbox =>
    exact h.pops hinbox rfl rfl (forget_less { a with toMain := rest } l)
  · next l l' lost rest hinbox =>
    have hsound := h.sound
    have htells := h.tells
    rw [hinbox] at hsound htells
    have hless := forget_less { a with toMain := .renewed (l' :: lost) :: rest } l
    refine ⟨⟨?_, hsound.2.less hless⟩, fun c hc hmedia => ?_⟩
    · intro lost' heq l'' hl'' hmedia
      obtain rfl := ToMain.renewed.inj heq
      exact hless.within (hsound.1 _ rfl l'' (mem_cons_of_mem l hl'') hmedia)
    · exact (hless.foldl rest).within (htells c hc hmedia)

theorem work (h : Remembers a) (htokens : Tokens a) (hslots : Slots a) (found : Option String)
    (answers : Nat → (c : Call) → c.Answer) : Remembers (a.work found answers) := by
  have hother : ∀ lan mem, Fits mem (ToMain.discovered lan) :=
    fun lan mem => fits_of_other (by intro lost hno; cases hno) mem
  unfold Allocator.work
  split
  · exact h
  · next previousLan rest houtbox =>
    split
    · exact h.of_same rfl rfl fun _ => id
    · exact h.posts rfl rfl (fun _ => rfl) (hother _ _) fun _ => id
    · exact h.posts rfl rfl (fun _ => rfl) (hother _ _) fun c hc => absurd hc not_mem_nil
  · next token request rest houtbox =>
    split
    · exact h.posts rfl rfl (fun _ => rfl) (fits_of_other (by intro lost hno; cases hno) _) fun _ => id
    · next core hcore =>
      have hheld : a.coreHeld = core.held := by
        unfold coreHeld
        rw [hcore]
        rfl
      have hnone := hslots.none_held htokens houtbox
      have hgranted := (ends_claim core request).replay answers
      generalize (core.claim request).replay answers = r at hgranted
      refine ⟨h.sound.snoc (fits_of_other (by intro lost hno; cases hno) _), fun c hc hmedia => ?_⟩
      change c ∈ r.1.held at hc
      change (a.toMain ++ [ToMain.claimed token r.2]).foldl learn a.settings.mediaPorts c.slot = 0 ∨
        (a.toMain ++ [ToMain.claimed token r.2]).foldl learn a.settings.mediaPorts c.slot =
          c.external
      rw [foldl_append, foldl_cons, foldl_nil]
      rcases hgranted with ⟨hrefused, hsame⟩ | ⟨c', hclaim, hsame, hp, hs, _⟩
      · rw [hsame, ← hheld] at hc
        rw [learn_refused hrefused]
        exact h.tells c hc hmedia
      · rw [hsame] at hc
        rw [learn_given hclaim]
        rcases mem_append.mp hc with hold | hlast
        · rw [← hheld] at hold
          have hdiffers : ofSlot c.slot c' = false := by
            by_contra hno
            obtain ⟨hmedia', hslot'⟩ := ofSlot_iff.mp (by simpa using hno)
            have hzero := hnone (hp.symm.trans hmedia')
            rw [← hs, hslot'] at hzero
            exact absurd (ofSlot_iff.mpr ⟨hmedia, rfl⟩)
              (countP_eq_zero.mp hzero c hold)
          rw [hdiffers]
          exact h.tells c hold hmedia
        · rw [mem_singleton.mp hlast] at hmedia ⊢
          have hofSlot : ofSlot c'.slot c' = true := ofSlot_iff.mpr ⟨hmedia, rfl⟩
          by_cases hslot : 0 ≤ c'.slot
          · right
            rw [if_pos (by simp [hofSlot, hslot])]
          · left
            rw [if_neg (by simp [hslot])]
            exact learned_negative (by omega) (a.settings.noSlot _ (by omega)) a.toMain
  · next claim rest houtbox =>
    refine h.of_same rfl rfl fun c hc => ?_
    unfold coreHeld at hc ⊢
    cases hcore : a.core with
    | none =>
      rw [hcore] at hc
      exact hc
    | some core =>
      rw [hcore] at hc
      change c ∈ ((core.release claim).replay answers).held at hc
      rw [(ends_release core claim).replay answers] at hc
      exact (mem_filter.mp hc).1

theorem renew (h : Remembers a) (answers : Nat → (c : Call) → c.Answer) :
    Remembers (a.renew answers) := by
  unfold Allocator.renew
  split
  · exact h
  · next core hcore =>
    have hheld : a.coreHeld = core.held := by
      unfold coreHeld
      rw [hcore]
      rfl
    obtain ⟨hrenewed, hlost⟩ := (ends_renew core).replay answers
    generalize core.renew.replay answers = r at hrenewed hlost
    have hsub : ∀ c ∈ r.1.held, c ∈ a.coreHeld := by
      intro c hc
      rw [hrenewed] at hc
      rw [hheld]
      exact (mem_filter.mp hc).1
    by_cases hnone : r.2 = []
    · exact h.of_same rfl (if_pos hnone) hsub
    · refine h.posts rfl (if_neg hnone) (fun _ => rfl) (fun lost heq l hl hmedia => ?_) hsub
      obtain rfl := ToMain.renewed.inj heq
      exact h.tells l.claim (by rw [hheld]; exact hlost l hl) hmedia

theorem next (h : Remembers a) (hdiscovery : Discovery a) (htokens : Tokens a)
    (hslots : Slots a) (e : Event) : Remembers (a.next e) := by
  cases e with
  | ensureStarted enabled => exact h.ensureStarted enabled
  | discover lanOnly => exact h.discover lanOnly
  | claimTunnelPort enabled =>
    change Remembers (a.claimTunnelPort enabled)
    unfold claimTunnelPort
    split
    · exact (h.ensureStarted enabled).answerLater _ _ _ _
    · exact (h.ensureStarted enabled).of_same rfl rfl fun _ => id
  | claimMediaPort slot internalPort enabled =>
    change Remembers (a.claimMediaPort slot internalPort enabled)
    unfold claimMediaPort
    split
    · exact (h.ensureStarted enabled).answerLater _ _ _ _
    · split
      · exact (h.ensureStarted enabled).answerLater _ _ _ _
      · exact (h.ensureStarted enabled).of_same rfl rfl fun _ => id
  | releaseMediaPort slot =>
    change Remembers (a.releaseMediaPort slot)
    unfold releaseMediaPort
    split
    · exact h
    · exact h.of_same rfl rfl fun _ => id
  | handle alive => exact h.handle hdiscovery htokens alive
  | work found answers => exact h.work htokens hslots found answers
  | renew answers => exact h.renew answers

theorem initial (settings : AppSettings) : Remembers (initial settings) where
  sound := True.intro
  tells := fun _ hc => absurd hc not_mem_nil

end Remembers

structure Inv (a : Allocator) : Prop where
  discovery : Discovery a
  tokens : Tokens a
  slots : Slots a
  remembers : Remembers a

theorem Inv.initial (settings : AppSettings) : Inv (initial settings) :=
  ⟨.initial settings, .initial settings, .initial settings, .initial settings⟩

theorem Inv.next (h : Inv a) (e : Event) (hclean : a.Clean e (a.next e)) : Inv (a.next e) :=
  ⟨h.discovery.next e, h.tokens.next e, h.slots.next h.discovery h.tokens e hclean,
    h.remembers.next h.discovery h.tokens h.slots e⟩

theorem ensureStarted_frame (a : Allocator) (enabled : Bool) :
    (a.ensureStarted enabled).settings = a.settings ∧
      (a.ensureStarted enabled).called = a.called := by
  unfold ensureStarted
  split
  · exact ⟨rfl, rfl⟩
  · split <;> exact ⟨rfl, rfl⟩

theorem next_frame (a : Allocator) {e : Event} (he : ∀ alive, e ≠ .handle alive) :
    (a.next e).settings = a.settings ∧ (a.next e).called = a.called := by
  cases e with
  | ensureStarted enabled => exact ensureStarted_frame a enabled
  | discover lanOnly =>
    change (a.discover lanOnly).settings = _ ∧ (a.discover lanOnly).called = _
    unfold discover
    split
    · exact ⟨rfl, rfl⟩
    · split
      · exact ⟨rfl, rfl⟩
      · split <;> exact ⟨rfl, rfl⟩
  | claimTunnelPort enabled =>
    change (a.claimTunnelPort enabled).settings = _ ∧ (a.claimTunnelPort enabled).called = _
    unfold claimTunnelPort
    split <;> exact ensureStarted_frame a enabled
  | claimMediaPort slot internalPort enabled =>
    change (a.claimMediaPort slot internalPort enabled).settings = _ ∧
      (a.claimMediaPort slot internalPort enabled).called = _
    unfold claimMediaPort
    split
    · exact ensureStarted_frame a enabled
    · split <;> exact ensureStarted_frame a enabled
  | releaseMediaPort slot =>
    change (a.releaseMediaPort slot).settings = _ ∧ (a.releaseMediaPort slot).called = _
    unfold releaseMediaPort
    split <;> exact ⟨rfl, rfl⟩
  | handle alive => exact absurd rfl (he alive)
  | work found answers =>
    change (a.work found answers).settings = _ ∧ (a.work found answers).called = _
    unfold work
    split
    · exact ⟨rfl, rfl⟩
    · split <;> exact ⟨rfl, rfl⟩
    · split <;> exact ⟨rfl, rfl⟩
    · exact ⟨rfl, rfl⟩
  | renew answers =>
    change (a.renew answers).settings = _ ∧ (a.renew answers).called = _
    unfold renew
    split <;> exact ⟨rfl, rfl⟩

/-- A lost hole takes only its own port from what is remembered. -/
theorem lost_news {mem : Int → UInt16} {l : Lost} {lost : List Lost}
    (hfits : Fits mem (.renewed (l :: lost))) {slot : Int} (hport : mem slot ≠ 0)
    (hmedia : l.claim.purpose ≠ .tunnel) (hslot : slot = l.claim.slot) :
    l.claim.purpose = .media ∧ l.claim.slot = slot ∧ l.claim.external = mem slot := by
  have hpurpose : l.claim.purpose = .media := by
    cases hp : l.claim.purpose with
    | tunnel => exact absurd hp hmedia
    | media => rfl
  have hknown := hfits _ rfl l mem_cons_self hpurpose
  rw [← hslot] at hknown
  exact ⟨hpurpose, hslot.symm, (hknown.resolve_left hport).symm⟩

theorem onLost_forgets {b : Allocator} {l : Lost} {lost : List Lost} {slot : Int}
    (hfits : Fits b.settings.mediaPorts (.renewed (l :: lost)))
    (hport : b.settings.mediaPorts slot ≠ 0) (hgone : (b.onLost l).settings.mediaPorts slot = 0) :
    l.claim.purpose = .media ∧ l.claim.slot = slot ∧
      l.claim.external = b.settings.mediaPorts slot := by
  unfold onLost at hgone
  dsimp only at hgone
  split at hgone
  · exact absurd hgone hport
  · next hmedia =>
    change (if slot = l.claim.slot then 0 else b.settings.mediaPorts slot) = 0 at hgone
    by_cases hslot : slot = l.claim.slot
    · exact lost_news hfits hport hmedia hslot
    · rw [if_neg hslot] at hgone
      exact absurd hgone hport

/-- What an answer makes a slot forget is a port it passed over for the slot. -/
theorem onClaimed_forgets (htokens : Tokens a) {token : Nat} {result : Result}
    {rest : List ToMain} (hinbox : a.toMain = .claimed token result :: rest) {alive : Bool}
    {slot : Int} (hport : a.settings.mediaPorts slot ≠ 0)
    (hgone : (({ a with toMain := rest } : Allocator).onClaimed token result
      alive).settings.mediaPorts slot = 0) :
    a.pending token = some ⟨.media, slot⟩ ∧
      ∃ s ∈ result.skipped, s.reason ≠ .localBusy ∧ s.port = a.settings.mediaPorts slot := by
  have hhead : ToMain.claimed token result ∈ a.toMain := by
    rw [hinbox]
    exact mem_cons_self
  obtain ⟨p, hp⟩ := Option.ne_none_iff_exists'.mp
    (htokens.known token (Tokens.token_mem hhead rfl))
  have hwhose : ({ a with toMain := rest } : Allocator).whose token = p := by
    unfold whose
    rw [hp]
    rfl
  have hskips : ((({ a with toMain := rest } : Allocator).afterSkips token
      result).mediaPorts slot = 0) → a.pending token = some ⟨.media, slot⟩ ∧
      ∃ s ∈ result.skipped, s.reason ≠ .localBusy ∧ s.port = a.settings.mediaPorts slot := by
    intro hzero
    unfold afterSkips at hzero
    rw [hwhose] at hzero
    obtain ⟨hfits, hnews⟩ := skips_news hport hzero
    rw [hp, hfits]
    exact ⟨rfl, hnews⟩
  unfold onClaimed at hgone
  split at hgone
  · rw [(Remembers.deliver_settings _ token none _ alive).1] at hgone
    exact absurd hgone hport
  · split at hgone
    · rw [(Remembers.deliver_settings _ token none _ alive).1] at hgone
      exact hskips hgone
    · next c hclaim =>
      rw [(Remembers.deliver_settings _ token (some c) _ alive).1] at hgone
      have hgives : (ToMain.claimed token result).gives = some (token, c) := by
        change result.claim.map _ = _
        rw [hclaim]
        rfl
      obtain ⟨hpending, hobtained⟩ := htokens.gives _ hhead _ _ hgives
      rw [hp] at hpending
      rw [Option.some.inj hpending] at hwhose
      change (remember (({ a with toMain := rest } : Allocator).whose token) _ c).mediaPorts slot =
        0 at hgone
      rw [hwhose, remember_ports (htokens.ports c hobtained)] at hgone
      split at hgone
      · exact absurd hgone (htokens.ports c hobtained)
      · exact hskips hgone

/-- A slot's port is forgotten by news of that port. -/
theorem Inv.forgets (h : Inv a) (e : Event) (slot : Int)
    (hport : a.settings.rememberedMediaPort slot ≠ 0)
    (hgone : (a.next e).settings.rememberedMediaPort slot = 0) :
    a.News e slot (a.settings.rememberedMediaPort slot) := by
  by_cases he : ∃ alive, e = .handle alive
  · obtain ⟨alive, rfl⟩ := he
    refine ⟨⟨alive, rfl⟩, ?_⟩
    change (a.handle alive).settings.mediaPorts slot = 0 at hgone
    have hsound := h.remembers.sound
    unfold handle at hgone
    split at hgone
    · exact absurd hgone hport
    · next lan rest hinbox =>
      cases lan with
      | none => exact absurd hgone hport
      | some lan => exact absurd hgone hport
    · next token result rest hinbox =>
      obtain ⟨hpending, hnews⟩ := onClaimed_forgets h.tokens hinbox hport hgone
      exact Or.inl ⟨token, result, rest, hinbox, hpending, hnews⟩
    · next token claim why rest hinbox =>
      rw [(Remembers.deliver_settings _ token claim why alive).1] at hgone
      exact absurd hgone hport
    · exact absurd hgone hport
    · next l rest hinbox =>
      rw [hinbox] at hsound
      have hnews := onLost_forgets (b := { a with toMain := rest }) hsound.1 hport hgone
      exact Or.inr ⟨l, [], rest, hinbox, hnews⟩
    · next l l' lost rest hinbox =>
      rw [hinbox] at hsound
      have hnews := onLost_forgets (b := { a with toMain := .renewed (l' :: lost) :: rest })
        hsound.1 hport hgone
      exact Or.inr ⟨l, _, rest, hinbox, hnews⟩
  · have hsame := (a.next_frame fun alive heq => he ⟨alive, heq⟩).1
    rw [hsame] at hgone
    exact absurd hgone hport

theorem Inv.follows (h : Inv a) (e : Event) (hclean : a.Clean e (a.next e)) :
    a.Follows e (a.next e) := by
  have hnext := h.next e hclean
  refine ⟨fun hdown hup => ?_, fun slot => ?_, h.forgets e, hnext.tokens.once, fun hcall => ?_,
    hnext.tokens.own⟩
  · have hagree := hnext.slots.agree
    rw [hdown, hup] at hagree
    exact hagree.rest
  · rw [← countP_eq_length_filter, ← countP_eq_length_filter]
    have hload := hnext.slots.load slot
    exact ⟨by omega, hnext.slots.single slot⟩
  · refine (a.next_frame fun alive heq => ?_).2
    rw [heq] at hcall
    cases hcall

end Allocator

/-- Along every run that asks for a slot only once at a time, the allocator follows its
worker and calls its callbacks as it should. -/
theorem follows_along (settings : AppSettings) (labels : List Event)
    (hclean : EachStep (handles next) Clean (initial settings) labels) :
    EachStep (handles next) Follows (initial settings) labels := by
  intro visited e rest a a' hl hrun hstep
  have hinv : a.Inv := by
    refine (hclean.take hl).invariant ?_ (Inv.initial settings) hrun
    rintro b e _ h rfl hkept
    exact h.next e hkept
  have hkept := hclean visited e rest a a' hl hrun hstep
  obtain rfl := hstep
  exact hinv.follows e hkept

def blank : AppSettings := ⟨"", [], fun _ => 0, fun _ _ => rfl⟩

def willing (_ : Nat) (c : Call) : c.Answer := c.answer "192.168.1.10" (fun _ => none) true

/-- A slot's port is claimed, and the answer is handled. -/
def oneClaim : List Event :=
  [.claimMediaPort 0 48010 true, .work (some "192.168.1.10") willing, .work none willing,
    .handle true, .handle true]

theorem follows_along_oneClaim :
    EachStep (handles next) Follows (initial blank) oneClaim := by
  refine follows_along blank oneClaim ?_
  refine EachStep.cons fun a ha => ⟨fun _ _ => ?_, ?_⟩
  · rintro (⟨_, _, hno, _⟩ | ⟨_, _, hno, _⟩)
    · exact absurd hno List.not_mem_nil
    · exact absurd hno List.not_mem_nil
  obtain rfl := ha
  refine EachStep.cons fun a ha => ⟨trivial, ?_⟩
  obtain rfl := ha
  refine EachStep.cons fun a ha => ⟨trivial, ?_⟩
  obtain rfl := ha
  refine EachStep.cons fun a ha => ⟨trivial, ?_⟩
  obtain rfl := ha
  exact EachStep.cons fun a ha => ⟨trivial, EachStep.nil⟩

/-- A slot is asked for a second time while the router is still being asked. -/
def twoClaims : List Event :=
  [.claimMediaPort 0 48010 true, .claimMediaPort 0 48010 true,
    .work (some "192.168.1.10") willing, .work none willing, .work none willing,
    .handle true, .handle true]

/-- The slot then has two ports. -/
theorem two_ports_of_one_slot :
    ¬ ∀ (settings : AppSettings) (labels : List Event),
      EachStep (handles next) Follows (initial settings) labels := by
  intro hall
  have hrun : Run (handles next) (initial blank) twoClaims _ :=
    (run_handles_iff _ _ _ _).mpr rfl
  have hfollows := hall blank (twoClaims ++ [.handle true]) twoClaims (.handle true) [] _ _ rfl
    hrun rfl
  have hsingle := (hfollows.single 0).1
  revert hsingle
  decide +kernel

end MoonlightWeb.Network.RouterPortAllocator
