import MoonlightWeb.Network.RouterPortResults

/-! # The messages of the allocator

One discovery is under way at a time, and no claim is given before one succeeded. Every
callback waits for one message, and that message is for its own purpose and slot.
-/

namespace MoonlightWeb.Network.RouterPortAllocator

open Lib RouterPortCore ToMain Allocator Function List Option

def ToWorker.isStart : ToWorker → Bool
  | .start _ => true
  | _ => false

def ToMain.isDiscovered : ToMain → Bool
  | .discovered _ => true
  | _ => false

namespace Allocator

variable {a : Allocator}

/-- One discovery is under way at a time, and no claim is given before one succeeded. -/
structure Discovery (a : Allocator) : Prop where
  asked : a.toWorker.countP ToWorker.isStart + a.toMain.countP isDiscovered =
    if a.state = .discovering then 1 else 0
  found : a.core ≠ none → a.state = .ready ∨ ∃ lan, discovered (some lan) ∈ a.toMain
  granted : ∀ token result, claimed token result ∈ a.toMain → result.claim ≠ none →
    a.core ≠ none

namespace Discovery

theorem countP_pos {α : Type} {p : α → Bool} {l : List α} {m : α} (hm : m ∈ l) (hp : p m = true) :
    0 < l.countP p := countP_pos_iff.mpr ⟨m, hm, hp⟩

variable (h : Discovery a)

include h

/-- Once a gateway was found it is not missing. -/
theorem present (hcore : a.core ≠ none) : a.state ≠ .missing ∧
    a.state ≠ .unknown := by
  rcases h.found hcore with hready | ⟨lan, hmem⟩
  · rw [hready]
    exact ⟨(fun hno => nomatch hno), fun hno => nomatch hno⟩
  · have hcount := h.asked
    have hpos := countP_pos (p := isDiscovered) hmem rfl
    split at hcount
    · next hstate =>
        rw [hstate]
        exact ⟨(fun hno => nomatch hno), fun hno => nomatch hno⟩
    · omega

/-- Messages that are no discovery change nothing here. -/
theorem of_posts {a' : Allocator} (hstate : a'.state = a.state)
    (hcore : a'.core ≠ none ↔ a.core ≠ none)
    (hstarts : a'.toWorker.countP ToWorker.isStart = a.toWorker.countP ToWorker.isStart)
    (hfounds : a'.toMain.countP isDiscovered = a.toMain.countP isDiscovered)
    (hstays : ∀ lan, discovered (some lan) ∈ a.toMain →
      discovered (some lan) ∈ a'.toMain)
    (hgranted : ∀ token result, claimed token result ∈ a'.toMain → result.claim ≠ none →
      a'.core ≠ none) : Discovery a' where
  asked := by
    rw [hstarts, hfounds, hstate]
    exact h.asked
  found := by
    intro hsome
    rw [hstate]
    exact (h.found (hcore.mp hsome)).imp_right fun ⟨lan, hmem⟩ => ⟨lan, hstays lan hmem⟩
  granted := hgranted

/-- A discovery is asked for where none is under way and no gateway is known. -/
theorem startWorker (hstate : a.state = .unknown ∨ a.state = .missing) :
    Discovery a.startWorker where
  asked := by
    have hcount := h.asked
    rw [if_neg (by rcases hstate with hs | hs <;> rw [hs] <;> exact fun hno => nomatch hno)]
      at hcount
    have hone : ∀ lan, [ToWorker.start lan].countP ToWorker.isStart = 1 := fun lan => rfl
    change (a.toWorker ++ [ToWorker.start _]).countP _ + _ = 1
    rw [countP_append, hone]
    change _ + a.toMain.countP _ = 1
    omega
  found := by
    intro hcore
    have hpresent := h.present hcore
    rcases hstate with hs | hs
    · exact absurd hs hpresent.2
    · exact absurd hs hpresent.1
  granted := h.granted

theorem ensureStarted (enabled : Bool) : Discovery (a.ensureStarted enabled) := by
  unfold Allocator.ensureStarted
  split
  · exact h
  · next hstate =>
    split
    · exact h
    · exact h.startWorker (Or.inl (by simpa using hstate))

theorem discover (lanOnly : Bool) : Discovery (a.discover lanOnly) := by
  unfold Allocator.discover
  split
  · exact h
  · split
    · next hstate => exact h.startWorker (Or.inl hstate)
    · split
      · exact h
      · next hstate => exact h.startWorker (Or.inr (by simpa using hstate))

theorem submit (request : Request) : Discovery (a.submit request) :=
  h.of_posts rfl Iff.rfl (by simp [Allocator.submit, ToWorker.isStart]) rfl (fun _ => id) h.granted

theorem answerLater (purpose : Purpose) (slot : Int) (claim : Option Claim)
    (why : String) : Discovery (a.answerLater purpose slot claim why) := by
  refine h.of_posts rfl Iff.rfl rfl (by simp [Allocator.answerLater, isDiscovered])
    (fun lan hmem => mem_append_left _ hmem) fun token result hmem hclaim => ?_
  rcases mem_append.mp hmem with hold | hlast
  · exact h.granted token result hold hclaim
  · cases mem_singleton.mp hlast

theorem releaseMediaPort (slot : Int) :
    Discovery (a.releaseMediaPort slot) := by
  unfold Allocator.releaseMediaPort
  split
  · exact h
  · exact h.of_posts rfl Iff.rfl (by simp [ToWorker.isStart]) rfl (fun _ => id) h.granted

omit h

end Discovery

def withBooks (a : Allocator) (settings : AppSettings) (held : List Claim)
    (pending : Nat → Option Pending) (called : List Called) : Allocator :=
  { a with settings := settings, held := held, pending := pending, called := called }

theorem deliver_books (a : Allocator) (token : Nat) (claim : Option Claim) (why : String)
    (alive : Bool) : ∃ pending called,
      a.deliver token claim why alive = a.withBooks a.settings a.held pending called := by
  unfold deliver
  split
  · exact ⟨a.pending, a.called, rfl⟩
  · exact ⟨_, _, rfl⟩

theorem onClaimed_books (a : Allocator) (token : Nat) (result : Result) (alive : Bool) :
    ∃ settings held pending called,
      a.onClaimed token result alive = a.withBooks settings held pending called := by
  unfold onClaimed
  split
  · obtain ⟨pending, called, heq⟩ := a.deliver_books token none "no IGD" alive
    exact ⟨_, _, pending, called, heq⟩
  · split
    · obtain ⟨pending, called, heq⟩ := deliver_books { a with settings := a.afterSkips token result }
        token none "no router port left" alive
      exact ⟨_, _, pending, called, heq⟩
    · next claim _ =>
      obtain ⟨pending, called, heq⟩ := deliver_books
        { a with
          settings := remember (a.whose token) (a.afterSkips token result) claim
          held := a.held ++ [claim] } token (some claim) "" alive
      exact ⟨_, _, pending, called, heq⟩

namespace Discovery

variable (h : Discovery a)

include h

/-- A message other than a discovery is handled. -/
theorem pops {m : ToMain} {rest inbox : List ToMain}
    (hinbox : a.toMain = m :: rest) (hm : m.isDiscovered = false)
    (hrest : inbox = rest ∨ ∃ lost, inbox = .renewed lost :: rest) (settings : AppSettings)
    (held : List Claim) (pending : Nat → Option Pending) (called : List Called) :
    Discovery (({ a with toMain := inbox } : Allocator).withBooks settings held pending called) := by
  have hcount : inbox.countP isDiscovered = a.toMain.countP isDiscovered := by
    rw [hinbox, countP_cons_of_neg (by simp [hm])]
    rcases hrest with rfl | ⟨lost, rfl⟩
    · rfl
    · rw [countP_cons_of_neg (by simp [isDiscovered])]
  have hmem : ∀ m' ∈ rest, m' ∈ inbox := by
    intro m' hm'
    rcases hrest with rfl | ⟨lost, rfl⟩
    · exact hm'
    · exact mem_cons_of_mem _ hm'
  refine h.of_posts rfl Iff.rfl rfl hcount (fun lan hlan => ?_) fun token result hin hclaim => ?_
  · rw [hinbox] at hlan
    rcases mem_cons.mp hlan with rfl | hlater
    · cases hm
    · exact hmem _ hlater
  · have hold : claimed token result ∈ a.toMain := by
      rw [hinbox]
      refine mem_cons_of_mem _ ?_
      rcases hrest with rfl | ⟨lost, rfl⟩
      · exact hin
      · rcases mem_cons.mp hin with hno | hlater
        · cases hno
        · exact hlater
    exact h.granted token result hold hclaim

theorem handle (alive : Bool) : Discovery (a.handle alive) := by
  unfold Allocator.handle
  split
  · exact h
  · next lan rest hinbox =>
    have hcount := h.asked
    rw [hinbox, countP_cons_of_pos rfl] at hcount
    have hdiscovering : a.state = .discovering := by
      by_contra hno
      rw [if_neg hno] at hcount
      omega
    rw [if_pos hdiscovering] at hcount
    have hgranted : ∀ token result, claimed token result ∈ rest → result.claim ≠ none →
        a.core ≠ none := by
      intro token result hmem
      exact h.granted token result (by rw [hinbox]; exact mem_cons_of_mem _ hmem)
    cases lan with
    | none =>
      refine ⟨?_, fun hcore => ?_, hgranted⟩
      · change a.toWorker.countP _ + rest.countP _ = 0
        omega
      · exfalso
        rcases h.found hcore with hready | ⟨lan, hmem⟩
        · rw [hdiscovering] at hready
          cases hready
        · rw [hinbox] at hmem
          rcases mem_cons.mp hmem with hno | hlater
          · cases hno
          · have hpos := countP_pos (p := isDiscovered) hlater rfl
            omega
    | some lan =>
      refine ⟨?_, fun _ => Or.inl rfl, hgranted⟩
      change a.toWorker.countP _ + rest.countP _ = 0
      omega
  · next token result rest hinbox =>
    obtain ⟨settings, held, pending, called, heq⟩ :=
      onClaimed_books { a with toMain := rest } token result alive
    rw [heq]
    exact h.pops hinbox rfl (Or.inl rfl) settings held pending called
  · next token claim why rest hinbox =>
    obtain ⟨pending, called, heq⟩ := deliver_books { a with toMain := rest } token claim why alive
    rw [heq]
    exact h.pops hinbox rfl (Or.inl rfl) _ _ pending called
  · next rest hinbox => exact h.pops hinbox rfl (Or.inl rfl) _ _ _ _
  · next l rest hinbox => exact h.pops hinbox rfl (Or.inl rfl) _ _ _ _
  · next l l' lost rest hinbox => exact h.pops hinbox rfl (Or.inr ⟨_, rfl⟩) _ _ _ _

theorem work (found : Option String)
    (answers : Nat → (c : Call) → c.Answer) : Discovery (a.work found answers) := by
  have hposted : ∀ {m : ToMain} (token : Nat) (result : Result), m.isDiscovered = true →
      claimed token result ∈ a.toMain ++ [m] → claimed token result ∈ a.toMain := by
    intro m token result hm hmem
    rcases mem_append.mp hmem with hold | hlast
    · exact hold
    · rw [← mem_singleton.mp hlast] at hm
      cases hm
  unfold Allocator.work
  split
  · exact h
  · next previousLan rest houtbox =>
    have hcount := h.asked
    rw [houtbox, countP_cons_of_pos rfl] at hcount
    have hdiscovering : a.state = .discovering := by
      by_contra hno
      rw [if_neg hno] at hcount
      omega
    rw [if_pos hdiscovering] at hcount
    have hone : ∀ lan, [discovered lan].countP isDiscovered = 1 := fun lan => rfl
    split
    · next hcore =>
      -- a gateway is known, so no discovery is under way
      exfalso
      have hsome : a.core ≠ none := by
        rw [hcore]
        exact some_ne_none _
      rcases h.found hsome with hready | ⟨lan, hmem⟩
      · rw [hdiscovering] at hready
        cases hready
      · have hpos := countP_pos (p := isDiscovered) hmem rfl
        omega
    · next hcore =>
      refine ⟨?_, fun hsome => absurd hcore hsome, fun token result hmem => ?_⟩
      · change rest.countP _ + (a.toMain ++ [discovered none]).countP _ =
          if a.state = .discovering then 1 else 0
        rw [if_pos hdiscovering, countP_append, hone]
        omega
      · exact h.granted token result (hposted token result rfl hmem)
    · next lan hcore =>
      refine ⟨?_, fun _ => Or.inr ⟨lan, ?_⟩, fun _ _ _ _ => some_ne_none _⟩
      · change rest.countP _ + (a.toMain ++ [discovered (some lan)]).countP _ =
          if a.state = .discovering then 1 else 0
        rw [if_pos hdiscovering, countP_append, hone]
        omega
      · exact mem_append_right _ (mem_singleton.mpr rfl)
  · next token request rest houtbox =>
    have hstarts : rest.countP ToWorker.isStart = a.toWorker.countP ToWorker.isStart := by
      rw [houtbox, countP_cons_of_neg (by simp [ToWorker.isStart])]
    split
    · next hcore =>
      refine h.of_posts rfl Iff.rfl hstarts (by simp [isDiscovered])
        (fun lan hmem => mem_append_left _ hmem) fun token' result hmem hclaim => ?_
      rcases mem_append.mp hmem with hold | hlast
      · exact h.granted token' result hold hclaim
      · cases mem_singleton.mp hlast
        exact absurd rfl hclaim
    · next core hcore =>
      refine h.of_posts rfl ?_ hstarts (by simp [isDiscovered])
        (fun lan hmem => mem_append_left _ hmem) fun _ _ _ _ => some_ne_none _
      simp [hcore]
  · next claim rest houtbox =>
    have hstarts : rest.countP ToWorker.isStart = a.toWorker.countP ToWorker.isStart := by
      rw [houtbox, countP_cons_of_neg (by simp [ToWorker.isStart])]
    have hcore : a.core.map (fun core => (core.release claim).replay answers) ≠ none ↔
        a.core ≠ none := by simp
    exact h.of_posts rfl hcore hstarts rfl (fun _ => id)
      fun token result hmem hclaim => hcore.mpr (h.granted token result hmem hclaim)

theorem renew (answers : Nat → (c : Call) → c.Answer) :
    Discovery (a.renew answers) := by
  unfold Allocator.renew
  split
  · exact h
  · next core hcore =>
    refine h.of_posts rfl (by simp [hcore]) rfl ?_ (fun lan hmem => ?_)
      fun _ _ _ _ => some_ne_none _
    · dsimp only
      split
      · rfl
      · simp [isDiscovered]
    · dsimp only
      split
      · exact hmem
      · exact mem_append_left _ hmem

theorem next (e : Event) : Discovery (a.next e) := by
  cases e with
  | ensureStarted enabled => exact h.ensureStarted enabled
  | discover lanOnly => exact h.discover lanOnly
  | claimTunnelPort enabled =>
    change Discovery (a.claimTunnelPort enabled)
    unfold claimTunnelPort
    split
    · exact (h.ensureStarted enabled).answerLater _ _ _ _
    · exact (h.ensureStarted enabled).submit _
  | claimMediaPort slot internalPort enabled =>
    change Discovery (a.claimMediaPort slot internalPort enabled)
    unfold claimMediaPort
    split
    · exact (h.ensureStarted enabled).answerLater _ _ _ _
    · split
      · exact (h.ensureStarted enabled).answerLater _ _ _ _
      · exact (h.ensureStarted enabled).submit _
  | releaseMediaPort slot => exact h.releaseMediaPort slot
  | handle alive => exact h.handle alive
  | work found answers => exact h.work found answers
  | renew answers => exact h.renew answers

omit h

theorem initial (settings : AppSettings) : Discovery (initial settings) where
  asked := rfl
  found := fun hcore => absurd rfl hcore
  granted := fun _ _ hmem => absurd hmem not_mem_nil

end Discovery

end Allocator

def ToWorker.token : ToWorker → Option Nat
  | .claim token _ => some token
  | _ => none

def ToMain.token : ToMain → Option Nat
  | .claimed token _ => some token
  | .answer token _ _ => some token
  | _ => none

def ToMain.gives : ToMain → Option (Nat × Claim)
  | .claimed token result => result.claim.map fun c => (token, c)
  | .answer token claim _ => claim.map fun c => (token, c)
  | _ => none

theorem ToMain.token_of_gives {m : ToMain} {token : Nat} {c : Claim}
    (h : m.gives = some (token, c)) : m.token = some token := by
  cases m with
  | discovered lan => cases h
  | claimed t result =>
    obtain ⟨c', _, heq⟩ := map_eq_some_iff.mp h
    exact congrArg some (Prod.mk.inj heq).1
  | renewed lost => cases h
  | answer t claim why =>
    obtain ⟨c', _, heq⟩ := map_eq_some_iff.mp h
    exact congrArg some (Prod.mk.inj heq).1

namespace Allocator

variable {a : Allocator}

/-- The callbacks that a message is under way for. -/
def tokens (a : Allocator) : List Nat :=
  a.toWorker.filterMap ToWorker.token ++ a.toMain.filterMap token

/-- Every callback waits for one message and is called with it, for its own purpose and slot. -/
structure Tokens (a : Allocator) : Prop where
  nodup : a.tokens.Nodup
  known : ∀ t ∈ a.tokens, a.pending t ≠ none
  fresh : ∀ t, a.nextToken ≤ t → a.pending t = none
  past : ∀ call ∈ a.called, call.token < a.nextToken ∧ a.pending call.token = none
  once : (a.called.map Called.token).Nodup
  claims : ∀ t request, ToWorker.claim t request ∈ a.toWorker →
    a.pending t = some ⟨request.purpose, request.slot⟩
  gives : ∀ m ∈ a.toMain, ∀ t c, m.gives = some (t, c) →
    a.pending t = some ⟨c.purpose, c.slot⟩ ∧ c ∈ a.obtained
  held : ∀ c ∈ a.held, c ∈ a.obtained
  ports : ∀ c ∈ a.obtained, c.external ≠ 0
  own : ∀ call ∈ a.called, ∀ c, call.claim = some c →
    c ∈ a.obtained ∧ c.purpose = call.pending.purpose ∧ c.slot = call.pending.slot

namespace Tokens

theorem token_mem {m : ToMain} {t : Nat} (hm : m ∈ a.toMain) (ht : m.token = some t) :
    t ∈ a.tokens :=
  mem_append_right _ (mem_filterMap.mpr ⟨m, hm, ht⟩)

theorem claim_mem {t : Nat} {request : Request} (hm : ToWorker.claim t request ∈ a.toWorker) :
    t ∈ a.tokens :=
  mem_append_left _ (mem_filterMap.mpr ⟨_, hm, rfl⟩)

variable (h : Tokens a)

include h

theorem before {t : Nat} (ht : t ∈ a.tokens) : t < a.nextToken := by
  by_contra hno
  exact h.known t ht (h.fresh t (by omega))

/-- Messages move on and holes come and go; no callback is given or called. -/
theorem of_posts {a' : Allocator} (hpending : a'.pending = a.pending)
    (hnext : a'.nextToken = a.nextToken) (hcalled : a'.called = a.called)
    (hobtained : ∀ c ∈ a.obtained, c ∈ a'.obtained) (hports : ∀ c ∈ a'.obtained, c.external ≠ 0)
    (htokens : a'.tokens.Perm a.tokens)
    (hclaims : ∀ t request, ToWorker.claim t request ∈ a'.toWorker →
      ToWorker.claim t request ∈ a.toWorker)
    (hgives : ∀ m ∈ a'.toMain, ∀ t c, m.gives = some (t, c) →
      m ∈ a.toMain ∨ (a.pending t = some ⟨c.purpose, c.slot⟩ ∧ c ∈ a'.obtained))
    (hheld : ∀ c ∈ a'.held, c ∈ a.held) : Tokens a' where
  nodup := htokens.nodup_iff.mpr h.nodup
  known := by
    intro t ht
    rw [hpending]
    exact h.known t (htokens.mem_iff.mp ht)
  fresh := by
    rw [hpending, hnext]
    exact h.fresh
  past := by
    rw [hpending, hnext, hcalled]
    exact h.past
  once := by
    rw [hcalled]
    exact h.once
  claims := by
    intro t request hmem
    rw [hpending]
    exact h.claims t request (hclaims t request hmem)
  gives := by
    intro m hm t c hc
    rw [hpending]
    rcases hgives m hm t c hc with hold | hnew
    · have hbefore := h.gives m hold t c hc
      exact ⟨hbefore.1, hobtained c hbefore.2⟩
    · exact hnew
  held := fun c hc => hobtained c (h.held c (hheld c hc))
  ports := hports
  own := by
    intro call hcall c hc
    rw [hcalled] at hcall
    have hbefore := h.own call hcall c hc
    exact ⟨hobtained c hbefore.1, hbefore.2⟩

/-- A callback is given, and a message posted for it. -/
theorem asks {a' : Allocator} (p : Pending)
    (hpending : a'.pending = update a.pending a.nextToken (some p))
    (hnext : a'.nextToken = a.nextToken + 1) (hcalled : a'.called = a.called)
    (hobtained : a'.obtained = a.obtained) (hheld : a'.held = a.held)
    (htokens : a'.tokens.Perm (a.nextToken :: a.tokens))
    (hclaims : ∀ t request, ToWorker.claim t request ∈ a'.toWorker →
      ToWorker.claim t request ∈ a.toWorker ∨
        (t = a.nextToken ∧ p = ⟨request.purpose, request.slot⟩))
    (hgives : ∀ m ∈ a'.toMain, ∀ t c, m.gives = some (t, c) →
      m ∈ a.toMain ∨ (t = a.nextToken ∧ p = ⟨c.purpose, c.slot⟩ ∧ c ∈ a.obtained)) :
    Tokens a' := by
  have hself : a'.pending a.nextToken = some p := by rw [hpending, update_self]
  have hother : ∀ t, t < a.nextToken → a'.pending t = a.pending t := by
    intro t ht
    rw [hpending, update_of_ne (by omega)]
  constructor
  · refine htokens.nodup_iff.mpr (nodup_cons.mpr ⟨fun hmem => ?_, h.nodup⟩)
    exact absurd (h.before hmem) (Nat.lt_irrefl _)
  · intro t ht
    rcases mem_cons.mp (htokens.mem_iff.mp ht) with rfl | hold
    · rw [hself]
      exact some_ne_none p
    · rw [hother t (h.before hold)]
      exact h.known t hold
  · intro t ht
    rw [hnext] at ht
    rw [hpending, update_of_ne (by omega)]
    exact h.fresh t (by omega)
  · intro call hcall
    rw [hcalled] at hcall
    have hbefore := h.past call hcall
    rw [hnext, hother _ hbefore.1]
    exact ⟨by omega, hbefore.2⟩
  · rw [hcalled]
    exact h.once
  · intro t request hmem
    rcases hclaims t request hmem with hold | ⟨rfl, rfl⟩
    · rw [hother t (h.before (claim_mem hold))]
      exact h.claims t request hold
    · exact hself
  · intro m hm t c hc
    rw [hobtained]
    rcases hgives m hm t c hc with hold | ⟨rfl, rfl, hin⟩
    · rw [hother t (h.before (token_mem hold (token_of_gives hc)))]
      exact h.gives m hold t c hc
    · exact ⟨hself, hin⟩
  · rw [hheld, hobtained]
    exact h.held
  · rw [hobtained]
    exact h.ports
  · rw [hcalled, hobtained]
    exact h.own

theorem startWorker : Tokens a.startWorker := by
  refine h.of_posts rfl rfl rfl (fun _ => id) h.ports ?_ (fun t request hmem => ?_)
    (fun m hm _ _ _ => Or.inl hm) fun _ => id
  · have hnone : [ToWorker.start a.settings.routerLanIp].filterMap ToWorker.token = [] := rfl
    simp [tokens, Allocator.startWorker, hnone]
  · rcases mem_append.mp hmem with hold | hlast
    · exact hold
    · cases mem_singleton.mp hlast

theorem ensureStarted (enabled : Bool) : Tokens (a.ensureStarted enabled) := by
  unfold Allocator.ensureStarted
  split
  · exact h
  · split
    · exact h
    · exact h.startWorker

theorem discover (lanOnly : Bool) : Tokens (a.discover lanOnly) := by
  unfold Allocator.discover
  split
  · exact h
  · split
    · exact h.startWorker
    · split
      · exact h
      · exact h.startWorker

theorem submit (request : Request) : Tokens (a.submit request) := by
  refine h.asks _ rfl rfl rfl rfl rfl ?_ (fun t request' hmem => ?_) fun m hm _ _ _ => Or.inl hm
  · have heq : (a.submit request).tokens = a.toWorker.filterMap ToWorker.token ++
        a.nextToken :: a.toMain.filterMap token := by
      simp [tokens, Allocator.submit, ToWorker.token]
    rw [heq]
    exact perm_middle
  · rcases mem_append.mp hmem with hold | hlast
    · exact Or.inl hold
    · cases mem_singleton.mp hlast
      exact Or.inr ⟨rfl, rfl⟩

theorem answerLater (purpose : Purpose) (slot : Int) {claim : Option Claim}
    (why : String) (hclaim : ∀ c, claim = some c → c ∈ a.held ∧ c.purpose = purpose ∧ c.slot = slot) :
    Tokens (a.answerLater purpose slot claim why) := by
  refine h.asks _ rfl rfl rfl rfl rfl ?_ (fun _ _ => Or.inl) fun m hm t c hc => ?_
  · have heq : (a.answerLater purpose slot claim why).tokens = a.tokens ++ [a.nextToken] := by
      simp [tokens, Allocator.answerLater, token]
    rw [heq]
    exact perm_append_singleton _ _
  · rcases mem_append.mp hm with hold | hlast
    · exact Or.inl hold
    · rw [mem_singleton.mp hlast] at hc
      obtain ⟨c', hc', heq⟩ := map_eq_some_iff.mp hc
      obtain ⟨rfl, rfl⟩ := Prod.mk.inj heq
      obtain ⟨hmem, hpurpose, hslot⟩ := hclaim _ hc'
      refine Or.inr ⟨rfl, ?_, h.held _ hmem⟩
      rw [hpurpose, hslot]

omit h

theorem mem_removeAll {held : List Claim} {claim c : Claim} (h : c ∈ removeAll held claim) :
    c ∈ held := (mem_filter.mp h).1

variable (h : Tokens a)

include h

theorem releaseMediaPort (slot : Int) : Tokens (a.releaseMediaPort slot) := by
  unfold Allocator.releaseMediaPort
  split
  · exact h
  · next claim _ =>
    refine h.of_posts rfl rfl rfl (fun _ => id) h.ports ?_ (fun t request hmem => ?_)
      (fun m hm _ _ _ => Or.inl hm) fun _ => mem_removeAll
    · have hnone : [ToWorker.release claim].filterMap ToWorker.token = [] := rfl
      simp [tokens, hnone]
    · rcases mem_append.mp hmem with hold | hlast
      · exact hold
      · cases mem_singleton.mp hlast

/-- A callback is called with what its message brings. -/
theorem deliver {m : ToMain} {rest : List ToMain} (hinbox : a.toMain = m :: rest)
    {token : Nat} (htoken : m.token = some token) {claim : Option Claim}
    (hclaim : ∀ c, claim = some c → m.gives = some (token, c)) (why : String) (alive : Bool)
    (settings : AppSettings) (held : List Claim) (hheld : ∀ c ∈ held, c ∈ a.obtained) :
    Tokens ((({ a with toMain := rest } : Allocator).withBooks settings held a.pending
      a.called).deliver token claim why alive) := by
  have hhead : m ∈ a.toMain := by
    rw [hinbox]
    exact mem_cons_self
  have hperm : a.tokens.Perm (token :: (a.toWorker.filterMap ToWorker.token ++
      rest.filterMap ToMain.token)) := by
    have heq : a.tokens = a.toWorker.filterMap ToWorker.token ++
        token :: rest.filterMap ToMain.token := by
      rw [tokens, hinbox, filterMap_cons_some htoken]
    rw [heq]
    exact perm_middle
  have hnodup := nodup_cons.mp (hperm.nodup_iff.mp h.nodup)
  obtain ⟨p, hp⟩ := ne_none_iff_exists'.mp (h.known token (token_mem hhead htoken))
  have hdeliver : (({ a with toMain := rest } : Allocator).withBooks settings held a.pending
      a.called).deliver token claim why alive =
      ({ a with toMain := rest } : Allocator).withBooks settings held
        (update a.pending token none)
        (if alive then a.called ++ [⟨token, p, claim, why⟩] else a.called) := by
    unfold Allocator.deliver
    have hpending : (({ a with toMain := rest } : Allocator).withBooks settings held a.pending
      a.called).pending token = some p := hp
    rw [hpending]
    rfl
  rw [hdeliver]
  have hother : ∀ t, t ≠ token → update a.pending token none t = a.pending t :=
    fun t ht => update_of_ne ht _ _
  have hcalls : ∀ call ∈ (if alive then a.called ++ [⟨token, p, claim, why⟩] else a.called),
      call ∈ a.called ∨ call = ⟨token, p, claim, why⟩ := by
    intro call hcall
    split at hcall
    · exact (mem_append.mp hcall).imp_right mem_singleton.mp
    · exact Or.inl hcall
  have hnew : ∀ call ∈ a.called, call.token ≠ token := by
    intro call hcall heq
    have hgone := (h.past call hcall).2
    rw [heq, hp] at hgone
    cases hgone
  constructor
  · exact hnodup.2
  · intro t ht
    change update a.pending token none t ≠ none
    rw [hother t fun heq => hnodup.1 (heq ▸ ht)]
    exact h.known t (hperm.mem_iff.mpr (mem_cons_of_mem _ ht))
  · intro t ht
    change update a.pending token none t = none
    by_cases heq : t = token
    · rw [heq, update_self]
    · rw [hother t heq]
      exact h.fresh t ht
  · intro call hcall
    change _ ∧ update a.pending token none call.token = none
    rcases hcalls call hcall with hold | rfl
    · rw [hother _ (hnew call hold)]
      exact h.past call hold
    · exact ⟨h.before (token_mem hhead htoken), update_self _ _ _⟩
  · change List.Nodup (List.map Called.token
      (if alive then a.called ++ [⟨token, p, claim, why⟩] else a.called))
    split
    · rw [map_append, nodup_append]
      refine ⟨h.once, nodup_singleton _, fun t ht t' ht' heq => ?_⟩
      obtain ⟨call, hcall, rfl⟩ := mem_map.mp ht
      exact hnew call hcall (heq.trans (mem_singleton.mp ht'))
    · exact h.once
  · intro t request hmem
    have hin : t ∈ a.toWorker.filterMap ToWorker.token ++ rest.filterMap ToMain.token :=
      mem_append_left _ (mem_filterMap.mpr ⟨_, hmem, rfl⟩)
    change update a.pending token none t = _
    rw [hother t fun heq => hnodup.1 (heq ▸ hin)]
    exact h.claims t request hmem
  · intro m' hm' t c hc
    have hin : t ∈ a.toWorker.filterMap ToWorker.token ++ rest.filterMap ToMain.token :=
      mem_append_right _ (mem_filterMap.mpr ⟨m', hm', ToMain.token_of_gives hc⟩)
    change update a.pending token none t = _ ∧ _
    rw [hother t fun heq => hnodup.1 (heq ▸ hin)]
    exact h.gives m' (by rw [hinbox]; exact mem_cons_of_mem _ hm') t c hc
  · exact hheld
  · exact h.ports
  · intro call hcall c hc
    rcases hcalls call hcall with hold | rfl
    · exact h.own call hold c hc
    · have hbrings := h.gives m hhead token c (hclaim c hc)
      rw [hp] at hbrings
      have hfits := Option.some.inj hbrings.1
      exact ⟨hbrings.2, by rw [hfits], by rw [hfits]⟩

theorem handle (alive : Bool) : Tokens (a.handle alive) := by
  have hpops : ∀ {m : ToMain} {rest inbox : List ToMain}, a.toMain = m :: rest → m.token = none →
      (inbox = rest ∨ ∃ lost, inbox = .renewed lost :: rest) →
      inbox.filterMap token = a.toMain.filterMap token ∧
        ∀ m' ∈ inbox, ∀ t c, m'.gives = some (t, c) → m' ∈ a.toMain := by
    intro m rest inbox hinbox hm hrest
    rw [hinbox, filterMap_cons_none hm]
    rcases hrest with rfl | ⟨lost, rfl⟩
    · exact ⟨rfl, fun m' hm' _ _ _ => mem_cons_of_mem _ hm'⟩
    · refine ⟨filterMap_cons_none rfl, fun m' hm' t c hc => ?_⟩
      rcases mem_cons.mp hm' with rfl | hlater
      · cases hc
      · exact mem_cons_of_mem _ hlater
  have hmoves : ∀ {inbox : List ToMain} (settings : AppSettings) (state : GatewayState)
      {held : List Claim}, inbox.filterMap token = a.toMain.filterMap token ∧
        (∀ m' ∈ inbox, ∀ t c, m'.gives = some (t, c) → m' ∈ a.toMain) →
      (∀ c ∈ held, c ∈ a.held) →
      Tokens { a with toMain := inbox, settings := settings, state := state, held := held } := by
    intro inbox settings state held hinbox hheld
    refine h.of_posts rfl rfl rfl (fun _ => id) h.ports ?_ (fun _ _ => id)
      (fun m hm t c hc => Or.inl (hinbox.2 m hm t c hc)) hheld
    unfold tokens
    rw [hinbox.1]
  unfold Allocator.handle
  split
  · exact h
  · next lan rest hinbox =>
    cases lan with
    | none => exact hmoves _ _ (hpops hinbox rfl (Or.inl rfl)) fun _ => id
    | some lan => exact hmoves _ _ (hpops hinbox rfl (Or.inl rfl)) fun _ => id
  · next token result rest hinbox =>
    unfold onClaimed
    split
    · exact h.deliver hinbox rfl (by intro c hc; cases hc) _ alive a.settings a.held h.held
    · split
      · exact h.deliver hinbox rfl (by intro c hc; cases hc) _ alive _ a.held h.held
      · next claim hclaim =>
        have hgives : (claimed token result).gives = some (token, claim) := by
          change result.claim.map _ = _
          rw [hclaim]
          rfl
        have hobtained := (h.gives _ (by rw [hinbox]; exact mem_cons_self) _ _ hgives).2
        refine h.deliver hinbox rfl (fun c hc => ?_) _ alive _ (a.held ++ [claim]) fun c hc => ?_
        · rw [← Option.some.inj hc]
          exact hgives
        · rcases mem_append.mp hc with hold | hlast
          · exact h.held c hold
          · rw [mem_singleton.mp hlast]
            exact hobtained
  · next token claim why rest hinbox =>
    refine h.deliver hinbox rfl (fun c hc => ?_) why alive a.settings a.held h.held
    change claim.map _ = _
    rw [hc]
    rfl
  · next rest hinbox => exact hmoves _ _ (hpops hinbox rfl (Or.inl rfl)) fun _ => id
  · next l rest hinbox =>
    exact hmoves _ _ (hpops hinbox rfl (Or.inl rfl)) fun _ => mem_removeAll
  · next l l' lost rest hinbox =>
    exact hmoves _ _ (hpops hinbox rfl (Or.inr ⟨_, rfl⟩)) fun _ => mem_removeAll

/-- The worker handles a message that is no claim. -/
theorem worked {d : ToWorker} {rest : List ToWorker}
    (houtbox : a.toWorker = d :: rest) (hd : d.token = none) (posts : List ToMain)
    (hposts : ∀ m ∈ posts, m.token = none) (core : Option Core) :
    Tokens { a with core := core, toWorker := rest, toMain := a.toMain ++ posts } := by
  have hnone : posts.filterMap token = [] :=
    filterMap_eq_nil_iff.mpr hposts
  refine h.of_posts rfl rfl rfl (fun _ => id) h.ports ?_ (fun t request hmem => ?_)
    (fun m hm t c hc => ?_) fun _ => id
  · unfold tokens
    rw [houtbox, filterMap_cons_none hd, filterMap_append, hnone, append_nil]
  · rw [houtbox]
    exact mem_cons_of_mem _ hmem
  · rcases mem_append.mp hm with hold | hpost
    · exact Or.inl hold
    · have htoken := token_of_gives hc
      rw [hposts m hpost] at htoken
      cases htoken

theorem answered {token : Nat} {request : Request} {rest : List ToWorker}
    (houtbox : a.toWorker = .claim token request :: rest) (core : Option Core) (result : Result)
    (hresult : ∀ c, result.claim = some c →
      c.purpose = request.purpose ∧ c.slot = request.slot ∧ c.external ≠ 0) :
    Tokens { a with
      core := core
      toWorker := rest
      toMain := a.toMain ++ [.claimed token result]
      obtained := a.obtained ++ result.claim.toList } := by
  have hgiven : ∀ c, c ∈ a.obtained ++ result.claim.toList →
      c ∈ a.obtained ∨ result.claim = some c := by
    intro c hc
    exact (mem_append.mp hc).imp_right mem_toList.mp
  refine h.of_posts rfl rfl rfl (fun c hc => mem_append_left _ hc) (fun c hc => ?_) ?_
    (fun t request' hmem => ?_) (fun m hm t c hc => ?_) fun _ => id
  · rcases hgiven c hc with hold | hnew
    · exact h.ports c hold
    · exact (hresult c hnew).2.2
  · have hlast : [ToMain.claimed token result].filterMap ToMain.token = [token] := rfl
    have heq : a.tokens = token :: (rest.filterMap ToWorker.token ++
        a.toMain.filterMap ToMain.token) := by
      rw [tokens, houtbox]
      rfl
    rw [heq]
    unfold tokens
    rw [filterMap_append, hlast, ← append_assoc]
    exact perm_append_singleton _ _
  · rw [houtbox]
    exact mem_cons_of_mem _ hmem
  · rcases mem_append.mp hm with hold | hlast
    · exact Or.inl hold
    · rw [mem_singleton.mp hlast] at hc
      obtain ⟨c', hc', heq⟩ := map_eq_some_iff.mp hc
      obtain ⟨rfl, rfl⟩ := Prod.mk.inj heq
      have hfits := hresult _ hc'
      refine Or.inr ⟨?_, mem_append_right _ (mem_toList.mpr hc')⟩
      rw [h.claims token request (by rw [houtbox]; exact mem_cons_self), hfits.1, hfits.2.1]

theorem work (found : Option String)
    (answers : Nat → (c : Call) → c.Answer) : Tokens (a.work found answers) := by
  unfold Allocator.work
  split
  · exact h
  · next previousLan rest houtbox =>
    split
    · have hsame := h.worked houtbox rfl [] (fun _ hm => absurd hm not_mem_nil)
        a.core
      simpa using hsame
    · exact h.worked houtbox rfl _ (by simp [token]) a.core
    · exact h.worked houtbox rfl _ (by simp [token]) _
  · next token request rest houtbox =>
    split
    · have hnone := h.answered houtbox a.core {} (by intro c hc; cases hc)
      simpa using hnone
    · next core hcore =>
      refine h.answered houtbox _ _ fun c hc => ?_
      rcases (ends_claim core request).replay answers with ⟨hnone, _⟩ | ⟨c', hc', _, hfits⟩
      · rw [hnone] at hc
        cases hc
      · rw [hc] at hc'
        rw [Option.some.inj hc']
        exact hfits
  · next claim rest houtbox =>
    have hsame := h.worked houtbox rfl [] (fun _ hm => absurd hm not_mem_nil)
      (a.core.map fun core => (core.release claim).replay answers)
    simpa using hsame

theorem renew (answers : Nat → (c : Call) → c.Answer) :
    Tokens (a.renew answers) := by
  unfold Allocator.renew
  split
  · exact h
  · next core hcore =>
    refine h.of_posts rfl rfl rfl (fun _ => id) h.ports ?_ (fun _ _ => id)
      (fun m hm t c hc => ?_) fun _ => id
    · unfold tokens
      dsimp only
      split
      · rfl
      · have hnone : ∀ lost, [renewed lost].filterMap token = [] := fun _ => rfl
        rw [filterMap_append, hnone, append_nil]
    · dsimp only at hm
      split at hm
      · exact Or.inl hm
      · rcases mem_append.mp hm with hold | hlast
        · exact Or.inl hold
        · rw [mem_singleton.mp hlast] at hc
          cases hc

omit h

theorem heldMediaPort_spec {slot : Int} {c : Claim} (hc : a.heldMediaPort slot = some c) :
    c ∈ a.held ∧ c.purpose = .media ∧ c.slot = slot := by
  have hfits := List.find?_some hc
  simp only [Bool.and_eq_true, decide_eq_true_eq] at hfits
  exact ⟨mem_of_find?_eq_some hc, hfits⟩

theorem ensureStarted_held (a : Allocator) (enabled : Bool) :
    (a.ensureStarted enabled).held = a.held := by
  unfold Allocator.ensureStarted
  split
  · rfl
  · split <;> rfl

theorem next (h : Tokens a) (e : Event) : Tokens (a.next e) := by
  have hrefused : ∀ c, (none : Option Claim) = some c → False := fun c hc => nomatch hc
  cases e with
  | ensureStarted enabled => exact h.ensureStarted enabled
  | discover lanOnly => exact h.discover lanOnly
  | claimTunnelPort enabled =>
    change Tokens (a.claimTunnelPort enabled)
    unfold claimTunnelPort
    split
    · exact (h.ensureStarted enabled).answerLater _ _ _ fun c hc => (hrefused c hc).elim
    · exact (h.ensureStarted enabled).submit _
  | claimMediaPort slot internalPort enabled =>
    change Tokens (a.claimMediaPort slot internalPort enabled)
    unfold claimMediaPort
    split
    · exact (h.ensureStarted enabled).answerLater _ _ _ fun c hc => (hrefused c hc).elim
    · split
      · next claim hclaim =>
        refine (h.ensureStarted enabled).answerLater _ _ _ fun c hc => ?_
        rw [← Option.some.inj hc, ensureStarted_held]
        exact heldMediaPort_spec hclaim
      · exact (h.ensureStarted enabled).submit _
  | releaseMediaPort slot => exact h.releaseMediaPort slot
  | handle alive => exact h.handle alive
  | work found answers => exact h.work found answers
  | renew answers => exact h.renew answers

theorem initial (settings : AppSettings) : Tokens (initial settings) where
  nodup := nodup_nil
  known := fun _ h => absurd h not_mem_nil
  fresh := fun _ _ => rfl
  past := fun _ h => absurd h not_mem_nil
  once := nodup_nil
  claims := fun _ _ h => absurd h not_mem_nil
  gives := fun _ h => absurd h not_mem_nil
  held := fun _ h => absurd h not_mem_nil
  ports := fun _ h => absurd h not_mem_nil
  own := fun _ h => absurd h not_mem_nil

end Tokens

end Allocator

end MoonlightWeb.Network.RouterPortAllocator
