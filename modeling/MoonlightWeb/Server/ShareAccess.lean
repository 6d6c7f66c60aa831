import MoonlightWeb.Server.ShareDeadline

/-! # Who an invitation lets in

The record of what was minted is compared with the slots: a live slot holds the
digests of one mint, so a token or a cookie finds the slot of its own mint or
none, and a mint whose slot no longer holds it is never found again.
-/

namespace MoonlightWeb.Server.ShareManager

open Lib Qt List

variable (d : Digest)

theorem constantTimeEquals_hash (x y : QString) :
    constantTimeEquals (d.hash x) (d.hash y) = true ↔ d.hash x = d.hash y := by
  have hx := QString.toUtf8_ascii fun u hu => (d.ascii_hash x u hu).2
  have hy := QString.toUtf8_ascii fun u hu => (d.ascii_hash y u hu).2
  have hlen : (d.hash x).length = (d.hash y).length := by
    rw [d.length_hash, d.length_hash]
  constructor
  · intro h
    have hbytes : ∀ i < (d.hash x).length, (d.hash x).toUtf8.getD i 0 = (d.hash y).toUtf8.getD i 0 := by
      have hall := (Bool.and_eq_true_iff.mp h).2
      rw [all_eq_true] at hall
      intro i hi
      have hmem : i ∈ List.range (max (d.hash x).toUtf8.length (d.hash y).toUtf8.length) := by
        rw [mem_range, hx, length_map]
        omega
      simpa using hall i hmem
    apply ext_getElem hlen
    intro i hi hi'
    have hbyte := hbytes i hi
    rw [hx, hy] at hbyte
    have hsmall : ∀ {z : QString} {u : UInt16}, u ∈ d.hash z → u.toNat < 256 := by
      intro z u hu
      have hlt := (d.ascii_hash z u hu).2
      rw [UInt16.lt_iff_toNat_lt] at hlt
      have : u.toNat < 128 := by simpa using hlt
      omega
    have hleft := hsmall (getElem_mem hi)
    have hright := hsmall (getElem_mem hi')
    simp only [getD_eq_getElem?_getD, List.getElem?_map, List.getElem?_eq_getElem hi,
      List.getElem?_eq_getElem hi', Option.map_some, Option.getD_some] at hbyte
    have hnat := congrArg UInt8.toNat hbyte
    rw [UInt8.toNat_ofNat_of_lt' hleft, UInt8.toNat_ofNat_of_lt' hright] at hnat
    exact UInt16.toNat_inj.mp hnat
  · intro h
    simp [constantTimeEquals, h]

structure Mint.On (d : Digest) (m : Mint) (a : Activation) : Prop where
  token : a.tokenHash = d.hash m.token
  pin : a.pinHash = d.hash m.pin
  host : a.hostUuid = m.hostUuid
  cookies : a.cookieHashes = m.cookies.map d.hash

/-- What is live in the slot is the activation of a recorded mint. -/
def Known (mints : List Mint) (slot : Int) (s : Slot) : Prop :=
  s.activation.live = true → ∃ m ∈ mints, m.slot = slot ∧ m.On d s.activation

/-- What is live in `s'` was live in `s`, with the same digests and host. -/
def SameKeys (s s' : Slot) : Prop :=
  s'.activation.live = true →
    s.activation.live = true ∧
    s'.activation.tokenHash = s.activation.tokenHash ∧
    s'.activation.pinHash = s.activation.pinHash ∧
    s'.activation.hostUuid = s.activation.hostUuid ∧
    s'.activation.cookieHashes = s.activation.cookieHashes

theorem SameKeys.refl (s : Slot) : SameKeys s s := fun hlive => ⟨hlive, rfl, rfl, rfl, rfl⟩

theorem SameKeys.of_off {s s' : Slot} (h : s'.activation.live = false) : SameKeys s s' := by
  intro hlive
  rw [h] at hlive
  cases hlive

theorem SameKeys.trans {s s' s'' : Slot} (h : SameKeys s s') (h' : SameKeys s' s'') :
    SameKeys s s'' := by
  intro hlive
  obtain ⟨hmid, htoken', hpin', hhost', hcookies'⟩ := h' hlive
  obtain ⟨hfirst, htoken, hpin, hhost, hcookies⟩ := h hmid
  exact ⟨hfirst, htoken'.trans htoken, hpin'.trans hpin, hhost'.trans hhost,
    hcookies'.trans hcookies⟩

section

variable {d : Digest} {e : Event} {m : Manager} {slot target : Int} {s s' : Slot}
  {mints mints' : List Mint}

theorem Known.sameKeys (h : Known d mints slot s) (hkeys : SameKeys s s')
    (hmints : ∀ mint ∈ mints, mint.slot = slot → mint ∈ mints') : Known d mints' slot s' := by
  intro hlive
  obtain ⟨hwas, htoken, hpin, hhost, hcookies⟩ := hkeys hlive
  obtain ⟨mint, hmint, hslot, hon⟩ := h hwas
  exact ⟨mint, hmints mint hmint hslot, hslot, {
    token := htoken.trans hon.token
    pin := hpin.trans hon.pin
    host := hhost.trans hon.host
    cookies := hcookies.trans hon.cookies }⟩

/-- A PIN attempt is the only event that adds a cookie. -/
def Redeems (e : Event) : Prop :=
  ∃ token pin rateKey userAgent cookie, e.op = .redeemPin token pin rateKey userAgent cookie

theorem Change.sameKeys_or (h : Change d e slot s s') (hnot : ¬ Redeems e) :
    SameKeys s s' ∨ MintedBy d e slot s' := by
  cases h with
  | revoked => exact Or.inl (SameKeys.of_off rfl)
  | minted hop hhost httl => exact Or.inr ⟨s, _, _, _, _, _, _, hop, hhost, httl, rfl⟩
  | remembered _ => exact Or.inl (SameKeys.refl _)
  | permitted _ hlive => exact Or.inl fun _ => ⟨hlive, rfl, rfl, rfl, rfl⟩
  | chosen _ _ => exact Or.inl (SameKeys.refl _)
  | retimed _ _ hlive => exact Or.inl fun _ => ⟨hlive, rfl, rfl, rfl, rfl⟩
  | renamed _ => exact Or.inl (SameKeys.refl _)
  | failed hlive _ => exact Or.inl fun _ => ⟨hlive, rfl, rfl, rfl, rfl⟩
  | refused _ hlive => exact Or.inl fun _ => ⟨hlive, rfl, rfl, rfl, rfl⟩
  | bound _ hop _ _ => exact absurd ⟨_, _, _, _, _, hop⟩ hnot
  | streamed _ hlive => exact Or.inl fun _ => ⟨hlive, rfl, rfl, rfl, rfl⟩

theorem Effect.sameKeys_or (h : Effect d e slot s s') (hnot : ¬ Redeems e) :
    SameKeys s s' ∨ MintedBy d e slot s' := by
  obtain ⟨first, hfirst, hlast⟩ := h
  have hswept : SameKeys s first := by
    rcases hfirst with rfl | rfl
    · exact SameKeys.refl first
    · exact SameKeys.of_off rfl
  rcases hlast with rfl | hchange
  · exact Or.inl hswept
  · rcases hchange.sameKeys_or hnot with hkept | hminted
    · exact Or.inl (hswept.trans hkept)
    · exact Or.inr hminted

theorem pruneExpired_sameKeys (m : Manager) (now slot : Int) :
    SameKeys (m.slots slot) ((pruneExpired m now).slots slot) := by
  rcases pruneExpired_or m now slot with hkept | hcleared
  · rw [hkept]
    exact SameKeys.refl _
  · rw [hcleared]
    exact SameKeys.of_off rfl

theorem chargeFailure_sameKeys (m : Manager) (target slot : Int) :
    SameKeys (m.slots slot) ((chargeFailure m target).slots slot) := by
  have hcounted : SameKeys (m.slots slot)
      ((m.setActivation target
        { (m.slots target).activation with
          pinFailures := (m.slots target).activation.pinFailures + 1 }).slots slot) := by
    by_cases heq : slot = target
    · subst heq
      simp only [Manager.setActivation, setSlot_self]
      exact fun hlive => ⟨hlive, rfl, rfl, rfl, rfl⟩
    · simp only [Manager.setActivation, setSlot_ne _ _ heq]
      exact SameKeys.refl _
  unfold chargeFailure
  simp only [save]
  split_ifs
  · rw [clearActivation_slots]
    unfold Slot.revoked
    split_ifs
    · exact SameKeys.of_off rfl
    · exact hcounted
    · exact hcounted
  · exact hcounted

theorem bindDevice_sameKeys {later : Int} {userAgent cookie : QString}
    (h : slot ≠ target ∨ (bindDevice d m later target userAgent cookie).1 = false) :
    SameKeys (m.slots slot) ((bindDevice d m later target userAgent cookie).2.slots slot) := by
  by_cases heq : slot = target
  · subst heq
    have hrefused := h.resolve_left fun hne => hne rfl
    unfold bindDevice at hrefused ⊢
    by_cases hfull : (m.slots slot).activation.cookieHashes.length ≥ maxCookiesPerActivation
    · simp only [if_pos hfull, save, Manager.setActivation, setSlot_self]
      exact fun hlive => ⟨hlive, rfl, rfl, rfl, rfl⟩
    · simp only [if_neg hfull] at hrefused
      cases hrefused
  · unfold bindDevice
    simp only [save]
    split_ifs
    · simp only [Manager.setActivation, setSlot_ne _ _ heq]
      exact SameKeys.refl _
    · simp only [Manager.setActivation, setSlot_ne _ _ heq]
      exact SameKeys.refl _

/-- The device bound has one cookie more, and nothing else moves among the keys. -/
theorem bindDevice_bound {later : Int} {userAgent cookie : QString} {mint : Mint}
    (hbound : (bindDevice d m later target userAgent cookie).1 = true)
    (hon : mint.On d (m.slots target).activation) :
    Mint.On d { mint with cookies := mint.cookies ++ [cookie] }
      ((bindDevice d m later target userAgent cookie).2.slots target).activation := by
  unfold bindDevice at hbound ⊢
  by_cases hfull : (m.slots target).activation.cookieHashes.length ≥ maxCookiesPerActivation
  · simp only [if_pos hfull] at hbound
    cases hbound
  · simp only [if_neg hfull, save, Manager.setActivation, setSlot_self]
    exact {
      token := hon.token
      pin := hon.pin
      host := hon.host
      cookies := by simp [hon.cookies] }

end

/-- The values drawn are new: no earlier one has their digest. -/
def Fresh (t : System) (e : Event) : Prop :=
  match e.op with
  | .activate _ _ _ _ token pin _ =>
      ∀ m ∈ t.mints, d.hash m.token ≠ d.hash token ∧ d.hash m.pin ≠ d.hash pin
  | .redeemPin _ _ _ _ cookie => ∀ m ∈ t.mints, ∀ c ∈ m.cookies, d.hash c ≠ d.hash cookie
  | _ => True

/-- Every live slot is known, and a digest belongs to one mint. -/
structure Access (d : Digest) (t : System) : Prop where
  consistent : Consistent t
  player : ∀ m ∈ t.mints, isPlayerSlot m.slot = true
  known : ∀ slot, isPlayerSlot slot = true → Known d t.mints slot (t.manager.slots slot)
  tokens : ∀ m ∈ t.mints, ∀ m' ∈ t.mints, d.hash m.token = d.hash m'.token → m = m'
  pins : ∀ m ∈ t.mints, ∀ m' ∈ t.mints, d.hash m.pin = d.hash m'.pin → m = m'
  cookies : ∀ m ∈ t.mints, ∀ m' ∈ t.mints, ∀ c ∈ m.cookies, ∀ c' ∈ m'.cookies,
    d.hash c = d.hash c' → m = m'

theorem installed_access (clock : Int) : Access d (installed clock) where
  consistent := installed_consistent clock
  player m hm := by cases hm
  known slot _ hlive := by cases hlive
  tokens m hm := by cases hm
  pins m hm := by cases hm
  cookies m hm := by cases hm

section

variable {d : Digest} {t u : System} {e : Event} {slot : Int}

theorem Access.of_same (h : Access d t) (hu : Consistent u) (hmints : u.mints = t.mints)
    (hkeys : ∀ slot, SameKeys (t.manager.slots slot) (u.manager.slots slot)) : Access d u where
  consistent := hu
  player := hmints ▸ h.player
  known slot hplayer := by
    rw [hmints]
    exact (h.known slot hplayer).sameKeys (hkeys slot) fun m hm _ => hm
  tokens := hmints ▸ h.tokens
  pins := hmints ▸ h.pins
  cookies := hmints ▸ h.cookies

theorem restart_sameKeys (h : Consistent t) {now : Int} (hnow : t.clock ≤ now) (slot : Int) :
    SameKeys (t.manager.slots slot) ((restart t.manager now).slots slot) := by
  intro hlive
  obtain ⟨hwas, hsame⟩ := restart_revives h hnow hlive
  rw [hsame]
  exact ⟨hwas, rfl, rfl, rfl, rfl⟩

variable {now later : Int} {m : Manager}

theorem activate_fst {hostUuid : QString} {appId : Int32} {ttlSecs : Int} {token pin id : QString} :
    (activate d m now later slot hostUuid appId ttlSecs token pin id).1 = true ↔
      isPlayerSlot slot = true ∧ hostUuid ≠ [] ∧ isValidTtl ttlSecs = true := by
  unfold activate
  split_ifs with hplayer hhost httl
  · simp [hplayer]
  · have hnil : hostUuid = [] := by simpa using hhost
    simp [hnil]
  · simp [httl]
  · have hplayer : isPlayerSlot slot = true := by simpa using hplayer
    have hhost : hostUuid ≠ [] := by simpa using hhost
    have httl : isValidTtl ttlSecs = true := by simpa using httl
    simp [hplayer, hhost, httl]

theorem activate_refused {hostUuid : QString} {appId : Int32}
    {ttlSecs : Int} {token pin id : QString}
    (h : ¬ (activate d m now later slot hostUuid appId ttlSecs token pin id).1 = true) :
    (activate d m now later slot hostUuid appId ttlSecs token pin id).2 = m := by
  rw [activate_fst] at h
  unfold activate
  split_ifs with hplayer hhost httl
  · rfl
  · rfl
  · rfl
  · simp_all

theorem Access.minted (h : Access d t) (hu : Consistent u) {mint : Mint}
    (hmints : u.mints = t.mints ++ [mint]) (hplayer : isPlayerSlot mint.slot = true)
    (hnone : mint.cookies = [])
    (hfresh : ∀ m ∈ t.mints, d.hash m.token ≠ d.hash mint.token ∧ d.hash m.pin ≠ d.hash mint.pin)
    (hslots : ∀ slot, SameKeys (t.manager.slots slot) (u.manager.slots slot) ∨
      (slot = mint.slot ∧ mint.On d (u.manager.slots slot).activation)) : Access d u := by
  have hmem : ∀ {m}, m ∈ u.mints → m ∈ t.mints ∨ m = mint := by
    intro m hm
    rw [hmints] at hm
    rcases mem_append.mp hm with hm | hm
    · exact Or.inl hm
    · exact Or.inr (by simpa using hm)
  exact {
    consistent := hu
    player := by
      intro m hm
      rcases hmem hm with hm | rfl
      · exact h.player m hm
      · exact hplayer
    known := by
      intro slot hslot
      rcases hslots slot with hkeys | ⟨heq, hon⟩
      · refine (h.known slot hslot).sameKeys hkeys fun m hm _ => ?_
        rw [hmints]
        exact mem_append_left _ hm
      · intro _
        exact ⟨mint, by simp [hmints], heq.symm, hon⟩
    tokens := by
      intro m hm m' hm' heq
      rcases hmem hm with hm | rfl
      · rcases hmem hm' with hm' | rfl
        · exact h.tokens m hm m' hm' heq
        · exact absurd heq (hfresh m hm).1
      · rcases hmem hm' with hm' | rfl
        · exact absurd heq.symm (hfresh m' hm').1
        · rfl
    pins := by
      intro m hm m' hm' heq
      rcases hmem hm with hm | rfl
      · rcases hmem hm' with hm' | rfl
        · exact h.pins m hm m' hm' heq
        · exact absurd heq (hfresh m hm).2
      · rcases hmem hm' with hm' | rfl
        · exact absurd heq.symm (hfresh m' hm').2
        · rfl
    cookies := by
      intro m hm m' hm' c hc c' hc' heq
      rcases hmem hm with hm | rfl
      · rcases hmem hm' with hm' | rfl
        · exact h.cookies m hm m' hm' c hc c' hc' heq
        · rw [hnone] at hc'
          cases hc'
      · rw [hnone] at hc
        cases hc }

theorem Access.bound (h : Access d t) (hu : Consistent u) {token cookie : QString} {target : Int}
    {m₀ : Mint} (hm₀ : m₀ ∈ t.mints) (htoken : d.hash m₀.token = d.hash token)
    (hmints : u.mints = t.mints.map fun m =>
      if d.hash m.token = d.hash token then { m with cookies := m.cookies ++ [cookie] } else m)
    (hfresh : ∀ m ∈ t.mints, ∀ c ∈ m.cookies, d.hash c ≠ d.hash cookie) (hslot : m₀.slot = target)
    (hon : Mint.On d { m₀ with cookies := m₀.cookies ++ [cookie] }
      (u.manager.slots target).activation)
    (hothers : ∀ slot, slot ≠ target → SameKeys (t.manager.slots slot) (u.manager.slots slot)) :
    Access d u := by
  have himage : ∀ {m}, m ∈ u.mints → ∃ m' ∈ t.mints, m.slot = m'.slot ∧ m.token = m'.token ∧
      m.pin = m'.pin ∧ m = (if d.hash m'.token = d.hash token then
        { m' with cookies := m'.cookies ++ [cookie] } else m') ∧
      ∀ c ∈ m.cookies, c ∈ m'.cookies ∨ (c = cookie ∧ d.hash m'.token = d.hash token) := by
    intro m hm
    rw [hmints] at hm
    obtain ⟨m', hm', heq⟩ := mem_map.mp hm
    refine ⟨m', hm', ?_⟩
    subst heq
    by_cases hsame : d.hash m'.token = d.hash token
    · rw [if_pos hsame]
      refine ⟨rfl, rfl, rfl, rfl, fun c hc => ?_⟩
      rcases mem_append.mp hc with hc | hc
      · exact Or.inl hc
      · exact Or.inr ⟨by simpa using hc, hsame⟩
    · rw [if_neg hsame]
      exact ⟨rfl, rfl, rfl, rfl, fun c hc => Or.inl hc⟩
  exact {
    consistent := hu
    player := by
      intro m hm
      obtain ⟨m', hm', hslot', _⟩ := himage hm
      rw [hslot']
      exact h.player m' hm'
    known := by
      intro slot hplayer
      by_cases heq : slot = target
      · subst heq
        intro _
        refine ⟨{ m₀ with cookies := m₀.cookies ++ [cookie] }, ?_, hslot, hon⟩
        rw [hmints]
        exact mem_map.mpr ⟨m₀, hm₀, if_pos htoken⟩
      · refine (h.known slot hplayer).sameKeys (hothers slot heq) fun m hm hat => ?_
        have hother : ¬ d.hash m.token = d.hash token := by
          intro hsame
          have hself := h.tokens m hm m₀ hm₀ (hsame.trans htoken.symm)
          exact heq (by rw [← hat, hself, hslot])
        rw [hmints]
        exact mem_map.mpr ⟨m, hm, if_neg hother⟩
    tokens := by
      intro m hm m' hm' heq
      obtain ⟨a, ha, _, htok, _, hma, _⟩ := himage hm
      obtain ⟨b, hb, _, htok', _, hmb, _⟩ := himage hm'
      rw [htok, htok'] at heq
      rw [hma, hmb, h.tokens a ha b hb heq]
    pins := by
      intro m hm m' hm' heq
      obtain ⟨a, ha, _, _, hpin, hma, _⟩ := himage hm
      obtain ⟨b, hb, _, _, hpin', hmb, _⟩ := himage hm'
      rw [hpin, hpin'] at heq
      rw [hma, hmb, h.pins a ha b hb heq]
    cookies := by
      intro m hm m' hm' c hc c' hc' heq
      obtain ⟨a, ha, _, _, _, hma, hcookies⟩ := himage hm
      obtain ⟨b, hb, _, _, _, hmb, hcookies'⟩ := himage hm'
      have hsame : a = b := by
        rcases hcookies c hc with hold | ⟨hnew, hat⟩
        · rcases hcookies' c' hc' with hold' | ⟨hnew', _⟩
          · exact h.cookies a ha b hb c hold c' hold' heq
          · rw [hnew'] at heq
            exact absurd heq (hfresh a ha c hold)
        · rcases hcookies' c' hc' with hold' | ⟨_, hat'⟩
          · rw [hnew] at heq
            exact absurd heq.symm (hfresh b hb c' hold')
          · exact h.tokens a ha b hb (hat.trans hat'.symm)
      rw [hma, hmb, hsame] }

/-- A sweep leaves a slot that is live after it as it was, and not expired. -/
theorem pruneExpired_live {now slot : Int} (hplayer : isPlayerSlot slot = true)
    (hlive : ((pruneExpired m now).slots slot).activation.live = true) :
    (pruneExpired m now).slots slot = m.slots slot ∧
      (m.slots slot).activation.expired now = false := by
  rw [pruneExpired_slots, if_pos hplayer] at hlive ⊢
  unfold Slot.prunedAt at hlive ⊢
  by_cases hcond : ((m.slots slot).activation.live && (m.slots slot).activation.expired now) = true
  · rw [if_pos hcond] at hlive
    simp [Slot.cleared] at hlive
  · rw [if_neg hcond] at hlive ⊢
    refine ⟨rfl, ?_⟩
    simpa [hlive] using hcond

/-- The slot a token's digest finds is that of its mint. -/
theorem Access.found_token (h : Access d t) {now : Int} {token : QString}
    (hfound : slotForTokenHash (pruneExpired t.manager now) (d.hash token) = some slot) :
    ∃ m ∈ t.mints, m.slot = slot ∧ d.hash m.token = d.hash token ∧
      m.On d (t.manager.slots slot).activation ∧
      (pruneExpired t.manager now).slots slot = t.manager.slots slot ∧
      (t.manager.slots slot).activation.expired now = false := by
  obtain ⟨hplayer, hlive, hequal⟩ := slotForTokenHash_spec hfound
  obtain ⟨hkept, hrun⟩ := pruneExpired_live hplayer hlive
  rw [hkept] at hlive hequal
  obtain ⟨m, hm, hat, hon⟩ := h.known slot hplayer hlive
  rw [hon.token, constantTimeEquals_hash] at hequal
  exact ⟨m, hm, hat, hequal, hon, hkept, hrun⟩

theorem Access.redeemed (h : Access d t) (hu : Consistent u)
    {token pin rateKey userAgent cookie : QString}
    (hmanager : u.manager = (redeemPin d t.manager now later token pin rateKey userAgent cookie).2)
    (hmints : u.mints =
      if (redeemPin d t.manager now later token pin rateKey userAgent cookie).1.result = .ok then
        t.mints.map fun m =>
          if d.hash m.token = d.hash token then { m with cookies := m.cookies ++ [cookie] } else m
      else t.mints)
    (hfresh : ∀ m ∈ t.mints, ∀ c ∈ m.cookies, d.hash c ≠ d.hash cookie) : Access d u := by
  have hswept := pruneExpired_sameKeys t.manager now
  cases redeemPin_redeemed d t.manager now later token pin rateKey userAgent cookie with
  | away hslots _ hresult =>
    rw [if_neg (by rcases hresult with hr | hr <;> rw [hr] <;> simp)] at hmints
    refine h.of_same hu hmints fun slot => ?_
    rw [hmanager, hslots]
    exact hswept slot
  | @charged m₂ target _ hslots hresult hm =>
    rw [if_neg (by rw [hresult]; simp)] at hmints
    refine h.of_same hu hmints fun slot => ?_
    have hcharged := chargeFailure_sameKeys m₂ target slot
    rw [hslots] at hcharged
    rw [hmanager, hm]
    exact (hswept slot).trans hcharged
  | @matched m₂ target hfound _ hslots hresult hm =>
    cases hbound : (bindDevice d m₂ later target userAgent cookie).1 with
    | false =>
      rw [hbound, if_neg Bool.false_ne_true] at hresult
      rw [if_neg (by rw [hresult]; simp)] at hmints
      refine h.of_same hu hmints fun slot => ?_
      have hrefused := @bindDevice_sameKeys d m₂ slot target later userAgent cookie (Or.inr hbound)
      rw [hslots] at hrefused
      rw [hmanager, hm]
      exact (hswept slot).trans hrefused
    | true =>
      rw [hbound, if_pos rfl] at hresult
      rw [if_pos hresult] at hmints
      obtain ⟨m₀, hm₀, hat, htoken, hon, hkept, _⟩ := h.found_token hfound
      have hon₂ : m₀.On d (m₂.slots target).activation := by
        rw [hslots, hkept]
        exact hon
      refine h.bound hu hm₀ htoken hmints hfresh hat ?_ ?_
      · rw [hmanager, hm]
        exact bindDevice_bound hbound hon₂
      · intro slot hne
        rw [hmanager, hm]
        refine (hswept slot).trans ?_
        rw [← hslots]
        exact bindDevice_sameKeys (Or.inl hne)

theorem step_access (h : Access d t) (hfresh : Fresh d t e) (hstep : step d t e = some u) :
    Access d u := by
  have hu := step_consistent h.consistent hstep
  unfold step at hstep
  split_ifs at hstep with hclock
  obtain rfl : _ = u := by simpa using hstep
  have heffect := fun slot hop => apply_effect d t.manager e slot hop
  cases hop : e.op with
  | activate target hostUuid appId ttlSecs token pin id =>
    have hnot : ¬ Redeems e := by
      rintro ⟨_, _, _, _, _, hother⟩
      rw [hop] at hother
      cases hother
    have hkeys := fun slot => (heffect slot (by rw [hop]; simp)).sameKeys_or hnot
    by_cases hok : (activate d t.manager e.now e.later target hostUuid appId ttlSecs
        token pin id).1 = true
    · have hmints : record d t e = t.mints ++ [⟨target, hostUuid, token, pin, []⟩] := by
        simp [record, hop, hok]
      refine h.minted hu hmints (activate_fst.mp hok).1 rfl ?_ fun slot => ?_
      · unfold Fresh at hfresh
        simpa only [hop] using hfresh
      · rcases hkeys slot with hsame | ⟨_, _, _, _, _, _, _, hop', _, _, hact⟩
        · exact Or.inl hsame
        · rw [hop] at hop'
          cases hop'
          right
          simp only [hact]
          exact ⟨trivial, rfl, rfl, rfl, rfl⟩
    · have hmints : record d t e = t.mints := by simp [record, hop, hok]
      refine h.of_same hu hmints fun slot => ?_
      simp only [apply, hop, activate_refused hok]
      exact SameKeys.refl _
  | redeemPin token pin rateKey userAgent cookie =>
    have hmanager : apply d t.manager e =
        (redeemPin d t.manager e.now e.later token pin rateKey userAgent cookie).2 := by
      simp only [apply, hop]
    have hmints : record d t e =
        if (redeemPin d t.manager e.now e.later token pin rateKey userAgent cookie).1.result =
            .ok then
          t.mints.map fun m =>
            if d.hash m.token = d.hash token then { m with cookies := m.cookies ++ [cookie] }
            else m
        else t.mints := by
      simp only [record, hop]
    have hnew : ∀ m ∈ t.mints, ∀ c ∈ m.cookies, d.hash c ≠ d.hash cookie := by
      unfold Fresh at hfresh
      simpa only [hop] using hfresh
    exact h.redeemed hu hmanager hmints hnew
  | restart =>
    refine h.of_same hu (by simp [record, hop]) fun slot => ?_
    simp only [apply, hop]
    exact restart_sameKeys h.consistent hclock.1 slot
  | _ =>
    refine h.of_same hu (by simp [record, hop]) fun slot => ?_
    have hnot : ¬ Redeems e := by
      rintro ⟨_, _, _, _, _, hother⟩
      rw [hop] at hother
      cases hother
    rcases (heffect slot (by rw [hop]; simp)).sameKeys_or hnot with hsame | hminted
    · exact hsame
    · obtain ⟨_, _, _, _, _, _, _, hop', _⟩ := hminted
      rw [hop] at hop'
      cases hop'

end

/-- The activation of the mint is over: replaced, ended or expired. -/
def Over (t : System) (m : Mint) : Prop :=
  (t.manager.slots m.slot).activation.tokenHash ≠ d.hash m.token ∨
    (t.manager.slots m.slot).activation.expired t.clock = true

/-- An answer of the lookups leads to the slot and the host of the mint, or nowhere. -/
def LeadsTo (t : System) (now : Int) (m : Mint) (found : Int) : Prop :=
  found = -1 ∨ (found = m.slot ∧ (hostForSlot t.manager now found).1 = m.hostUuid)

structure AccessSafe (d : Digest) (t : System) : Prop where
  devices : ∀ slot,
    (t.manager.slots slot).activation.cookieHashes.length =
      (t.manager.slots slot).activation.devices.length ∧
    (t.manager.slots slot).activation.cookieHashes.length ≤ maxCookiesPerActivation
  tokens : ∀ m ∈ t.mints, ∀ now, t.clock ≤ now →
    LeadsTo t now m (slotForToken d t.manager now m.token).1
  cookies : ∀ m ∈ t.mints, ∀ c ∈ m.cookies, ∀ now, t.clock ≤ now →
    LeadsTo t now m (slotForCookie d t.manager now c).1

/-- Nothing the mint handed out is any good. -/
structure LockedOut (d : Digest) (t : System) (m : Mint) : Prop where
  token : ∀ now, t.clock ≤ now → (slotForToken d t.manager now m.token).1 = -1
  cookies : ∀ m' ∈ t.mints, m'.token = m.token → ∀ c ∈ m'.cookies, ∀ now, t.clock ≤ now →
    (slotForCookie d t.manager now c).1 = -1
  pin : ∀ now later, t.clock ≤ now → ∀ token rateKey userAgent cookie,
    (redeemPin d t.manager now later token m.pin rateKey userAgent cookie).1.result ≠ .ok ∧
    (redeemPin d t.manager now later token m.pin rateKey userAgent cookie).1.result ≠ .alreadyBound

/-- The event ends what is on the slot: it is shared anew, or switched off. -/
def Ends (slot : Int) (e : Event) : Prop :=
  match e.op with
  | .activate target hostUuid _ ttlSecs _ _ _ =>
      target = slot ∧ hostUuid ≠ [] ∧ isValidTtl ttlSecs = true
  | .deactivate target => target = slot
  | .deactivateAll => True
  | _ => False

section

variable {d : Digest} {t u : System} {e : Event} {slot : Int} {m : Mint}

variable {now : Int}

theorem hostForSlot_live {mgr : Manager} (hplayer : isPlayerSlot slot = true)
    (hlive : ((pruneExpired mgr now).slots slot).activation.live = true) :
    (hostForSlot mgr now slot).1 = (mgr.slots slot).activation.hostUuid := by
  obtain ⟨hkept, _⟩ := pruneExpired_live hplayer hlive
  simp only [hostForSlot, Manager.slotFor, hplayer, if_true]
  rw [if_pos hlive, hkept]

theorem slotForCookie_spec {mgr : Manager} {cookie : QString}
    (h : (slotForCookie d mgr now cookie).1 ≠ -1) :
    isPlayerSlot (slotForCookie d mgr now cookie).1 = true ∧
      ((pruneExpired mgr now).slots (slotForCookie d mgr now cookie).1).activation.live = true ∧
      ∃ stored ∈ ((pruneExpired mgr now).slots
        (slotForCookie d mgr now cookie).1).activation.cookieHashes,
        constantTimeEquals stored (d.hash cookie) = true := by
  unfold slotForCookie at h ⊢
  split_ifs at h ⊢
  · exact absurd rfl h
  · simp only at h ⊢
    rcases foldl_lastMatch
      (fun slot => ((pruneExpired mgr now).slots slot).activation.live &&
        ((pruneExpired mgr now).slots slot).activation.cookieHashes.any fun stored =>
          constantTimeEquals stored (d.hash cookie)) id playerSlots (-1) with hnone | hsome
    · exact absurd hnone h
    · obtain ⟨x, hx, hp, heq⟩ := hsome
      simp only [id] at heq
      rw [heq]
      have hboth := Bool.and_eq_true_iff.mp hp
      obtain ⟨stored, hstored, hequal⟩ := any_eq_true.mp hboth.2
      exact ⟨isPlayerSlot_iff.mpr hx, hboth.1, stored, hstored, hequal⟩

structure Holds (d : Digest) (t : System) (now : Int) (m : Mint) : Prop where
  player : isPlayerSlot m.slot = true
  live : ((pruneExpired t.manager now).slots m.slot).activation.live = true
  on : m.On d (t.manager.slots m.slot).activation
  running : (t.manager.slots m.slot).activation.expired now = false

theorem Holds.leadsTo (h : Holds d t now m) : LeadsTo t now m m.slot := by
  right
  refine ⟨rfl, ?_⟩
  rw [hostForSlot_live h.player h.live, h.on.host]

theorem Holds.not_over (h : Holds d t now m) (hnow : t.clock ≤ now) :
    ¬ Over d t m := by
  rintro (hother | hexp)
  · exact hother h.on.token
  · have hover := Activation.expired_mono hnow hexp
    rw [h.running] at hover
    cases hover

variable (h : Access d t)

include h

theorem Access.holds_of_found (hm : m ∈ t.mints) {token : QString}
    (htoken : d.hash m.token = d.hash token)
    (hfound : slotForTokenHash (pruneExpired t.manager now) (d.hash token) = some slot) :
    slot = m.slot ∧ Holds d t now m := by
  obtain ⟨m', hm', hat, htoken', hon, _, hrun⟩ := h.found_token hfound
  obtain ⟨hplayer, hlive, _⟩ := slotForTokenHash_spec hfound
  obtain rfl : m' = m := h.tokens m' hm' m hm (htoken'.trans htoken.symm)
  subst hat
  exact ⟨rfl, hplayer, hlive, hon, hrun⟩

theorem Access.token_holds (hm : m ∈ t.mints)
    (hfound : (slotForToken d t.manager now m.token).1 ≠ -1) :
    (slotForToken d t.manager now m.token).1 = m.slot ∧ Holds d t now m := by
  unfold slotForToken at hfound ⊢
  simp only at hfound ⊢
  cases hslot : slotForTokenHash (pruneExpired t.manager now) (d.hash m.token) with
  | none => simp [hslot] at hfound
  | some slot =>
    obtain ⟨hat, hholds⟩ := h.holds_of_found hm rfl hslot
    exact ⟨by simp [hat], hholds⟩

theorem Access.cookie_holds (hm : m ∈ t.mints) {c : QString}
    (hc : c ∈ m.cookies) (hfound : (slotForCookie d t.manager now c).1 ≠ -1) :
    (slotForCookie d t.manager now c).1 = m.slot ∧ Holds d t now m := by
  obtain ⟨hplayer, hlive, stored, hstored, hequal⟩ := slotForCookie_spec hfound
  obtain ⟨hkept, hrun⟩ := pruneExpired_live hplayer hlive
  have hlive' := hlive
  rw [hkept] at hlive' hstored
  obtain ⟨m', hm', hat, hon⟩ := h.known _ hplayer hlive'
  rw [hon.cookies] at hstored
  obtain ⟨c', hc', hhash⟩ := mem_map.mp hstored
  rw [← hhash, constantTimeEquals_hash] at hequal
  obtain rfl : m' = m := h.cookies m' hm' m hm c' hc' c hc hequal
  refine ⟨hat.symm, ?_⟩
  rw [← hat] at hplayer hlive hon hrun
  exact ⟨hplayer, hlive, hon, hrun⟩

theorem Access.pin_holds (hm : m ∈ t.mints) {now later : Int}
    {token rateKey userAgent cookie : QString}
    (hresult : (redeemPin d t.manager now later token m.pin rateKey userAgent cookie).1.result = .ok ∨
      (redeemPin d t.manager now later token m.pin rateKey userAgent cookie).1.result =
        .alreadyBound) : Holds d t now m := by
  cases redeemPin_redeemed d t.manager now later token m.pin rateKey userAgent cookie with
  | away _ _ hother => rcases hother with hr | hr <;> simp [hr] at hresult
  | charged _ _ hother _ => simp [hother] at hresult
  | @matched m₂ target hfound hpin _ _ _ =>
    obtain ⟨m', hm', hat, htoken, hon, hkept, hrun⟩ := h.found_token hfound
    obtain ⟨hplayer, hlive, _⟩ := slotForTokenHash_spec hfound
    have hequal : constantTimeEquals (d.hash m'.pin) (d.hash m.pin) = true := by
      unfold pinMatches at hpin
      rw [hkept, hon.pin] at hpin
      exact (Bool.and_eq_true_iff.mp hpin).2
    rw [constantTimeEquals_hash] at hequal
    obtain rfl : m' = m := h.pins m' hm' m hm hequal
    subst hat
    exact ⟨hplayer, hlive, hon, hrun⟩

theorem Access.safe : AccessSafe d t where
  devices slot := ⟨(h.consistent.1 slot).paired, (h.consistent.1 slot).single⟩
  tokens m hm now _ := by
    by_cases hnone : (slotForToken d t.manager now m.token).1 = -1
    · exact Or.inl hnone
    · obtain ⟨hat, hholds⟩ := h.token_holds hm hnone
      rw [hat]
      exact hholds.leadsTo
  cookies m hm c hc now _ := by
    by_cases hnone : (slotForCookie d t.manager now c).1 = -1
    · exact Or.inl hnone
    · obtain ⟨hat, hholds⟩ := h.cookie_holds hm hc hnone
      rw [hat]
      exact hholds.leadsTo

theorem Access.lockedOut (hm : m ∈ t.mints) (hover : Over d t m) :
    LockedOut d t m where
  token now hnow := by
    by_contra hfound
    exact (h.token_holds hm hfound).2.not_over hnow hover
  cookies m' hm' htoken c hc now hnow := by
    by_contra hfound
    obtain rfl : m' = m := h.tokens m' hm' m hm (by rw [htoken])
    exact (h.cookie_holds hm hc hfound).2.not_over hnow hover
  pin now later hnow token rateKey userAgent cookie := by
    constructor
    · exact fun hok => (h.pin_holds hm (Or.inl hok)).not_over hnow hover
    · exact fun hbound => (h.pin_holds hm (Or.inr hbound)).not_over hnow hover

omit h

def OnRecord (t : System) (m : Mint) : Prop :=
  ∃ m' ∈ t.mints, m'.slot = m.slot ∧ m'.token = m.token ∧ m'.pin = m.pin

theorem step_onRecord (hstep : step d t e = some u) (h : OnRecord t m) : OnRecord u m := by
  obtain ⟨m', hm', hslot, htoken, hpin⟩ := h
  unfold step at hstep
  split_ifs at hstep with hclock
  obtain rfl : _ = u := by simpa using hstep
  have hkept : m' ∈ record d t e →
      OnRecord
        { manager := apply d t.manager e
          clock := e.later
          mints := record d t e } m :=
    fun hmem => ⟨m', hmem, hslot, htoken, hpin⟩
  cases hop : e.op with
  | activate target hostUuid appId ttlSecs token pin id =>
    apply hkept
    simp only [record, hop]
    split_ifs
    · exact mem_append_left _ hm'
    · exact hm'
  | redeemPin token pin rateKey userAgent cookie =>
    by_cases hok : (redeemPin d t.manager e.now e.later token pin rateKey userAgent
        cookie).1.result = .ok
    · refine ⟨if d.hash m'.token = d.hash token then
        { m' with cookies := m'.cookies ++ [cookie] } else m', ?_, ?_⟩
      · simp only [record, hop, hok, if_true]
        exact mem_map.mpr ⟨m', hm', rfl⟩
      · split_ifs
        · exact ⟨hslot, htoken, hpin⟩
        · exact ⟨hslot, htoken, hpin⟩
    · apply hkept
      simp only [record, hop, hok, if_false]
      exact hm'
  | _ =>
    apply hkept
    simp only [record, hop]
    exact hm'

theorem live_of_tokenHash {a : Activation} {token : QString} (h : a.tokenHash = d.hash token) :
    a.live = true := by
  rw [Activation.live_iff, h]
  exact hash_ne_nil d token

/-- A mint stays over: only its own token could bring it back. -/
theorem step_over (h : Access d t) (hfresh : Fresh d t e) (hstep : step d t e = some u)
    (hrecord : OnRecord t m) (hover : Over d t m) : Over d u m := by
  have houtlives := step_outlives_or m.slot h.consistent hstep
  have hclock : t.clock ≤ u.clock := by
    unfold step at hstep
    split_ifs at hstep with hclock
    obtain rfl : _ = u := by simpa using hstep
    simp only
    omega
  by_cases htoken : (u.manager.slots m.slot).activation.tokenHash = d.hash m.token
  · cases hexp : (u.manager.slots m.slot).activation.expired u.clock with
    | true => exact Or.inr hexp
    | false =>
      exfalso
      rcases houtlives with hkept | ⟨_, _, _, _, token, _, _, hop, _, _, hact⟩
      · have hcontinues := hkept (live_of_tokenHash htoken)
        rcases hover with hother | hold
        · exact hother (hcontinues.token.symm.trans htoken)
        · rw [hcontinues.running hclock hexp] at hold
          cases hold
      · obtain ⟨m', hm', _, htoken', _⟩ := hrecord
        unfold Fresh at hfresh
        simp only [hop] at hfresh
        have hnew := (hfresh m' hm').1
        rw [hact] at htoken
        have hsame : d.hash token = d.hash m.token := htoken
        exact hnew (by rw [htoken', hsame])
  · exact Or.inl htoken

/-- Sharing the slot anew or switching it off is the end of the mint. -/
theorem ends_over (h : Access d t) (hfresh : Fresh d t e) (hstep : step d t e = some u)
    (hm : m ∈ t.mints) (hends : Ends m.slot e) : Over d u m := by
  have hplayer := h.player m hm
  unfold step at hstep
  split_ifs at hstep with hclock
  obtain rfl : _ = u := by simpa using hstep
  have hoff : ∀ {s : Slot}, s.activation.live = false → s.activation.tokenHash ≠ d.hash m.token := by
    intro s hs heq
    rw [live_of_tokenHash heq] at hs
    cases hs
  have hrevoked : ∀ s : Slot, s.revoked.activation.live = false := by
    intro s
    unfold Slot.revoked
    split_ifs with hlive
    · rfl
    · simpa using hlive
  left
  unfold Ends at hends
  cases hop : e.op with
  | activate target hostUuid appId ttlSecs token pin id =>
    simp only [hop] at hends
    obtain ⟨rfl, hhost, httl⟩ := hends
    obtain ⟨_, _, _, _, _, _, _, hop', _, _, hact⟩ :=
      activate_minted (d := d) (m := t.manager) hop hplayer hhost httl
    rw [hop] at hop'
    cases hop'
    unfold Fresh at hfresh
    simp only [hop] at hfresh
    have hnew := (hfresh m hm).1
    simp only [hact]
    exact fun heq => hnew heq.symm
  | deactivate target =>
    simp only [hop] at hends
    apply hoff
    simp only [apply, hop, deactivate_slots, hends, hplayer, and_self, if_true]
    exact hrevoked _
  | deactivateAll =>
    apply hoff
    simp only [apply, hop, deactivateAll_slots, hplayer, if_true]
    exact hrevoked _
  | _ => simp [hop] at hends

end

/-- The guest of `invited` spends the PIN, and the owner switches the slot off. -/
def spending : Event :=
  ⟨.redeemPin (qs "token") (qs "123456") (qs "key") (qs "agent") (qs "cookie"), 1010, 1010⟩

def seated : System where
  manager := apply padded invited.manager spending
  clock := 1010
  mints := record padded invited spending

def ending : Event := ⟨.deactivate 2, 1020, 1020⟩

def switchedOff : System where
  manager := apply padded seated.manager ending
  clock := 1020
  mints := record padded seated ending

end MoonlightWeb.Server.ShareManager
