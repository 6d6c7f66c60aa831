import MoonlightWeb.Bootstrap.TunnelExchange

/-! # Every fetch gets its own answer

What a page makes of the frames of an answer does not depend on what else is on
the channel.
-/

namespace MoonlightWeb.Bootstrap.TunnelExchange

open Lib Qt Js
open Bootstrap.Tunnel Bootstrap.TunnelFetch
open Server.TunnelFrame (kindRequest kindResponse kindBody kindEnd build parse_build)
open Server.TunnelRequests JsMap Function JsString List

variable {securityHeaders : QString → List (QString × QString)} {json : HeadJson}
variable {beyond : Nat → UInt8} {url : QString → Option Target} {toLower : QString → QString}

/-- The headers a page sees of those sent. -/
def seenHeaders (headers : List (JsString × JsString)) : Headers :=
  (headers.filter fun header => toLowerCase header.1 ≠ qs "set-cookie").foldl
    (fun seen header => (Headers.set seen header.1 header.2).getD seen) empty

section

variable (securityHeaders)

/-- The head of an answer, as the page reads it. -/
def Answer.reply (a : Answer) : Reply :=
  ⟨a.response.statusCode, responseHeaders securityHeaders a.response a.hostHeader⟩

/-- The response a fetch should come to: status, headers and body of its answer. -/
def Answer.own (a : Answer) : Option Response :=
  let bodyless := a.response.statusCode = 204 ∨ a.response.statusCode = 304 ∨
    a.response.statusCode < 200
  Response.new (if bodyless then none else some a.response.body) a.response.statusCode
    (seenHeaders (responseHeaders securityHeaders a.response a.hostHeader))

variable (json)

def Answer.frames (a : Answer) : List (UInt8 × QByteArray) :=
  responseFrames securityHeaders json.codec a.response a.hostHeader

end

theorem foldl_readHeader (headers : List (JsString × JsString)) (cookies : List JsString)
    (seen : Headers) :
    (headers.foldl readHeader (cookies, seen)).2 =
      (headers.filter fun header => toLowerCase header.1 ≠ qs "set-cookie").foldl
        (fun seen header => (Headers.set seen header.1 header.2).getD seen) seen := by
  induction headers generalizing cookies seen with
  | nil => rfl
  | cons header rest ih =>
    rw [foldl_cons, readHeader, filter_cons]
    by_cases hcookie : toLowerCase header.1 = qs "set-cookie"
    · rw [if_pos hcookie, ih]
      simp only [hcookie, ne_eq, not_true_eq_false, decide_false, Bool.false_eq_true, if_false]
    · rw [if_neg hcookie, ih]
      simp only [hcookie, ne_eq, not_false_eq_true, decide_true, if_true, foldl_cons]

theorem buildResponse_own (a : Answer) (timer : Bool) :
    (buildResponse ⟨some (a.reply securityHeaders), bodyChunks a.response.body, timer⟩).2 =
      a.own securityHeaders := by
  have hheaders := foldl_readHeader (a.reply securityHeaders).h [] empty
  unfold buildResponse
  rw [Option.getD_some, bodyChunks_flatten]
  simp only [hheaders]
  rfl

/-- The body frames among those that came. -/
def bodiesOf (frames : List (UInt8 × QByteArray)) : List QByteArray :=
  frames.filterMap fun frame => if frame.1 = kindBody then some frame.2 else none

theorem bodiesOf_bodies (chunks : List QByteArray) :
    bodiesOf (chunks.map fun chunk => (kindBody, chunk)) = chunks := by
  induction chunks with
  | nil => rfl
  | cons chunk rest ih =>
    simp only [bodiesOf] at ih
    simp [bodiesOf, ih]

variable {a : Answer}

/-- Which frame comes next says how much of the answer came. -/
theorem frames_split {came rest : List (UInt8 × QByteArray)}
    {frame : UInt8 × QByteArray} (h : a.frames securityHeaders json = came ++ frame :: rest) :
    (came = [] ∧ rest ≠ [] ∧ frame = (kindResponse, Server.TunnelFrame.encodeHead json.codec
        (.response a.response.statusCode
          (responseHeaders securityHeaders a.response a.hostHeader)) [])) ∨
      (came ≠ [] ∧ rest ≠ [] ∧ frame.1 = kindBody) ∨
      (came ≠ [] ∧ rest = [] ∧ frame.1 = kindEnd ∧ bodiesOf came = bodyChunks a.response.body) := by
  unfold Answer.frames responseFrames at h
  simp only [cons_append] at h
  cases came with
  | nil =>
    rw [nil_append, List.cons.injEq] at h
    refine Or.inl ⟨rfl, ?_, h.1.symm⟩
    rw [← h.2]
    exact append_ne_nil_of_right_ne_nil _ (cons_ne_nil _ _)
  | cons first came =>
    rw [cons_append, List.cons.injEq] at h
    obtain ⟨hfirst, htail⟩ := h
    cases rest using List.reverseRecOn with
    | nil =>
      obtain ⟨hcame, hframe⟩ := append_inj' htail rfl
      rw [List.cons.injEq] at hframe
      refine Or.inr (Or.inr ⟨cons_ne_nil _ _, rfl, by rw [← hframe.1], ?_⟩)
      have hhead : bodiesOf (first :: came) = bodiesOf came := by
        rw [bodiesOf, filterMap_cons, ← hfirst]
        rfl
      rw [hhead, ← hcame, bodiesOf_bodies]
    | append_singleton rest last =>
      have hsplit : (bodyChunks a.response.body).map (fun chunk => (kindBody, chunk)) ++
          [(kindEnd, [])] = (came ++ frame :: rest) ++ [last] := by
        rw [htail]
        simp
      obtain ⟨hbodies, -⟩ := append_inj' hsplit rfl
      have hmem : frame ∈ (bodyChunks a.response.body).map fun chunk => (kindBody, chunk) := by
        rw [hbodies]
        exact mem_append_right _ mem_cons_self
      obtain ⟨chunk, -, rfl⟩ := mem_map.mp hmem
      exact Or.inr (Or.inl ⟨cons_ne_nil _ _, append_ne_nil_of_right_ne_nil _
        (cons_ne_nil _ _), rfl⟩)

def replyKind (kind : UInt8) : Bool := kind = kindResponse || kind = kindBody || kind = kindEnd

theorem readHead_reply (hlength : (json.codec.toJson (.response a.response.statusCode
      (responseHeaders securityHeaders a.response a.hostHeader))).length < 2 ^ 32)
    (hformed : ∀ member ∈ responseHeaders securityHeaders a.response a.hostHeader,
      isWellFormed member.1 = true ∧ isWellFormed member.2 = true) :
    readHead json.codec (Server.TunnelFrame.encodeHead json.codec (.response a.response.statusCode
      (responseHeaders securityHeaders a.response a.hostHeader)) []) =
      some (a.reply securityHeaders) := by
  rw [Server.TunnelFrame.encodeHead_eq, Nat.mod_eq_of_lt hlength,
    readHead_prefixed json.codec [] hlength, json.codec.parse_toJson,
    json.object_response _ _ hformed]
  rfl

variable {payload : QByteArray} {page : Page} {id : UInt32} {kind : UInt8}

theorem onChannelMessage_other (h : replyKind kind = false) :
    onChannelMessage json.codec page (build kind id payload) = page := by
  simp only [replyKind, Bool.or_eq_false_iff, decide_eq_false_iff_not] at h
  rw [onChannelMessage, readFrame_build]
  simp only
  rw [if_neg h.1.1, if_neg h.1.2, if_neg h.2]

/-- A frame for a fetch that waits no longer. -/
theorem onChannelMessage_unknown (h : page.pending.get id.toNat = none) :
    onChannelMessage json.codec page (build kind id payload) = page := by
  rw [onChannelMessage, readFrame_build]
  simp only [h, ite_self]

variable {waiter : Waiter}

variable (h : page.pending.get id.toNat = some waiter)

include h

theorem onChannelMessage_response {head : Reply}
    (hhead : readHead json.codec payload = some head) :
    onChannelMessage json.codec page (build kindResponse id payload) = { page with
        pending := page.pending.set id.toNat { waiter with head := some head, timer := false } } := by
  rw [onChannelMessage, readFrame_build]
  simp only [h, hhead, if_true]

theorem onChannelMessage_body :
    onChannelMessage json.codec page (build kindBody id payload) = { page with
        pending := page.pending.set id.toNat
          { waiter with chunks := waiter.chunks ++ [payload] } } := by
  have hkind : kindBody ≠ kindResponse := by decide
  rw [onChannelMessage, readFrame_build]
  simp only [h, hkind, if_false, if_true]

theorem onChannelMessage_end :
    onChannelMessage json.codec page (build kindEnd id payload) = { page with
        pending := page.pending.delete id.toNat
        absorbed := page.absorbed ++ (buildResponse waiter).1
        settled :=
          match (buildResponse waiter).2 with
          | none => page.settled
          | some response => page.settled ++ [(id.toNat, .resolved response)] } := by
  have hresponse : kindEnd ≠ kindResponse := by decide
  have hbody : kindEnd ≠ kindBody := by decide
  rw [onChannelMessage, readFrame_build]
  cases hbuilt : (buildResponse waiter).2 with
  | none => simp [h, hresponse, hbody, hbuilt]
  | some response => simp [h, hresponse, hbody, hbuilt]

omit h

/-- The requests sent and not answered. -/
def waitingIds (t : Exchange) : List Nat :=
  t.toHost.map Asked.id ++ t.host.serving.map fun serving => serving.id.toNat

def answeredIds (t : Exchange) : List Nat := t.host.answered.map fun a => a.id.toNat

def settledIds (t : Exchange) : List Nat := t.page.settled.map Prod.fst

def onWay (toPage : List Sent) (id : UInt32) : List (UInt8 × QByteArray) :=
  (toPage.filter fun sent => decide (sent.id = id) && replyKind sent.kind).map fun sent =>
    (sent.kind, sent.payload)

section

variable (securityHeaders json)

/-- The ids drawn have room in a frame, and the heads sent come through: their
length has room in its four bytes and their text is well formed. -/
structure Carried (t : Exchange) : Prop where
  ids : t.page.nextId ≤ 2 ^ 32
  lengths : ∀ a ∈ t.host.answered, (json.codec.toJson (.response a.response.statusCode
    (responseHeaders securityHeaders a.response a.hostHeader))).length < 2 ^ 32
  formed : ∀ a ∈ t.host.answered,
    ∀ member ∈ responseHeaders securityHeaders a.response a.hostHeader,
      isWellFormed member.1 = true ∧ isWellFormed member.2 = true

/-- How much of an answer came: the rest of its frames is on the way, and the
fetch, if it waits still, has what came and no more. -/
def Progress (page : Page) (toPage : List Sent) (a : Answer) : Prop :=
  ∃ came, a.frames securityHeaders json = came ++ onWay toPage a.id ∧
    ∀ waiter, page.pending.get a.id.toNat = some waiter →
      onWay toPage a.id ≠ [] ∧
      waiter.head = (if came = [] then none else some (a.reply securityHeaders)) ∧
      waiter.chunks = bodiesOf came

structure Inv (t : Exchange) : Prop where
  nodup : (waitingIds t ++ answeredIds t).Nodup
  drawn : ∀ id ∈ waitingIds t ++ answeredIds t, id < t.page.nextId
  pending_drawn : ∀ id, t.page.pending.get id ≠ none → id < t.page.nextId
  settled_drawn : ∀ id ∈ settledIds t, id < t.page.nextId
  settled_once : (settledIds t).Nodup
  settled_done : ∀ id ∈ settledIds t, t.page.pending.get id = none
  progress : ∀ a ∈ t.host.answered, Progress securityHeaders json t.page t.toPage a
  quiet : ∀ id : UInt32, id.toNat ∉ answeredIds t → onWay t.toPage id = [] ∧
    ∀ waiter, t.page.pending.get id.toNat = some waiter →
      waiter.head = none ∧ waiter.chunks = []
  own : ∀ id response, (id, Outcome.resolved response) ∈ t.page.settled →
    ∃ a ∈ t.host.answered, a.id.toNat = id ∧ a.own securityHeaders = some response
  kept : ∀ id ∈ waitingIds t ++ answeredIds t, t.page.pending.get id ≠ none ∨
    id ∈ settledIds t ∨ ∃ a ∈ t.host.answered, a.id.toNat = id ∧ a.own securityHeaders = none

end

theorem inv_start : Inv securityHeaders json start where
  nodup := nodup_nil
  drawn := fun _ h => absurd h (by simp [waitingIds, answeredIds, start])
  pending_drawn := fun _ h => absurd rfl h
  settled_drawn := fun _ h => absurd h (by simp [settledIds, start])
  settled_once := nodup_nil
  settled_done := fun _ h => absurd h (by simp [settledIds, start])
  progress := fun _ h => absurd h (by simp [start])
  quiet := fun _ _ => ⟨rfl, fun _ h => absurd h (by simp [start])⟩
  own := fun _ _ h => absurd h (by simp [start])
  kept := fun _ h => absurd h (by simp [waitingIds, answeredIds, start])

variable {t : Exchange}

/-- Requests taken off the waiting ones, or moved among them. -/
theorem Inv.fewer (h : Inv securityHeaders json t) (toHost : List Asked)
    (host : Host) (hanswered : host.answered = t.host.answered)
    (hsub : (toHost.map Asked.id ++ host.serving.map fun serving => serving.id.toNat).Subperm
      (waitingIds t)) :
    Inv securityHeaders json { t with toHost := toHost, host := host } := by
  have hids : answeredIds { t with toHost := toHost, host := host } = answeredIds t := by
    rw [answeredIds, hanswered, answeredIds]
  have hall : (waitingIds { t with toHost := toHost, host := host } ++
      answeredIds { t with toHost := toHost, host := host }).Subperm
        (waitingIds t ++ answeredIds t) := by
    rw [hids]
    exact (subperm_append_right _).mpr hsub
  have hsubset := hall.subset
  obtain ⟨some, hperm, hsome⟩ := hall
  refine ⟨hperm.nodup_iff.mp (h.nodup.sublist hsome), fun id hid => h.drawn id (hsubset hid),
    h.pending_drawn, h.settled_drawn, h.settled_once, h.settled_done, ?_, ?_, ?_, ?_⟩
  · rw [hanswered]
    exact h.progress
  · rw [hids]
    exact h.quiet
  · rw [hanswered]
    exact h.own
  · rw [hanswered]
    exact fun id hid => h.kept id (hsubset hid)

/-! ### The host -/

theorem onWay_append (first rest : List Sent) (id : UInt32) :
    onWay (first ++ rest) id = onWay first id ++ onWay rest id := by
  rw [onWay, filter_append, map_append, onWay, onWay]

theorem replyKind_frames {frame : UInt8 × QByteArray}
    (h : frame ∈ a.frames securityHeaders json) : replyKind frame.1 = true := by
  unfold Answer.frames responseFrames at h
  simp only [mem_append, mem_cons, mem_map, not_mem_nil, or_false] at h
  rcases h with (rfl | ⟨chunk, -, rfl⟩) | rfl
  · rfl
  · rfl
  · rfl

theorem onWay_frames (a : Answer) (id : UInt32) :
    onWay ((a.frames securityHeaders json).map fun frame => ⟨a.id, frame.1, frame.2⟩) id =
      if a.id = id then a.frames securityHeaders json else [] := by
  have hall : ∀ frame ∈ a.frames securityHeaders json, replyKind frame.1 = true :=
    fun frame h => replyKind_frames h
  generalize a.frames securityHeaders json = frames at hall
  rw [onWay, filter_map, map_map]
  by_cases hid : a.id = id
  · rw [if_pos hid, filter_eq_self.mpr]
    · exact map_id frames
    · intro frame hframe
      simp only [comp, hid, decide_true, Bool.true_and]
      exact hall frame hframe
  · rw [if_neg hid, filter_eq_nil_iff.mpr]
    · rfl
    · intro frame _
      simp only [comp, hid, decide_false, Bool.false_and, Bool.false_eq_true,
        not_false_eq_true]

theorem Inv.sendResponse (h : Inv securityHeaders json t)
    (hfresh : a.id.toNat ∉ waitingIds t ++ answeredIds t) (hdrawn : a.id.toNat < t.page.nextId)
    (hkept : t.page.pending.get a.id.toNat ≠ none ∨ a.id.toNat ∈ settledIds t) :
    Inv securityHeaders json (sendResponse securityHeaders json t a) := by
  rw [mem_append, not_or] at hfresh
  have honWay : ∀ id, onWay (TunnelExchange.sendResponse securityHeaders json t a).toPage id =
      onWay t.toPage id ++ if a.id = id then a.frames securityHeaders json else [] := by
    intro id
    rw [← onWay_frames]
    exact onWay_append t.toPage _ id
  have hids : answeredIds (TunnelExchange.sendResponse securityHeaders json t a) =
      answeredIds t ++ [a.id.toNat] := by
    show (t.host.answered ++ [a]).map _ = _
    rw [map_append]
    rfl
  have hmem : ∀ id, id ∈ waitingIds (TunnelExchange.sendResponse securityHeaders json t a) ++
      answeredIds (TunnelExchange.sendResponse securityHeaders json t a) ↔
        id ∈ waitingIds t ++ answeredIds t ∨ id = a.id.toNat := by
    intro id
    rw [hids, ← append_assoc, mem_append, mem_singleton]
    rfl
  obtain ⟨hquiet, hwaiter⟩ := h.quiet a.id hfresh.2
  refine ⟨?_, ?_, h.pending_drawn, h.settled_drawn, h.settled_once, h.settled_done, ?_, ?_, ?_,
    ?_⟩
  · rw [hids, ← append_assoc]
    refine nodup_append.mpr ⟨h.nodup, nodup_singleton _, ?_⟩
    intro id hid other hother heq
    rw [mem_singleton.mp hother] at heq
    rw [heq, mem_append] at hid
    exact hid.elim hfresh.1 hfresh.2
  · intro id hid
    rcases (hmem id).mp hid with hold | rfl
    · exact h.drawn id hold
    · exact hdrawn
  · intro b hb
    rcases mem_append.mp hb with hold | hnew
    · obtain ⟨came, hframes, hfetch⟩ := h.progress b hold
      have hne : ¬ a.id = b.id := by
        intro heq
        exact hfresh.2 (heq ▸ mem_map.mpr ⟨b, hold, rfl⟩)
      refine ⟨came, ?_, ?_⟩
      · rw [honWay, if_neg hne, append_nil]
        exact hframes
      · rw [honWay, if_neg hne, append_nil]
        exact hfetch
    · obtain rfl := mem_singleton.mp hnew
      refine ⟨[], ?_, ?_⟩
      · rw [honWay, if_pos rfl, hquiet]
        rfl
      · intro waiter hget
        obtain ⟨hhead, hchunks⟩ := hwaiter waiter hget
        refine ⟨?_, hhead, hchunks⟩
        rw [honWay, if_pos rfl, hquiet, Answer.frames, responseFrames]
        simp
  · intro id hid
    rw [hids, mem_append, mem_singleton, not_or] at hid
    have hne : ¬ a.id = id := fun heq => hid.2 (heq ▸ rfl)
    rw [honWay, if_neg hne, append_nil]
    exact h.quiet id hid.1
  · intro id response hmem
    obtain ⟨b, hb, hown⟩ := h.own id response hmem
    exact ⟨b, mem_append_left _ hb, hown⟩
  · intro id hid
    rcases (hmem id).mp hid with hold | rfl
    · rcases h.kept id hold with hpending | hsettled | ⟨b, hb, hown⟩
      · exact Or.inl hpending
      · exact Or.inr (Or.inl hsettled)
      · exact Or.inr (Or.inr ⟨b, mem_append_left _ hb, hown⟩)
    · rcases hkept with hpending | hsettled
      · exact Or.inl hpending
      · exact Or.inr (Or.inl hsettled)

theorem parse_requestFrame {id : Nat} (hid : id < 2 ^ 32) (head : Head) (body : List UInt8) :
    Server.TunnelFrame.parse beyond (requestFrame json.codec id head body) =
      some (kindRequest, UInt32.ofNat id, encodeHead json.codec head body) := by
  have hword : (UInt32.ofNat id).toNat = id := by
    rw [UInt32.toNat_ofNat']
    exact Nat.mod_eq_of_lt hid
  have hbuild : requestFrame json.codec id head body =
      build kindRequest (UInt32.ofNat id) (encodeHead json.codec head body) := by
    rw [requestFrame, encodeFrame_eq, Server.TunnelFrame.build_eq, hword]
  rw [hbuild, parse_build]

theorem Inv.request {asked : Asked} {rest : List Asked}
    (h : Inv securityHeaders json t) (hids : t.page.nextId ≤ 2 ^ 32)
    (hasked : t.toHost = asked :: rest) :
    Inv securityHeaders json (hostReceives securityHeaders json beyond url toLower
      { t with toHost := rest } (requestFrame json.codec asked.id asked.head asked.body)) := by
  have hwaiting : waitingIds t = asked.id :: (rest.map Asked.id ++
      t.host.serving.map fun serving => serving.id.toNat) := by
    rw [waitingIds, hasked, map_cons, cons_append]
  have hmem : asked.id ∈ waitingIds t ++ answeredIds t := by
    rw [hwaiting]
    exact mem_cons_self
  have hdrawn := h.drawn _ hmem
  have hword : (UInt32.ofNat asked.id).toNat = asked.id := by
    rw [UInt32.toNat_ofNat']
    exact Nat.mod_eq_of_lt (by omega)
  have hrest : Inv securityHeaders json { t with toHost := rest } := by
    refine h.fewer rest t.host rfl ?_
    rw [hwaiting]
    exact (sublist_cons_self _ _).subperm
  have hnodup := h.nodup
  rw [hwaiting, cons_append, nodup_cons] at hnodup
  unfold hostReceives
  split_ifs with hpresent
  · exact hrest
  · rw [parse_requestFrame (by omega)]
    simp only [if_true]
    split
    case h_1 response hrefused =>
      refine hrest.sendResponse ?_ ?_ ?_
      · rw [hword]
        exact hnodup.1
      · rw [hword]
        exact hdrawn
      · rw [hword]
        rcases h.kept _ hmem with hpending | hsettled | ⟨a, ha, haid, -⟩
        · exact Or.inl hpending
        · exact Or.inr hsettled
        · have hanswered : asked.id ∈ answeredIds t := mem_map.mpr ⟨a, ha, haid⟩
          exact absurd (mem_append_right _ hanswered) hnodup.1
    case h_2 hignored => exact hrest
    case h_3 serving haccepted =>
      obtain ⟨hid, -⟩ := handleRequestFrame_accepted haccepted
      refine h.fewer rest { t.host with
        inFlight := t.host.inFlight + 1, serving := t.host.serving ++ [serving] } rfl ?_
      rw [hwaiting, map_append, map_singleton, hid, hword, ← append_assoc]
      exact (perm_append_singleton _ _).subperm

variable {k : Nat}

theorem Inv.answer {serving : Serving}
    (h : Inv securityHeaders json t) (hserving : t.host.serving[k]? = some serving)
    (response : HttpResponse) :
    Inv securityHeaders json (hostAnswers securityHeaders json
      { t with host := { t.host with serving := t.host.serving.eraseIdx k } } serving
      response) := by
  obtain ⟨hk, hget⟩ := List.getElem?_eq_some_iff.mp hserving
  have hperm : (serving :: t.host.serving.eraseIdx k).Perm t.host.serving := by
    rw [← hget]
    exact getElem_cons_eraseIdx_perm hk
  have hwaiting : (serving.id.toNat :: (t.toHost.map Asked.id ++
      (t.host.serving.eraseIdx k).map fun serving => serving.id.toNat)).Perm (waitingIds t) := by
    refine (perm_middle).symm.trans ?_
    exact (hperm.map fun serving => serving.id.toNat).append_left _
  have hmem : serving.id.toNat ∈ waitingIds t ++ answeredIds t :=
    mem_append_left _ (hwaiting.subset mem_cons_self)
  have hnodup : (serving.id.toNat :: ((t.toHost.map Asked.id ++
      (t.host.serving.eraseIdx k).map fun serving => serving.id.toNat) ++
        answeredIds t)).Nodup := by
    rw [← cons_append]
    exact (hwaiting.append_right _).nodup_iff.mpr h.nodup
  rw [nodup_cons] at hnodup
  have hsub : (t.toHost.map Asked.id ++
      (t.host.serving.eraseIdx k).map fun serving => serving.id.toNat).Subperm (waitingIds t) :=
    (sublist_cons_self _ _).subperm.trans hwaiting.subperm
  unfold hostAnswers
  split_ifs with hpresent
  · exact h.fewer t.toHost { t.host with serving := t.host.serving.eraseIdx k } rfl hsub
  · have hfewer := h.fewer t.toHost
      { t.host with serving := t.host.serving.eraseIdx k, inFlight := t.host.inFlight - 1 } rfl hsub
    refine hfewer.sendResponse hnodup.1 (h.drawn _ hmem) ?_
    rcases h.kept _ hmem with hpending | hsettled | ⟨a, ha, haid, -⟩
    · exact Or.inl hpending
    · exact Or.inr hsettled
    · have hanswered : serving.id.toNat ∈ answeredIds t := mem_map.mpr ⟨a, ha, haid⟩
      exact absurd (mem_append_right _ hanswered) hnodup.1

/-! ### The page -/

theorem fetch_pending_self (page : Page) (taken : Bool) :
    (fetch page taken).pending.get page.nextId =
      if taken then some ⟨none, [], true⟩ else none := by
  cases taken with
  | true => exact get_set_self _ _ _
  | false => exact get_delete_self _ _

theorem fetch_pending_of_ne {id : Nat} (taken : Bool) (h : id ≠ page.nextId) :
    (fetch page taken).pending.get id = page.pending.get id := by
  cases taken with
  | true => exact get_set_of_ne _ _ h
  | false => exact (get_delete_of_ne _ h).trans (get_set_of_ne _ _ h)

theorem fetch_settled (page : Page) (taken : Bool) :
    (fetch page taken).settled = page.settled ++
      if taken then [] else [(page.nextId, .rejected "the connection to your machine is not open")]
    := by
  cases taken with
  | true => exact (append_nil _).symm
  | false => rfl

theorem fetch_nextId (page : Page) (taken : Bool) :
    (fetch page taken).nextId = page.nextId + 1 := by
  cases taken <;> rfl

/-- A fetch takes an id nothing else has. -/
theorem Inv.fetch (h : Inv securityHeaders json t) (head : Head)
    (body : List UInt8) (taken : Bool) :
    Inv securityHeaders json { t with
        page := TunnelFetch.fetch t.page taken
        toHost := if taken then t.toHost ++ [⟨t.page.nextId, head, body⟩] else t.toHost } := by
  set u : Exchange :=
    { t with
      page := TunnelFetch.fetch t.page taken
      toHost := if taken then t.toHost ++ [⟨t.page.nextId, head, body⟩] else t.toHost } with hu
  have hnext : u.page.nextId = t.page.nextId + 1 := fetch_nextId t.page taken
  have hwaiting : (waitingIds u).Perm
      ((if taken then [t.page.nextId] else []) ++ waitingIds t) := by
    cases taken with
    | true =>
      show ((t.toHost ++ [Asked.mk t.page.nextId head body]).map Asked.id ++ _).Perm _
      rw [map_append, append_assoc]
      exact perm_middle
    | false => exact List.Perm.refl _
  have hmem : ∀ id, id ∈ waitingIds u ++ answeredIds u ↔
      (taken = true ∧ id = t.page.nextId) ∨ id ∈ waitingIds t ++ answeredIds t := by
    intro id
    rw [mem_append, hwaiting.mem_iff]
    cases taken with
    | true =>
      show _ ∨ id ∈ answeredIds t ↔ _
      simp [or_assoc]
    | false =>
      show _ ∨ id ∈ answeredIds t ↔ _
      simp
  have hsettled : settledIds u =
      settledIds t ++ if taken then [] else [t.page.nextId] := by
    show (TunnelFetch.fetch t.page taken).settled.map Prod.fst = _
    rw [fetch_settled, map_append]
    cases taken <;> rfl
  have hfresh : t.page.nextId ∉ waitingIds t ++ answeredIds t :=
    fun hid => Nat.lt_irrefl _ (h.drawn _ hid)
  refine ⟨?_, ?_, ?_, ?_, ?_, ?_, ?_, ?_, ?_, ?_⟩
  · refine ((hwaiting.append_right _).nodup_iff).mpr ?_
    cases taken with
    | true =>
      show (t.page.nextId :: (waitingIds t ++ answeredIds t)).Nodup
      exact nodup_cons.mpr ⟨hfresh, h.nodup⟩
    | false => exact h.nodup
  · intro id hid
    rcases (hmem id).mp hid with ⟨-, rfl⟩ | hold
    · omega
    · have hlt := h.drawn id hold
      omega
  · intro id hpending
    by_cases hid : id = t.page.nextId
    · omega
    · have hlt := h.pending_drawn id (by rwa [← fetch_pending_of_ne taken hid])
      omega
  · intro id hid
    rw [hsettled, mem_append] at hid
    rcases hid with hold | hnew
    · have hlt := h.settled_drawn id hold
      omega
    · have heq : id = t.page.nextId := by
        cases taken <;> simp at hnew
        exact hnew
      omega
  · rw [hsettled]
    cases taken with
    | true => simpa using h.settled_once
    | false =>
      refine nodup_append.mpr ⟨h.settled_once, nodup_singleton _, ?_⟩
      intro id hid other hother heq
      have hlt := h.settled_drawn id hid
      rw [heq, mem_singleton.mp hother] at hlt
      exact Nat.lt_irrefl _ hlt
  · intro id hid
    show (TunnelFetch.fetch t.page taken).pending.get id = none
    rw [hsettled, mem_append] at hid
    rcases hid with hold | hnew
    · have hlt := h.settled_drawn id hold
      rw [fetch_pending_of_ne taken (by omega)]
      exact h.settled_done id hold
    · cases taken with
      | true => simp at hnew
      | false =>
        rw [mem_singleton.mp hnew, fetch_pending_self]
        rfl
  · intro a ha
    obtain ⟨came, hframes, hfetch⟩ := h.progress a ha
    refine ⟨came, hframes, fun waiter hget => hfetch waiter ?_⟩
    have hlt := h.drawn a.id.toNat
      (mem_append_right _ (mem_map.mpr ⟨a, ha, rfl⟩))
    rwa [← fetch_pending_of_ne taken (by omega)]
  · intro id hid
    obtain ⟨hway, hfetch⟩ := h.quiet id hid
    refine ⟨hway, fun waiter hget => ?_⟩
    change (TunnelFetch.fetch t.page taken).pending.get id.toNat = some waiter at hget
    by_cases hself : id.toNat = t.page.nextId
    · rw [hself, fetch_pending_self] at hget
      cases taken with
      | true =>
        obtain rfl := Option.some.inj hget
        exact ⟨rfl, rfl⟩
      | false => exact absurd hget (by simp)
    · rw [fetch_pending_of_ne taken hself] at hget
      exact hfetch waiter hget
  · intro id response hresolved
    change (id, Outcome.resolved response) ∈ (TunnelFetch.fetch t.page taken).settled at hresolved
    rw [fetch_settled, mem_append] at hresolved
    rcases hresolved with hold | hnew
    · exact h.own id response hold
    · cases taken <;> simp at hnew
  · intro id hid
    show (TunnelFetch.fetch t.page taken).pending.get id ≠ none ∨ _
    rcases (hmem id).mp hid with ⟨rfl, rfl⟩ | hold
    · rw [fetch_pending_self]
      exact Or.inl (by simp)
    · have hlt := h.drawn id hold
      rw [fetch_pending_of_ne taken (by omega), hsettled]
      rcases h.kept id hold with hpending | hdone | hnone
      · exact Or.inl hpending
      · exact Or.inr (Or.inl (mem_append_left _ hdone))
      · exact Or.inr (Or.inr hnone)

/-- Fetches that wait no longer, each either settled or without a response to be had. -/
theorem Inv.turn (h : Inv securityHeaders json t) (page : Page)
    (toPage : List Sent) (new : List (Nat × Outcome)) (hnext : page.nextId = t.page.nextId)
    (hgone : ∀ id, t.page.pending.get id = none → page.pending.get id = none)
    (hsettled : page.settled = t.page.settled ++ new) (honce : (new.map Prod.fst).Nodup)
    (hdone : ∀ id ∈ new.map Prod.fst,
      t.page.pending.get id ≠ none ∧ page.pending.get id = none)
    (hown : ∀ id response, (id, Outcome.resolved response) ∈ new →
      ∃ a ∈ t.host.answered, a.id.toNat = id ∧ a.own securityHeaders = some response)
    (hkept : ∀ id, t.page.pending.get id ≠ none → page.pending.get id ≠ none ∨
      id ∈ new.map Prod.fst ∨
        ∃ a ∈ t.host.answered, a.id.toNat = id ∧ a.own securityHeaders = none)
    (hprogress : ∀ a ∈ t.host.answered, Progress securityHeaders json page toPage a)
    (hquiet : ∀ id : UInt32, id.toNat ∉ answeredIds t → onWay toPage id = [] ∧
      page.pending.get id.toNat ∈ [none, t.page.pending.get id.toNat]) :
    Inv securityHeaders json { t with page := page, toPage := toPage } := by
  have hids : settledIds { t with page := page, toPage := toPage } =
      settledIds t ++ new.map Prod.fst := by
    rw [settledIds, hsettled, map_append, settledIds]
  refine ⟨h.nodup, ?_, ?_, ?_, ?_, ?_, hprogress, ?_, ?_, ?_⟩
  · intro id hid
    rw [hnext]
    exact h.drawn id hid
  · intro id hpending
    rw [hnext]
    exact h.pending_drawn id fun hnone => hpending (hgone id hnone)
  · intro id hid
    rw [hids, mem_append] at hid
    rw [hnext]
    rcases hid with hold | hnew
    · exact h.settled_drawn id hold
    · exact h.pending_drawn id (hdone id hnew).1
  · rw [hids]
    refine nodup_append.mpr ⟨h.settled_once, honce, ?_⟩
    intro id hold other hnew heq
    exact (hdone other hnew).1 (heq ▸ h.settled_done id hold)
  · intro id hid
    rw [hids, mem_append] at hid
    rcases hid with hold | hnew
    · exact hgone id (h.settled_done id hold)
    · exact (hdone id hnew).2
  · intro id hid
    obtain ⟨hway, hpending⟩ := hquiet id hid
    refine ⟨hway, fun waiter hget => ?_⟩
    change page.pending.get id.toNat = some waiter at hget
    rw [hget, mem_cons, mem_singleton] at hpending
    rcases hpending with hnone | hold
    · exact absurd hnone (by simp)
    · exact (h.quiet id hid).2 waiter hold.symm
  · intro id response hresolved
    change (id, Outcome.resolved response) ∈ page.settled at hresolved
    rw [hsettled, mem_append] at hresolved
    exact hresolved.elim (h.own id response) (hown id response)
  · intro id hid
    rw [hids, mem_append]
    rcases h.kept id hid with hpending | hold | hnone
    · rcases hkept id hpending with hstill | hnew | hnone
      · exact Or.inl hstill
      · exact Or.inr (Or.inl (Or.inr hnew))
      · exact Or.inr (Or.inr hnone)
    · exact Or.inr (Or.inl (Or.inl hold))
    · exact Or.inr (Or.inr hnone)

/-- Fetches given up. -/
theorem Inv.reject (h : Inv securityHeaders json t) (page : Page)
    (new : List (Nat × Outcome)) (hnext : page.nextId = t.page.nextId)
    (hsettled : page.settled = t.page.settled ++ new) (honce : (new.map Prod.fst).Nodup)
    (hrejected : ∀ entry ∈ new, ∃ message, entry.2 = .rejected message)
    (hdone : ∀ id ∈ new.map Prod.fst,
      t.page.pending.get id ≠ none ∧ page.pending.get id = none)
    (hstill : ∀ id, id ∉ new.map Prod.fst → page.pending.get id = t.page.pending.get id) :
    Inv securityHeaders json { t with page := page } := by
  have hshrinks : ∀ id waiter, page.pending.get id = some waiter →
      t.page.pending.get id = some waiter := by
    intro id waiter hget
    by_cases hid : id ∈ new.map Prod.fst
    · rw [(hdone id hid).2] at hget
      exact absurd hget (by simp)
    · rwa [← hstill id hid]
  refine h.turn page t.toPage new hnext ?_ hsettled honce hdone ?_ ?_ ?_ ?_
  · intro id hnone
    by_cases hid : id ∈ new.map Prod.fst
    · exact (hdone id hid).2
    · rw [hstill id hid, hnone]
  · intro id response hmem
    obtain ⟨message, hmessage⟩ := hrejected _ hmem
    exact absurd hmessage (by simp)
  · intro id hpending
    by_cases hid : id ∈ new.map Prod.fst
    · exact Or.inr (Or.inl hid)
    · rw [hstill id hid]
      exact Or.inl hpending
  · intro a ha
    obtain ⟨came, hframes, hfetch⟩ := h.progress a ha
    exact ⟨came, hframes, fun waiter hget => hfetch waiter (hshrinks _ waiter hget)⟩
  · intro id hid
    refine ⟨(h.quiet id hid).1, ?_⟩
    by_cases hnew : id.toNat ∈ new.map Prod.fst
    · rw [(hdone _ hnew).2]
      exact mem_cons_self
    · rw [hstill _ hnew]
      exact mem_cons_of_mem _ mem_cons_self

/-! ### A frame that reaches the page -/

theorem onWay_cons (sent : Sent) (rest : List Sent) (id : UInt32) :
    onWay (sent :: rest) id =
      if sent.id = id ∧ replyKind sent.kind = true then (sent.kind, sent.payload) :: onWay rest id
      else onWay rest id := by
  unfold onWay
  rw [filter_cons]
  by_cases hid : sent.id = id
  · cases hkind : replyKind sent.kind <;> simp [hid]
  · simp [hid]

variable {sent : Sent}

/-- The first frame of its id taken off the channel. -/
theorem onWay_eraseIdx {toPage : List Sent} (hsent : toPage[k]? = some sent)
    (hfirst : (toPage.take k).any (fun earlier => earlier.id = sent.id) = false) (id : UInt32) :
    onWay toPage id =
      if sent.id = id ∧ replyKind sent.kind = true then
        (sent.kind, sent.payload) :: onWay (toPage.eraseIdx k) id
      else onWay (toPage.eraseIdx k) id := by
  obtain ⟨hk, hget⟩ := List.getElem?_eq_some_iff.mp hsent
  have hsplit : toPage = toPage.take k ++ sent :: toPage.drop (k + 1) := by
    rw [← hget, cons_getElem_drop_succ, take_append_drop]
  have herase : toPage.eraseIdx k = toPage.take k ++ toPage.drop (k + 1) :=
    eraseIdx_eq_take_drop_succ toPage k
  have hnone : sent.id = id → onWay (toPage.take k) id = [] := by
    intro hid
    rw [onWay, map_eq_nil_iff, filter_eq_nil_iff]
    intro earlier hearlier
    have hne := any_eq_false.mp hfirst earlier hearlier
    simp only [decide_eq_true_eq] at hne
    rw [hid] at hne
    simp [hne]
  rw [herase, onWay_append]
  conv_lhs => rw [hsplit, onWay_append, onWay_cons]
  by_cases hid : sent.id = id
  · rw [hnone hid]
    simp
  · simp [hid]

theorem bodiesOf_append (first rest : List (UInt8 × QByteArray)) :
    bodiesOf (first ++ rest) = bodiesOf first ++ bodiesOf rest :=
  filterMap_append

/-- No two answers have one id. -/
theorem Inv.answer_unique {a b : Answer} (h : Inv securityHeaders json t)
    (ha : a ∈ t.host.answered) (hb : b ∈ t.host.answered) (hid : a.id.toNat = b.id.toNat) :
    a = b :=
  inj_on_of_nodup_map (nodup_append.mp h.nodup).2.1 ha hb hid

/-- The waiter of an answer's fetch, moved on by one frame. -/
theorem Inv.advance (h : Inv securityHeaders json t) (new : List (Nat × Outcome))
    (hsent : t.toPage[k]? = some sent)
    (hfirst : (t.toPage.take k).any (fun earlier => earlier.id = sent.id) = false)
    (hreply : replyKind sent.kind = true) (ha : a ∈ t.host.answered) (hid : a.id = sent.id)
    (hnext : page.nextId = t.page.nextId)
    (hothers : ∀ id, id ≠ sent.id.toNat → page.pending.get id = t.page.pending.get id)
    (hgone : t.page.pending.get sent.id.toNat = none → page.pending.get sent.id.toNat = none)
    (hsettled : page.settled = t.page.settled ++ new)
    (hnew : new = [] ∨ ∃ response, new = [(sent.id.toNat, .resolved response)] ∧
      a.own securityHeaders = some response ∧ t.page.pending.get sent.id.toNat ≠ none ∧
      page.pending.get sent.id.toNat = none)
    (hkept : t.page.pending.get sent.id.toNat ≠ none → page.pending.get sent.id.toNat ≠ none ∨
      sent.id.toNat ∈ new.map Prod.fst ∨ a.own securityHeaders = none)
    (hwaiter : ∀ came, a.frames securityHeaders json = came ++ (sent.kind, sent.payload) ::
        onWay (t.toPage.eraseIdx k) sent.id → ∀ waiter,
      page.pending.get sent.id.toNat = some waiter → onWay (t.toPage.eraseIdx k) sent.id ≠ [] ∧
        waiter.head = some (a.reply securityHeaders) ∧
        waiter.chunks = bodiesOf (came ++ [(sent.kind, sent.payload)])) :
    Inv securityHeaders json { t with page := page, toPage := t.toPage.eraseIdx k } := by
  have hway := onWay_eraseIdx hsent hfirst
  have hwayOther : ∀ id, id ≠ sent.id → onWay t.toPage id = onWay (t.toPage.eraseIdx k) id := by
    intro id hne
    rw [hway id, if_neg fun hboth => hne hboth.1.symm]
  refine h.turn page (t.toPage.eraseIdx k) new hnext ?_ hsettled ?_ ?_ ?_ ?_ ?_ ?_
  · intro id hnone
    by_cases hself : id = sent.id.toNat
    · rw [hself] at hnone ⊢
      exact hgone hnone
    · rw [hothers id hself, hnone]
  · rcases hnew with rfl | ⟨response, rfl, -⟩
    · exact nodup_nil
    · exact nodup_singleton _
  · intro id hmem
    rcases hnew with rfl | ⟨response, rfl, -, hpending, hdone⟩
    · exact absurd hmem (by simp)
    · rw [map_singleton, mem_singleton] at hmem
      rw [hmem]
      exact ⟨hpending, hdone⟩
  · intro id response hmem
    rcases hnew with rfl | ⟨response', rfl, hown, -⟩
    · exact absurd hmem (by simp)
    · rw [mem_singleton, Prod.mk.injEq, Outcome.resolved.injEq] at hmem
      exact ⟨a, ha, by rw [hmem.1, hid], by rw [hmem.2, hown]⟩
  · intro id hpending
    by_cases hself : id = sent.id.toNat
    · rw [hself] at hpending ⊢
      rcases hkept hpending with hstill | hnew | hnone
      · exact Or.inl hstill
      · exact Or.inr (Or.inl hnew)
      · exact Or.inr (Or.inr ⟨a, ha, by rw [hid], hnone⟩)
    · rw [hothers id hself]
      exact Or.inl hpending
  · intro b hb
    by_cases hself : b.id = sent.id
    · obtain rfl : b = a := h.answer_unique hb ha (by rw [hself, hid])
      obtain ⟨came, hframes, -⟩ := h.progress b hb
      rw [hself, hway, if_pos ⟨rfl, hreply⟩] at hframes
      refine ⟨came ++ [(sent.kind, sent.payload)], ?_, ?_⟩
      · rw [hself, hframes, append_assoc]
        rfl
      · intro waiter hget
        rw [hself] at hget ⊢
        obtain ⟨hrest, hhead, hchunks⟩ := hwaiter came hframes waiter hget
        refine ⟨hrest, ?_, hchunks⟩
        rw [if_neg (append_ne_nil_of_right_ne_nil _ (cons_ne_nil _ _))]
        exact hhead
    · have hne : b.id.toNat ≠ sent.id.toNat := fun heq => hself (UInt32.toNat_inj.mp heq)
      obtain ⟨came, hframes, hfetch⟩ := h.progress b hb
      rw [hwayOther b.id hself] at hframes hfetch
      exact ⟨came, hframes, fun waiter hget => hfetch waiter (by rwa [← hothers _ hne])⟩
  · intro id hunanswered
    have hne : id ≠ sent.id := by
      intro heq
      exact hunanswered (mem_map.mpr ⟨a, ha, by rw [hid, heq]⟩)
    rw [← hwayOther id hne, hothers id.toNat fun heq => hne (UInt32.toNat_inj.mp heq)]
    exact ⟨(h.quiet id hunanswered).1, mem_cons_of_mem _ mem_cons_self⟩

theorem Inv.receive (h : Inv securityHeaders json t)
    (hcarried : Carried securityHeaders json t) (hsent : t.toPage[k]? = some sent)
    (hfirst : (t.toPage.take k).any (fun earlier => earlier.id = sent.id) = false) :
    Inv securityHeaders json { t with
        page := onChannelMessage json.codec t.page (build sent.kind sent.id sent.payload)
        toPage := t.toPage.eraseIdx k } := by
  have hway := onWay_eraseIdx hsent hfirst
  cases hreply : replyKind sent.kind with
  | false =>
    rw [onChannelMessage_other hreply]
    have hsame : ∀ id, onWay t.toPage id = onWay (t.toPage.eraseIdx k) id := by
      intro id
      rw [hway id, if_neg (by simp [hreply])]
    refine h.turn t.page (t.toPage.eraseIdx k) [] rfl (fun _ => id) (append_nil _).symm
      nodup_nil (by simp) (by simp) (fun _ => Or.inl) ?_ ?_
    · intro a ha
      unfold Progress
      rw [← hsame]
      exact h.progress a ha
    · intro id hid
      rw [← hsame]
      exact ⟨(h.quiet id hid).1, mem_cons_of_mem _ mem_cons_self⟩
  | true =>
    -- The frame belongs to an answer.
    have hanswered : sent.id.toNat ∈ answeredIds t := by
      by_contra hnot
      have hnil := (h.quiet sent.id hnot).1
      rw [hway, if_pos ⟨rfl, hreply⟩] at hnil
      exact absurd hnil (cons_ne_nil _ _)
    obtain ⟨a, ha, hidNat⟩ := mem_map.mp hanswered
    have hid : a.id = sent.id := UInt32.toNat_inj.mp hidNat
    cases hget : t.page.pending.get sent.id.toNat with
    | none =>
      rw [onChannelMessage_unknown hget]
      refine h.advance [] hsent hfirst hreply ha hid rfl
        (fun _ _ => rfl) (fun hnone => hnone) (append_nil _).symm (Or.inl rfl)
        (fun hpending => absurd hget hpending) ?_
      intro came hframes waiter hwaiter
      rw [hget] at hwaiter
      exact absurd hwaiter (by simp)
    | some waiter =>
      obtain ⟨came, hframes, hfetch⟩ := h.progress a ha
      rw [hid, hway, if_pos ⟨rfl, hreply⟩] at hframes
      rw [hid] at hfetch
      obtain ⟨-, hhead, hchunks⟩ := hfetch waiter hget
      have hcame : ∀ came', a.frames securityHeaders json = came' ++ (sent.kind, sent.payload) ::
          onWay (t.toPage.eraseIdx k) sent.id → came' = came :=
        fun came' hframes' => append_cancel_right (hframes'.symm.trans hframes)
      have hsetOther : ∀ (value : Waiter) id, id ≠ sent.id.toNat →
          (t.page.pending.set sent.id.toNat value).get id = t.page.pending.get id :=
        fun value id hne => get_set_of_ne _ _ hne
      have hsetSome : ∀ value : Waiter,
          (t.page.pending.set sent.id.toNat value).get sent.id.toNat ≠ none := by
        intro value
        rw [get_set_self]
        simp
      have hnotNone : ∀ {P : Prop}, t.page.pending.get sent.id.toNat = none → P := by
        intro P hnone
        rw [hget] at hnone
        exact absurd hnone (by simp)
      rcases frames_split hframes with ⟨hnil, hrest, hframe⟩ | ⟨hsome, hrest, hkind⟩ |
        ⟨hsome, hrest, hkind, hbodies⟩
      · -- The head.
        obtain ⟨hkind, hpayload⟩ := Prod.mk.inj hframe
        have hread := readHead_reply (hcarried.lengths a ha) (hcarried.formed a ha)
        rw [hkind, hpayload, onChannelMessage_response hget hread]
        refine h.advance [] hsent hfirst hreply ha hid rfl (hsetOther _) hnotNone
          (append_nil _).symm (Or.inl rfl) (fun _ => Or.inl (hsetSome _)) ?_
        intro came' hframes' waiter' hget'
        obtain rfl := hcame came' hframes'
        obtain rfl : _ = waiter' := by simpa using hget'
        refine ⟨hrest, rfl, ?_⟩
        rw [bodiesOf_append, ← hchunks, hkind]
        exact (append_nil _).symm
      · -- A piece of the body.
        have hkind' : sent.kind = kindBody := hkind
        rw [hkind', onChannelMessage_body hget]
        refine h.advance [] hsent hfirst hreply ha hid rfl (hsetOther _) hnotNone
          (append_nil _).symm (Or.inl rfl) (fun _ => Or.inl (hsetSome _)) ?_
        intro came' hframes' waiter' hget'
        obtain rfl := hcame came' hframes'
        obtain rfl : _ = waiter' := by simpa using hget'
        refine ⟨hrest, ?_, ?_⟩
        · show waiter.head = _
          rw [hhead, if_neg hsome]
        · show waiter.chunks ++ [sent.payload] = _
          rw [bodiesOf_append, ← hchunks, hkind']
          rfl
      · -- The end.
        have hkind' : sent.kind = kindEnd := hkind
        have hwhole : waiter = ⟨some (a.reply securityHeaders),
            bodyChunks a.response.body, waiter.timer⟩ := by
          rw [if_neg hsome] at hhead
          rw [hbodies] at hchunks
          rw [← hhead, ← hchunks]
        have hbuilt : (buildResponse waiter).2 = a.own securityHeaders := by
          rw [hwhole]
          exact buildResponse_own a waiter.timer
        rw [hkind', onChannelMessage_end hget, hbuilt]
        have hdeleteOther : ∀ id, id ≠ sent.id.toNat →
            (t.page.pending.delete sent.id.toNat).get id = t.page.pending.get id :=
          fun id hne => get_delete_of_ne _ hne
        have hdelete := get_delete_self t.page.pending sent.id.toNat
        have hgoneWaiter : ∀ {P : Prop} {waiter' : Waiter},
            (t.page.pending.delete sent.id.toNat).get sent.id.toNat = some waiter' → P := by
          intro P waiter' hget'
          rw [hdelete] at hget'
          exact absurd hget' (by simp)
        cases hown : a.own securityHeaders with
        | none =>
          exact h.advance [] hsent hfirst hreply ha hid rfl hdeleteOther hnotNone
            (append_nil _).symm (Or.inl rfl) (fun _ => Or.inr (Or.inr hown))
            (fun _ _ _ hget' => hgoneWaiter hget')
        | some response =>
          exact h.advance [(sent.id.toNat, .resolved response)] hsent hfirst hreply
            ha hid rfl hdeleteOther hnotNone rfl
            (Or.inr ⟨response, rfl, hown, by rw [hget]; simp, hdelete⟩)
            (fun _ => Or.inr (Or.inl (mem_singleton.mpr rfl)))
            (fun _ _ _ hget' => hgoneWaiter hget')

/-! ### Every move -/

theorem Inv.timeout {id : Nat} (h : Inv securityHeaders json t)
    (hget : t.page.pending.get id = some waiter) :
    Inv securityHeaders json { t with page := TunnelFetch.timeout t.page id } := by
  refine h.reject (TunnelFetch.timeout t.page id)
    [(id, .rejected "the host did not answer")] rfl rfl (nodup_singleton _) ?_ ?_ ?_
  · intro entry hentry
    rw [mem_singleton.mp hentry]
    exact ⟨_, rfl⟩
  · intro other hother
    rw [map_singleton, mem_singleton] at hother
    rw [hother, hget]
    exact ⟨by simp, get_delete_self _ _⟩
  · intro other hother
    rw [map_singleton, mem_singleton] at hother
    exact get_delete_of_ne _ hother

theorem Inv.teardown (h : Inv securityHeaders json t) (why : String) :
    Inv securityHeaders json { t with page := TunnelFetch.teardown t.page why } := by
  have hids : (t.page.pending.entries.map fun entry =>
      (entry.1, Outcome.rejected why)).map Prod.fst = t.page.pending.entries.map Prod.fst := by
    rw [map_map]
    rfl
  have hmem : ∀ id, id ∈ t.page.pending.entries.map Prod.fst ↔ t.page.pending.get id ≠ none := by
    intro id
    rw [Ne, Option.eq_none_iff_forall_ne_some, not_forall]
    constructor
    · intro hid
      obtain ⟨⟨id', waiter⟩, hentry, rfl⟩ := mem_map.mp hid
      exact ⟨waiter, not_not.mpr ((t.page.pending.mem_entries_iff id' waiter).mp hentry)⟩
    · rintro ⟨waiter, hget⟩
      exact mem_map.mpr
        ⟨(id, waiter), (t.page.pending.mem_entries_iff id waiter).mpr (not_not.mp hget), rfl⟩
  refine h.reject (TunnelFetch.teardown t.page why)
    (t.page.pending.entries.map fun entry => (entry.1, .rejected why)) rfl rfl ?_ ?_ ?_ ?_
  · rw [hids]
    exact t.page.pending.nodup
  · intro entry hentry
    obtain ⟨_, -, rfl⟩ := mem_map.mp hentry
    exact ⟨why, rfl⟩
  · intro id hid
    rw [hids, hmem] at hid
    exact ⟨hid, rfl⟩
  · intro id hid
    rw [hids, hmem, not_not] at hid
    rw [hid]
    rfl

theorem Inv.openSocket (h : Inv securityHeaders json t) :
    Inv securityHeaders json { t with page := { t.page with nextId := t.page.nextId + 1 } } where
  nodup := h.nodup
  drawn := fun id hid => Nat.lt_succ_of_lt (h.drawn id hid)
  pending_drawn := fun id hid => Nat.lt_succ_of_lt (h.pending_drawn id hid)
  settled_drawn := fun id hid => Nat.lt_succ_of_lt (h.settled_drawn id hid)
  settled_once := h.settled_once
  settled_done := h.settled_done
  progress := h.progress
  quiet := h.quiet
  own := h.own
  kept := h.kept

theorem Inv.socketFrame (h : Inv securityHeaders json t) (hkind : replyKind kind = false) :
    Inv securityHeaders json { t with toPage := t.toPage ++ [⟨id, kind, payload⟩] } := by
  have hway : ∀ other, onWay (t.toPage ++ [⟨id, kind, payload⟩]) other = onWay t.toPage other := by
    intro other
    rw [onWay_append, onWay_cons, if_neg (by simp [hkind])]
    exact append_nil _
  refine h.turn t.page (t.toPage ++ [⟨id, kind, payload⟩]) [] rfl (fun _ hnone => hnone)
    (append_nil _).symm nodup_nil (by simp) (by simp) (fun _ => Or.inl) ?_ ?_
  · intro a ha
    unfold Progress
    rw [hway]
    exact h.progress a ha
  · intro other hother
    rw [hway]
    exact ⟨(h.quiet other hother).1, mem_cons_of_mem _ mem_cons_self⟩

theorem onChannelMessage_nextId (page : Page) (bytes : List UInt8) :
    (onChannelMessage json.codec page bytes).nextId = page.nextId := by
  unfold onChannelMessage
  split
  · rfl
  · split_ifs
    · split
      · rfl
      · split <;> rfl
    · split <;> rfl
    · split <;> rfl
    · rfl

theorem hostReceives_keeps (t : Exchange) (message : QByteArray) :
    (hostReceives securityHeaders json beyond url toLower t message).page = t.page ∧
      ∀ a ∈ t.host.answered,
        a ∈ (hostReceives securityHeaders json beyond url toLower t message).host.answered := by
  unfold hostReceives
  split_ifs
  · exact ⟨rfl, fun _ ha => ha⟩
  · split
    · exact ⟨rfl, fun _ ha => ha⟩
    · split_ifs
      · split
        · exact ⟨rfl, fun _ ha => mem_append_left _ ha⟩
        · exact ⟨rfl, fun _ ha => ha⟩
        · exact ⟨rfl, fun _ ha => ha⟩
      · exact ⟨rfl, fun _ ha => ha⟩

/-- Ids are only ever drawn, and answers only ever added. -/
theorem grows {t u : Exchange} {m : Move}
    (hstep : moves (move securityHeaders json beyond url toLower) t m u) :
    t.page.nextId ≤ u.page.nextId ∧ ∀ a ∈ t.host.answered, a ∈ u.host.answered := by
  cases m with
  | fetch head body taken =>
    obtain rfl := Option.some.inj hstep
    exact ⟨by rw [show _ = _ from fetch_nextId t.page taken]; omega, fun _ ha => ha⟩
  | openSocket =>
    obtain rfl := Option.some.inj hstep
    exact ⟨Nat.le_succ _, fun _ ha => ha⟩
  | request =>
    cases hasked : t.toHost with
    | nil => simp [moves, move, hasked] at hstep
    | cons asked rest =>
      simp only [moves, move, hasked, Option.some.injEq] at hstep
      obtain ⟨hpage, hanswered⟩ := @hostReceives_keeps securityHeaders json beyond url toLower
        { t with toHost := rest } (requestFrame json.codec asked.id asked.head asked.body)
      subst hstep
      exact ⟨by rw [hpage], hanswered⟩
  | answer k response =>
    cases hserving : t.host.serving[k]? with
    | none => simp [moves, move, hserving] at hstep
    | some serving =>
      simp only [moves, move, hserving, Option.some.injEq] at hstep
      subst hstep
      unfold hostAnswers
      split_ifs
      · exact ⟨Nat.le_refl _, fun _ ha => ha⟩
      · exact ⟨Nat.le_refl _, fun _ ha => mem_append_left _ ha⟩
  | socketFrame id kind payload =>
    simp only [moves, move] at hstep
    split_ifs at hstep
    obtain rfl := Option.some.inj hstep
    exact ⟨Nat.le_refl _, fun _ ha => ha⟩
  | receive k =>
    cases hsent : t.toPage[k]? with
    | none => simp [moves, move, hsent] at hstep
    | some sent =>
      simp only [moves, move, hsent] at hstep
      split_ifs at hstep
      obtain rfl := Option.some.inj hstep
      exact ⟨by rw [onChannelMessage_nextId], fun _ ha => ha⟩
  | timeout id =>
    cases hwaiter : t.page.pending.get id with
    | none => simp [moves, move, hwaiter] at hstep
    | some waiter =>
      simp only [moves, move, hwaiter] at hstep
      split_ifs at hstep
      obtain rfl := Option.some.inj hstep
      exact ⟨Nat.le_refl _, fun _ ha => ha⟩
  | teardown why =>
    obtain rfl := Option.some.inj hstep
    exact ⟨Nat.le_refl _, fun _ ha => ha⟩
  | dropPeer =>
    obtain rfl := Option.some.inj hstep
    exact ⟨Nat.le_refl _, fun _ ha => ha⟩

theorem Inv.step {t u : Exchange} {m : Move} (h : Inv securityHeaders json t)
    (hcarried : Carried securityHeaders json t)
    (hstep : moves (move securityHeaders json beyond url toLower) t m u) :
    Inv securityHeaders json u := by
  cases m with
  | fetch head body taken =>
    obtain rfl := Option.some.inj hstep
    exact h.fetch head body taken
  | openSocket =>
    obtain rfl := Option.some.inj hstep
    exact h.openSocket
  | request =>
    cases hasked : t.toHost with
    | nil => simp [moves, move, hasked] at hstep
    | cons asked rest =>
      simp only [moves, move, hasked, Option.some.injEq] at hstep
      subst hstep
      exact h.request hcarried.ids hasked
  | answer k response =>
    cases hserving : t.host.serving[k]? with
    | none => simp [moves, move, hserving] at hstep
    | some serving =>
      simp only [moves, move, hserving, Option.some.injEq] at hstep
      subst hstep
      exact h.answer hserving response
  | socketFrame id kind payload =>
    simp only [moves, move] at hstep
    split_ifs at hstep with hkind
    obtain rfl := Option.some.inj hstep
    refine h.socketFrame ?_
    simp only [mem_cons, not_mem_nil, or_false] at hkind
    rcases hkind with rfl | rfl | rfl
    · rfl
    · rfl
    · rfl
  | receive k =>
    cases hsent : t.toPage[k]? with
    | none => simp [moves, move, hsent] at hstep
    | some sent =>
      simp only [moves, move, hsent] at hstep
      split_ifs at hstep with hfirst
      obtain rfl := Option.some.inj hstep
      exact h.receive hcarried hsent (by simpa using hfirst)
  | timeout id =>
    cases hwaiter : t.page.pending.get id with
    | none => simp [moves, move, hwaiter] at hstep
    | some waiter =>
      simp only [moves, move, hwaiter] at hstep
      split_ifs at hstep
      obtain rfl := Option.some.inj hstep
      exact h.timeout hwaiter
  | teardown why =>
    obtain rfl := Option.some.inj hstep
    exact h.teardown why
  | dropPeer =>
    obtain rfl := Option.some.inj hstep
    exact h.fewer t.toHost { t.host with present := false } rfl (List.Subperm.refl _)

section

variable (securityHeaders)

/-- No fetch is settled twice or answered twice, one that resolved has the
response of its own answer, and one whose answer came in whole is settled,
unless the constructor refuses the answer's status. -/
structure Answered (t : Exchange) : Prop where
  settled_once : (settledIds t).Nodup
  answered_once : (answeredIds t).Nodup
  own : ∀ id response, (id, Outcome.resolved response) ∈ t.page.settled →
    ∃ a ∈ t.host.answered, a.id.toNat = id ∧ a.own securityHeaders = some response
  whole : ∀ a ∈ t.host.answered, onWay t.toPage a.id = [] →
    (∃ response, a.own securityHeaders = some response ∧
      (a.id.toNat, Outcome.resolved response) ∈ t.page.settled) ∨
    (∃ message, (a.id.toNat, Outcome.rejected message) ∈ t.page.settled) ∨
    a.own securityHeaders = none

end

theorem Inv.answered (h : Inv securityHeaders json t) :
    Answered securityHeaders t := by
  refine ⟨h.settled_once, (nodup_append.mp h.nodup).2.1, h.own, ?_⟩
  intro a ha hway
  have hidle : t.page.pending.get a.id.toNat = none := by
    obtain ⟨came, -, hfetch⟩ := h.progress a ha
    cases hget : t.page.pending.get a.id.toNat with
    | none => rfl
    | some waiter => exact absurd hway (hfetch waiter hget).1
  have hmem : a.id.toNat ∈ waitingIds t ++ answeredIds t :=
    mem_append_right _ (mem_map.mpr ⟨a, ha, rfl⟩)
  rcases h.kept _ hmem with hpending | hsettled | ⟨b, hb, hid, hnone⟩
  · exact absurd hidle hpending
  · obtain ⟨⟨id, outcome⟩, hentry, hid⟩ := mem_map.mp hsettled
    obtain rfl : id = a.id.toNat := hid
    cases outcome with
    | resolved response =>
      obtain ⟨b, hb, hid, hown⟩ := h.own _ response hentry
      obtain rfl : b = a := h.answer_unique hb ha hid
      exact Or.inl ⟨response, hown, hentry⟩
    | rejected message => exact Or.inr (Or.inl ⟨message, hentry⟩)
  · obtain rfl : b = a := h.answer_unique hb ha hid
    exact Or.inr (Or.inr hnone)

/-- On every run, whatever the order of answers and frames: the counter of the
host is the number of requests accepted and not answered, within its limit, and
every fetch gets the response of its own answer. -/
theorem multiplexed_along (securityHeaders : QString → List (QString × QString))
    (json : HeadJson) (beyond : Nat → UInt8) (url : QString → Option Target)
    (toLower : QString → QString) (labels : List Move) :
    AllAlong (moves (move securityHeaders json beyond url toLower))
      (fun t => Counted t ∧ (Carried securityHeaders json t → Answered securityHeaders t))
      start labels := by
  intro visited rest t _ hrun
  have hstart : Counted start ∧
      (Carried securityHeaders json start → Inv securityHeaders json start) :=
    ⟨fun _ => ⟨rfl, by decide⟩, fun _ => inv_start⟩
  have hboth := hrun.invariant
    (I := fun t => Counted t ∧ (Carried securityHeaders json t → Inv securityHeaders json t))
    (fun s m u hs hstep => ⟨counted_step hs.1 hstep, fun hcarried => by
      obtain ⟨hnext, hanswered⟩ := grows hstep
      have hbefore : Carried securityHeaders json s :=
        ⟨Nat.le_trans hnext hcarried.ids, fun a ha => hcarried.lengths a (hanswered a ha),
          fun a ha => hcarried.formed a (hanswered a ha)⟩
      exact (hs.2 hbefore).step hbefore hstep⟩) hstart
  exact ⟨hboth.1, fun hcarried => (hboth.2 hcarried).answered⟩

def signInRequest : Head := .request (qs "POST") (qs "/api/auth/login") []

def signInResponse : HttpResponse where
  statusCode := 200
  contentType := []
  headers := [(qs "Set-Cookie", qs "mw_session=1")]
  body := []

def signInReply : Head := .response 200 [(qs "Set-Cookie", qs "mw_session=1")]

def signInTarget : Target := ⟨qs "/api/auth/login", []⟩

instance countableUInt16 : Countable UInt16 :=
  Injective.countable (fun _ _ h => UInt16.toNat_inj.mp h)

def headParts : Head → (QString × QString × List (QString × QString)) ⊕
    (Int × List (QString × QString))
  | .request m p h => .inl (m, p, h)
  | .response s h => .inr (s, h)

theorem headParts_injective : Injective headParts := by
  intro head head' heq
  cases head <;> cases head' <;> simp_all [headParts]

theorem head_countable : ∃ code : Head → Nat, Injective code := by
  obtain ⟨code, hcode⟩ := Countable.exists_injective_nat
    ((QString × QString × List (QString × QString)) ⊕ (Int × List (QString × QString)))
  exact ⟨code ∘ headParts, hcode.comp headParts_injective⟩

def signInRequestText : List UInt8 :=
  QString.toUtf8 (qs "\x7b\"m\":\"POST\",\"p\":\"/api/auth/login\",\"h\":\x7b\x7d\x7d")

def signInReplyText : List UInt8 :=
  QString.toUtf8 (qs "\x7b\"h\":\x7b\"Set-Cookie\":\"mw_session=1\"\x7d,\"s\":200\x7d")

/-- The JSON text of the two heads of the sign-in; the other heads are numbered. -/
noncomputable def signInText (head : Head) : List UInt8 :=
  if head = signInRequest then signInRequestText
  else if head = signInReply then signInReplyText
  else List.replicate (head_countable.choose head + 1) 0

theorem signInText_injective : Injective signInText := by
  intro head head' heq
  have hfirst : ∀ n, List.replicate (n + 1) (0 : UInt8) ≠ [] ∧
      (List.replicate (n + 1) (0 : UInt8)).head? = some 0 := by
    intro n
    rw [replicate_succ]
    exact ⟨cons_ne_nil _ _, rfl⟩
  have hcode := head_countable.choose_spec
  have hbrace := congrArg List.head? heq
  unfold signInText at heq hbrace
  split_ifs at heq hbrace with hr hr' hs' hs hr' hs' hr' hs'
  · rw [hr, hr']
  · exact absurd heq (by decide +kernel)
  · rw [(hfirst _).2] at hbrace
    exact absurd hbrace (by decide +kernel)
  · exact absurd heq (by decide +kernel)
  · rw [hs, hs']
  · rw [(hfirst _).2] at hbrace
    exact absurd hbrace (by decide +kernel)
  · rw [(hfirst _).2] at hbrace
    exact absurd hbrace (by decide +kernel)
  · rw [(hfirst _).2] at hbrace
    exact absurd hbrace (by decide +kernel)
  · have hlength := congrArg List.length heq
    rw [length_replicate, length_replicate] at hlength
    exact hcode (by omega)

theorem signInText_ne_nil (head : Head) : signInText head ≠ [] := by
  unfold signInText
  split_ifs
  · decide +kernel
  · decide +kernel
  · simp

/-- The libraries of the sign-in: what was written is read back, other texts are refused. -/
noncomputable def signInJson : HeadJson where
  codec :=
    { object := fun head =>
        match head with
        | .request _ _ h => ⟨0, h⟩
        | .response s h => ⟨s, h⟩
      toJson := signInText
      fromJson := partialInv signInText
      stringify := signInText
      parse := fun text => (partialInv signInText text).map fun head =>
        match head with
        | .request _ _ h => ⟨0, h⟩
        | .response s h => ⟨s, h⟩
      fromJson_stringify := fun head => partialInv_left signInText_injective head
      parse_toJson := fun head => by
        rw [partialInv_left signInText_injective head]
        rfl
      fromJson_nil := by
        rw [partialInv, dif_neg]
        rintro ⟨head, hnil⟩
        exact signInText_ne_nil head hnil
      parse_nil := by
        rw [partialInv, dif_neg]
        · rfl
        · rintro ⟨head, hnil⟩
          exact signInText_ne_nil head hnil }
  object_response := fun _ _ _ => rfl

def signIn : List Move :=
  [.fetch signInRequest [] true, .request, .answer 0 signInResponse, .receive 0, .receive 0]

noncomputable def signInMove : Exchange → Move → Option Exchange :=
  move (fun _ => []) signInJson (fun _ => 0) (fun _ => some signInTarget) (fun s => s)

def AllHeaders (t : Exchange) : Prop :=
  ∀ id response, (id, Outcome.resolved response) ∈ t.page.settled →
    ∃ a ∈ t.host.answered, a.id.toNat = id ∧ ∀ header ∈ a.response.headers,
      response.headers.get (header.1.map lowerAscii) = some header.2

theorem signIn_accepted :
    handleRequestFrame signInJson.codec (fun _ => 0) (fun _ => some signInTarget) (fun s => s) 0 1
      (encodeHead signInJson.codec signInRequest []) =
      .accepted ⟨1, signInRequest, signInTarget, [], []⟩ := by
  have htext : signInJson.codec.stringify signInRequest = signInRequestText := by
    show signInText signInRequest = signInRequestText
    rw [signInText, if_pos rfl]
  have hlength : (signInJson.codec.stringify signInRequest).length < 100 := by
    rw [htext]
    decide +kernel
  have hsmall : ¬ (encodeHead signInJson.codec signInRequest []).length >
      Server.TunnelFrame.maxRequestBytes := by
    rw [encodeHead_eq]
    simp only [length_append, Bytes.bigEndian_length, length_nil,
      Server.TunnelFrame.maxRequestBytes]
    omega
  have hdecode := Server.TunnelFrame.decodeHead_prefixed signInJson.codec (fun _ => 0) []
    (show (signInJson.codec.stringify signInRequest).length < 2 ^ 31 by omega)
  rw [← encodeHead_eq, signInJson.codec.fromJson_stringify, Option.map_some] at hdecode
  rw [handleRequestFrame, if_neg hsmall, if_neg (by decide), hdecode]
  rfl

def signInAnswer : Answer := ⟨1, signInResponse, []⟩

theorem signIn_headers :
    responseHeaders (fun _ => []) signInAnswer.response signInAnswer.hostHeader =
      [(qs "Set-Cookie", qs "mw_session=1")] := rfl

theorem signIn_length : (signInJson.codec.toJson (.response signInAnswer.response.statusCode
    (responseHeaders (fun _ => []) signInAnswer.response signInAnswer.hostHeader))).length <
      2 ^ 32 := by
  have htext : signInText signInReply = signInReplyText :=
    (if_neg (by decide)).trans (if_pos rfl)
  show (signInText signInReply).length < 2 ^ 32
  rw [htext]
  decide +kernel

theorem signIn_formed : ∀ member ∈ responseHeaders (fun _ => []) signInAnswer.response
    signInAnswer.hostHeader, isWellFormed member.1 = true ∧
      isWellFormed member.2 = true := by
  intro member hmember
  rw [signIn_headers, mem_singleton] at hmember
  rw [hmember]
  decide +kernel

theorem signIn_run : ∃ t response, runMoves signInMove start signIn = some t ∧
    Carried (fun _ => []) signInJson t ∧
    t.host.answered = [signInAnswer] ∧
    t.page.settled = [(1, .resolved response)] ∧ response.headers = empty := by
  set page : Page := fetch start.page true with hpage
  have hask : signInMove start (.fetch signInRequest [] true) =
      some { start with page := page, toHost := [⟨1, signInRequest, []⟩] } := rfl
  have hrequest : signInMove { start with page := page, toHost := [⟨1, signInRequest, []⟩] }
      .request = some { start with
        page := page
        host := ⟨true, 1, [⟨1, signInRequest, signInTarget, [], []⟩], []⟩ } := by
    simp only [signInMove, move]
    rw [hostReceives, if_neg (by decide), parse_requestFrame (by decide)]
    simp only [if_true]
    rw [show UInt32.ofNat 1 = 1 from rfl, show start.host.inFlight = 0 from rfl, signIn_accepted]
    rfl
  set head := Server.TunnelFrame.encodeHead signInJson.codec signInReply [] with hhead
  have hanswer : signInMove { start with
        page := page
        host := ⟨true, 1, [⟨1, signInRequest, signInTarget, [], []⟩], []⟩ }
      (.answer 0 signInResponse) = some { start with
        page := page
        host := ⟨true, 0, [], [signInAnswer]⟩
        toPage := [⟨1, kindResponse, head⟩, ⟨1, kindEnd, []⟩] } := rfl
  have hread : readHead signInJson.codec head = some ⟨200, [(qs "Set-Cookie", qs "mw_session=1")]⟩ := by
    have hreply := readHead_reply signIn_length signIn_formed
    rw [Answer.reply, signIn_headers] at hreply
    exact hreply
  set waiting : Waiter := ⟨some ⟨200, [(qs "Set-Cookie", qs "mw_session=1")]⟩, [], false⟩
  set answered : Page := { page with pending := page.pending.set 1 waiting } with hansweredPage
  have hasked : page.pending.get (1 : UInt32).toNat = some ⟨none, [], true⟩ :=
    fetch_pending_self start.page true
  have hhead' : onChannelMessage signInJson.codec page (build kindResponse 1 head) = answered := by
    have hone : (1 : UInt32).toNat = 1 := rfl
    have hset := onChannelMessage_response hasked hread
    rw [hone] at hset
    exact hset
  have hreceive : signInMove { start with
        page := page
        host := ⟨true, 0, [], [signInAnswer]⟩
        toPage := [⟨1, kindResponse, head⟩, ⟨1, kindEnd, []⟩] } (.receive 0) = some { start with
        page := answered
        host := ⟨true, 0, [], [signInAnswer]⟩
        toPage := [⟨1, kindEnd, []⟩] } := by
    rw [← hhead']
    rfl
  have hend : onChannelMessage signInJson.codec answered (build kindEnd 1 []) =
      { answered with
        pending := answered.pending.delete 1
        absorbed := [qs "mw_session=1"]
        settled := [(1, .resolved ⟨some [], 200, empty⟩)] } := by
    have hgot : answered.pending.get (1 : UInt32).toNat = some waiting := get_set_self _ _ _
    have hone : (1 : UInt32).toNat = 1 := rfl
    have hlower : toLowerCase (qs "Set-Cookie") = qs "set-cookie" := by decide +kernel
    have hbuilt : buildResponse waiting =
        ([qs "mw_session=1"], some ⟨some [], 200, empty⟩) := by
      rw [buildResponse, Option.getD_some, foldl_cons, readHeader, if_pos hlower]
      rfl
    have hdelete := @onChannelMessage_end signInJson [] answered 1 waiting hgot
    rw [hone, hbuilt] at hdelete
    exact hdelete
  have hfinish : signInMove { start with
        page := answered
        host := ⟨true, 0, [], [signInAnswer]⟩
        toPage := [⟨1, kindEnd, []⟩] } (.receive 0) = some { start with
        page := onChannelMessage signInJson.codec answered (build kindEnd 1 [])
        host := ⟨true, 0, [], [signInAnswer]⟩ } := rfl
  refine ⟨{ start with
    page := onChannelMessage signInJson.codec answered (build kindEnd 1 [])
    host := ⟨true, 0, [], [signInAnswer]⟩ }, ⟨some [], 200, empty⟩, ?_, ?_, rfl, ?_, rfl⟩
  · rw [signIn, runMoves, hask]
    simp only
    rw [runMoves, hrequest]
    simp only
    rw [runMoves, hanswer]
    simp only
    rw [runMoves, hreceive]
    simp only
    rw [runMoves, hfinish]
    simp only
    rw [runMoves]
  · refine ⟨by rw [hend]; decide, fun a ha => ?_, fun a ha => ?_⟩
    · rw [mem_singleton.mp ha]
      exact signIn_length
    · rw [mem_singleton.mp ha]
      exact signIn_formed
  · rw [hend]

theorem signIn_withheld : ¬ AllAlong (moves signInMove)
    (fun t => Carried (fun _ => []) signInJson t → AllHeaders t) start signIn := by
  intro hall
  obtain ⟨t, response, hrun, hcarried, hanswered, hsettled, hheaders⟩ := signIn_run
  have hlast := hall.last (run_of_runMoves signInMove hrun) hcarried
  obtain ⟨a, ha, -, hall⟩ := hlast 1 response (by rw [hsettled]; exact List.mem_cons_self)
  rw [hanswered, List.mem_singleton] at ha
  have hcookie := hall (qs "Set-Cookie", qs "mw_session=1") (by rw [ha]; exact List.mem_cons_self)
  rw [hheaders] at hcookie
  exact absurd hcookie (by simp)

end MoonlightWeb.Bootstrap.TunnelExchange
