import MoonlightWeb.Server.HttpFraming

/-! # Where framing and parsing agree

The framing loop and the parser read the same header lines by rules of their own. A
request that is not refused is framed without doubt exactly when the length the loop
takes is the one every content-length line of the parser plainly writes, and no other
coding stands beside one. And what a connection yields first is a matter of the bytes
alone exactly when its first head fits the limit that is tested only while it is
incomplete.
-/

namespace MoonlightWeb.Server

open Qt Lib Js QString HttpListener List

namespace HttpParser

/-- The values of the `Content-Length` lines the parser sees. -/
def contentLengths (p : Platform) (lines : List QString) : List QString :=
  ((headerPairs p lines).filter fun member => member.1 = qs "content-length").map Prod.snd

/-- The codings of the `Transfer-Encoding` lines it sees, the one that codes nothing left out. -/
def transferCodings (p : Platform) (lines : List QString) : List QString :=
  ((headerPairs p lines).filter fun member => member.1 = qs "transfer-encoding" &&
    !equalsFolded member.2 (qs "identity")).map Prod.snd

/-- A plain decimal number, and which one. -/
def Plain (n : Nat) (value : QString) : Prop :=
  value ≠ [] ∧ value.all isDigit = true ∧ decimal value = n

/-- The header lines leave no doubt that the body has `n` bytes. -/
structure FramedAs (p : Platform) (lines : List QString) (n : Nat) : Prop where
  plain : ∀ value ∈ contentLengths p lines, Plain n value
  absent : contentLengths p lines = [] → n = 0
  alone : transferCodings p lines ≠ [] → contentLengths p lines = []

/-- The bytes of a request are its head, a blank line and the body its own headers announce,
and the parser hands that body on. -/
def Unambiguous (p : Platform) (raw : QByteArray) (req : HttpRequest) : Prop :=
  ∃ headerEnd n, indexOf blankLine raw = some headerEnd ∧ raw.length = headerEnd + 4 + n ∧
    n ≤ maxBodyBytes ∧ FramedAs p (textLines (fromUtf8 raw)) n ∧
    (ValidUtf8 (raw.drop (headerEnd + 4)) → req.body = raw.drop (headerEnd + 4))

end HttpParser

open HttpParser

/-- A request goes on only when it is unambiguous, and is refused with an error otherwise. -/
def Outcome.Sound (server : HttpListener) : Outcome → Prop
  | .served raw req => Unambiguous server.platform raw req
  | .redirected raw req => Unambiguous server.platform raw req
  | .refused status => 400 ≤ status
  | .proxied => True

namespace HttpConnection

variable (server : HttpListener)

/-- What a step yields is sound. -/
def FramedWell (c : HttpConnection) (_ : HttpEvent)
    (c' : HttpConnection) : Prop :=
  ∀ outcome, c'.outcomes = c.outcomes ++ [outcome] → outcome.Sound server

/-- Two ways to cut the stream yield the same first. -/
def FirstSame (bytes : QByteArray) : Prop :=
  ∀ events events', stream events = bytes → stream events' = bytes →
    (run server events).outcomes.head? = (run server events').outcomes.head?

/-- The first head, if there is one, ends within the limit. -/
def HeadFits (bytes : QByteArray) : Prop :=
  ∀ headerEnd, indexOf blankLine bytes = some headerEnd → headerEnd + 3 ≤ maxHeaderBytes

/-- When the read completes a request that is not refused, the length the framing loop
takes is the one the parser's header lines announce. -/
def Agrees (c : HttpConnection) : HttpEvent → Prop
  | .read chunk =>
      c.reading = true → ∀ headerEnd n, indexOf blankLine (c.buffer ++ chunk) = some headerEnd →
        let head := fromUtf8 ((c.buffer ++ chunk).take headerEnd)
        isUpgrade head = false → frame head = .ok n →
          headerEnd + 4 + n ≤ (c.buffer ++ chunk).length →
            (requestLine server.platform ((textLines head).headD [])).malformed = false →
              FramedAs server.platform (textLines head) n
  | .respond => True

end HttpConnection

theorem frame_le {head : QString} {n : Nat} (h : frame head = .ok n) : n ≤ maxBodyBytes := by
  unfold frame at h
  dsimp only at h
  split_ifs at h with hboth hcoding hsize
  cases h
  omega

theorem frame_error {head : QString} {status : Nat} (h : frame head = .error status) :
    status = 400 ∨ status = 501 ∨ status = 413 := by
  unfold frame at h
  dsimp only at h
  split_ifs at h with hboth hcoding hsize
  · cases h
    exact Or.inl rfl
  · cases h
    exact Or.inr (Or.inl rfl)
  · cases h
    exact Or.inr (Or.inr rfl)

section

variable {server : HttpListener} {raw : QByteArray} {headerEnd : Nat}

theorem framedAs_head (p : Platform) (h : indexOf blankLine raw = some headerEnd) (n : Nat) :
    FramedAs p (textLines (fromUtf8 raw)) n ↔
      FramedAs p (textLines (fromUtf8 (raw.take headerEnd))) n := by
  have hpairs : headerPairs p (textLines (fromUtf8 raw)) =
      headerPairs p (textLines (fromUtf8 (raw.take headerEnd))) := by
    rw [headerPairs, headerPairs, headerLines_eq h]
  have hlengths : contentLengths p (textLines (fromUtf8 raw)) =
      contentLengths p (textLines (fromUtf8 (raw.take headerEnd))) := by
    rw [contentLengths, contentLengths, hpairs]
  have hcodings : transferCodings p (textLines (fromUtf8 raw)) =
      transferCodings p (textLines (fromUtf8 (raw.take headerEnd))) := by
    rw [transferCodings, transferCodings, hpairs]
  constructor
  · intro hf
    exact ⟨hlengths ▸ hf.plain, hlengths ▸ hf.absent, hlengths ▸ hcodings ▸ hf.alone⟩
  · intro hf
    exact ⟨hlengths.symm ▸ hf.plain, hlengths.symm ▸ hf.absent,
      hlengths.symm ▸ hcodings.symm ▸ hf.alone⟩

/-- A request of known length is unambiguous when its header lines say this length. -/
theorem unambiguous_iff (p : Platform) (h : indexOf blankLine raw = some headerEnd) {n : Nat}
    (hlength : raw.length = headerEnd + 4 + n) (hn : n ≤ maxBodyBytes) :
    Unambiguous p raw (parse p raw) ↔
      FramedAs p (textLines (fromUtf8 (raw.take headerEnd))) n := by
  rw [← framedAs_head p h]
  constructor
  · intro hraw
    obtain ⟨headerEnd', n', h', hlength', _, hframed, _⟩ := hraw
    obtain rfl : headerEnd = headerEnd' := Option.some.inj (h.symm.trans h')
    obtain rfl : n = n' := by omega
    exact hframed
  · intro hframed
    exact ⟨headerEnd, n, h, hlength, hn, hframed, parse_body p h⟩

/-- What becomes of a complete request is sound when it is malformed or its lines agree. -/
theorem processRequest_sound (h : indexOf blankLine raw = some headerEnd) {n : Nat}
    (hlength : raw.length = headerEnd + 4 + n) (hn : n ≤ maxBodyBytes) :
    (server.processRequest raw).Sound server ↔
      ((requestLine server.platform ((textLines
        (fromUtf8 (raw.take headerEnd))).headD [])).malformed = false →
          FramedAs server.platform
            (textLines (fromUtf8 (raw.take headerEnd))) n) := by
  have hmalformed : (parse server.platform raw).malformed = (requestLine server.platform
      ((textLines (fromUtf8 (raw.take headerEnd))).headD [])).malformed := by
    rw [parse_eq server.platform h]
    rfl
  rw [← hmalformed, ← unambiguous_iff server.platform h hlength hn]
  unfold processRequest
  dsimp only
  cases hbad : (parse server.platform raw).malformed with
  | true =>
    rw [if_pos rfl]
    exact iff_of_true (Nat.le_refl 400) fun hno => by cases hno
  | false =>
    rw [if_neg (by simp)]
    split
    · exact ⟨fun hsound _ => hsound, fun hsound => hsound rfl⟩
    · exact ⟨fun hsound _ => hsound, fun hsound => hsound rfl⟩

theorem handleWebSocketUpgrade_congr {raw' : QByteArray}
    (h : indexOf blankLine raw = some headerEnd) (h' : indexOf blankLine raw' = some headerEnd)
    (hhead : raw.take headerEnd = raw'.take headerEnd) :
    server.handleWebSocketUpgrade raw = server.handleWebSocketUpgrade raw' := by
  have hfirst : ∀ {r : QByteArray}, indexOf blankLine r = some headerEnd →
      (byteLines r).headD [] = (byteLines (r.take headerEnd)).headD [] := by
    intro r hr
    have hlines : byteLines r = byteLines (r.take headerEnd) ++
        byteLines (0x0D :: 0x0A :: r.drop (headerEnd + 4)) := by
      conv_lhs => rw [split_blankLine hr]
      exact splitLines_append (by decide) _ _
    rw [hlines]
    cases hne : byteLines (r.take headerEnd) with
    | nil => exact absurd hne (splitLines_ne_nil _ _ _)
    | cons line lines => rfl
  unfold handleWebSocketUpgrade
  rw [parse_eq server.platform h, parse_eq server.platform h', hfirst h, hfirst h', hhead]

theorem handleWebSocketUpgrade_sound (raw : QByteArray) :
    (server.handleWebSocketUpgrade raw).Sound server ∧
      server.handleWebSocketUpgrade raw ≠ .refused 431 := by
  unfold handleWebSocketUpgrade
  dsimp only
  split
  · exact ⟨Nat.le_refl 400, by simp⟩
  · split
    case h_1 refusal _ => cases refusal <;> simp [Outcome.Sound, UpgradeRefusal.status]
    case h_2 => simp [Outcome.Sound]

end

namespace HttpListener

variable {server : HttpListener} {buffer : QByteArray}

theorem onReadyRead_of_none (h : indexOf blankLine buffer = none) :
    server.onReadyRead buffer =
      (buffer, if buffer.length > maxHeaderBytes then some (.refused 431) else none) := by
  unfold onReadyRead
  rw [h]

variable {headerEnd : Nat} (h : indexOf blankLine buffer = some headerEnd)
include h

theorem onReadyRead_of_upgrade
    (hupgrade : isUpgrade (fromUtf8 (buffer.take headerEnd)) = true) :
    server.onReadyRead buffer = (buffer, some (server.handleWebSocketUpgrade buffer)) := by
  unfold onReadyRead
  rw [h]
  dsimp only
  rw [if_pos hupgrade]

theorem onReadyRead_of_error {status : Nat}
    (hupgrade : isUpgrade (fromUtf8 (buffer.take headerEnd)) = false)
    (hframe : frame (fromUtf8 (buffer.take headerEnd)) = .error status) :
    server.onReadyRead buffer = (buffer, some (.refused status)) := by
  unfold onReadyRead
  rw [h]
  dsimp only
  rw [if_neg (by simp [hupgrade]), hframe]

theorem onReadyRead_of_ok {n : Nat}
    (hupgrade : isUpgrade (fromUtf8 (buffer.take headerEnd)) = false)
    (hframe : frame (fromUtf8 (buffer.take headerEnd)) = .ok n) :
    server.onReadyRead buffer =
      if buffer.length < headerEnd + 4 + n then (buffer, none)
      else (buffer.drop (headerEnd + 4 + n),
        some (server.processRequest (buffer.take (headerEnd + 4 + n)))) := by
  unfold onReadyRead
  rw [h]
  dsimp only
  rw [if_neg (by simp [hupgrade]), hframe]

omit h

theorem onReadyRead_none (h : (server.onReadyRead buffer).2 = none) :
    (server.onReadyRead buffer).1 = buffer := by
  cases hend : indexOf blankLine buffer with
  | none => rw [onReadyRead_of_none hend]
  | some headerEnd =>
    cases hupgrade : isUpgrade (fromUtf8 (buffer.take headerEnd)) with
    | true => rw [onReadyRead_of_upgrade hend hupgrade]
    | false =>
      cases hframe : frame (fromUtf8 (buffer.take headerEnd)) with
      | error status => rw [onReadyRead_of_error hend hupgrade hframe]
      | ok n =>
        rw [onReadyRead_of_ok hend hupgrade hframe] at h ⊢
        split at h
        case isTrue hshort => rw [if_pos hshort]
        case isFalse => cases h

theorem taken_eq {headerEnd n : Nat} (h : indexOf blankLine buffer = some headerEnd)
    (hfits : headerEnd + 4 + n ≤ buffer.length) :
    indexOf blankLine (buffer.take (headerEnd + 4 + n)) = some headerEnd ∧
      (buffer.take (headerEnd + 4 + n)).length = headerEnd + 4 + n ∧
      (buffer.take (headerEnd + 4 + n)).take headerEnd = buffer.take headerEnd := by
  have hlength : (buffer.take (headerEnd + 4 + n)).length = headerEnd + 4 + n := by
    rw [length_take]
    omega
  refine ⟨?_, hlength, ?_⟩
  · refine indexOf_of_reaches (by simp) (List.take_prefix _ _) h ?_
    rw [hlength]
    simp
  · rw [take_take]
    congr 1
    omega

/-- What a read yields is sound when the framing loop agrees with the parser, or the read
completes nothing that goes on. -/
theorem onReadyRead_sound :
    (∀ outcome, (server.onReadyRead buffer).2 = some outcome → outcome.Sound server) ↔
      ∀ headerEnd n, indexOf blankLine buffer = some headerEnd →
        isUpgrade (fromUtf8 (buffer.take headerEnd)) = false →
          frame (fromUtf8 (buffer.take headerEnd)) = .ok n →
            headerEnd + 4 + n ≤ buffer.length →
              (requestLine server.platform ((textLines
                (fromUtf8 (buffer.take headerEnd))).headD [])).malformed = false →
                FramedAs server.platform
                  (textLines (fromUtf8 (buffer.take headerEnd))) n := by
  constructor
  · intro hsound headerEnd n hend hupgrade hframe hfits
    obtain ⟨htaken, hlength, hhead⟩ := taken_eq hend hfits
    have hprocess := hsound (server.processRequest (buffer.take (headerEnd + 4 + n))) (by
      rw [onReadyRead_of_ok hend hupgrade hframe, if_neg (by omega)])
    rw [processRequest_sound htaken hlength (frame_le hframe), hhead] at hprocess
    exact hprocess
  · intro hagrees outcome houtcome
    cases hend : indexOf blankLine buffer with
    | none =>
      rw [onReadyRead_of_none hend] at houtcome
      dsimp only at houtcome
      split at houtcome
      · cases houtcome
        exact Nat.le_of_lt (by decide)
      · cases houtcome
    | some headerEnd =>
      cases hupgrade : isUpgrade (fromUtf8 (buffer.take headerEnd)) with
      | true =>
        rw [onReadyRead_of_upgrade hend hupgrade] at houtcome
        cases houtcome
        exact (handleWebSocketUpgrade_sound buffer).1
      | false =>
        cases hframe : frame (fromUtf8 (buffer.take headerEnd)) with
        | error status =>
          rw [onReadyRead_of_error hend hupgrade hframe] at houtcome
          cases houtcome
          have hstatus := frame_error hframe
          simp only [Outcome.Sound]
          omega
        | ok n =>
          rw [onReadyRead_of_ok hend hupgrade hframe] at houtcome
          split at houtcome
          case isTrue => cases houtcome
          case isFalse hshort =>
            cases houtcome
            have hfits : headerEnd + 4 + n ≤ buffer.length := by omega
            obtain ⟨htaken, hlength, hhead⟩ := taken_eq hend hfits
            rw [processRequest_sound htaken hlength (frame_le hframe), hhead]
            exact hagrees headerEnd n hend hupgrade hframe hfits

theorem onReadyRead_ne_431 {headerEnd : Nat} (h : indexOf blankLine buffer = some headerEnd) :
    (server.onReadyRead buffer).2 ≠ some (.refused 431) := by
  cases hupgrade : isUpgrade (fromUtf8 (buffer.take headerEnd)) with
  | true =>
    rw [onReadyRead_of_upgrade h hupgrade]
    exact fun heq => (handleWebSocketUpgrade_sound buffer).2 (Option.some.inj heq)
  | false =>
    cases hframe : frame (fromUtf8 (buffer.take headerEnd)) with
    | error status =>
      rw [onReadyRead_of_error h hupgrade hframe]
      intro heq
      cases heq
      have hstatus := frame_error hframe
      omega
    | ok n =>
      rw [onReadyRead_of_ok h hupgrade hframe]
      split
      · simp
      · unfold processRequest
        dsimp only
        split
        · simp
        · split <;> simp

theorem onReadyRead_prefix {buffer' : QByteArray} (hfront : buffer <+: buffer')
    (hfits : HttpConnection.HeadFits buffer') {outcome : Outcome}
    (h : (server.onReadyRead buffer).2 = some outcome) :
    (server.onReadyRead buffer').2 = some outcome := by
  have hle := hfront.length_le
  cases hend : indexOf blankLine buffer with
  | none =>
    rw [onReadyRead_of_none hend] at h
    dsimp only at h
    split at h
    case isFalse => cases h
    case isTrue hlong =>
      cases hend' : indexOf blankLine buffer' with
      | none => rw [onReadyRead_of_none hend', if_pos (by omega)]; exact h
      | some headerEnd =>
        have hhead := hfits headerEnd hend'
        have hreach : headerEnd + blankLine.length ≤ buffer.length := by
          simp only [length_cons, length_nil]
          omega
        rw [indexOf_of_reaches (by simp) hfront hend' hreach] at hend
        cases hend
  | some headerEnd =>
    have hend' := indexOf_of_prefix (by simp) hfront hend
    obtain ⟨hfound, _⟩ := indexOf_eq_some hend
    have hreach := hfound.length_le
    rw [length_drop] at hreach
    simp only [length_cons, length_nil] at hreach
    have htake : ∀ n, n ≤ buffer.length → buffer.take n = buffer'.take n := by
      intro n hn
      obtain ⟨more, rfl⟩ := hfront
      exact (take_append_of_le_length hn).symm
    have hhead := htake headerEnd (by omega)
    cases hupgrade : isUpgrade (fromUtf8 (buffer.take headerEnd)) with
    | true =>
      rw [onReadyRead_of_upgrade hend hupgrade] at h
      rw [onReadyRead_of_upgrade hend' (hhead ▸ hupgrade),
        ← handleWebSocketUpgrade_congr hend hend' hhead]
      exact h
    | false =>
      cases hframe : frame (fromUtf8 (buffer.take headerEnd)) with
      | error status =>
        rw [onReadyRead_of_error hend hupgrade hframe] at h
        rw [onReadyRead_of_error hend' (hhead ▸ hupgrade) (hhead ▸ hframe)]
        exact h
      | ok n =>
        rw [onReadyRead_of_ok hend hupgrade hframe] at h
        rw [onReadyRead_of_ok hend' (hhead ▸ hupgrade) (hhead ▸ hframe)]
        split at h
        case isTrue => cases h
        case isFalse hshort =>
          rw [if_neg (by omega), ← htake (headerEnd + 4 + n) (by omega)]
          exact h

end HttpListener

namespace HttpConnection

variable {server : HttpListener}

variable {c : HttpConnection}

theorem receive_closed (h : c.reading = false) (chunk : QByteArray) :
    receive server c (.read chunk) = c := by
  simp only [receive, h, Bool.false_eq_true, if_false]

theorem receive_none (h : c.reading = true) {chunk rest : QByteArray}
    (hread : server.onReadyRead (c.buffer ++ chunk) = (rest, none)) :
    receive server c (.read chunk) = { c with buffer := rest } := by
  simp only [receive, h, hread, if_true]

theorem receive_some (h : c.reading = true) {chunk rest : QByteArray} {outcome : Outcome}
    (hread : server.onReadyRead (c.buffer ++ chunk) = (rest, some outcome)) :
    receive server c (.read chunk) = {
        buffer := rest
        reading := outcome.isServed
        pending := c.pending || outcome.isServed
        outcomes := c.outcomes ++ [outcome] } := by
  simp only [receive, h, hread, if_true]

theorem receive_respond (c : HttpConnection) :
    (receive server c .respond).outcomes = c.outcomes := by
  cases hpending : c.pending with
  | true => simp only [receive, hpending, if_true]
  | false => simp only [receive, hpending, Bool.false_eq_true, if_false]

theorem receive_outcomes (c : HttpConnection) (event : HttpEvent) :
    ∃ more, (receive server c event).outcomes = c.outcomes ++ more := by
  cases event with
  | respond => exact ⟨[], by rw [receive_respond, append_nil]⟩
  | read chunk =>
    cases hreading : c.reading with
    | false => exact ⟨[], by rw [receive_closed hreading, append_nil]⟩
    | true =>
      cases hread : server.onReadyRead (c.buffer ++ chunk) with
      | mk rest result =>
        cases result with
        | none => exact ⟨[], by rw [receive_none hreading hread, append_nil]⟩
        | some outcome => exact ⟨[outcome], by rw [receive_some hreading hread]⟩

theorem framedWell_iff (c : HttpConnection) (event : HttpEvent) :
    FramedWell server c event (receive server c event) ↔ Agrees server c event := by
  have hsame : ∀ {u : HttpConnection}, u.outcomes = c.outcomes → FramedWell server c event u := by
    intro u hu outcome houtcome
    rw [hu] at houtcome
    simp at houtcome
  cases event with
  | respond => exact iff_of_true (hsame (receive_respond c)) trivial
  | read chunk =>
    cases hreading : c.reading with
    | false =>
      refine iff_of_true (hsame (by rw [receive_closed hreading])) fun h => ?_
      rw [hreading] at h
      cases h
    | true =>
      have hagrees : Agrees server c (.read chunk) ↔ ∀ outcome,
          (server.onReadyRead (c.buffer ++ chunk)).2 = some outcome →
            outcome.Sound server := by
        rw [onReadyRead_sound]
        exact ⟨fun h => h hreading, fun h _ => h⟩
      rw [hagrees]
      cases hread : server.onReadyRead (c.buffer ++ chunk) with
      | mk rest result =>
        cases result with
        | none =>
          refine iff_of_true (hsame (by rw [receive_none hreading hread])) ?_
          intro outcome houtcome
          cases houtcome
        | some found =>
          unfold FramedWell
          rw [receive_some hreading hread]
          constructor
          · intro hsound outcome houtcome
            cases houtcome
            exact hsound _ rfl
          · intro hsound outcome houtcome
            obtain rfl : found = outcome := by simpa using houtcome
            exact hsound _ rfl

variable (events : List HttpEvent)

theorem run_snoc (event : HttpEvent) :
    run server (events ++ [event]) = receive server (run server events) event := by
  rw [run, foldl_append]
  rfl

theorem stream_snoc_read (chunk : QByteArray) :
    stream (events ++ [.read chunk]) = stream events ++ chunk := by
  simp [stream]

theorem stream_snoc_respond :
    stream (events ++ [.respond]) = stream events := by
  simp [stream]

/-- Until something is yielded the buffer is the stream; what is yielded first is what the
buffer of some read yields. -/
theorem first_cases :
    ((run server events).outcomes = [] ∧ (run server events).buffer = stream events ∧
      (run server events).reading = true ∧ (run server events).pending = false ∧
        (server.onReadyRead (stream events)).2 = none) ∨
    ∃ outcome front, (run server events).outcomes.head? = some outcome ∧
      front <+: stream events ∧ (server.onReadyRead front).2 = some outcome := by
  induction events using List.reverseRecOn with
  | nil => exact Or.inl ⟨rfl, rfl, rfl, rfl, rfl⟩
  | append_singleton events event ih =>
    rw [run_snoc]
    cases ih with
    | inr hfound =>
      obtain ⟨outcome, front, hhead, hfront, hyields⟩ := hfound
      refine Or.inr ⟨outcome, front, ?_, ?_, hyields⟩
      · obtain ⟨more, hmore⟩ : ∃ more, (receive server (run server events) event).outcomes =
            (run server events).outcomes ++ more := receive_outcomes _ _
        rw [hmore, List.head?_append, hhead]
        rfl
      · have hgrows : stream events <+: stream (events ++ [event]) := by
          cases event with
          | respond => rw [stream_snoc_respond]
          | read chunk =>
            rw [stream_snoc_read]
            exact prefix_append _ _
        exact hfront.trans hgrows
    | inl hnone =>
      obtain ⟨hempty, hbuffer, hreading, hpending, hquiet⟩ := hnone
      cases event with
      | respond =>
        have hkept : receive server (run server events) .respond = run server events := by
          simp only [receive, hpending, Bool.false_eq_true, if_false]
        rw [stream_snoc_respond, hkept]
        exact Or.inl ⟨hempty, hbuffer, hreading, hpending, hquiet⟩
      | read chunk =>
        rw [stream_snoc_read]
        cases hread : server.onReadyRead ((run server events).buffer ++ chunk) with
        | mk rest result =>
          cases result with
          | none =>
            have hrest := onReadyRead_none (congrArg Prod.snd hread)
            rw [hread] at hrest
            rw [receive_none hreading hread]
            refine Or.inl ⟨hempty, ?_, hreading, hpending, ?_⟩
            · rw [← hbuffer]
              exact hrest
            · rw [← hbuffer, hread]
          | some outcome =>
            rw [receive_some hreading hread, ← hbuffer]
            refine Or.inr ⟨outcome, _, ?_, prefix_refl _, by rw [hread]⟩
            simp [hempty]

theorem first_eq {events : List HttpEvent} (hfits : HeadFits (stream events)) :
    (run server events).outcomes.head? = (server.onReadyRead (stream events)).2 := by
  have hcases : _ ∨ ∃ outcome front, (run server events).outcomes.head? = some outcome ∧
      front <+: stream events ∧ (server.onReadyRead front).2 = some outcome := first_cases events
  cases hcases with
  | inl hnone =>
    obtain ⟨hempty, _, _, _, hquiet⟩ := hnone
    rw [hempty, hquiet]
    rfl
  | inr hfound =>
    obtain ⟨outcome, front, hhead, hfront, hyields⟩ := hfound
    rw [hhead, onReadyRead_prefix hfront hfits hyields]

theorem firstSame_iff (bytes : QByteArray) : FirstSame server bytes ↔ HeadFits bytes := by
  constructor
  · intro hsame headerEnd hend
    by_contra hlong
    have hwhole : stream [.read bytes] = bytes := by simp [stream]
    have hcut : stream [.read (bytes.take (maxHeaderBytes + 1)),
        .read (bytes.drop (maxHeaderBytes + 1))] = bytes := by
      simp [stream]
    obtain ⟨hfound, _⟩ := indexOf_eq_some hend
    have hreach := hfound.length_le
    rw [length_drop] at hreach
    simp only [length_cons, length_nil] at hreach
    have hlength : (bytes.take (maxHeaderBytes + 1)).length = maxHeaderBytes + 1 := by
      rw [length_take]
      omega
    have hnone : indexOf blankLine (bytes.take (maxHeaderBytes + 1)) = none := by
      cases hindex : indexOf blankLine (bytes.take (maxHeaderBytes + 1)) with
      | none => rfl
      | some i =>
        have hsome := indexOf_of_prefix (by simp) (List.take_prefix _ _) hindex
        obtain rfl : headerEnd = i := Option.some.inj (hend.symm.trans hsome)
        have hshort := (indexOf_eq_some hindex).1.length_le
        rw [length_drop, hlength] at hshort
        simp only [length_cons, length_nil] at hshort
        omega
    have hread : server.onReadyRead (start.buffer ++ bytes.take (maxHeaderBytes + 1)) =
        (bytes.take (maxHeaderBytes + 1), some (.refused 431)) := by
      change server.onReadyRead (bytes.take (maxHeaderBytes + 1)) = _
      rw [onReadyRead_of_none hnone, if_pos (by omega)]
    have hrefused : (run server [.read (bytes.take (maxHeaderBytes + 1)),
        .read (bytes.drop (maxHeaderBytes + 1))]).outcomes.head? = some (.refused 431) := by
      rw [run, foldl_cons, foldl_cons, foldl_nil, receive_some rfl hread,
        receive_closed rfl]
      rfl
    rw [hsame _ _ hcut hwhole] at hrefused
    cases hall : server.onReadyRead (start.buffer ++ bytes) with
    | mk rest result =>
      have hnot : (server.onReadyRead bytes).2 ≠ some (.refused 431) :=
        onReadyRead_ne_431 hend
      have hbytes : server.onReadyRead bytes = (rest, result) := hall
      rw [hbytes] at hnot
      change (receive server start (.read bytes)).outcomes.head? = _ at hrefused
      cases result with
      | none =>
        rw [receive_none rfl hall] at hrefused
        cases hrefused
      | some outcome =>
        rw [receive_some rfl hall] at hrefused
        exact hnot hrefused
  · intro hfits events events' hevents hevents'
    subst hevents
    rw [first_eq hfits, first_eq (hevents' ▸ hfits), hevents']

def asciiListener : HttpListener where
  platform :=
    { url := fun target => ⟨target, []⟩
      toLower := List.map fold
      toUpper := toUpperAscii }
  secure := true
  activeHttpsPort := 443
  peerLocal := false
  isLanHost := fun _ => false
  upgradeRefusal := fun _ _ => none

def twoLengths : QByteArray :=
  QByteArray.ofAscii "POST / HTTP/1.1\r\nContent-Length: 1\r\nContent-Length: 2\r\n\r\nab"

end HttpConnection

end MoonlightWeb.Server
