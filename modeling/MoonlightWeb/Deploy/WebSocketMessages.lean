import MoonlightWeb.Deploy.WebSocket

/-! # Messages on the WebSocket

What `ReadMessage` returns is one message that stood on the stream, whatever reads the
stream came in and whatever control frames stood between its fragments. Nothing is
allocated beyond the bounds, and a client reads back what the server writes.
-/

namespace MoonlightWeb.Deploy.WebSocket

open Lib Call List

def Frame.isControl (f : Frame) : Bool := decide (f.opcode &&& 0x08 ≠ 0)

def dataFrames (frames : List Frame) : List Frame := frames.filter fun f => !f.isControl

/-- The frames of one complete message: pings and pongs anywhere before its end, a first
fragment with the opcode, continuations, and `fin` on the last alone. -/
structure IsMessage (frames : List Frame) (opcode : UInt8) (payload : List UInt8) : Prop where
  control : ∀ f ∈ frames, f.isControl = true →
    f.fin = true ∧ (f.opcode = opPing ∨ f.opcode = opPong)
  ends : ∃ front last, frames = front ++ [last] ∧ last.isControl = false ∧ last.fin = true ∧
    ∀ f ∈ front, f.isControl = false → f.fin = false
  fragments : ∃ first rest, dataFrames frames = first :: rest ∧ first.opcode = opcode ∧
    ∀ f ∈ rest, f.opcode = opContinuation
  opcode : opcode = opText ∨ opcode = opBinary
  payload : payload = ((dataFrames frames).map Frame.payload).flatten

/-- The frames that complete what was put together so far. -/
inductive Completes : Partial → List Frame → UInt8 → List UInt8 → Prop
  | control {started : Partial} {f : Frame} {frames : List Frame} {opcode : UInt8}
      {payload : List UInt8} :
      f.fin = true → (f.opcode = opPing ∨ f.opcode = opPong) →
      Completes started frames opcode payload → Completes started (f :: frames) opcode payload
  | whole {f : Frame} :
      f.fin = true → (f.opcode = opText ∨ f.opcode = opBinary) →
      Completes none [f] f.opcode f.payload
  | first {f : Frame} {frames : List Frame} {opcode : UInt8} {payload : List UInt8} :
      f.fin = false → (f.opcode = opText ∨ f.opcode = opBinary) →
      Completes (some (f.opcode, f.payload)) frames opcode payload →
      Completes none (f :: frames) opcode payload
  | next {f : Frame} {frames : List Frame} {opcode : UInt8} {buf payload : List UInt8}
      {opcode' : UInt8} :
      f.fin = false → f.opcode = opContinuation →
      Completes (some (opcode, buf ++ f.payload)) frames opcode' payload →
      Completes (some (opcode, buf)) (f :: frames) opcode' payload
  | last {f : Frame} {opcode : UInt8} {buf : List UInt8} :
      f.fin = true → f.opcode = opContinuation →
      Completes (some (opcode, buf)) [f] opcode (buf ++ f.payload)

variable {f : Frame}

theorem isControl_of_ping (h : f.opcode = opPing ∨ f.opcode = opPong) :
    f.isControl = true := by
  unfold Frame.isControl
  rcases h with h | h <;> rw [h] <;> decide

theorem isControl_of_text (h : f.opcode = opText ∨ f.opcode = opBinary) :
    f.isControl = false := by
  unfold Frame.isControl
  rcases h with h | h <;> rw [h] <;> decide

theorem isControl_of_continuation (h : f.opcode = opContinuation) :
    f.isControl = false := by
  unfold Frame.isControl
  rw [h]
  decide

theorem dataFrames_cons (f : Frame) (frames : List Frame) :
    dataFrames (f :: frames) = if f.isControl then dataFrames frames else f :: dataFrames frames := by
  unfold dataFrames
  cases hcontrol : f.isControl <;> simp [hcontrol]

section

variable {started : Partial} {frames : List Frame} {opcode : UInt8} {payload : List UInt8}

theorem Completes.control_frames (h : Completes started frames opcode payload) :
    ∀ f ∈ frames, f.isControl = true → f.fin = true ∧ (f.opcode = opPing ∨ f.opcode = opPong) := by
  induction h with
  | @control started f frames opcode payload hfin hping hrest ih =>
    intro g hg hcontrol
    rcases mem_cons.mp hg with rfl | hg
    · exact ⟨hfin, hping⟩
    · exact ih g hg hcontrol
  | @whole f hfin htext =>
    intro g hg hcontrol
    rw [mem_singleton.mp hg, isControl_of_text htext] at hcontrol
    cases hcontrol
  | @first f frames opcode payload hfin htext hrest ih =>
    intro g hg hcontrol
    rcases mem_cons.mp hg with rfl | hg
    · rw [isControl_of_text htext] at hcontrol
      cases hcontrol
    · exact ih g hg hcontrol
  | @next f frames opcode buf payload opcode' hfin hcont hrest ih =>
    intro g hg hcontrol
    rcases mem_cons.mp hg with rfl | hg
    · rw [isControl_of_continuation hcont] at hcontrol
      cases hcontrol
    · exact ih g hg hcontrol
  | @last f opcode buf hfin hcont =>
    intro g hg hcontrol
    rw [mem_singleton.mp hg, isControl_of_continuation hcont] at hcontrol
    cases hcontrol

/-- Frames that end do so after another frame that does not end the message. -/
theorem ends_cons {f : Frame} (hf : f.isControl = false → f.fin = false)
    (h : ∃ front last, frames = front ++ [last] ∧ last.isControl = false ∧ last.fin = true ∧
      ∀ g ∈ front, g.isControl = false → g.fin = false) :
    ∃ front last, f :: frames = front ++ [last] ∧ last.isControl = false ∧ last.fin = true ∧
      ∀ g ∈ front, g.isControl = false → g.fin = false := by
  obtain ⟨front, last, rfl, hdata, hfin, hfront⟩ := h
  refine ⟨f :: front, last, rfl, hdata, hfin, ?_⟩
  intro g hg
  rcases mem_cons.mp hg with rfl | hg
  · exact hf
  · exact hfront g hg

theorem Completes.ends (h : Completes started frames opcode payload) :
    ∃ front last, frames = front ++ [last] ∧ last.isControl = false ∧ last.fin = true ∧
      ∀ f ∈ front, f.isControl = false → f.fin = false := by
  induction h with
  | control hfin hping hrest ih =>
    exact ends_cons (fun hno => absurd (isControl_of_ping hping) (by simp [hno])) ih
  | @whole f hfin htext =>
    exact ⟨[], f, rfl, isControl_of_text htext, hfin, fun _ hno => absurd hno not_mem_nil⟩
  | first hfin htext hrest ih => exact ends_cons (fun _ => hfin) ih
  | next hfin hcont hrest ih => exact ends_cons (fun _ => hfin) ih
  | @last f opcode buf hfin hcont =>
    exact ⟨[], f, rfl, isControl_of_continuation hcont, hfin,
      fun _ hno => absurd hno not_mem_nil⟩

/-- What was put together so far, the rest being continuations. -/
theorem Completes.continues (h : Completes started frames opcode payload) {opcode' : UInt8}
    {buf : List UInt8} (hstarted : started = some (opcode', buf)) :
    opcode = opcode' ∧ (∀ f ∈ dataFrames frames, f.opcode = opContinuation) ∧
      payload = buf ++ ((dataFrames frames).map Frame.payload).flatten := by
  induction h generalizing buf with
  | control hfin hping hrest ih =>
    rw [dataFrames_cons, isControl_of_ping hping, if_pos rfl]
    exact ih hstarted
  | whole hfin htext => cases hstarted
  | first hfin htext hrest ih => cases hstarted
  | @next f frames opcode buf₀ payload opcode₀ hfin hcont hrest ih =>
    obtain ⟨rfl, rfl⟩ := Prod.mk.inj (Option.some.inj hstarted)
    obtain ⟨hopcode, hfragments, hpayload⟩ := ih rfl
    rw [dataFrames_cons, isControl_of_continuation hcont, if_neg (by simp)]
    refine ⟨hopcode, ?_, ?_⟩
    · intro g hg
      rcases mem_cons.mp hg with rfl | hg
      · exact hcont
      · exact hfragments g hg
    · rw [hpayload, map_cons, flatten_cons, append_assoc]
  | @last f opcode buf₀ hfin hcont =>
    obtain ⟨rfl, rfl⟩ := Prod.mk.inj (Option.some.inj hstarted)
    rw [dataFrames_cons, isControl_of_continuation hcont, if_neg (by simp)]
    refine ⟨rfl, ?_, by simp [dataFrames]⟩
    intro g hg
    have hself : g = f := by simpa [dataFrames] using hg
    rw [hself]
    exact hcont

theorem Completes.fragments (h : Completes none frames opcode payload) :
    (opcode = opText ∨ opcode = opBinary) ∧
      (∃ first rest, dataFrames frames = first :: rest ∧ first.opcode = opcode ∧
        ∀ f ∈ rest, f.opcode = opContinuation) ∧
      payload = ((dataFrames frames).map Frame.payload).flatten := by
  generalize hstarted : (none : Partial) = started at h
  induction h with
  | control hfin hping hrest ih =>
    rw [dataFrames_cons, isControl_of_ping hping, if_pos rfl]
    exact ih hstarted
  | @whole f hfin htext =>
    rw [dataFrames_cons, isControl_of_text htext, if_neg (by simp)]
    refine ⟨htext, ⟨f, [], rfl, rfl, fun _ hno => absurd hno not_mem_nil⟩, ?_⟩
    simp [dataFrames]
  | @first f frames opcode payload hfin htext hrest ih =>
    obtain ⟨rfl, hfragments, hpayload⟩ := hrest.continues rfl
    rw [dataFrames_cons, isControl_of_text htext, if_neg (by simp)]
    refine ⟨htext, ⟨f, dataFrames frames, rfl, rfl, hfragments⟩, ?_⟩
    rw [hpayload, map_cons, flatten_cons]
  | next hfin hcont hrest ih => cases hstarted
  | last hfin hcont => cases hstarted

theorem Completes.isMessage (h : Completes none frames opcode payload) :
    IsMessage frames opcode payload where
  control := h.control_frames
  ends := h.ends
  fragments := h.fragments.2.1
  opcode := h.fragments.1
  payload := h.fragments.2.2

end

/-- What a turn of the loop makes of a frame it does not refuse. -/
inductive Turn (maxMessage : Nat) (f : Frame) : Partial → Progress → Prop
  | control {started : Partial} : (f.opcode = opPing ∨ f.opcode = opPong) →
      Turn maxMessage f started (.more started)
  | whole : f.fin = true → (f.opcode = opText ∨ f.opcode = opBinary) →
      Turn maxMessage f none (.message f.opcode f.payload)
  | first : f.fin = false → (f.opcode = opText ∨ f.opcode = opBinary) →
      Turn maxMessage f none (.more (some (f.opcode, f.payload)))
  | next {opcode : UInt8} {buf : List UInt8} : f.fin = false → f.opcode = opContinuation →
      (buf ++ f.payload).length ≤ maxMessage →
      Turn maxMessage f (some (opcode, buf)) (.more (some (opcode, buf ++ f.payload)))
  | last {opcode : UInt8} {buf : List UInt8} : f.fin = true → f.opcode = opContinuation →
      (buf ++ f.payload).length ≤ maxMessage →
      Turn maxMessage f (some (opcode, buf)) (.message opcode (buf ++ f.payload))

theorem turn_of_onFrame {maxMessage : Nat} {started : Partial} {progress : Progress}
    {c c' : Conn} (h : onFrame maxMessage started f c = (.ok progress, c')) :
    Turn maxMessage f started progress := by
  unfold onFrame at h
  by_cases hping : f.opcode = opPing
  · rw [if_pos hping] at h
    obtain ⟨_, middle, _, hret⟩ := andThen_eq_ok.mp h
    obtain ⟨rfl, _⟩ := ret_eq.mp hret
    exact Turn.control (Or.inl hping)
  rw [if_neg hping] at h
  by_cases hpong : f.opcode = opPong
  · rw [if_pos hpong] at h
    obtain ⟨rfl, _⟩ := ret_eq.mp h
    exact Turn.control (Or.inr hpong)
  rw [if_neg hpong] at h
  by_cases hclose : f.opcode = opClose
  · rw [if_pos hclose] at h
    obtain ⟨_, middle, _, hfail⟩ := andThen_eq_ok.mp h
    exact absurd hfail fail_ne
  rw [if_neg hclose] at h
  by_cases htext : f.opcode = opText ∨ f.opcode = opBinary
  · rw [if_pos htext] at h
    cases started with
    | some _ => exact absurd h fail_ne
    | none =>
      simp only at h
      cases hfin : f.fin with
      | true =>
        rw [hfin, if_pos rfl] at h
        obtain ⟨rfl, _⟩ := ret_eq.mp h
        exact Turn.whole hfin htext
      | false =>
        rw [hfin, if_neg (by simp)] at h
        obtain ⟨rfl, _⟩ := ret_eq.mp h
        exact Turn.first hfin htext
  rw [if_neg htext] at h
  by_cases hcont : f.opcode = opContinuation
  · rw [if_pos hcont] at h
    cases started with
    | none => exact absurd h fail_ne
    | some put =>
      obtain ⟨opcode, buf⟩ := put
      simp only at h
      by_cases hlong : buf.length + f.payload.length > maxMessage
      · rw [if_pos hlong] at h
        exact absurd h fail_ne
      · rw [if_neg hlong] at h
        have hbound : (buf ++ f.payload).length ≤ maxMessage := by
          rw [length_append]
          omega
        cases hfin : f.fin with
        | true =>
          rw [hfin, if_pos rfl] at h
          obtain ⟨rfl, _⟩ := ret_eq.mp h
          exact Turn.last hfin hcont hbound
        | false =>
          rw [hfin, if_neg (by simp)] at h
          obtain ⟨rfl, _⟩ := ret_eq.mp h
          exact Turn.next hfin hcont hbound
  rw [if_neg hcont] at h
  exact absurd h fail_ne

/-- The frames stand on the stream one after the other. -/
def Stand (frames : List Frame) (bytes rest : List UInt8) : Prop :=
  ∃ wires, List.Forall₂ Layout frames wires ∧ bytes = wires.flatten ++ rest

theorem Stand.cons {frames : List Frame} {wire bytes rest : List UInt8}
    (hf : Layout f wire) (h : Stand frames bytes rest) :
    Stand (f :: frames) (wire ++ bytes) rest := by
  obtain ⟨wires, hwires, rfl⟩ := h
  exact ⟨wire :: wires, List.Forall₂.cons hf hwires, by simp⟩

theorem Stand.single {wire rest : List UInt8} (hf : Layout f wire) :
    Stand [f] (wire ++ rest) rest :=
  ⟨[wire], List.Forall₂.cons hf List.Forall₂.nil, by simp⟩

variable {opcode : UInt8}

variable (maxMessage : Nat)

/-- What the loop returns was completed by frames at the front of the stream. -/
theorem readLoop_sound {started : Partial} {payload : List UInt8} {c c' : Conn}
    (h : readLoop maxMessage started c = (.ok (opcode, payload), c')) :
    payload.length ≤ maxMessage ∧
      ∃ frames, Completes started frames opcode payload ∧ Stand frames c.bytes c'.bytes := by
  induction hn : c.bytes.length using Nat.strong_induction_on generalizing started c with
  | _ n ih =>
    subst hn
    rw [readLoop_eq] at h
    obtain ⟨f, c₁, hframe, h⟩ := andThen_eq_ok.mp h
    obtain ⟨progress, c₂, hturn, h⟩ := andThen_eq_ok.mp h
    obtain ⟨⟨wire, hlayout, hbytes⟩, hcontrol, hdata⟩ := readFrame_eq_ok hframe
    have hshrinks := readFrame_shrinks hframe
    have hquiet := (onFrame_input hturn).1
    have hlater : ∀ {started'}, readLoop maxMessage started' c₂ = (.ok (opcode, payload), c') →
        payload.length ≤ maxMessage ∧ ∃ frames, Completes started' frames opcode payload ∧
          Stand frames c₁.bytes c'.bytes := by
      intro started' hrest
      have hrest := ih c₂.bytes.length (by rw [hquiet]; exact hshrinks) hrest rfl
      rwa [hquiet] at hrest
    rw [hbytes]
    cases turn_of_onFrame hturn with
    | control hping =>
      obtain ⟨hbound, frames, hcompletes, hstand⟩ := hlater h
      have hmask := isControl_of_ping hping
      have hfin := (hcontrol (of_decide_eq_true hmask)).1
      exact ⟨hbound, f :: frames, Completes.control hfin hping hcompletes, hstand.cons hlayout⟩
    | whole hfin htext =>
      obtain ⟨heq, rfl⟩ := ret_eq.mp h
      obtain ⟨rfl, rfl⟩ := Prod.mk.inj heq
      have hmask := isControl_of_text htext
      refine ⟨hdata (not_not.mp (of_decide_eq_false hmask)), [f], Completes.whole hfin htext, ?_⟩
      rw [hquiet]
      exact Stand.single hlayout
    | first hfin htext =>
      obtain ⟨hbound, frames, hcompletes, hstand⟩ := hlater h
      exact ⟨hbound, f :: frames, Completes.first hfin htext hcompletes, hstand.cons hlayout⟩
    | next hfin hcont hlength =>
      obtain ⟨hbound, frames, hcompletes, hstand⟩ := hlater h
      exact ⟨hbound, f :: frames, Completes.next hfin hcont hcompletes, hstand.cons hlayout⟩
    | last hfin hcont hlength =>
      obtain ⟨heq, rfl⟩ := ret_eq.mp h
      obtain ⟨rfl, rfl⟩ := Prod.mk.inj heq
      refine ⟨hlength, [f], Completes.last hfin hcont, ?_⟩
      rw [hquiet]
      exact Stand.single hlayout

structure SameBytes (c d : Conn) : Prop where
  bytes : c.bytes = d.bytes
  dead : c.dead = d.dead
  outcomes : c.outcomes = d.outcomes
  sent : c.sent = d.sent
  allocated : c.allocated = d.allocated

section

variable {α β : Type}

/-- Two results that differ in the cut of what is left at most. -/
def Agree (x y : Except WsError α × Conn) : Prop := x.1 = y.1 ∧ SameBytes x.2 y.2

/-- A call whose result does not depend on the cut. -/
def CutFree (m : Call α) : Prop := ∀ c d, SameBytes c d → Agree (m c) (m d)

theorem agree_andThen {m : Call α} {f : α → Call β} {c d : Conn} (hm : Agree (m c) (m d))
    (hf : ∀ a c' d', m c = (.ok a, c') → SameBytes c' d' → Agree (f a c') (f a d')) :
    Agree (m.andThen f c) (m.andThen f d) := by
  unfold andThen
  cases hc : m c with
  | mk result c' =>
    cases hd : m d with
    | mk result' d' =>
      rw [hc, hd] at hm
      obtain ⟨hresult, hsame⟩ := hm
      obtain rfl : result = result' := hresult
      cases result with
      | error e => exact ⟨rfl, hsame⟩
      | ok a => exact hf a c' d' hc hsame

theorem CutFree.ret (a : α) : CutFree (ret a) := fun _ _ h => ⟨rfl, h⟩

theorem CutFree.fail (e : WsError) : CutFree (fail e : Call α) := fun _ _ h => ⟨rfl, h⟩

theorem CutFree.andThen {m : Call α} {f : α → Call β} (hm : CutFree m) (hf : ∀ a, CutFree (f a)) :
    CutFree (m.andThen f) := fun c d h =>
  agree_andThen (hm c d h) fun a c' d' _ hsame => hf a c' d' hsame

theorem CutFree.ite {p : Prop} [Decidable p] {m m' : Call α} (hm : CutFree m) (hm' : CutFree m') :
    CutFree (if p then m else m') := by
  by_cases hp : p
  · rwa [if_pos hp]
  · rwa [if_neg hp]

theorem CutFree.readFull (n : Nat) : CutFree (readFull n) := by
  intro c d h
  have hread := Chunks.readFull_congr (n := n) (show c.chunks.flatten = d.chunks.flatten from h.bytes)
  have hend : c.chunks.flatten = d.chunks.flatten := h.bytes
  unfold WebSocket.readFull
  cases hc : Chunks.readFull n c.chunks with
  | none =>
    cases hd : Chunks.readFull n d.chunks with
    | none =>
      simp only [hend]
      exact ⟨rfl, rfl, h.dead, h.outcomes, h.sent, h.allocated⟩
    | some found =>
      rw [hc, hd] at hread
      cases hread
  | some found =>
    cases hd : Chunks.readFull n d.chunks with
    | none =>
      rw [hc, hd] at hread
      cases hread
    | some found' =>
      rw [hc, hd] at hread
      obtain ⟨hbytes, hrest⟩ := Prod.mk.inj (Option.some.inj hread)
      exact ⟨congrArg Except.ok hbytes, hrest, h.dead, h.outcomes, h.sent, h.allocated⟩

theorem CutFree.allocate (n : Nat) : CutFree (allocate n) := fun _ _ h =>
  ⟨rfl, h.bytes, h.dead, h.outcomes, h.sent, congrArg (· ++ [n]) h.allocated⟩

theorem CutFree.write (opcode : UInt8) (payload : List UInt8) : CutFree (write opcode payload) := by
  rintro ⟨chunks, dead, outcomes, sent, allocated⟩ ⟨chunks', dead', outcomes', sent', allocated'⟩
    ⟨hbytes, hdead, houtcomes, hsent, hallocated⟩
  simp only at hdead houtcomes hsent hallocated
  subst hdead houtcomes hsent hallocated
  cases dead with
  | true => exact ⟨rfl, hbytes, rfl, rfl, rfl, rfl⟩
  | false =>
    cases outcomes with
    | nil => exact ⟨rfl, hbytes, rfl, rfl, rfl, rfl⟩
    | cons outcome outcomes =>
      cases outcome <;> exact ⟨rfl, hbytes, rfl, rfl, rfl, rfl⟩

theorem CutFree.writeClose (code : Nat) : CutFree (writeClose code) := fun c d h =>
  ⟨rfl, (CutFree.write opClose _ c d h).2⟩

theorem CutFree.readFrame (maxMessage : Nat) : CutFree (readFrame maxMessage) := by
  have hlength : ∀ second, CutFree (readLength second) := by
    intro second
    unfold readLength
    refine CutFree.ite ((CutFree.readFull 2).andThen fun _ => CutFree.ret _) ?_
    refine CutFree.ite ((CutFree.readFull 8).andThen fun _ => ?_) (CutFree.ret _)
    exact CutFree.ite (CutFree.fail _) (CutFree.ret _)
  have hcheck : ∀ fin opcode length, CutFree (checkLength maxMessage fin opcode length) := by
    intro fin opcode length
    unfold checkLength
    refine CutFree.ite ?_ (CutFree.ite (CutFree.fail _) (CutFree.ret _))
    exact CutFree.ite (CutFree.fail _) (CutFree.ite (CutFree.fail _) (CutFree.ret _))
  have hpayload : ∀ length, CutFree (readPayload length) := by
    intro length
    refine (CutFree.readFull 4).andThen fun _ => (CutFree.allocate length).andThen fun _ => ?_
    exact (CutFree.readFull length).andThen fun _ => CutFree.ret _
  refine (CutFree.readFull 2).andThen fun hdr => CutFree.ite (CutFree.fail _) ?_
  refine CutFree.ite (CutFree.fail _) ((hlength _).andThen fun length => ?_)
  exact (hcheck _ _ _).andThen fun _ => (hpayload length).andThen fun _ => CutFree.ret _

theorem CutFree.onFrame (maxMessage : Nat) (started : Partial) (f : Frame) :
    CutFree (onFrame maxMessage started f) := by
  unfold WebSocket.onFrame
  refine CutFree.ite ((CutFree.write _ _).andThen fun _ => CutFree.ret _) ?_
  refine CutFree.ite (CutFree.ret _) ?_
  refine CutFree.ite ((CutFree.writeClose _).andThen fun _ => CutFree.fail _) ?_
  refine CutFree.ite ?_ (CutFree.ite ?_ (CutFree.fail _))
  · cases started with
    | some _ => exact CutFree.fail _
    | none => exact CutFree.ite (CutFree.ret _) (CutFree.ret _)
  · cases started with
    | none => exact CutFree.fail _
    | some _ => exact CutFree.ite (CutFree.fail _) (CutFree.ite (CutFree.ret _) (CutFree.ret _))

end

theorem cutFree_readLoop (started : Partial) :
    CutFree (readLoop maxMessage started) := by
  intro c d hsame
  induction hn : c.bytes.length using Nat.strong_induction_on generalizing started c d with
  | _ n ih =>
    subst hn
    rw [readLoop_eq]
    refine agree_andThen (CutFree.readFrame maxMessage c d hsame) ?_
    intro f c₁ d₁ hframe hsame₁
    refine agree_andThen (CutFree.onFrame maxMessage started f c₁ d₁ hsame₁) ?_
    intro progress c₂ d₂ hturn hsame₂
    have hquiet := (onFrame_input hturn).1
    cases progress with
    | message opcode payload => exact CutFree.ret _ c₂ d₂ hsame₂
    | more started' =>
      have hless : c₂.bytes.length < c.bytes.length := by
        rw [hquiet]
        exact readFrame_shrinks hframe
      exact ih c₂.bytes.length hless started' c₂ d₂ hsame₂ rfl

section

variable {α β : Type} {bound : Nat}

/-- From `c` on, nothing beyond the bound was allocated. -/
def Within (bound : Nat) (c c' : Conn) : Prop := ∀ n ∈ c'.allocated, n ∈ c.allocated ∨ n ≤ bound

theorem Within.refl (c : Conn) : Within bound c c := fun _ hn => Or.inl hn

theorem Within.trans {c c' c'' : Conn} (h : Within bound c c') (h' : Within bound c' c'') :
    Within bound c c'' := fun n hn => (h' n hn).elim (h n) Or.inr

theorem within_andThen {m : Call α} {f : α → Call β} {c : Conn} (hm : Within bound c (m c).2)
    (hf : ∀ a c', m c = (.ok a, c') → Within bound c' (f a c').2) :
    Within bound c (m.andThen f c).2 := by
  unfold andThen
  cases hc : m c with
  | mk result c' =>
    rw [hc] at hm
    cases result with
    | error e => exact hm
    | ok a => exact hm.trans (hf a c' hc)

theorem Within.of_eq {c c' : Conn} (h : c'.allocated = c.allocated) : Within bound c c' := by
  intro n hn
  rw [h] at hn
  exact Or.inl hn

end

theorem keeps_readFull (n : Nat) : Keeps Conn.allocated (readFull n) := by
  intro c
  unfold readFull
  cases Chunks.readFull n c.chunks <;> rfl

theorem keeps_readLength (second : UInt8) : Keeps Conn.allocated (readLength second) := by
  unfold readLength
  refine Keeps.ite ((keeps_readFull 2).andThen fun _ => Keeps.ret _) ?_
  refine Keeps.ite ((keeps_readFull 8).andThen fun _ => ?_) (Keeps.ret _)
  exact Keeps.ite (Keeps.fail _) (Keeps.ret _)

theorem keeps_checkLength (fin : Bool) (opcode : UInt8) (length : Nat) :
    Keeps Conn.allocated (checkLength maxMessage fin opcode length) := by
  unfold checkLength
  refine Keeps.ite ?_ (Keeps.ite (Keeps.fail _) (Keeps.ret _))
  exact Keeps.ite (Keeps.fail _) (Keeps.ite (Keeps.fail _) (Keeps.ret _))

theorem within_readPayload {length bound : Nat} (h : length ≤ bound) (c : Conn) :
    Within bound c (readPayload length c).2 := by
  refine within_andThen (Within.of_eq (keeps_readFull 4 c)) fun mask c₁ _ => ?_
  refine within_andThen ?_ fun _ c₂ _ => ?_
  · intro n hn
    rcases mem_append.mp hn with hold | hnew
    · exact Or.inl hold
    · rw [mem_singleton.mp hnew]
      exact Or.inr h
  · refine within_andThen (Within.of_eq (keeps_readFull length c₂)) fun payload c₃ _ => ?_
    exact Within.refl c₃

/-- A frame's length is allocated only once it was found within its bound. -/
theorem within_readFrame (c : Conn) :
    Within (max maxMessage 125) c (readFrame maxMessage c).2 := by
  refine within_andThen (Within.of_eq (keeps_readFull 2 c)) fun hdr c₁ _ => ?_
  by_cases hreserved : hdr.getD 0 0 &&& 0x70 ≠ 0
  · rw [if_pos hreserved]
    exact Within.refl c₁
  rw [if_neg hreserved]
  by_cases hunmasked : hdr.getD 1 0 &&& 0x80 = 0
  · rw [if_pos hunmasked]
    exact Within.refl c₁
  rw [if_neg hunmasked]
  refine within_andThen (Within.of_eq (keeps_readLength _ c₁)) fun length c₂ _ => ?_
  refine within_andThen (Within.of_eq (keeps_checkLength _ _ _ _ c₂)) fun _ c₃ hcheck => ?_
  obtain ⟨_, hcontrol, hdata⟩ := checkLength_eq_ok hcheck
  have hbound : length ≤ max maxMessage 125 := by
    by_cases hop : hdr.getD 0 0 &&& 0x0F &&& 0x08 = 0
    · exact le_max_of_le_left (hdata hop)
    · exact le_max_of_le_right (hcontrol hop).2
  refine within_andThen (within_readPayload hbound c₃) fun payload c₄ _ => ?_
  exact Within.refl c₄

theorem within_readLoop (started : Partial) (c : Conn) :
    Within (max maxMessage 125) c (readLoop maxMessage started c).2 := by
  induction hn : c.bytes.length using Nat.strong_induction_on generalizing started c with
  | _ n ih =>
    subst hn
    rw [readLoop_eq]
    refine within_andThen (within_readFrame maxMessage c) fun f c₁ hframe => ?_
    have hkeeps := congrArg Prod.snd (keeps_onFrame maxMessage started f c₁)
    refine within_andThen (Within.of_eq hkeeps) fun progress c₂ hturn => ?_
    cases progress with
    | message opcode payload => exact Within.refl c₂
    | more started' =>
      have hless : c₂.bytes.length < c.bytes.length := by
        rw [(onFrame_input hturn).1]
        exact readFrame_shrinks hframe
      exact ih c₂.bytes.length hless started' c₂ rfl

def serverOpcodes : List UInt8 := [opText, opClose, opPing, opPong]

theorem readFull_front {front back : List UInt8} {n : Nat} {c : Conn} (hn : front.length = n)
    (h : c.bytes = front ++ back) :
    ∃ c', readFull n c = (.ok front, c') ∧ c'.bytes = back := by
  unfold readFull
  cases hread : Chunks.readFull n c.chunks with
  | none =>
    have hshort := Chunks.readFull_eq_none.mp hread
    rw [show c.chunks.flatten = front ++ back from h, length_append] at hshort
    omega
  | some found =>
    obtain ⟨hlength, hflatten⟩ := Chunks.readFull_eq_some hread
    rw [show c.chunks.flatten = front ++ back from h] at hflatten
    obtain ⟨hfirst, hrest⟩ := append_inj hflatten (hlength.trans hn.symm)
    exact ⟨_, congrArg₂ Prod.mk (congrArg Except.ok hfirst) rfl, hrest⟩

theorem server_first_byte : ∀ opcode ∈ serverOpcodes,
    (0x80 ||| opcode) &&& 0x80 ≠ 0 ∧ (0x80 ||| opcode) &&& 0x0F = opcode := by
  decide +kernel

theorem short_length_byte (b : UInt8) : b.toNat ≤ 125 →
    b &&& 0x80 = 0 ∧ b &&& 0x7F = b ∧ b ≠ 126 ∧ b ≠ 127 := by
  revert b
  exact forall_byte (by decide +kernel)

/-- The length of a server's frame, as the client reads it after the two first bytes. -/
theorem clientLength_front {n : Nat} (hn : n ≤ maxInt64) :
    ∃ second ext, frameHeader opcode n = [0x80 ||| opcode, second] ++ ext ∧
      second &&& 0x80 = 0 ∧ ∀ (c : Conn) (back : List UInt8), c.bytes = ext ++ back →
        ∃ c', clientLength second c = (.ok n, c') ∧ c'.bytes = back := by
  unfold frameHeader
  by_cases hshort : n ≤ 125
  · have hback : (UInt8.ofNat n).toNat = n := UInt8.toNat_ofNat_of_lt' (show n < 256 by omega)
    obtain ⟨hmask, hlow, hmedium, hlong⟩ := short_length_byte (UInt8.ofNat n) (by omega)
    rw [if_pos hshort]
    refine ⟨UInt8.ofNat n, [], rfl, hmask, fun c back hbytes => ⟨c, ?_, hbytes⟩⟩
    unfold clientLength
    rw [hlow, if_neg hmedium, if_neg hlong, hback]
    rfl
  rw [if_neg hshort]
  by_cases hmedium : n ≤ 65535
  · rw [if_pos hmedium]
    refine ⟨126, Bytes.bigEndian 2 n, rfl, by decide, fun c back hbytes => ?_⟩
    obtain ⟨c', hread, hrest⟩ := readFull_front (n := 2) (by simp) hbytes
    refine ⟨c', ?_, hrest⟩
    unfold clientLength
    rw [if_pos (by decide)]
    refine andThen_eq_ok.mpr ⟨_, c', hread, ?_⟩
    rw [Bytes.bigEndianValue_of_lt (by omega)]
    rfl
  · rw [if_neg hmedium]
    refine ⟨127, Bytes.bigEndian 8 n, rfl, by decide, fun c back hbytes => ?_⟩
    obtain ⟨c', hread, hrest⟩ := readFull_front (n := 8) (by simp) hbytes
    refine ⟨c', ?_, hrest⟩
    unfold clientLength
    rw [if_neg (by decide), if_pos (by decide)]
    refine andThen_eq_ok.mpr ⟨_, c', hread, ?_⟩
    have hfits : n < 256 ^ 8 := by
      unfold maxInt64 at hn
      omega
    rw [Bytes.bigEndianValue_of_lt hfits, if_neg (by omega)]
    rfl

theorem clientReadFrame_serverFrame (hopcode : opcode ∈ serverOpcodes)
    {payload : List UInt8} (hlength : payload.length ≤ maxInt64) {c : Conn} {rest : List UInt8}
    (hbytes : c.bytes = serverFrame opcode payload ++ rest) :
    ∃ c', clientReadFrame c = (.ok ⟨true, opcode, payload⟩, c') ∧ c'.bytes = rest := by
  obtain ⟨hfin, hlow⟩ := server_first_byte opcode hopcode
  obtain ⟨second, ext, hheader, hmask, hread⟩ := @clientLength_front opcode _ hlength
  rw [serverFrame, hheader, append_assoc, append_assoc] at hbytes
  obtain ⟨c₁, hhdr, hbytes⟩ := readFull_front (n := 2) rfl hbytes
  rw [← append_assoc, append_assoc] at hbytes
  obtain ⟨c₂, hsize, hbytes⟩ := hread c₁ _ hbytes
  have hallocated : (allocate payload.length c₂).2.bytes = payload ++ rest := hbytes
  obtain ⟨c₃, hpayload, hrest⟩ := readFull_front rfl hallocated
  refine ⟨c₃, ?_, hrest⟩
  refine andThen_eq_ok.mpr ⟨_, c₁, hhdr, ?_⟩
  simp only [getD_cons_zero, getD_cons_succ]
  rw [if_neg (by rw [hmask]; decide)]
  refine andThen_eq_ok.mpr ⟨_, c₂, hsize, ?_⟩
  refine andThen_eq_ok.mpr ⟨(), _, rfl, ?_⟩
  refine andThen_eq_ok.mpr ⟨_, c₃, hpayload, ?_⟩
  rw [hlow, decide_eq_true hfin]
  rfl

/-- `ReadMessage` fails or returns one message that stood on the stream, within the
bound; it yields the same however the stream is cut and allocates within its bounds; and
a client reads back each frame the server writes. -/
theorem framing_kept (maxMessage : Nat) (c : Conn) :
    (∀ opcode payload c', readMessage maxMessage c = (.ok (opcode, payload), c') →
      payload.length ≤ maxMessage ∧
        ∃ frames, IsMessage frames opcode payload ∧ Stand frames c.bytes c'.bytes) ∧
    (∀ d, SameBytes c d → Agree (readMessage maxMessage c) (readMessage maxMessage d)) ∧
    Within (max maxMessage 125) c (readMessage maxMessage c).2 ∧
    ∀ opcode ∈ serverOpcodes, ∀ payload rest : List UInt8, payload.length ≤ maxInt64 →
      c.bytes = serverFrame opcode payload ++ rest →
        ∃ c', clientReadFrame c = (.ok ⟨true, opcode, payload⟩, c') ∧ c'.bytes = rest := by
  refine ⟨?_, ?_, within_readLoop maxMessage none c, ?_⟩
  · intro opcode payload c' h
    obtain ⟨hbound, frames, hcompletes, hstand⟩ := readLoop_sound maxMessage h
    exact ⟨hbound, frames, hcompletes.isMessage, hstand⟩
  · intro d hsame
    exact cutFree_readLoop maxMessage none c d hsame
  · intro opcode hopcode payload rest hlength hbytes
    exact clientReadFrame_serverFrame hopcode hlength hbytes

/-- The server's own reader refuses the empty text frame its writer makes. -/
theorem own_frame_refused :
    ¬ ∀ (maxMessage : Nat) (c : Conn), ∀ opcode ∈ serverOpcodes, ∀ payload rest : List UInt8,
      payload.length ≤ maxInt64 → c.bytes = serverFrame opcode payload ++ rest →
        ∃ c', readFrame maxMessage c = (.ok ⟨true, opcode, payload⟩, c') := by
  intro hall
  obtain ⟨c', hread⟩ := hall 1024 ⟨[serverFrame opText []], false, [], [], []⟩ opText (by decide)
    [] [] (by decide) rfl
  have hresult : (readFrame 1024 ⟨[serverFrame opText []], false, [], [], []⟩).1 =
      .ok ⟨true, opText, []⟩ := congrArg Prod.fst hread
  exact absurd hresult (by decide)

end MoonlightWeb.Deploy.WebSocket
