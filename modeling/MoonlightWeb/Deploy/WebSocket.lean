import MoonlightWeb.Lib.Bytes
import MoonlightWeb.Lib.Chunks

/-! # The WebSocket of the rendezvous

What the server reads of a connection and writes to it, after the handshake. The bytes
of the peer come in the reads the network makes of them, and end where the connection
fails or a deadline passes. A write may fail, which kills the connection for writing.
-/

namespace MoonlightWeb.Deploy.WebSocket

open Lib Bytes

def opContinuation : UInt8 := 0x0
def opText : UInt8 := 0x1
def opBinary : UInt8 := 0x2
def opClose : UInt8 := 0x8
def opPing : UInt8 := 0x9
def opPong : UInt8 := 0xA

def closeNormal : Nat := 1000

/-- `math.MaxInt64`. -/
def maxInt64 : Nat := 2 ^ 63 - 1

inductive WsError
  | eof
  | unexpectedEof
  | proto (why : String)
  | tooBig
  | closed
  | write
  | panic
deriving DecidableEq, Repr

/-- `wsConn`: the bytes to come, whether writing is over, the outcomes of the writes to
come, the frames written, and the lengths the payloads were allocated with. -/
structure Conn where
  chunks : List (List UInt8)
  dead : Bool
  outcomes : List Bool
  sent : List (List UInt8)
  allocated : List Nat

def Call (α : Type) : Type := Conn → Except WsError α × Conn

namespace Call

variable {α β : Type}

def ret (a : α) : Call α := fun c => (.ok a, c)

def fail (e : WsError) : Call α := fun c => (.error e, c)

/-- One call after another, unless the first fails. -/
def andThen (m : Call α) (f : α → Call β) : Call β := fun c =>
  match m c with
  | (.error e, c') => (.error e, c')
  | (.ok a, c') => f a c'

end Call

/-- `io.ReadFull`. -/
def readFull (n : Nat) : Call (List UInt8) := fun c =>
  match Chunks.readFull n c.chunks with
  | some (bytes, chunks) => (.ok bytes, { c with chunks })
  | none =>
      (.error (if c.chunks.flatten.isEmpty then .eof else .unexpectedEof), { c with chunks := [] })

/-- `make([]byte, n)`. -/
def allocate (n : Nat) : Call Unit := fun c => (.ok (), { c with allocated := c.allocated ++ [n] })

/-- The header of an unmasked frame of `n` bytes. -/
def frameHeader (opcode : UInt8) (n : Nat) : List UInt8 :=
  if n ≤ 125 then [0x80 ||| opcode, UInt8.ofNat n]
  else if n ≤ 65535 then [0x80 ||| opcode, 126] ++ bigEndian 2 n
  else [0x80 ||| opcode, 127] ++ bigEndian 8 n

/-- The frame `write` hands to the socket. -/
def serverFrame (opcode : UInt8) (payload : List UInt8) : List UInt8 :=
  frameHeader opcode payload.length ++ payload

def write (opcode : UInt8) (payload : List UInt8) : Call Unit := fun c =>
  if c.dead then (.error .closed, c)
  else
    match c.outcomes with
    | false :: outcomes => (.error .write, { c with dead := true, outcomes })
    | outcomes =>
        (.ok (), { c with outcomes := outcomes.tail, sent := c.sent ++ [serverFrame opcode payload] })

/-- `WriteClose` without a reason. Its error is ignored. -/
def writeClose (code : Nat) : Call Unit := fun c =>
  (.ok (), (write opClose (bigEndian 2 (if code = 0 then closeNormal else code)) c).2)

structure Frame where
  fin : Bool
  opcode : UInt8
  payload : List UInt8
deriving DecidableEq, Repr

variable (mask payload : List UInt8)

/-- The payload as the peer meant it. -/
def unmask : List UInt8 :=
  payload.mapIdx fun i b => b ^^^ mask.getD (i &&& 3) 0

/-- The length of the frame, from the second byte and the bytes after it. -/
def readLength (second : UInt8) : Call Nat :=
  if second &&& 0x7F = 126 then
    (readFull 2).andThen fun ext => .ret (bigEndianValue ext)
  else if second &&& 0x7F = 127 then
    (readFull 8).andThen fun ext =>
      if bigEndianValue ext > maxInt64 then .fail (.proto "absurd frame length")
      else .ret (bigEndianValue ext)
  else .ret (second &&& 0x7F).toNat

variable (maxMessage : Nat)

/-- What is refused before anything is allocated. -/
def checkLength (fin : Bool) (opcode : UInt8) (length : Nat) : Call Unit :=
  if opcode &&& 0x08 ≠ 0 then
    if !fin then .fail (.proto "fragmented control frame")
    else if length > 125 then .fail (.proto "oversized control frame")
    else .ret ()
  else if length > maxMessage then .fail .tooBig
  else .ret ()

def readPayload (length : Nat) : Call (List UInt8) :=
  (readFull 4).andThen fun mask =>
    (allocate length).andThen fun _ =>
      (readFull length).andThen fun payload => .ret (unmask mask payload)

def readFrame : Call Frame :=
  (readFull 2).andThen fun hdr =>
    let first := hdr.getD 0 0
    let second := hdr.getD 1 0
    if first &&& 0x70 ≠ 0 then .fail (.proto "reserved bit set")
    else if second &&& 0x80 = 0 then .fail (.proto "client frame not masked")
    else
      (readLength second).andThen fun length =>
        (checkLength maxMessage (first &&& 0x80 ≠ 0) (first &&& 0x0F) length).andThen fun _ =>
          (readPayload length).andThen fun payload =>
            .ret ⟨first &&& 0x80 ≠ 0, first &&& 0x0F, payload⟩

/-- The length in the client's `readFrame`; one that is negative as an `int64` panics. -/
def clientLength (second : UInt8) : Call Nat :=
  if second &&& 0x7F = 126 then
    (readFull 2).andThen fun ext => .ret (bigEndianValue ext)
  else if second &&& 0x7F = 127 then
    (readFull 8).andThen fun ext =>
      if bigEndianValue ext > maxInt64 then .fail .panic
      else .ret (bigEndianValue ext)
  else .ret (second &&& 0x7F).toNat

/-- `testClient.readFrame`. -/
def clientReadFrame : Call Frame :=
  (readFull 2).andThen fun hdr =>
    let first := hdr.getD 0 0
    let second := hdr.getD 1 0
    if second &&& 0x80 ≠ 0 then .fail (.proto "server frame must not be masked")
    else
      (clientLength second).andThen fun length =>
        (allocate length).andThen fun _ =>
          (readFull length).andThen fun payload =>
            .ret ⟨first &&& 0x80 ≠ 0, first &&& 0x0F, payload⟩

/-- A message being put together: its opcode and what came of it. -/
abbrev Partial := Option (UInt8 × List UInt8)

inductive Progress
  | more (started : Partial)
  | message (opcode : UInt8) (payload : List UInt8)

def closeCode (data : List UInt8) : Nat :=
  if data.length ≥ 2 then bigEndianValue (data.take 2) else closeNormal

variable (b : UInt8)

/-- `%X` of a nibble. -/
def hexDigit : String :=
  String.singleton ("0123456789ABCDEF".toList.getD b.toNat '0')

/-- One turn of the loop of `ReadMessage`. -/
def onFrame (started : Partial) (f : Frame) : Call Progress :=
  if f.opcode = opPing then (write opPong f.payload).andThen fun _ => .ret (.more started)
  else if f.opcode = opPong then .ret (.more started)
  else if f.opcode = opClose then
    (writeClose (closeCode f.payload)).andThen fun _ => .fail .eof
  else if f.opcode = opText ∨ f.opcode = opBinary then
    match started with
    | some _ => .fail (.proto "data frame inside a fragmented message")
    | none =>
        if f.fin then .ret (.message f.opcode f.payload)
        else .ret (.more (some (f.opcode, f.payload)))
  else if f.opcode = opContinuation then
    match started with
    | none => .fail (.proto "continuation without a started message")
    | some (opcode, buf) =>
        if buf.length + f.payload.length > maxMessage then .fail .tooBig
        else if f.fin then .ret (.message opcode (buf ++ f.payload))
        else .ret (.more (some (opcode, buf ++ f.payload)))
  else .fail (.proto ("unknown opcode 0x" ++ hexDigit f.opcode))

def Conn.bytes (c : Conn) : List UInt8 := c.chunks.flatten

namespace Call

variable {α β : Type}

variable {c c' : Conn}

theorem ret_eq {a b : α} : (Call.ret a) c = (.ok b, c') ↔ b = a ∧ c' = c := by
  unfold Call.ret
  constructor
  · intro h
    obtain ⟨hok, rfl⟩ := Prod.mk.inj h
    exact ⟨(Except.ok.inj hok).symm, rfl⟩
  · rintro ⟨rfl, rfl⟩
    rfl

theorem fail_ne {e : WsError} {a : α} : (Call.fail e : Call α) c ≠ (.ok a, c') := by
  intro h
  cases (Prod.mk.inj h).1

/-- Two calls succeed when both do, one after the other. -/
theorem andThen_eq_ok {m : Call α} {f : α → Call β} {b : β} :
    (m.andThen f) c = (.ok b, c') ↔
      ∃ a middle, m c = (.ok a, middle) ∧ f a middle = (.ok b, c') := by
  unfold Call.andThen
  cases hm : m c with
  | mk result middle =>
    cases result with
    | error e => simp
    | ok a =>
      constructor
      · intro h
        exact ⟨a, middle, rfl, h⟩
      · rintro ⟨a', middle', h, hf⟩
        obtain ⟨hok, rfl⟩ := Prod.mk.inj h
        obtain rfl := Except.ok.inj hok
        exact hf

end Call

variable {c c' : Conn}

theorem readFull_eq_ok {n : Nat} {read : List UInt8}
    (h : readFull n c = (.ok read, c')) : read.length = n ∧ c.bytes = read ++ c'.bytes := by
  unfold readFull at h
  cases hread : Chunks.readFull n c.chunks with
  | none =>
    rw [hread] at h
    cases (Prod.mk.inj h).1
  | some found =>
    rw [hread] at h
    obtain ⟨hok, rfl⟩ := Prod.mk.inj h
    obtain rfl := Except.ok.inj hok
    obtain ⟨hlength, hflatten⟩ := Chunks.readFull_eq_some hread
    exact ⟨hlength, hflatten.symm⟩

/-- The seven bits and the extension that give a length. -/
inductive LengthField : Nat → UInt8 → List UInt8 → Prop
  | short {code : UInt8} : code.toNat ≤ 125 → LengthField code.toNat code []
  | medium {n : Nat} : n < 65536 → LengthField n 126 (bigEndian 2 n)
  | long {n : Nat} : n ≤ maxInt64 → LengthField n 127 (bigEndian 8 n)

/-- The bytes of a client's frame: two bytes, the length, the mask, the masked payload. -/
def Layout (f : Frame) (bytes : List UInt8) : Prop :=
  ∃ code ext mask, LengthField f.payload.length code ext ∧ mask.length = 4 ∧
    bytes = [(if f.fin then 0x80 else 0) ||| f.opcode, 0x80 ||| code] ++ ext ++ mask ++
      unmask mask f.payload

theorem forall_byte {P : UInt8 → Prop} (h : ∀ i : Fin 256, P (UInt8.ofNat i)) (b : UInt8) :
    P b := by
  have hb := h ⟨b.toNat, b.toNat_lt⟩
  rwa [show UInt8.ofNat (⟨b.toNat, b.toNat_lt⟩ : Fin 256).val = b from UInt8.ofNat_toNat] at hb

theorem first_byte : b &&& 0x70 = 0 →
    (if (decide (b &&& 0x80 ≠ 0)) = true then (0x80 : UInt8) else 0) ||| (b &&& 0x0F) = b := by
  revert b
  exact forall_byte (by decide +kernel)

theorem second_byte : b &&& 0x80 ≠ 0 → 0x80 ||| (b &&& 0x7F) = b := by
  revert b
  exact forall_byte (by decide +kernel)

theorem short_code : b &&& 0x7F ≠ 126 → b &&& 0x7F ≠ 127 →
    (b &&& 0x7F).toNat ≤ 125 := by
  revert b
  exact forall_byte (by decide +kernel)

@[simp] theorem length_unmask :
    (unmask mask payload).length = payload.length := by
  simp [unmask]

theorem unmask_unmask : unmask mask (unmask mask payload) = payload := by
  apply List.ext_getElem
  · simp
  · intro i _ _
    simp [unmask]

theorem readLength_eq_ok {second : UInt8} {n : Nat} (h : readLength second c = (.ok n, c')) :
    ∃ ext, LengthField n (second &&& 0x7F) ext ∧ c.bytes = ext ++ c'.bytes := by
  unfold readLength at h
  by_cases hmedium : second &&& 0x7F = 126
  · rw [if_pos hmedium] at h
    obtain ⟨ext, middle, hread, hret⟩ := Call.andThen_eq_ok.mp h
    obtain ⟨rfl, rfl⟩ := Call.ret_eq.mp hret
    obtain ⟨hlength, hbytes⟩ := readFull_eq_ok hread
    have hlt := bigEndianValue_lt ext
    have hback := bigEndian_bigEndianValue ext
    rw [hlength] at hlt hback
    refine ⟨ext, ?_, hbytes⟩
    rw [hmedium]
    have hfield := LengthField.medium (n := bigEndianValue ext) (by omega)
    rwa [hback] at hfield
  · rw [if_neg hmedium] at h
    by_cases hlong : second &&& 0x7F = 127
    · rw [if_pos hlong] at h
      obtain ⟨ext, middle, hread, hrest⟩ := Call.andThen_eq_ok.mp h
      obtain ⟨hlength, hbytes⟩ := readFull_eq_ok hread
      by_cases habsurd : bigEndianValue ext > maxInt64
      · rw [if_pos habsurd] at hrest
        exact absurd hrest Call.fail_ne
      · rw [if_neg habsurd] at hrest
        obtain ⟨rfl, rfl⟩ := Call.ret_eq.mp hrest
        have hback := bigEndian_bigEndianValue ext
        rw [hlength] at hback
        refine ⟨ext, ?_, hbytes⟩
        rw [hlong]
        have hfield := LengthField.long (n := bigEndianValue ext) (by omega)
        rwa [hback] at hfield
    · rw [if_neg hlong] at h
      obtain ⟨rfl, rfl⟩ := Call.ret_eq.mp h
      exact ⟨[], LengthField.short (short_code second hmedium hlong), rfl⟩

variable {maxMessage : Nat}

/-- A length that is not refused is within the bound of its kind of frame. -/
theorem checkLength_eq_ok {fin : Bool} {opcode : UInt8} {length : Nat}
    (h : checkLength maxMessage fin opcode length c = (.ok (), c')) :
    c' = c ∧ (opcode &&& 0x08 ≠ 0 → fin = true ∧ length ≤ 125) ∧
      (opcode &&& 0x08 = 0 → length ≤ maxMessage) := by
  unfold checkLength at h
  by_cases hcontrol : opcode &&& 0x08 ≠ 0
  · rw [if_pos hcontrol] at h
    cases fin with
    | false => exact absurd h Call.fail_ne
    | true =>
      rw [if_neg (by simp)] at h
      by_cases hlong : length > 125
      · rw [if_pos hlong] at h
        exact absurd h Call.fail_ne
      · rw [if_neg hlong] at h
        exact ⟨(Call.ret_eq.mp h).2, fun _ => ⟨rfl, by omega⟩, fun hno => absurd hno hcontrol⟩
  · rw [if_neg hcontrol] at h
    by_cases hlong : length > maxMessage
    · rw [if_pos hlong] at h
      exact absurd h Call.fail_ne
    · rw [if_neg hlong] at h
      exact ⟨(Call.ret_eq.mp h).2, fun hno => absurd hno hcontrol, fun _ => by omega⟩

theorem readPayload_eq_ok {length : Nat} {payload : List UInt8}
    (h : readPayload length c = (.ok payload, c')) :
    payload.length = length ∧
      ∃ mask, mask.length = 4 ∧ c.bytes = mask ++ unmask mask payload ++ c'.bytes := by
  obtain ⟨mask, c₁, hmask, hrest⟩ := Call.andThen_eq_ok.mp h
  obtain ⟨_, c₂, hallocate, hrest⟩ := Call.andThen_eq_ok.mp hrest
  obtain ⟨raw, c₃, hraw, hret⟩ := Call.andThen_eq_ok.mp hrest
  obtain ⟨rfl, rfl⟩ := Call.ret_eq.mp hret
  obtain ⟨hfour, hbytes⟩ := readFull_eq_ok hmask
  obtain ⟨hlength, hbytes'⟩ := readFull_eq_ok hraw
  have hsame : c₂.bytes = c₁.bytes := by
    obtain ⟨_, rfl⟩ := Prod.mk.inj hallocate
    rfl
  refine ⟨by rw [length_unmask, hlength], mask, hfour, ?_⟩
  rw [unmask_unmask, hbytes, ← hsame, hbytes', List.append_assoc]

/-- A frame that is read stood at the front of the stream, within its bounds. -/
theorem readFrame_eq_ok {f : Frame} (h : readFrame maxMessage c = (.ok f, c')) :
    (∃ wire, Layout f wire ∧ c.bytes = wire ++ c'.bytes) ∧
      (f.opcode &&& 0x08 ≠ 0 → f.fin = true ∧ f.payload.length ≤ 125) ∧
      (f.opcode &&& 0x08 = 0 → f.payload.length ≤ maxMessage) := by
  obtain ⟨hdr, c₁, hhdr, hrest⟩ := Call.andThen_eq_ok.mp h
  obtain ⟨htwo, hbytes⟩ := readFull_eq_ok hhdr
  match hdr, htwo with
  | [first, second], _ =>
    simp only [List.getD_cons_zero, List.getD_cons_succ] at hrest
    by_cases hreserved : first &&& 0x70 ≠ 0
    · rw [if_pos hreserved] at hrest
      exact absurd hrest Call.fail_ne
    · rw [if_neg hreserved] at hrest
      by_cases hunmasked : second &&& 0x80 = 0
      · rw [if_pos hunmasked] at hrest
        exact absurd hrest Call.fail_ne
      · rw [if_neg hunmasked] at hrest
        obtain ⟨length, c₂, hlength, hrest⟩ := Call.andThen_eq_ok.mp hrest
        obtain ⟨_, c₃, hcheck, hrest⟩ := Call.andThen_eq_ok.mp hrest
        obtain ⟨payload, c₄, hpayload, hret⟩ := Call.andThen_eq_ok.mp hrest
        obtain ⟨rfl, rfl⟩ := Call.ret_eq.mp hret
        obtain ⟨ext, hfield, hext⟩ := readLength_eq_ok hlength
        obtain ⟨rfl, hcontrol, hdata⟩ := checkLength_eq_ok hcheck
        obtain ⟨rfl, mask, hmask, hmasked⟩ := readPayload_eq_ok hpayload
        refine ⟨⟨_, ⟨second &&& 0x7F, ext, mask, hfield, hmask, rfl⟩, ?_⟩, hcontrol, hdata⟩
        rw [first_byte first (not_not.mp hreserved), second_byte second hunmasked, hbytes, hext,
          hmasked]
        simp only [List.append_assoc]

theorem readFrame_shrinks {f : Frame}
    (h : readFrame maxMessage c = (.ok f, c')) : c'.bytes.length < c.bytes.length := by
  obtain ⟨⟨wire, ⟨_, _, _, _, _, rfl⟩, hbytes⟩, _⟩ := readFrame_eq_ok h
  rw [hbytes]
  simp only [List.length_append, List.length_cons]
  omega

def Keeps {α γ : Type} (view : Conn → γ) (m : Call α) : Prop := ∀ c, view (m c).2 = view c

section

variable {α β γ : Type} {view : Conn → γ}

theorem Keeps.ret (a : α) : Keeps view (Call.ret a) := fun _ => rfl

theorem Keeps.fail (e : WsError) : Keeps view (Call.fail e : Call α) := fun _ => rfl

theorem Keeps.andThen {m : Call α} {f : α → Call β} (hm : Keeps view m)
    (hf : ∀ a, Keeps view (f a)) : Keeps view (m.andThen f) := by
  intro c
  have hfirst := hm c
  unfold Call.andThen
  cases hcall : m c with
  | mk result middle =>
    rw [hcall] at hfirst
    cases result with
    | error e => exact hfirst
    | ok a => exact (hf a middle).trans hfirst

theorem Keeps.ite {p : Prop} [Decidable p] {m m' : Call α} (hm : Keeps view m)
    (hm' : Keeps view m') : Keeps view (if p then m else m') := by
  by_cases hp : p
  · rwa [if_pos hp]
  · rwa [if_neg hp]

end

/-- The bytes to come and what was allocated, which a write does not touch. -/
def Conn.input (c : Conn) : List UInt8 × List Nat := (c.bytes, c.allocated)

theorem keeps_write (opcode : UInt8) (payload : List UInt8) :
    Keeps Conn.input (write opcode payload) := by
  intro c
  unfold write
  split
  · rfl
  · split <;> rfl

theorem keeps_writeClose (code : Nat) : Keeps Conn.input (writeClose code) := fun c =>
  keeps_write opClose _ c

/-- A turn of the loop reads and allocates nothing. -/
theorem keeps_onFrame (maxMessage : Nat) (started : Partial) (f : Frame) :
    Keeps Conn.input (onFrame maxMessage started f) := by
  unfold onFrame
  refine Keeps.ite ((keeps_write _ _).andThen fun _ => Keeps.ret _) ?_
  refine Keeps.ite (Keeps.ret _) ?_
  refine Keeps.ite ((keeps_writeClose _).andThen fun _ => Keeps.fail _) ?_
  refine Keeps.ite ?_ (Keeps.ite ?_ (Keeps.fail _))
  · cases started with
    | some _ => exact Keeps.fail _
    | none => exact Keeps.ite (Keeps.ret _) (Keeps.ret _)
  · cases started with
    | none => exact Keeps.fail _
    | some _ => exact Keeps.ite (Keeps.fail _) (Keeps.ite (Keeps.ret _) (Keeps.ret _))

theorem onFrame_input {started : Partial} {f : Frame}
    {result : Except WsError Progress} (h : onFrame maxMessage started f c = (result, c')) :
    c'.bytes = c.bytes ∧ c'.allocated = c.allocated := by
  have hinput := keeps_onFrame maxMessage started f c
  rw [h] at hinput
  exact Prod.mk.inj hinput

/-- The loop of `ReadMessage`, from what was put together so far. -/
def readLoop (maxMessage : Nat) (started : Partial) (c : Conn) :
    Except WsError (UInt8 × List UInt8) × Conn :=
  match hframe : readFrame maxMessage c with
  | (.error e, c') => (.error e, c')
  | (.ok f, c') =>
      match hturn : onFrame maxMessage started f c' with
      | (.error e, c'') => (.error e, c'')
      | (.ok (.message opcode payload), c'') => (.ok (opcode, payload), c'')
      | (.ok (.more started'), c'') => readLoop maxMessage started' c''
termination_by c.bytes.length
decreasing_by
  rw [(onFrame_input hturn).1]
  exact readFrame_shrinks hframe

def readMessage (maxMessage : Nat) : Call (UInt8 × List UInt8) := readLoop maxMessage none

/-- What the loop does with the first frame. -/
theorem readLoop_eq (maxMessage : Nat) (started : Partial) :
    readLoop maxMessage started = (readFrame maxMessage).andThen fun f =>
        (onFrame maxMessage started f).andThen fun
          | .message opcode payload => .ret (opcode, payload)
          | .more started' => readLoop maxMessage started' := by
  funext c
  rw [readLoop]
  unfold Call.andThen
  split
  · next e c' hframe => rw [hframe]
  · next f c' hframe =>
      rw [hframe]
      simp only
      split
      · next e c'' hturn => rw [hturn]
      · next opcode payload c'' hturn =>
          rw [hturn]
          rfl
      · next started' c'' hturn => rw [hturn]

end MoonlightWeb.Deploy.WebSocket
