import MoonlightWeb.Js.Text
import MoonlightWeb.Server.TunnelFrame

/-! # The page's side of the control channel's frames

`encodeFrame`, `encodeHead` and the reading in `_onChannelMessage` of
`tunnel.js`, and what the two languages make of each other's bytes.
-/

namespace MoonlightWeb.Bootstrap.Tunnel

open Lib Js Server.TunnelFrame Bytes List

def encodeFrame (kind : UInt8) (id : Nat) (payload : List UInt8) : List UInt8 :=
  let out := List.replicate (5 + payload.length) 0
  let out := overwrite out 0 [kind]
  let out := setUint32 out 1 id
  overwrite out 5 payload

section

variable {Head Value : Type} (json : Json Head Value)

def encodeHead (head : Head) (rest : List UInt8) : List UInt8 :=
  let text := json.stringify head
  let out := List.replicate (4 + text.length + rest.length) 0
  let out := setUint32 out 0 text.length
  let out := overwrite out 4 text
  overwrite out (4 + text.length) rest

/-- The opening of `_onChannelMessage`; too short a message is let fall. -/
def readFrame (bytes : List UInt8) : Option (UInt8 × Nat × List UInt8) :=
  if bytes.length < 5 then none
  else
    match getUint32 bytes 1 with
    | none => none
    | some id => some (bytes.getD 0 0, id, bytes.drop 5)

/-- The head of a response; `none` when one of the two reads throws. -/
def readHead (payload : List UInt8) : Option Value :=
  match getUint32 payload 0 with
  | none => none
  | some headLen => json.parse (subarray payload 4 (4 + headLen))

end

theorem encodeFrame_eq (kind : UInt8) (id : Nat) (payload : List UInt8) :
    encodeFrame kind id payload = [kind] ++ bigEndian 4 id ++ payload := by
  have hkind := overwrite_next [] [kind] (List.replicate (5 + payload.length) 0)
  have hid := overwrite_next [kind] (bigEndian 4 id)
    (List.replicate (4 + payload.length) 0)
  have hpayload := overwrite_next ([kind] ++ bigEndian 4 id) payload
    (List.replicate payload.length 0)
  have hone : 5 + payload.length - 1 = 4 + payload.length := by omega
  have hfour : 4 + payload.length - 4 = payload.length := by omega
  simp only [nil_append, length_nil, length_append, length_singleton,
    bigEndian_length, drop_replicate, Nat.sub_self, replicate_zero,
    append_nil, hone, hfour] at hkind hid hpayload
  rw [encodeFrame, hkind, setUint32, hid, hpayload]

theorem encodeHead_eq {Head Value : Type} (json : Json Head Value) (head : Head)
    (rest : List UInt8) :
    encodeHead json head rest =
      bigEndian 4 (json.stringify head).length ++ json.stringify head ++ rest := by
  have hlen := overwrite_next [] (bigEndian 4 (json.stringify head).length)
    (List.replicate (4 + (json.stringify head).length + rest.length) 0)
  have htext := overwrite_next (bigEndian 4 (json.stringify head).length)
    (json.stringify head) (List.replicate ((json.stringify head).length + rest.length) 0)
  have hrest := overwrite_next
    (bigEndian 4 (json.stringify head).length ++ json.stringify head) rest
    (List.replicate rest.length 0)
  have hfour : 4 + (json.stringify head).length + rest.length - 4 =
      (json.stringify head).length + rest.length := by omega
  have hleft : (json.stringify head).length + rest.length - (json.stringify head).length =
      rest.length := by omega
  simp only [nil_append, length_nil, length_append, bigEndian_length,
    drop_replicate, Nat.sub_self, replicate_zero, append_nil, hfour, hleft]
    at hlen htext hrest
  rw [encodeHead, setUint32, hlen, htext, hrest]

theorem readFrame_build (kind : UInt8) (id : UInt32) (payload : List UInt8) :
    readFrame (build kind id payload) = some (kind, id.toNat, payload) := by
  have hlength : ([kind] ++ bigEndian 4 id.toNat ++ payload).length =
      5 + payload.length := by
    simp only [length_append, length_singleton, bigEndian_length]
  have hid : getUint32 ([kind] ++ bigEndian 4 id.toNat ++ payload) 1 = some id.toNat :=
    getUint_append rfl id.toNat_lt
  have hpayload : ([kind] ++ bigEndian 4 id.toNat ++ payload).drop 5 = payload :=
    drop_left' (by simp)
  rw [build_eq, readFrame, if_neg (by omega)]
  rw [hid, hpayload]
  rfl

theorem readFrame_short {bytes : List UInt8} (h : bytes.length < 5) : readFrame bytes = none := by
  rw [readFrame, if_pos h]

section

variable {Head Value : Type} (json : Json Head Value)

theorem readHead_prefixed {text : List UInt8} (rest : List UInt8) (hfits : text.length < 2 ^ 32) :
    readHead json (bigEndian 4 text.length ++ text ++ rest) = json.parse text := by
  have hlen : getUint32 ([] ++ bigEndian 4 text.length ++ (text ++ rest)) 0 =
      some text.length := getUint_append rfl hfits
  rw [nil_append, ← append_assoc] at hlen
  have htext : subarray (bigEndian 4 text.length ++ text ++ rest) 4 (4 + text.length) =
      text := by
    rw [subarray, Nat.add_sub_cancel_left, append_assoc,
      drop_left' (bigEndian_length 4 text.length), take_left' rfl]
  rw [readHead, hlen]
  exact congrArg json.parse htext

/-- A length past the end is cut there without a word, and what is left is read. -/
theorem readHead_overruns {payload : List UInt8} (h : Overruns payload) :
    readHead json payload = json.parse (payload.drop 4) := by
  unfold Overruns at h
  unfold readHead getUint32 getUint
  rw [Nat.zero_add, drop_zero]
  by_cases hroom : 4 ≤ payload.length
  · rw [if_pos hroom]
    have hrest : (payload.drop 4).length ≤ bigEndianValue (payload.take 4) := by
      rw [length_drop]
      omega
    simp only [subarray, Nat.add_sub_cancel_left]
    rw [take_of_length_le hrest]
  · rw [if_neg hroom, drop_eq_nil_of_le (by omega), json.parse_nil]

end

/-- The host reads the page's frames exactly as long as a head stays under
`2 ^ 31` bytes, the page reads all of the host's, both refuse what is too short,
and of the payloads whose head length runs past the end the page refuses those
whose remaining bytes are no JSON text. -/
theorem codecs_agree {Head Value : Type} (json : Json Head Value) (beyond : Nat → UInt8) :
    (∀ (kind : UInt8) (id : UInt32) (head : Head) (body : List UInt8),
      (json.stringify head).length < 2 ^ 32 →
        (readMessage beyond json (encodeFrame kind id.toNat (encodeHead json head body)) =
            some (kind, id, head, body) ↔
          (json.stringify head).length < 2 ^ 31)) ∧
    (∀ (kind : UInt8) (id : UInt32) (payload : List UInt8),
      readFrame (build kind id payload) = some (kind, id.toNat, payload)) ∧
    (∀ (head : Head) (rest : List UInt8), (json.toJson head).length < 2 ^ 32 →
      readHead json (Server.TunnelFrame.encodeHead json head rest) = some (json.object head)) ∧
    (∀ bytes : List UInt8, bytes.length < 5 → parse beyond bytes = none ∧ readFrame bytes = none) ∧
    (∀ payload : List UInt8, Overruns payload →
      decodeHead beyond json payload = none ∧
        (readHead json payload = none ↔ json.parse (payload.drop 4) = none)) ∧
    (∀ (beyond' : Nat → UInt8) (bytes : List UInt8),
      parse beyond bytes = parse beyond' bytes ∧
        decodeHead beyond json bytes = decodeHead beyond' json bytes) := by
  refine ⟨?toHost, readFrame_build, ?toPage, ?short, ?overruns, ?inside⟩
  case toHost =>
    intro kind id head body hfits
    have hparse : parse beyond (encodeFrame kind id.toNat (encodeHead json head body)) =
        some (kind, id, encodeHead json head body) := by
      rw [encodeFrame_eq, ← build_eq, parse_build]
    rw [readMessage, hparse]
    simp only [encodeHead_eq]
    by_cases hsmall : (json.stringify head).length < 2 ^ 31
    · rw [decodeHead_prefixed json beyond body hsmall, json.fromJson_stringify]
      exact iff_of_true rfl hsmall
    · have hhuge := decodeHead_huge json beyond body (not_lt.mp hsmall) hfits head
      refine iff_of_false ?_ hsmall
      intro hread
      cases hdecode : decodeHead beyond json (bigEndian 4 (json.stringify head).length ++
          json.stringify head ++ body) with
      | none =>
          rw [hdecode] at hread
          cases hread
      | some read =>
          rw [hdecode] at hread
          simp only [Option.some.injEq, Prod.mk.injEq, true_and] at hread
          exact hhuge (by rw [hdecode, ← hread.1, ← hread.2])
  case toPage =>
    intro head rest hfits
    have hmod : (json.toJson head).length % 2 ^ 32 = (json.toJson head).length :=
      Nat.mod_eq_of_lt hfits
    rw [Server.TunnelFrame.encodeHead_eq, hmod, readHead_prefixed json rest hfits,
      json.parse_toJson]
  case short =>
    intro bytes hshort
    exact ⟨parse_short beyond hshort, readFrame_short hshort⟩
  case overruns =>
    intro payload h
    exact ⟨decodeHead_overruns json beyond h, by rw [readHead_overruns json h]⟩
  case inside =>
    intro beyond' bytes
    exact ⟨parse_inside beyond beyond' bytes, decodeHead_inside json beyond beyond' bytes⟩

/-- A library that knows the texts of two heads, `{"s":200}` and the empty one. -/
def twoHeads : Json Bool Bool where
  object := id
  toJson head := if head then [123, 34, 115, 34, 58, 50, 48, 48, 125] else [123, 125]
  fromJson text :=
    if text = [123, 34, 115, 34, 58, 50, 48, 48, 125] then some true
    else if text = [123, 125] then some false
    else none
  stringify head := if head then [123, 34, 115, 34, 58, 50, 48, 48, 125] else [123, 125]
  parse text :=
    if text = [123, 34, 115, 34, 58, 50, 48, 48, 125] then some true
    else if text = [123, 125] then some false
    else none
  fromJson_stringify := by decide
  parse_toJson := by decide
  fromJson_nil := by decide
  parse_nil := by decide

theorem codecs_agree_twoHeads :
    readMessage (fun _ => 0) twoHeads (encodeFrame 1 7 (encodeHead twoHeads true [5])) =
      some (1, 7, true, [5]) :=
  ((codecs_agree twoHeads fun _ => 0).1 1 7 true [5] (by decide)).mpr (by decide)

def cutResponse : List UInt8 :=
  [2, 0, 0, 0, 7, 0, 0, 0, 255, 123, 34, 115, 34, 58, 50, 48, 48, 125]

theorem cutResponse_read :
    readFrame cutResponse = some (kindResponse, 7, cutResponse.drop 5) ∧
      (cutResponse.drop 5).length < 4 + bigEndianValue ((cutResponse.drop 5).take 4) ∧
      decodeHead (fun _ => 0) twoHeads (cutResponse.drop 5) = none ∧
      readHead twoHeads (cutResponse.drop 5) = some true := by
  decide

end MoonlightWeb.Bootstrap.Tunnel
