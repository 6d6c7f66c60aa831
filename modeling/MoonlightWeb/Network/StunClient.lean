import MoonlightWeb.Lib.Fuel
import MoonlightWeb.Network.StunMessage

/-! # `StunClient::parseXorMappedAddress`

The walk over the attributes of a binding response. A read outside the datagram is an outcome
of its own, and the answer names the attribute it was taken from.
-/

namespace MoonlightWeb.Network.StunClient

open List
open Lib.Turns Lib.Bytes Network.StunMessage

inductive Address where
  | ipv4 (addr : Nat)
  | ipv6 (words : List Nat)
  deriving DecidableEq

/-- An address, and where the value of its attribute starts and how long its field says it
is. -/
structure Answer where
  address : Address
  pos : Nat
  length : Nat
  deriving DecidableEq

inductive Outcome where
  | outside
  | returned (answer : Option Answer)
  deriving DecidableEq

/-- What one attribute does: return its address, or go on with the fallback so far. -/
inductive Turn where
  | answer (answer : Answer)
  | next (pos : Nat) (ipv6Fallback : Option Answer)

def advance (pos attrLength : Nat) : Nat :=
  let pos := pos + attrLength
  if pos % 4 ≠ 0 then pos + (4 - pos % 4) else pos

variable (response transactionId : List UInt8)

/-- One turn of the loop, or nothing when it reads outside the datagram. -/
def readAttribute (pos : Nat) (ipv6Fallback : Option Answer) :
    Option Turn := do
  let attrType ← number response pos 2
  let declared ← number response (pos + 2) 2
  let pos := pos + 4
  let avail := response.length - pos
  let attrLength := if declared > avail then avail else declared
  let next := advance pos attrLength
  if attrType = kAttrXorMappedAddress ∧ attrLength ≥ 8 then
    let family ← response[pos + 1]?
    if family = 1 then
      let _xorPort ← number response (pos + 2) 2
      let xorAddr ← number response (pos + 4) 4
      return .answer ⟨.ipv4 (xorAddr ^^^ kStunMagicCookie), pos, declared⟩
    else if family = 2 ∧ attrLength ≥ 20 then
      let words ← ipv6Words response transactionId pos
      return .next next (some ⟨.ipv6 words, pos, declared⟩)
    else
      return .next next ipv6Fallback
  else if attrType = kAttrMappedAddress ∧ attrLength ≥ 8 then
    let family ← response[pos + 1]?
    if family = 1 then
      let addr ← number response (pos + 4) 4
      return .answer ⟨.ipv4 addr, pos, declared⟩
    else
      return .next next ipv6Fallback
  else
    return .next next ipv6Fallback

def walk (response transactionId : List UInt8) (messageEnd : Nat) :
    Nat → Nat → Option Answer → Option Outcome
  | 0, _, _ => none
  | turns + 1, pos, ipv6Fallback =>
      if pos + 4 ≤ messageEnd ∧ pos + 4 ≤ response.length then
        match readAttribute response transactionId pos ipv6Fallback with
        | none => some .outside
        | some (.answer answer) => some (.returned (some answer))
        | some (.next pos ipv6Fallback) =>
            walk response transactionId messageEnd turns pos ipv6Fallback
      else
        some (.returned ipv6Fallback)

/-- The type, length, cookie and transaction id of the header. -/
def header (response : List UInt8) : Option (Nat × Nat × Nat × List UInt8) := do
  let type ← number response 0 2
  let messageLength ← number response 2 2
  let cookie ← number response 4 4
  return (type, messageLength, cookie, (response.drop 8).take 12)

def parseXorMappedAddress (turns : Nat) : Option Outcome :=
  if response.length < kStunHeaderSize then
    some (.returned none)
  else
    match header response with
    | none => some .outside
    | some (type, messageLength, cookie, respTid) =>
        if type ≠ kStunBindingResponse then some (.returned none)
        else if cookie ≠ kStunMagicCookie then some (.returned none)
        else if respTid ≠ transactionId then some (.returned none)
        else
          walk response transactionId (kStunHeaderSize + messageLength) turns kStunHeaderSize none

def answer4 (a : Attribute) : Option Answer :=
  (address4 a.attrType a.value).map (fun addr => ⟨.ipv4 addr, a.pos, a.length⟩)

def answer6 (transactionId : List UInt8) (a : Attribute) : Option Answer :=
  (xorAddress6 transactionId a.attrType a.value).map (fun words => ⟨.ipv6 words, a.pos, a.length⟩)

/-- The attribute whose header starts at `pos`. -/
def attributeAt (response : List UInt8) (pos : Nat) : Attribute :=
  let length := bigEndianValue ((response.drop (pos + 2)).take 2)
  ⟨pos + 4, bigEndianValue ((response.drop pos).take 2), length,
    (response.drop (pos + 4)).take length⟩

section
variable {response transactionId : List UInt8} {pos : Nat}

theorem ipv6Words_isSome {bytes : List UInt8} (hbytes : pos + 20 ≤ bytes.length)
    (htid : transactionId.length = 12) :
    ∃ words, ipv6Words bytes transactionId pos = some words := by
  unfold ipv6Words
  rw [number_eq (by omega), number_eq (by omega), number_eq (by omega), number_eq (by omega),
    number_eq (by omega), number_eq (by omega), number_eq (by omega)]
  exact ⟨_, rfl⟩

theorem ipv6Words_piece {start length : Nat} (h : 20 ≤ ((response.drop start).take length).length) :
    ipv6Words ((response.drop start).take length) transactionId 0 =
      ipv6Words response transactionId start := by
  unfold ipv6Words
  rw [number_piece (by omega) (by omega), number_piece (by omega) (by omega),
    number_piece (by omega) (by omega), number_piece (by omega) (by omega)]

theorem attributeAt_length (response : List UInt8) (pos : Nat) :
    (attributeAt response pos).value.length =
      if (attributeAt response pos).length > response.length - (pos + 4) then
        response.length - (pos + 4)
      else (attributeAt response pos).length := by
  have hmin : (attributeAt response pos).value.length =
      min (attributeAt response pos).length (response.length - (pos + 4)) := by
    simp only [attributeAt, length_take, length_drop]
  rw [hmin]
  by_cases hcut : (attributeAt response pos).length > response.length - (pos + 4)
  · rw [if_pos hcut, Nat.min_eq_right (Nat.le_of_lt hcut)]
  · rw [if_neg hcut, Nat.min_eq_left (Nat.le_of_not_lt hcut)]

theorem attributeAt_family (response : List UInt8) (pos : Nat)
    (h : 8 ≤ (attributeAt response pos).value.length) :
    ∃ family, response[pos + 4 + 1]? = some family ∧
      (attributeAt response pos).value[1]? = some family := by
  have hlong : 1 < (attributeAt response pos).value.length := by omega
  have hvalue := List.getElem?_eq_getElem hlong
  refine ⟨_, ?_, hvalue⟩
  rw [← hvalue]
  simp only [attributeAt, length_take] at h ⊢
  rw [List.getElem?_take_of_lt (by omega), List.getElem?_drop]

/-- A turn of the loop does with an attribute what its type and value say. -/
theorem readAttribute_eq (hpos : pos + 4 ≤ response.length) (htid : transactionId.length = 12)
    (ipv6Fallback : Option Answer) :
    readAttribute response transactionId pos ipv6Fallback =
      some (match answer4 (attributeAt response pos) with
        | some answer => .answer answer
        | none => .next (advance (pos + 4) (attributeAt response pos).value.length)
            (answer6 transactionId (attributeAt response pos) <|> ipv6Fallback)) := by
  have hlength := attributeAt_length response pos
  have hfamily := attributeAt_family response pos
  have hvalue : (attributeAt response pos).value =
      (response.drop (pos + 4)).take (attributeAt response pos).length := rfl
  have htype : (attributeAt response pos).attrType =
      bigEndianValue ((response.drop pos).take 2) := rfl
  have hstart : (attributeAt response pos).pos = pos + 4 := rfl
  have hdeclared : (attributeAt response pos).length =
      bigEndianValue ((response.drop (pos + 2)).take 2) := rfl
  unfold readAttribute
  rw [number_eq (by omega), number_eq (by omega), ← htype, ← hdeclared]
  generalize attributeAt response pos = a at *
  dsimp only [Option.bind_eq_bind, Option.bind_some]
  rw [← hlength]
  have hnumber : ∀ i, i + 4 ≤ a.value.length →
      number response (pos + 4 + i) 4 = number a.value i 4 := by
    intro i hi
    rw [hvalue] at hi ⊢
    exact (number_piece (by decide) hi).symm
  have hnext : answer4 a = none → answer6 transactionId a = none →
      pure (Turn.next (advance (pos + 4) a.value.length) ipv6Fallback) =
        some (match answer4 a with
          | some answer => Turn.answer answer
          | none => Turn.next (advance (pos + 4) a.value.length)
              (answer6 transactionId a <|> ipv6Fallback)) := by
    intro h4 h6
    rw [h4, h6]
    rfl
  by_cases hlong : 8 ≤ a.value.length
  case neg =>
    rw [if_neg (fun h => hlong h.2), if_neg (fun h => hlong h.2)]
    refine hnext ?_ ?_
    · rw [answer4, address4_eq_none (fun h => hlong h.1)]
      rfl
    · rw [answer6, xorAddress6_eq_none (fun h => hlong (Nat.le_trans (by decide) h.2.1))]
      rfl
  case pos =>
    obtain ⟨family, hread, hfam⟩ := hfamily hlong
    have hfits : a.value.length ≤ response.length - (pos + 4) := by
      rw [hvalue, length_take, length_drop]
      exact Nat.min_le_right _ _
    have hword : number a.value 4 4 = some (bigEndianValue ((a.value.drop 4).take 4)) :=
      number_eq (by omega)
    have hother : family ≠ 1 → answer4 a = none := by
      intro hone
      rw [answer4, address4_eq_none (fun h => hone (Option.some.inj (hfam.symm.trans h.2)))]
      rfl
    by_cases hxor : a.attrType = kAttrXorMappedAddress
    · rw [if_pos ⟨hxor, hlong⟩, hread, Option.bind_some]
      by_cases hone : family = 1
      · -- an IPv4 address behind the cookie
        rw [hone] at hfam
        have h4 : answer4 a = some ⟨.ipv4 (bigEndianValue ((a.value.drop 4).take 4) ^^^
            kStunMagicCookie), pos + 4, a.length⟩ := by
          rw [answer4, address4_of_xor hxor hlong hfam, hword, hstart]
          rfl
        rw [if_pos hone, number_eq (by omega), hnumber 4 hlong, hword, h4]
        rfl
      · rw [if_neg hone]
        by_cases hsix : family = 2 ∧ a.value.length ≥ 20
        · obtain ⟨words, hwords⟩ := @ipv6Words_isSome transactionId (pos + 4) response
            (by omega) htid
          have h6 : answer6 transactionId a = some ⟨.ipv6 words, pos + 4, a.length⟩ := by
            have hpiece : ipv6Words a.value transactionId 0 = some words := by
              rw [hvalue] at hsix ⊢
              rw [ipv6Words_piece hsix.2, hwords]
            rw [answer6, xorAddress6, if_pos ⟨hxor, hsix.2, by rw [hfam, hsix.1]⟩, hpiece, hstart]
            rfl
          rw [if_pos hsix, hwords, hother hone, h6]
          rfl
        · rw [if_neg hsix]
          refine hnext (hother hone) ?_
          rw [answer6, xorAddress6_eq_none]
          · rfl
          · rintro ⟨-, hlen, htwo⟩
            exact hsix ⟨Option.some.inj (hfam.symm.trans htwo), hlen⟩
    · have h6 : answer6 transactionId a = none := by
        rw [answer6, xorAddress6_eq_none (fun h => hxor h.1)]
        rfl
      rw [if_neg (fun h => hxor h.1)]
      by_cases hmapped : a.attrType = kAttrMappedAddress
      · rw [if_pos ⟨hmapped, hlong⟩, hread, Option.bind_some]
        by_cases hone : family = 1
        · rw [hone] at hfam
          have h4 : answer4 a = some ⟨.ipv4 (bigEndianValue ((a.value.drop 4).take 4)),
              pos + 4, a.length⟩ := by
            rw [answer4, address4_of_mapped hmapped hlong hfam, hword, hstart]
            rfl
          rw [if_pos hone, hnumber 4 hlong, hword, h4]
          rfl
        · rw [if_neg hone]
          exact hnext (hother hone) h6
      · rw [if_neg (fun h => hmapped h.1)]
        refine hnext ?_ h6
        rw [answer4, address4_of_other hxor hmapped]
        rfl

end

/-- The first IPv4 address, or else the last IPv6 one. -/
def answerAmong (transactionId : List UInt8) (ipv6Fallback : Option Answer)
    (attrs : List Attribute) : Option Answer :=
  attrs.findSome? answer4 <|>
    ((attrs.filterMap (answer6 transactionId)).getLast? <|> ipv6Fallback)

section
variable {transactionId : List UInt8} {a : Attribute} {attrs : List Attribute}
  {ipv6Fallback : Option Answer}

theorem answerAmong_of_four {answer : Answer} (h : answer4 a = some answer) :
    answerAmong transactionId ipv6Fallback (a :: attrs) = some answer := by
  rw [answerAmong, List.findSome?_cons, h]
  rfl

theorem answerAmong_of_none (h : answer4 a = none) :
    answerAmong transactionId ipv6Fallback (a :: attrs) =
      answerAmong transactionId (answer6 transactionId a <|> ipv6Fallback) attrs := by
  rw [answerAmong, answerAmong, List.findSome?_cons, h]
  dsimp only
  congr 1
  funext _
  cases h6 : answer6 transactionId a with
  | none =>
    rw [filterMap_cons_none h6]
    rfl
  | some answer =>
    rw [filterMap_cons_some h6, List.getLast?_cons]
    cases (attrs.filterMap (answer6 transactionId)).getLast? with
    | none => rfl
    | some last => rfl

end

section
variable {response transactionId : List UInt8} {messageEnd : Nat}

theorem advance_eq {pos : Nat} (hpos : pos % 4 = 0) (length : Nat) :
    advance pos length = pos + padded length := by
  unfold advance padded
  dsimp only
  split <;> omega

theorem attributes_drop {pos : Nat} (hend : pos + 4 ≤ messageEnd)
    (hbytes : pos + 4 ≤ response.length) :
    attributes messageEnd pos (response.drop pos) =
      attributeAt response pos ::
        attributes messageEnd (pos + 4 + padded (attributeAt response pos).length)
          (response.drop (pos + 4 + padded (attributeAt response pos).length)) := by
  obtain ⟨t0, t1, l0, l1, rest, hdrop⟩ :
      ∃ t0 t1 l0 l1 rest, response.drop pos = t0 :: t1 :: l0 :: l1 :: rest := by
    have hlen : (response.drop pos).length ≥ 4 := by
      rw [length_drop]
      omega
    match response.drop pos, hlen with
    | t0 :: t1 :: l0 :: l1 :: rest, _ => exact ⟨t0, t1, l0, l1, rest, rfl⟩
  have hlength : response.drop (pos + 2) = l0 :: l1 :: rest := by
    rw [← drop_drop, hdrop]
    rfl
  have hrest : response.drop (pos + 4) = rest := by
    rw [← drop_drop, hdrop]
    rfl
  have hattr : attributeAt response pos = ⟨pos + 4, bigEndianValue [t0, t1],
      bigEndianValue [l0, l1], rest.take (bigEndianValue [l0, l1])⟩ := by
    rw [attributeAt, hdrop, hlength, hrest]
    rfl
  rw [hdrop, attributes_cons hend, hattr, ← hrest, drop_drop]

/-- The walk ends inside the datagram, with the answer among the attributes. -/
theorem walk_returns (htid : transactionId.length = 12) (n : Nat) :
    ∀ pos ipv6Fallback, response.length ≤ pos + n → pos % 4 = 0 →
      Returns (fun turns => walk response transactionId messageEnd turns pos ipv6Fallback)
        (.returned (answerAmong transactionId ipv6Fallback
          (attributes messageEnd pos (response.drop pos)))) := by
  induction n using Nat.strong_induction_on with
  | _ n ih =>
    intro pos ipv6Fallback hn hpos
    by_cases hturn : pos + 4 ≤ messageEnd ∧ pos + 4 ≤ response.length
    case neg =>
      have hnone : attributes messageEnd pos (response.drop pos) = [] := by
        by_cases hend : pos + 4 ≤ messageEnd
        · refine attributes_short ?_
          rw [length_drop]
          omega
        · exact attributes_past (by omega)
      rw [hnone]
      refine Returns.of_last (fun turns => ?_)
      rw [walk, if_neg hturn]
      rfl
    case pos =>
      rw [attributes_drop hturn.1 hturn.2]
      have hread := readAttribute_eq hturn.2 htid ipv6Fallback
      cases h4 : answer4 (attributeAt response pos) with
      | some answer =>
        rw [h4] at hread
        rw [answerAmong_of_four h4]
        refine Returns.of_last (fun turns => ?_)
        rw [walk, if_pos hturn, hread]
      | none =>
        rw [h4] at hread
        rw [answerAmong_of_none h4]
        have hcut := attributeAt_length response pos
        have hstep : ∀ turns, walk response transactionId messageEnd (turns + 1) pos ipv6Fallback =
            walk response transactionId messageEnd turns
              (pos + 4 + padded (attributeAt response pos).value.length)
              (answer6 transactionId (attributeAt response pos) <|> ipv6Fallback) := by
          intro turns
          rw [walk, if_pos hturn, hread]
          dsimp only
          rw [advance_eq (by omega)]
        refine Returns.of_step hstep ?_
        have hnext := ih (n - 4) (by omega)
          (pos + 4 + padded (attributeAt response pos).value.length)
          (answer6 transactionId (attributeAt response pos) <|> ipv6Fallback) (by omega)
          (by unfold padded; omega)
        have hsame : attributes messageEnd
              (pos + 4 + padded (attributeAt response pos).value.length)
              (response.drop (pos + 4 + padded (attributeAt response pos).value.length)) =
            attributes messageEnd (pos + 4 + padded (attributeAt response pos).length)
              (response.drop (pos + 4 + padded (attributeAt response pos).length)) := by
          by_cases hlong : (attributeAt response pos).length > response.length - (pos + 4)
          · -- nothing of the datagram is left behind a value that is cut off
            rw [if_pos hlong] at hcut
            have h1 := le_padded (attributeAt response pos).value.length
            have h2 := le_padded (attributeAt response pos).length
            rw [attributes_short (by rw [length_drop]; omega),
              attributes_short (by rw [length_drop]; omega)]
          · rw [if_neg hlong] at hcut
            rw [hcut]
        rwa [hsame] at hnext

end

def messageEnd (response : List UInt8) : Nat :=
  kStunHeaderSize + bigEndianValue ((response.drop 2).take 2)

/-- The attributes of the datagram that start inside the declared end. -/
def seen (response : List UInt8) : List Attribute :=
  attributes (messageEnd response) kStunHeaderSize (response.drop kStunHeaderSize)

/-- The header is that of a response to the request. -/
def Accepted : Prop :=
  kStunHeaderSize ≤ response.length ∧
    bigEndianValue (response.take 2) = kStunBindingResponse ∧
    bigEndianValue ((response.drop 4).take 4) = kStunMagicCookie ∧
    (response.drop 8).take 12 = transactionId

def firstAddress (address : Nat → List UInt8 → Option Nat) (attrs : List Sent) : Option Nat :=
  attrs.findSome? (fun a => address a.attrType a.value)

/-- The parse ends without a read outside the datagram, uses no attribute that goes beyond the
declared length, and answers a well-formed response that has an IPv4 XOR-MAPPED-ADDRESS with
the first one. -/
def ParsesResponse : Prop :=
  ∃ outcome, Returns (parseXorMappedAddress response transactionId) outcome ∧
    outcome ≠ .outside ∧
    (∀ answer, outcome = .returned (some answer) →
      answer.pos + answer.length ≤ messageEnd response) ∧
    ∀ attrs, IsResponse response transactionId attrs →
      ∀ addr, firstAddress xorAddress4 attrs = some addr →
        ∃ answer, outcome = .returned (some answer) ∧ answer.address = .ipv4 addr

/-- The last attribute that starts inside the declared length ends inside it, or holds no
address the parser takes, or stands behind an IPv4 address. -/
def LastInside : Prop :=
  ∀ before last, seen response = before ++ [last] →
    last.Inside (messageEnd response) ∨
      (address4 last.attrType last.value = none ∧
        xorAddress6 transactionId last.attrType last.value = none) ∨
      ∃ a ∈ before, address4 a.attrType a.value ≠ none

/-- In a well-formed response the first IPv4 address, mapped with the cookie or plainly, is
that of the first IPv4 XOR-MAPPED-ADDRESS. -/
def XorAddressFirst : Prop :=
  ∀ attrs, IsResponse response transactionId attrs →
    ∀ addr, firstAddress xorAddress4 attrs = some addr → firstAddress address4 attrs = some addr

section
variable {response transactionId : List UInt8}

theorem parse_returns (haccepted : Accepted response transactionId) :
    Returns (parseXorMappedAddress response transactionId)
      (.returned (answerAmong transactionId none (seen response))) := by
  obtain ⟨hsize, htype, hcookie, htid⟩ := haccepted
  have hlen : transactionId.length = 12 := by
    rw [← htid, length_take, length_drop]
    unfold kStunHeaderSize at hsize
    omega
  have hsize' := hsize
  unfold kStunHeaderSize at hsize'
  have hheader : header response = some (kStunBindingResponse,
      bigEndianValue ((response.drop 2).take 2), kStunMagicCookie, transactionId) := by
    unfold header
    rw [number_eq (by omega), number_eq (by omega), number_eq (by omega), drop_zero, htype,
      hcookie, htid]
    rfl
  have hparse : parseXorMappedAddress response transactionId = fun turns =>
      walk response transactionId (messageEnd response) turns kStunHeaderSize none := by
    funext turns
    rw [parseXorMappedAddress, if_neg (by omega), hheader]
    dsimp only
    rw [if_neg (not_not_intro rfl), if_neg (not_not_intro rfl), if_neg (not_not_intro rfl)]
    rfl
  rw [hparse]
  exact walk_returns hlen response.length kStunHeaderSize none (Nat.le_add_left _ _) rfl

theorem parse_refused (h : ¬ Accepted response transactionId) :
    Returns (parseXorMappedAddress response transactionId) (.returned none) := by
  refine Returns.of_eq (fun turns => ?_)
  unfold parseXorMappedAddress
  by_cases hsize : response.length < kStunHeaderSize
  · rw [if_pos hsize]
  · have hsize' := hsize
    unfold kStunHeaderSize at hsize'
    have hheader : header response = some (bigEndianValue (response.take 2),
        bigEndianValue ((response.drop 2).take 2), bigEndianValue ((response.drop 4).take 4),
        (response.drop 8).take 12) := by
      unfold header
      rw [number_eq (by omega), number_eq (by omega), number_eq (by omega), drop_zero]
      rfl
    rw [if_neg hsize, hheader]
    dsimp only
    by_cases htype : bigEndianValue (response.take 2) = kStunBindingResponse
    · rw [if_neg (not_not_intro htype)]
      by_cases hcookie : bigEndianValue ((response.drop 4).take 4) = kStunMagicCookie
      · rw [if_neg (not_not_intro hcookie),
          if_pos (fun htid => h ⟨Nat.le_of_not_lt hsize, htype, hcookie, htid⟩)]
      · rw [if_pos hcookie]
    · rw [if_pos htype]

/-! ### The attribute of the answer -/

variable {a : Attribute} {answer : Answer}

theorem answer4_pos (h : answer4 a = some answer) :
    answer.pos = a.pos ∧ answer.length = a.length := by
  obtain ⟨addr, -, rfl⟩ := Option.map_eq_some_iff.mp h
  exact ⟨rfl, rfl⟩

theorem answer6_pos (h : answer6 transactionId a = some answer) :
    answer.pos = a.pos ∧ answer.length = a.length := by
  obtain ⟨words, -, rfl⟩ := Option.map_eq_some_iff.mp h
  exact ⟨rfl, rfl⟩

theorem answerAmong_mem {attrs : List Attribute}
    (h : answerAmong transactionId none attrs = some answer) :
    ∃ a ∈ attrs, answer.pos = a.pos ∧ answer.length = a.length := by
  unfold answerAmong at h
  cases h4 : attrs.findSome? answer4 with
  | some first =>
    rw [h4] at h
    obtain ⟨a, ha, hfirst⟩ := exists_of_findSome?_eq_some h4
    cases h
    exact ⟨a, ha, answer4_pos hfirst⟩
  | none =>
    rw [h4] at h
    cases h6 : (attrs.filterMap (answer6 transactionId)).getLast? with
    | none =>
      rw [h6] at h
      cases h
    | some last =>
      rw [h6] at h
      cases h
      obtain ⟨a, ha, hlast⟩ := mem_filterMap.mp (mem_of_getLast? h6)
      exact ⟨a, ha, answer6_pos hlast⟩

theorem answer4_eq_none : answer4 a = none ↔ address4 a.attrType a.value = none :=
  Option.map_eq_none_iff

theorem answer6_eq_none :
    answer6 transactionId a = none ↔ xorAddress6 transactionId a.attrType a.value = none :=
  Option.map_eq_none_iff

/-- An attribute without an address, or behind an IPv4 one, is not the answer. -/
theorem answerAmong_snoc {before : List Attribute} {last : Attribute}
    (h : (address4 last.attrType last.value = none ∧
        xorAddress6 transactionId last.attrType last.value = none) ∨
      ∃ a ∈ before, address4 a.attrType a.value ≠ none) :
    answerAmong transactionId none (before ++ [last]) =
      answerAmong transactionId none before := by
  unfold answerAmong
  rw [List.findSome?_append]
  rcases h with ⟨h4, h6⟩ | ⟨a, ha, haddress⟩
  · rw [filterMap_append, List.findSome?_cons, answer4_eq_none.mpr h4,
      filterMap_cons_none (answer6_eq_none.mpr h6), filterMap_nil, append_nil]
    cases before.findSome? answer4 with
    | none => rfl
    | some first => rfl
  · cases hfirst : before.findSome? answer4 with
    | none => exact absurd (answer4_eq_none.mp (List.findSome?_eq_none_iff.mp hfirst a ha)) haddress
    | some first => rfl

/-- An attribute with an address behind none of IPv4 is the answer. -/
theorem answerAmong_last {before : List Attribute} {last : Attribute}
    (hbefore : ∀ a ∈ before, address4 a.attrType a.value = none)
    (h : ¬ (address4 last.attrType last.value = none ∧
      xorAddress6 transactionId last.attrType last.value = none)) :
    ∃ answer, answerAmong transactionId none (before ++ [last]) = some answer ∧
      answer.pos = last.pos ∧ answer.length = last.length := by
  have hnone : before.findSome? answer4 = none :=
    List.findSome?_eq_none_iff.mpr (fun a ha => answer4_eq_none.mpr (hbefore a ha))
  unfold answerAmong
  rw [List.findSome?_append, hnone, List.findSome?_cons]
  cases h4 : answer4 last with
  | some answer => exact ⟨answer, rfl, answer4_pos h4⟩
  | none =>
    cases h6 : answer6 transactionId last with
    | none => exact absurd ⟨answer4_eq_none.mp h4, answer6_eq_none.mp h6⟩ h
    | some answer =>
      refine ⟨answer, ?_, answer6_pos h6⟩
      rw [filterMap_append, filterMap_cons_some h6, filterMap_nil,
        List.getLast?_append, List.getLast?_singleton]
      rfl

theorem answer_inside_iff :
    (∀ answer, answerAmong transactionId none (seen response) = some answer →
      answer.pos + answer.length ≤ messageEnd response) ↔ LastInside response transactionId := by
  constructor
  · intro hinside before last hseen
    by_contra hlast
    rw [not_or, not_or] at hlast
    obtain ⟨houtside, haddress, hbefore⟩ := hlast
    obtain ⟨answer, hanswer, hpos, hlength⟩ := answerAmong_last
      (fun a ha => not_not.mp (fun h4 => hbefore ⟨a, ha, h4⟩)) haddress
    rw [← hseen] at hanswer
    refine houtside ?_
    rw [Attribute.Inside, ← hpos, ← hlength]
    exact hinside answer hanswer
  · intro hlast answer hanswer
    have hfront : ∀ a ∈ (seen response).dropLast, a.Inside (messageEnd response) :=
      inside_dropLast
    rcases eq_nil_or_concat (seen response) with hnil | ⟨before, last, hseen⟩
    · rw [hnil] at hanswer
      cases hanswer
    · rw [concat_eq_append] at hseen
      rw [hseen, dropLast_concat] at hfront
      rw [hseen] at hanswer
      rcases hlast before last hseen with hinside | hother
      · obtain ⟨a, ha, hpos, hlength⟩ := answerAmong_mem hanswer
        rw [hpos, hlength]
        rcases mem_append.mp ha with ha | ha
        · exact hfront a ha
        · rw [mem_singleton.mp ha]
          exact hinside
      · rw [answerAmong_snoc hother] at hanswer
        obtain ⟨a, ha, hpos, hlength⟩ := answerAmong_mem hanswer
        rw [hpos, hlength]
        exact hfront a ha

/-! ### The first address of a well-formed response -/

variable {attrs : List Sent}

theorem accepted_of_isResponse (h : IsResponse response transactionId attrs) :
    Accepted response transactionId ∧ seen response = located kStunHeaderSize attrs := by
  obtain ⟨hbody, htid, rest, rfl⟩ := h
  have htype : bigEndianValue (bigEndian 2 kStunBindingResponse) = kStunBindingResponse :=
    bigEndianValue_of_lt (by decide)
  have hlength : bigEndianValue (bigEndian 2 (body attrs).length) = (body attrs).length :=
    bigEndianValue_of_lt hbody
  have hcookie : bigEndianValue (bigEndian 4 kStunMagicCookie) = kStunMagicCookie :=
    bigEndianValue_of_lt (by decide)
  have htypeLen := bigEndian_length 2 kStunBindingResponse
  have hlenLen := bigEndian_length 2 (body attrs).length
  have hcookieLen := bigEndian_length 4 kStunMagicCookie
  generalize bigEndian 2 kStunBindingResponse = type at *
  generalize bigEndian 2 (body attrs).length = length at *
  generalize bigEndian 4 kStunMagicCookie = cookie at *
  simp only [append_assoc]
  have hdrop2 : ∀ tail, (type ++ tail).drop 2 = tail := fun _ => drop_left' htypeLen
  have hdrop4 : ∀ tail, (type ++ (length ++ tail)).drop 4 = tail := by
    intro tail
    rw [show 4 = 2 + 2 by rfl, ← drop_drop, hdrop2, drop_left' hlenLen]
  have hdrop8 : ∀ tail, (type ++ (length ++ (cookie ++ tail))).drop 8 = tail := by
    intro tail
    rw [show 8 = 4 + 4 by rfl, ← drop_drop, hdrop4, drop_left' hcookieLen]
  have hdrop20 : ∀ tail,
      (type ++ (length ++ (cookie ++ (transactionId ++ tail)))).drop kStunHeaderSize = tail := by
    intro tail
    rw [show kStunHeaderSize = 8 + 12 by rfl, ← drop_drop, hdrop8, drop_left' htid]
  have hend : messageEnd (type ++ (length ++ (cookie ++ (transactionId ++ (body attrs ++ rest))))) =
      kStunHeaderSize + (body attrs).length := by
    rw [messageEnd, hdrop2, take_left' hlenLen, hlength]
  refine ⟨⟨?_, ?_, ?_, ?_⟩, ?_⟩
  · simp only [length_append, kStunHeaderSize]
    omega
  · rw [take_left' htypeLen, htype]
  · rw [hdrop4, take_left' hcookieLen, hcookie]
  · rw [hdrop8, take_left' htid]
  · rw [seen, hend, hdrop20, attributes_body]

theorem first_located (pos : Nat) (attrs : List Sent) :
    ((located pos attrs).findSome? answer4).map Answer.address =
      (firstAddress address4 attrs).map Address.ipv4 := by
  induction attrs generalizing pos with
  | nil => rfl
  | cons a attrs ih =>
    rw [located, List.findSome?_cons, firstAddress, List.findSome?_cons]
    dsimp only [answer4]
    cases h4 : address4 a.attrType a.value with
    | some addr => rfl
    | none => exact ih _

theorem firstAddress_of_xor {addr : Nat} (h : firstAddress xorAddress4 attrs = some addr) :
    ∃ first, firstAddress address4 attrs = some first := by
  obtain ⟨a, ha, hxor⟩ := exists_of_findSome?_eq_some h
  apply Option.ne_none_iff_exists'.mp
  intro hnone
  have h4 := List.findSome?_eq_none_iff.mp hnone a ha
  rw [address4, hxor] at h4
  cases h4

theorem answer_first (hresponse : IsResponse response transactionId attrs)
    {first : Nat} (hfirst : firstAddress address4 attrs = some first) :
    ∃ answer, answerAmong transactionId none (seen response) = some answer ∧
      answer.address = .ipv4 first := by
  rw [(accepted_of_isResponse hresponse).2, answerAmong]
  have hlocated := first_located kStunHeaderSize attrs
  rw [hfirst] at hlocated
  obtain ⟨answer, hanswer, haddress⟩ := Option.map_eq_some_iff.mp hlocated
  rw [hanswer]
  exact ⟨answer, rfl, haddress⟩

/-- The parse does as promised exactly when the last attribute does not reach past the declared
length for an address, and no plain IPv4 address is taken before the first XOR-mapped one. -/
theorem parsesResponse_iff (response transactionId : List UInt8) :
    ParsesResponse response transactionId ↔
      (Accepted response transactionId → LastInside response transactionId) ∧
        XorAddressFirst response transactionId := by
  constructor
  · rintro ⟨outcome, hret, -, hinside, hfirst⟩
    constructor
    · intro haccepted
      rw [Returns.unique hret (parse_returns haccepted)] at hinside
      exact answer_inside_iff.mp (fun answer hanswer => hinside answer (by rw [hanswer]))
    · intro attrs hresponse addr hxor
      obtain ⟨answer, hanswer, haddress⟩ := hfirst attrs hresponse addr hxor
      obtain ⟨first, hany⟩ := firstAddress_of_xor hxor
      obtain ⟨answer', hanswer', haddress'⟩ := answer_first hresponse hany
      rw [Returns.unique hret (parse_returns (accepted_of_isResponse hresponse).1),
        hanswer'] at hanswer
      cases hanswer
      rw [haddress'] at haddress
      cases haddress
      exact hany
  · rintro ⟨hlast, hxorFirst⟩
    by_cases haccepted : Accepted response transactionId
    · refine ⟨_, parse_returns haccepted, (nomatch ·), ?_, ?_⟩
      · intro answer hanswer
        exact answer_inside_iff.mpr (hlast haccepted) answer (Outcome.returned.inj hanswer)
      · intro attrs hresponse addr hxor
        obtain ⟨answer, hanswer, haddress⟩ :=
          answer_first hresponse (hxorFirst attrs hresponse addr hxor)
        exact ⟨answer, by rw [hanswer], haddress⟩
    · refine ⟨_, parse_refused haccepted, (nomatch ·), fun answer h => (nomatch h), ?_⟩
      intro attrs hresponse
      exact absurd (accepted_of_isResponse hresponse).1 haccepted

set_option maxRecDepth 4000 in
/-- A plain 10.0.0.1 before an XOR-mapped 203.0.113.7. -/
theorem plain_address_taken :
    ¬ ParsesResponse ([1, 1, 0, 24, 0x21, 0x12, 0xA4, 0x42] ++ List.replicate 12 7 ++
        [0, 1, 0, 8, 0, 1, 0x12, 0x34, 10, 0, 0, 1] ++
        [0, 0x20, 0, 8, 0, 1, 0x33, 0x26, 0xEA, 0x12, 0xD5, 0x45])
      (List.replicate 12 7) := by
  rintro ⟨outcome, ⟨enough, hret⟩, -, -, hfirst⟩
  have hparse := hret (enough + 1) (Nat.le_succ enough)
  obtain ⟨answer, hanswer, haddress⟩ := hfirst
    [⟨kAttrMappedAddress, [0, 1, 0x12, 0x34, 10, 0, 0, 1], [], by decide, by decide, by decide⟩,
      ⟨kAttrXorMappedAddress, [0, 1, 0x33, 0x26, 0xEA, 0x12, 0xD5, 0x45], [], by decide, by decide,
        by decide⟩]
    ⟨by decide, rfl, [], by decide⟩ 0xCB007107 (by decide)
  have hplain : ∀ turns, parseXorMappedAddress
      ([1, 1, 0, 24, 0x21, 0x12, 0xA4, 0x42] ++ List.replicate 12 7 ++
        [0, 1, 0, 8, 0, 1, 0x12, 0x34, 10, 0, 0, 1] ++
        [0, 0x20, 0, 8, 0, 1, 0x33, 0x26, 0xEA, 0x12, 0xD5, 0x45])
      (List.replicate 12 7) (turns + 1) =
        some (.returned (some ⟨.ipv4 0x0A000001, 24, 8⟩)) := fun _ => rfl
  rw [hplain, hanswer] at hparse
  cases hparse
  cases haddress

end

end MoonlightWeb.Network.StunClient
