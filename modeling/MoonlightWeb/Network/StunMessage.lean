import MoonlightWeb.Lib.Bytes

/-! # The attributes of a STUN message

What a datagram holds behind its header: attributes with a type, a length and a value padded
to four bytes, as far as the header's length and the datagram let them start.
-/

namespace MoonlightWeb.Network.StunMessage

open List
open Lib.Bytes

def kStunBindingResponse : Nat := 0x0101

def kStunMagicCookie : Nat := 0x2112A442

def kAttrXorMappedAddress : Nat := 0x0020

def kAttrMappedAddress : Nat := 0x0001

def kStunHeaderSize : Nat := 20

/-- The number in the `width` bytes from `pos` on, which have to be there. -/
def number (bytes : List UInt8) (pos width : Nat) : Option Nat :=
  if pos + width ≤ bytes.length then some (bigEndianValue ((bytes.drop pos).take width)) else none

theorem number_eq {bytes : List UInt8} {pos width : Nat} (h : pos + width ≤ bytes.length) :
    number bytes pos width = some (bigEndianValue ((bytes.drop pos).take width)) :=
  if_pos h

theorem number_piece {bytes : List UInt8} {start length pos width : Nat} (hwidth : 0 < width)
    (h : pos + width ≤ ((bytes.drop start).take length).length) :
    number ((bytes.drop start).take length) pos width = number bytes (start + pos) width := by
  rw [length_take, length_drop] at h
  have hpiece : pos + width ≤ ((bytes.drop start).take length).length := by
    rw [length_take, length_drop]
    exact h
  have hbytes : start + pos + width ≤ bytes.length := by omega
  rw [number_eq hpiece, number_eq hbytes, drop_take, drop_drop, take_take,
    Nat.min_eq_left (by omega)]

/-- An attribute as the datagram has it: where its value starts, what its length field says,
and the bytes of the value that are there. -/
structure Attribute where
  pos : Nat
  attrType : Nat
  length : Nat
  value : List UInt8
  deriving DecidableEq

def Attribute.Inside (messageEnd : Nat) (a : Attribute) : Prop :=
  a.pos + a.length ≤ messageEnd

instance (messageEnd : Nat) (a : Attribute) : Decidable (a.Inside messageEnd) :=
  inferInstanceAs (Decidable (_ ≤ _))

def padded (length : Nat) : Nat := (length + 3) / 4 * 4

/-- The attributes from `pos` on that start inside the declared end and the datagram. -/
def attributes (messageEnd : Nat) : Nat → List UInt8 → List Attribute
  | pos, t0 :: t1 :: l0 :: l1 :: rest =>
      if pos + 4 ≤ messageEnd then
        let length := bigEndianValue [l0, l1]
        ⟨pos + 4, bigEndianValue [t0, t1], length, rest.take length⟩ ::
          attributes messageEnd (pos + 4 + padded length) (rest.drop (padded length))
      else []
  | _, _ => []
termination_by _ bytes => bytes.length
decreasing_by
  simp only [length_drop, length_cons]
  omega

theorem attributes_cons {messageEnd pos : Nat} {t0 t1 l0 l1 : UInt8} {rest : List UInt8}
    (h : pos + 4 ≤ messageEnd) :
    attributes messageEnd pos (t0 :: t1 :: l0 :: l1 :: rest) =
      ⟨pos + 4, bigEndianValue [t0, t1], bigEndianValue [l0, l1],
          rest.take (bigEndianValue [l0, l1])⟩ ::
        attributes messageEnd (pos + 4 + padded (bigEndianValue [l0, l1]))
          (rest.drop (padded (bigEndianValue [l0, l1]))) := by
  rw [attributes, if_pos h]

theorem attributes_past {messageEnd pos : Nat} {bytes : List UInt8} (h : messageEnd < pos + 4) :
    attributes messageEnd pos bytes = [] := by
  unfold attributes
  split
  · rw [if_neg (by omega)]
  · rfl

theorem attributes_short {messageEnd pos : Nat} {bytes : List UInt8} (h : bytes.length < 4) :
    attributes messageEnd pos bytes = [] := by
  unfold attributes
  split
  · simp only [length_cons] at h
    omega
  · rfl

theorem le_padded (length : Nat) : length ≤ padded length := by
  unfold padded
  omega

/-- Every attribute but the last ends inside. -/
theorem inside_dropLast {messageEnd pos : Nat} {bytes : List UInt8} :
    ∀ a ∈ (attributes messageEnd pos bytes).dropLast, a.Inside messageEnd := by
  induction pos, bytes using attributes.induct messageEnd with
  | case1 pos t0 t1 l0 l1 rest hpos length ih =>
    intro a ha
    rw [attributes_cons hpos] at ha
    cases htail : attributes messageEnd (pos + 4 + padded length) (rest.drop (padded length)) with
    | nil =>
      rw [htail] at ha
      cases ha
    | cons b after =>
      have hnext : pos + 4 + padded length + 4 ≤ messageEnd := by
        by_contra hpast
        rw [attributes_past (by omega)] at htail
        cases htail
      rw [htail, dropLast_cons_cons] at ha
      rw [htail] at ih
      rcases mem_cons.mp ha with rfl | ha
      · have hle := le_padded length
        show pos + 4 + length ≤ messageEnd
        omega
      · exact ih a ha
  | case2 pos t0 t1 l0 l1 rest hpos =>
    rw [attributes_past (by omega)]
    exact fun a ha => nomatch ha
  | case3 pos bytes hshort =>
    intro a ha
    unfold attributes at ha
    split at ha
    · exact absurd rfl (hshort _ _ _ _ _)
    · cases ha

/-- The address of an IPv4 XOR-MAPPED-ADDRESS. -/
def xorAddress4 (attrType : Nat) (value : List UInt8) : Option Nat :=
  if attrType = kAttrXorMappedAddress ∧ 8 ≤ value.length ∧ value[1]? = some 1 then
    (number value 4 4).map (· ^^^ kStunMagicCookie)
  else none

/-- The address of an IPv4 MAPPED-ADDRESS. -/
def mappedAddress4 (attrType : Nat) (value : List UInt8) : Option Nat :=
  if attrType = kAttrMappedAddress ∧ 8 ≤ value.length ∧ value[1]? = some 1 then number value 4 4
  else none

def address4 (attrType : Nat) (value : List UInt8) : Option Nat :=
  xorAddress4 attrType value <|> mappedAddress4 attrType value

/-- The four words of the IPv6 address that starts four bytes behind `pos`. -/
def ipv6Words (bytes transactionId : List UInt8) (pos : Nat) : Option (List Nat) := do
  let x0 ← number bytes (pos + 4) 4
  let x1 ← number bytes (pos + 8) 4
  let x2 ← number bytes (pos + 12) 4
  let x3 ← number bytes (pos + 16) 4
  let t0 ← number transactionId 0 4
  let t1 ← number transactionId 4 4
  let t2 ← number transactionId 8 4
  return [x0 ^^^ kStunMagicCookie, x1 ^^^ t0, x2 ^^^ t1, x3 ^^^ t2]

/-- The address of an IPv6 XOR-MAPPED-ADDRESS. -/
def xorAddress6 (transactionId : List UInt8) (attrType : Nat) (value : List UInt8) :
    Option (List Nat) :=
  if attrType = kAttrXorMappedAddress ∧ 20 ≤ value.length ∧ value[1]? = some 2 then
    ipv6Words value transactionId 0
  else none

section
variable {attrType : Nat} {value transactionId : List UInt8}

theorem mapped_ne_xor : kAttrMappedAddress ≠ kAttrXorMappedAddress := by decide

/-- Only an attribute of at least eight bytes and family 1 has an IPv4 address. -/
theorem address4_eq_none (h : ¬ (8 ≤ value.length ∧ value[1]? = some 1)) :
    address4 attrType value = none := by
  rw [address4, xorAddress4, mappedAddress4, if_neg (fun hxor => h hxor.2),
    if_neg (fun hmapped => h hmapped.2)]
  rfl

theorem address4_of_xor (htype : attrType = kAttrXorMappedAddress) (hlong : 8 ≤ value.length)
    (hfamily : value[1]? = some 1) :
    address4 attrType value = (number value 4 4).map (· ^^^ kStunMagicCookie) := by
  have hmapped : mappedAddress4 attrType value = none :=
    if_neg (fun h => mapped_ne_xor (h.1.symm.trans htype))
  rw [address4, hmapped, xorAddress4, if_pos ⟨htype, hlong, hfamily⟩, Option.orElse_eq_orElse,
    Option.orElse_eq_or, Option.or_none]

theorem address4_of_mapped (htype : attrType = kAttrMappedAddress) (hlong : 8 ≤ value.length)
    (hfamily : value[1]? = some 1) : address4 attrType value = number value 4 4 := by
  have hxor : xorAddress4 attrType value = none :=
    if_neg (fun h => mapped_ne_xor (htype.symm.trans h.1))
  rw [address4, hxor, mappedAddress4, if_pos ⟨htype, hlong, hfamily⟩]
  rfl

theorem address4_of_other (hxor : attrType ≠ kAttrXorMappedAddress)
    (hmapped : attrType ≠ kAttrMappedAddress) : address4 attrType value = none := by
  rw [address4, xorAddress4, mappedAddress4, if_neg (fun h => hxor h.1),
    if_neg (fun h => hmapped h.1)]
  rfl

theorem xorAddress6_eq_none
    (h : ¬ (attrType = kAttrXorMappedAddress ∧ 20 ≤ value.length ∧ value[1]? = some 2)) :
    xorAddress6 transactionId attrType value = none :=
  if_neg h

end

/-- An attribute as a server sends it. -/
structure Sent where
  attrType : Nat
  value : List UInt8
  padding : List UInt8
  type_lt : attrType < 65536
  value_lt : value.length < 65536
  padding_length : value.length + padding.length = padded value.length

def Sent.bytes (a : Sent) : List UInt8 :=
  bigEndian 2 a.attrType ++ bigEndian 2 a.value.length ++ a.value ++ a.padding

def body (attrs : List Sent) : List UInt8 := attrs.flatMap Sent.bytes

/-- A well-formed binding response to a request, and whatever follows its declared end. -/
def IsResponse (response transactionId : List UInt8) (attrs : List Sent) : Prop :=
  (body attrs).length < 65536 ∧ transactionId.length = 12 ∧
    ∃ rest, response =
      bigEndian 2 kStunBindingResponse ++ bigEndian 2 (body attrs).length ++
        bigEndian 4 kStunMagicCookie ++ transactionId ++ body attrs ++ rest

def located : Nat → List Sent → List Attribute
  | _, [] => []
  | pos, a :: attrs =>
      ⟨pos + 4, a.attrType, a.value.length, a.value⟩ ::
        located (pos + 4 + padded a.value.length) attrs

theorem Sent.bytes_eq (a : Sent) :
    ∃ t0 t1 l0 l1, a.bytes = t0 :: t1 :: l0 :: l1 :: (a.value ++ a.padding) ∧
      bigEndianValue [t0, t1] = a.attrType ∧ bigEndianValue [l0, l1] = a.value.length := by
  have htype := @bigEndianValue_of_lt 2 _ a.type_lt
  have hlength := @bigEndianValue_of_lt 2 _ a.value_lt
  exact ⟨_, _, _, _, by simp [Sent.bytes, bigEndian], htype, hlength⟩

theorem Sent.bytes_length (a : Sent) : a.bytes.length = 4 + padded a.value.length := by
  have hpadding := a.padding_length
  simp only [Sent.bytes, length_append, bigEndian_length]
  omega

theorem attributes_body (attrs : List Sent) (pos : Nat) (rest : List UInt8) :
    attributes (pos + (body attrs).length) pos (body attrs ++ rest) = located pos attrs := by
  induction attrs generalizing pos with
  | nil => exact attributes_past (by rw [body, flatMap_nil, length_nil]; omega)
  | cons a attrs ih =>
    obtain ⟨t0, t1, l0, l1, hbytes, htype, hlength⟩ := a.bytes_eq
    have hsize := a.bytes_length
    have hbody : body (a :: attrs) = a.bytes ++ body attrs := flatMap_cons
    have hpadding := a.padding_length
    have hall : body (a :: attrs) ++ rest =
        t0 :: t1 :: l0 :: l1 :: (a.value ++ a.padding ++ (body attrs ++ rest)) := by
      rw [hbody, hbytes]
      simp
    have hend : pos + (body (a :: attrs)).length =
        pos + 4 + padded a.value.length + (body attrs).length := by
      rw [hbody, length_append, hsize]
      omega
    have htake : (a.value ++ a.padding ++ (body attrs ++ rest)).take a.value.length = a.value := by
      rw [append_assoc, take_left' rfl]
    have hdrop : (a.value ++ a.padding ++ (body attrs ++ rest)).drop (padded a.value.length) =
        body attrs ++ rest := by
      rw [drop_left' (by rw [length_append]; exact hpadding)]
    rw [hall, hend, attributes_cons (by omega), hlength, htype, htake, hdrop, ih]
    rfl

end MoonlightWeb.Network.StunMessage
