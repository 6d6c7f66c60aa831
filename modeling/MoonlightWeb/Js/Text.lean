import MoonlightWeb.Qt.QString
import MoonlightWeb.Lib.Trim
import MoonlightWeb.Lib.Bytes

/-! # Strings and bytes of JavaScript

A string is a list of UTF-16 code units. The methods below are those the pages
call. Case mapping is given as a comparison with ASCII text sees it: a letter
that maps to no ASCII character stands for itself.
-/

namespace MoonlightWeb.Js

open Qt Lib

abbrev JsString := List UInt16

namespace JsString

/-- The code points of a string; a lone surrogate is U+FFFD. -/
def codePoints : JsString → List Nat
  | [] => []
  | [u] => [if 0xD800 ≤ u ∧ u ≤ 0xDFFF then 0xFFFD else u.toNat]
  | u :: v :: rest =>
      if 0xD800 ≤ u ∧ u ≤ 0xDBFF then
        if 0xDC00 ≤ v ∧ v ≤ 0xDFFF then
          (0x10000 + (u.toNat - 0xD800) * 0x400 + (v.toNat - 0xDC00)) :: codePoints rest
        else 0xFFFD :: codePoints (v :: rest)
      else if 0xDC00 ≤ u ∧ u ≤ 0xDFFF then 0xFFFD :: codePoints (v :: rest)
      else u.toNat :: codePoints (v :: rest)

/-- `new TextEncoder().encode`. -/
def encode (s : JsString) : List UInt8 := (codePoints s).flatMap QString.utf8

/-- `isWellFormed`: every surrogate is one of a pair. -/
def isWellFormed : JsString → Bool
  | [] => true
  | [u] => !(0xD800 ≤ u && u ≤ 0xDFFF)
  | u :: v :: rest =>
      if 0xD800 ≤ u ∧ u ≤ 0xDBFF then
        if 0xDC00 ≤ v ∧ v ≤ 0xDFFF then isWellFormed rest else false
      else if 0xDC00 ≤ u ∧ u ≤ 0xDFFF then false
      else isWellFormed (v :: rest)

/-- White space and line terminators, as `trim` takes them. -/
def isWhiteSpace (u : UInt16) : Bool :=
  u = 0x20 || (0x09 ≤ u && u ≤ 0x0D) || u = 0xA0 || u = 0x1680 || (0x2000 ≤ u && u ≤ 0x200A) ||
    u = 0x2028 || u = 0x2029 || u = 0x202F || u = 0x205F || u = 0x3000 || u = 0xFEFF

def trim (s : JsString) : JsString := Lib.trim isWhiteSpace s

/-- `toLowerCase` of one code unit. -/
def lowerUnit (u : UInt16) : JsString :=
  if unit 'A' ≤ u ∧ u ≤ unit 'Z' then [u + 32]
  else if u = 0x0130 then [unit 'i', 0x0307]
  else if u = 0x212A then [unit 'k']
  else [u]

def toLowerCase (s : JsString) : JsString := s.flatMap lowerUnit

/-- The letters beyond ASCII whose upper case holds an ASCII letter. -/
def upperExpansions : List (UInt16 × JsString) :=
  [(0x00DF, [unit 'S', unit 'S']), (0x0131, [unit 'I']), (0x0149, [0x02BC, unit 'N']),
    (0x017F, [unit 'S']), (0x01F0, [unit 'J', 0x030C]), (0x1E96, [unit 'H', 0x0331]),
    (0x1E97, [unit 'T', 0x0308]), (0x1E98, [unit 'W', 0x030A]), (0x1E99, [unit 'Y', 0x030A]),
    (0x1E9A, [unit 'A', 0x02BE]), (0xFB00, [unit 'F', unit 'F']), (0xFB01, [unit 'F', unit 'I']),
    (0xFB02, [unit 'F', unit 'L']), (0xFB03, [unit 'F', unit 'F', unit 'I']),
    (0xFB04, [unit 'F', unit 'F', unit 'L']), (0xFB05, [unit 'S', unit 'T']),
    (0xFB06, [unit 'S', unit 'T'])]

/-- `toUpperCase` of one code unit; ligatures come apart. -/
def upperUnit (u : UInt16) : JsString :=
  if unit 'a' ≤ u ∧ u ≤ unit 'z' then [u - 32] else (upperExpansions.lookup u).getD [u]

def toUpperCase (s : JsString) : JsString := s.flatMap upperUnit

/-- `split` at the runs of the characters `p` holds of: only the first and the
last piece may be empty. -/
def splitRuns (p : UInt16 → Bool) (s : JsString) : List JsString :=
  match s.splitOnP p with
  | [] => []
  | first :: rest =>
      match rest.getLast? with
      | none => [first]
      | some last => first :: rest.dropLast.filter (fun piece => !piece.isEmpty) ++ [last]

theorem encode_eq_toUtf8 {s : JsString} (h : isWellFormed s = true) :
    encode s = QString.toUtf8 s := by
  have hpoints : codePoints s = QString.codePoints s := by
    fun_induction codePoints s with
    | case1 => rfl
    | case2 u =>
      have hplain : ¬ (0xD800 ≤ u ∧ u ≤ 0xDFFF) := by
        rintro ⟨hlow, hhigh⟩
        simp [isWellFormed, hlow, hhigh] at h
      rw [QString.codePoints, if_neg hplain, if_neg hplain]
    | case3 u v rest hhigh hlow ih =>
      rw [isWellFormed, if_pos hhigh, if_pos hlow] at h
      rw [QString.codePoints, if_pos hhigh, if_pos hlow, ih h]
    | case4 u v rest hhigh hlow ih =>
      rw [isWellFormed, if_pos hhigh, if_neg hlow] at h
      cases h
    | case5 u v rest hhigh hlow ih =>
      rw [isWellFormed, if_neg hhigh, if_pos hlow] at h
      cases h
    | case6 u v rest hhigh hlow ih =>
      rw [isWellFormed, if_neg hhigh, if_neg hlow] at h
      rw [QString.codePoints, if_neg hhigh, if_neg hlow, ih h]
  rw [encode, hpoints, QString.toUtf8]

end JsString

end MoonlightWeb.Js

/-! ## Byte arrays of JavaScript

`Uint8Array` and the big-endian accessors of `DataView`. A read past the end
throws, which is `none`; a subarray is cut at the end without a word.
-/

namespace MoonlightWeb.Js

open Lib

/-- `view.setUint32(offset, value, false)`. -/
def setUint32 (out : List UInt8) (offset value : Nat) : List UInt8 :=
  Bytes.overwrite out offset (Bytes.bigEndian 4 value)

/-- `view.getUint8`, `getUint16` or `getUint32(offset, false)`, by the width. -/
def getUint (width : Nat) (bytes : List UInt8) (offset : Nat) : Option Nat :=
  if offset + width ≤ bytes.length then
    some (Bytes.bigEndianValue ((bytes.drop offset).take width))
  else none

abbrev getUint8 : List UInt8 → Nat → Option Nat := getUint 1

abbrev getUint16 : List UInt8 → Nat → Option Nat := getUint 2

abbrev getUint32 : List UInt8 → Nat → Option Nat := getUint 4

/-- `bytes.subarray(start, stop)`. -/
def subarray (bytes : List UInt8) (start stop : Nat) : List UInt8 :=
  (bytes.drop start).take (stop - start)

theorem getUint_append {width n offset : Nat} {before after : List UInt8}
    (hoffset : before.length = offset) (h : n < 256 ^ width) :
    getUint width (before ++ Bytes.bigEndian width n ++ after) offset = some n := by
  have hroom : offset + width ≤ (before ++ Bytes.bigEndian width n ++ after).length := by
    simp only [List.length_append, Bytes.bigEndian_length]
    omega
  have hread : ((before ++ Bytes.bigEndian width n ++ after).drop offset).take width =
      Bytes.bigEndian width n := by
    rw [List.append_assoc, List.drop_left' hoffset]
    exact List.take_left' (Bytes.bigEndian_length width n)
  rw [getUint, if_pos hroom, hread, Bytes.bigEndianValue_of_lt h]

end MoonlightWeb.Js
