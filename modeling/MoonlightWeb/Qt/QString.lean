import Mathlib.Algebra.Group.Nat.Defs
import Mathlib.Data.List.Basic

/-! # Strings and byte arrays of Qt

A `QString` is a list of UTF-16 code units and a `QByteArray` a list of bytes.
The functions below are the members the modelled code calls, on code units, as
Qt documents them. Case folding knows ASCII and the two letters beyond it that
fold to ASCII, which is all that a comparison with an ASCII text can see.
-/

namespace MoonlightWeb.Qt

abbrev QString := List UInt16

abbrev QByteArray := List UInt8

instance : LawfulBEq QString := inferInstance

/-- The UTF-16 code units of a character. -/
def utf16 (c : Char) : List UInt16 :=
  if c.toNat < 0x10000 then [UInt16.ofNat c.toNat]
  else
    let v := c.toNat - 0x10000
    [UInt16.ofNat (0xD800 + v / 0x400), UInt16.ofNat (0xDC00 + v % 0x400)]

/-- `QStringLiteral`. -/
def qs (s : String) : QString := s.toList.flatMap utf16

def unit (c : Char) : UInt16 := UInt16.ofNat c.toNat

namespace QString

/-- `QChar::isSpace`. -/
def isSpace (u : UInt16) : Bool :=
  u = 0x20 || (0x09 ≤ u && u ≤ 0x0D) || u = 0x85 || u = 0xA0 || u = 0x1680 ||
    (0x2000 ≤ u && u ≤ 0x200A) || u = 0x2028 || u = 0x2029 || u = 0x202F || u = 0x205F ||
    u = 0x3000

variable (s : QString)

def trimmed : QString :=
  ((s.dropWhile isSpace).reverse.dropWhile isSpace).reverse

/-- Pieces of a string between the characters that `p` holds of, empty ones left out. -/
def splitSkipEmpty (p : UInt16 → Bool) (s : QString) : List QString :=
  (s.splitOnP p).filter fun piece => !piece.isEmpty

/-- `simplified`: trimmed, and every inner run of spaces one space. -/
def simplified : QString := [0x20].intercalate (splitSkipEmpty isSpace s)

/-- `left(n)`. -/
def left (n : Nat) : QString := s.take n

/-- `QChar::toCaseFolded`, as a comparison with ASCII sees it. -/
def fold (u : UInt16) : UInt16 :=
  if unit 'A' ≤ u ∧ u ≤ unit 'Z' then u + 32
  else if u = 0x017F then unit 's'
  else if u = 0x212A then unit 'k'
  else u

/-- `startsWith(prefix, Qt::CaseInsensitive)` for an ASCII prefix. -/
def startsWithFolded (s start : QString) : Bool := (start.map fold).isPrefixOf (s.map fold)

/-- `compare(other, Qt::CaseInsensitive) == 0` for an ASCII text. -/
def equalsFolded (s other : QString) : Bool := s.map fold = other.map fold

/-- `toUpper` on the ASCII letters. -/
def toUpperAscii : QString :=
  s.map fun u => if unit 'a' ≤ u ∧ u ≤ unit 'z' then u - 32 else u

/-- The code points of a string; a lone surrogate is a question mark. -/
def codePoints : QString → List Nat
  | [] => []
  | [u] => [if 0xD800 ≤ u ∧ u ≤ 0xDFFF then 0x3F else u.toNat]
  | u :: v :: rest =>
      if 0xD800 ≤ u ∧ u ≤ 0xDBFF then
        if 0xDC00 ≤ v ∧ v ≤ 0xDFFF then
          (0x10000 + (u.toNat - 0xD800) * 0x400 + (v.toNat - 0xDC00)) :: codePoints rest
        else 0x3F :: codePoints (v :: rest)
      else if 0xDC00 ≤ u ∧ u ≤ 0xDFFF then 0x3F :: codePoints (v :: rest)
      else u.toNat :: codePoints (v :: rest)

/-- The UTF-8 bytes of a code point. -/
def utf8 (n : Nat) : List UInt8 :=
  if n < 0x80 then [UInt8.ofNat n]
  else if n < 0x800 then [UInt8.ofNat (0xC0 + n / 0x40), UInt8.ofNat (0x80 + n % 0x40)]
  else if n < 0x10000 then
    [UInt8.ofNat (0xE0 + n / 0x1000), UInt8.ofNat (0x80 + n / 0x40 % 0x40),
      UInt8.ofNat (0x80 + n % 0x40)]
  else
    [UInt8.ofNat (0xF0 + n / 0x40000), UInt8.ofNat (0x80 + n / 0x1000 % 0x40),
      UInt8.ofNat (0x80 + n / 0x40 % 0x40), UInt8.ofNat (0x80 + n % 0x40)]

def toUtf8 : QByteArray := (codePoints s).flatMap utf8

theorem codePoints_ascii {s : QString} (h : ∀ u ∈ s, u < 128) :
    codePoints s = s.map UInt16.toNat := by
  have hbelow : ∀ {u : UInt16}, u < 128 → ¬ 0xD800 ≤ u := by
    intro u hu
    rw [UInt16.lt_iff_toNat_lt] at hu
    rw [UInt16.le_iff_toNat_le]
    simp at hu ⊢
    omega
  induction s with
  | nil => rfl
  | cons u s ih =>
    have hu := hbelow (h u (by simp))
    have hrest := ih fun v hv => h v (List.mem_cons_of_mem u hv)
    cases s with
    | nil => simp [codePoints, hu]
    | cons v s =>
      have hlow : ¬ 0xDC00 ≤ u := by
        intro hge
        apply hu
        rw [UInt16.le_iff_toNat_le] at hge ⊢
        simp at hge ⊢
        omega
      simp only [codePoints, hu, hlow, false_and, if_false]
      rw [hrest]
      rfl

theorem toUtf8_ascii {s : QString} (h : ∀ u ∈ s, u < 128) :
    toUtf8 s = s.map fun u => UInt8.ofNat u.toNat := by
  unfold toUtf8
  rw [codePoints_ascii h, List.flatMap_map]
  induction s with
  | nil => rfl
  | cons u s ih =>
    have hu : u.toNat < 128 := by
      have hlt := h u (by simp)
      rw [UInt16.lt_iff_toNat_lt] at hlt
      simpa using hlt
    have hone : utf8 u.toNat = [UInt8.ofNat u.toNat] := by
      simp [utf8, hu]
    rw [List.flatMap_cons, ih fun v hv => h v (List.mem_cons_of_mem u hv), hone]
    rfl

end QString

namespace QByteArray

def ofAscii (s : String) : QByteArray := s.toList.map fun c => UInt8.ofNat c.toNat

/-- The six bits a character of the base64 alphabet stands for. -/
def base64Value (u : UInt8) : Option Nat :=
  if 0x41 ≤ u ∧ u ≤ 0x5A then some (u.toNat - 0x41)
  else if 0x61 ≤ u ∧ u ≤ 0x7A then some (u.toNat - 0x61 + 26)
  else if 0x30 ≤ u ∧ u ≤ 0x39 then some (u.toNat - 0x30 + 52)
  else if u = 0x2B then some 62
  else if u = 0x2F then some 63
  else none

/-- The loop of `fromBase64`: `bits` bits of `buffer` are not yet written.
Characters outside the alphabet are skipped. -/
def fromBase64From (buffer bits : Nat) : QByteArray → QByteArray
  | [] => []
  | u :: rest =>
      match base64Value u with
      | none => fromBase64From buffer bits rest
      | some v =>
          let buffer := buffer * 64 + v
          if bits ≥ 2 then
            UInt8.ofNat (buffer / 2 ^ (bits - 2)) ::
              fromBase64From (buffer % 2 ^ (bits - 2)) (bits - 2) rest
          else fromBase64From buffer (bits + 6) rest

def fromBase64 (s : QByteArray) : QByteArray := fromBase64From 0 0 s

/-- The character of the base64 alphabet for six bits. -/
def base64Unit (v : Nat) : UInt8 :=
  if v < 26 then UInt8.ofNat (0x41 + v)
  else if v < 52 then UInt8.ofNat (0x61 + (v - 26))
  else if v < 62 then UInt8.ofNat (0x30 + (v - 52))
  else if v = 62 then 0x2B
  else 0x2F

/-- `toBase64`: three bytes to four characters, the last group padded. -/
def toBase64 : QByteArray → QByteArray
  | [] => []
  | [a] =>
      let n := a.toNat * 16
      [base64Unit (n / 64), base64Unit (n % 64), 0x3D, 0x3D]
  | [a, b] =>
      let n := (a.toNat * 256 + b.toNat) * 4
      [base64Unit (n / 4096), base64Unit (n / 64 % 64), base64Unit (n % 64), 0x3D]
  | a :: b :: c :: rest =>
      let n := (a.toNat * 256 + b.toNat) * 256 + c.toNat
      base64Unit (n / 262144) :: base64Unit (n / 4096 % 64) :: base64Unit (n / 64 % 64) ::
        base64Unit (n % 64) :: toBase64 rest

/-- `mid(pos, len)`; a negative length means to the end. -/
def mid (b : QByteArray) (pos len : Int) : QByteArray :=
  if pos > b.length then []
  else if pos < 0 then
    if len < 0 ∨ len + pos ≥ b.length then b
    else if len + pos ≤ 0 then []
    else b.take (len + pos).toNat
  else if len < 0 then b.drop pos.toNat
  else (b.drop pos.toNat).take len.toNat

/-- `QString::fromLatin1`. -/
def toQString (b : QByteArray) : QString := b.map fun u => UInt16.ofNat u.toNat

end QByteArray

end MoonlightWeb.Qt
