import MoonlightWeb.Lib.Leb128

/-! # Walking the units of an AV1 buffer

`findSequenceHeader` and `stripNonEssentialObus` go from unit to unit by the sizes they
decode. A size is put together with the operators of JavaScript on 32 bits, so that it can be
negative and the walk can go back or stand still; `none` is a walk that has not ended.
-/

namespace MoonlightWeb.Frontend.Av1Utils

open Lib

abbrev Bytes := List UInt8

def OBU_SEQUENCE_HEADER : UInt8 := 1

def OBU_TEMPORAL_DELIMITER : UInt8 := 2

def OBU_PADDING : UInt8 := 15

/-- `data[offset]` under an operator on bits, where `undefined` is 0. -/
def byteAt (data : Bytes) (offset : Int) : UInt8 :=
  if 0 ≤ offset then data.getD offset.toNat 0 else 0

/-- A unit as the walk reads it. -/
structure Obu where
  start : Int
  obuType : UInt8
  hdrLen : Int
  sizeLen : Nat
  obuSize : Int
deriving DecidableEq, Repr

namespace Obu

def totalObuLen (o : Obu) : Int := o.hdrLen + o.sizeLen + o.obuSize

def stop (o : Obu) : Int := o.start + o.totalObuLen

end Obu

/-- The size from the byte of place `sizeLen` on: `obuSize |= (b & 0x7f) << (sizeLen * 7)`,
where a shift goes by its amount modulo 32. -/
def readLeb128From (sizeLen : Nat) (obuSize : BitVec 32) : Bytes → Option (Int × Nat)
  | [] => none
  | b :: rest =>
      if 8 ≤ sizeLen then none
      else if b &&& 0x80 = 0 then
        some ((obuSize ||| BitVec.ofNat 32 (b &&& 0x7f).toNat <<< (sizeLen * 7 % 32)).toInt,
          sizeLen + 1)
      else
        readLeb128From (sizeLen + 1)
          (obuSize ||| BitVec.ofNat 32 (b &&& 0x7f).toNat <<< (sizeLen * 7 % 32)) rest

def readLeb128 (bytes : Bytes) : Option (Int × Nat) := readLeb128From 0 0 bytes

def headerLength (header : UInt8) : Int := if (header >>> 2) &&& 1 = 0 then 1 else 2

/-- The unit at an offset, if it has a size that is complete. `decode` reads the size. -/
def readObu (decode : Bytes → Option (Int × Nat)) (data : Bytes) (offset : Int) : Option Obu :=
  if (data.length : Int) ≤ offset + headerLength (byteAt data offset) then none
  else if (byteAt data offset >>> 1) &&& 1 = 0 then none
  else
    (decode (data.drop (offset + headerLength (byteAt data offset)).toNat)).map fun size =>
      ⟨offset, (byteAt data offset >>> 3) &&& 0x0f, headerLength (byteAt data offset), size.2,
        size.1⟩

/-- Where an index of `slice` or `subarray` falls. -/
def relative (data : Bytes) (index : Int) : Nat :=
  if index < 0 then (data.length + index).toNat else min index.toNat data.length

/-- `data.slice(start, stop)` and `data.subarray(start, stop)`. -/
def slice (data : Bytes) (start stop : Int) : Bytes :=
  (data.drop (relative data start)).take (relative data stop - relative data start)

/-- `out.set(bytes, offset)`, which throws past the end. -/
def set (out bytes : Bytes) (offset : Int) : Option Bytes :=
  if offset < 0 ∨ (out.length : Int) < offset + bytes.length then none
  else some (out.take offset.toNat ++ bytes ++ out.drop (offset.toNat + bytes.length))

def findFrom (data : Bytes) : Nat → Int → Option (Option Bytes)
  | 0, _ => none
  | fuel + 1, offset =>
      if offset < data.length - 1 then
        match readObu readLeb128 data offset with
        | none => some none
        | some o =>
            if o.obuType = OBU_SEQUENCE_HEADER then some (some (slice data offset o.stop))
            else findFrom data fuel o.stop
      else some none

def findSequenceHeader (fuel : Nat) (data : Bytes) : Option (Option Bytes) :=
  if data.length < 2 then some none else findFrom data fuel 0

/-- The ranges that are kept, and whether something is not. -/
structure Kept where
  ranges : List (Int × Int)
  removed : Bool
deriving DecidableEq, Repr

namespace Kept

def nothing : Kept := ⟨[], false⟩

/-- A range after those that are kept, joined with the last where it starts at its end. -/
def push (k : Kept) (start stop : Int) : Kept :=
  match k.ranges.getLast? with
  | some (s, e) =>
      if e = start then { k with ranges := k.ranges.dropLast ++ [(s, stop)] }
      else { k with ranges := k.ranges ++ [(start, stop)] }
  | none => { k with ranges := [(start, stop)] }

def note (k : Kept) (o : Obu) : Kept :=
  if o.obuType = OBU_TEMPORAL_DELIMITER ∨ o.obuType = OBU_PADDING then { k with removed := true }
  else k.push o.start o.stop

/-- The ranges copied one after the other. -/
def copy (data : Bytes) : List (Int × Int) → Bytes → Int → Option Bytes
  | [], out, _ => some out
  | (s, e) :: rest, out, outPos =>
      match set out (slice data s e) outPos with
      | none => none
      | some out => copy data rest out (outPos + (e - s))

/-- What is returned at the end of the walk; `none`: an exception. -/
def result (data : Bytes) (k : Kept) : Option Bytes :=
  if !k.removed ∨ k.ranges = [] then some data
  else
    match k.ranges with
    | [(s, e)] => some (slice data s e)
    | ranges =>
        if (ranges.map fun r : Int × Int => r.2 - r.1).sum < 0 then none
        else copy data ranges (List.replicate (ranges.map fun r : Int × Int => r.2 - r.1).sum.toNat 0) 0

end Kept

/-- The outer `none` is a walk that has not ended, the inner one an exception. -/
def stripFrom (data : Bytes) : Nat → Int → Kept → Option (Option Bytes)
  | 0, _, _ => none
  | fuel + 1, offset, k =>
      if offset < data.length then
        match readObu readLeb128 data offset with
        | none => some (some data)
        | some o =>
            if (data.length : Int) < o.stop then some (some data)
            else stripFrom data fuel o.stop (k.note o)
      else some (k.result data)

def stripNonEssentialObus (fuel : Nat) (data : Bytes) : Option (Option Bytes) :=
  if data.length < 1 then some (some data) else stripFrom data fuel 0 Kept.nothing

/-- A delimiter, a frame, padding and a frame. -/
example : stripNonEssentialObus 5 [0x12, 0, 0x32, 1, 7, 0x7a, 2, 0, 0, 0x32, 1, 8] =
    some (some [0x32, 1, 7, 0x32, 1, 8]) := by decide

end MoonlightWeb.Frontend.Av1Utils
