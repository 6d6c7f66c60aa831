import MoonlightWeb.Lib.MachineInt
import MoonlightWeb.Qt.Ascii
import MoonlightWeb.Qt.XmlStreamReader

/-! # What a GameStream host answers, read

The readers of `NvHTTP`: one string, the display modes and the apps of an XML text. A loop
over the elements holds a loop that waits for the closing tag of one; `fuel` bounds the
turns of both, and a reader returns when some fuel is enough. The two list readers are one
loop with their own element and fields.
-/

namespace MoonlightWeb.Backend.NvHTTP

open Lib Qt QString XmlStreamReader

/-- `toInt`: 0 for what is no number, or none of 32 bits. -/
def toInt (s : QString) : Int :=
  let t := trimmed s
  let digits := if t.head? = some (unit '-') ∨ t.head? = some (unit '+') then t.drop 1 else t
  let v : Int := if t.head? = some (unit '-') then -(value digits : Int) else value digits
  if digits ≠ [] ∧ digits.all (fun u => decide (isDigit u)) ∧
      -2147483648 ≤ v ∧ v ≤ 2147483647 then v
  else 0

/-- The loop of `getXmlString`. -/
def stringLoop (tagName : QString) : Nat → XmlStreamReader → Option QString
  | 0, _ => none
  | fuel + 1, r =>
      if r.atEnd then some []
      else
        let r := r.readNextStartElement
        if r.startName = some tagName then some r.readElementText.1
        else stringLoop tagName fuel r

def getXmlString (fuel : Nat) (xml : List Event) (complete : Bool) (tagName : QString) :
    Option QString :=
  stringLoop tagName fuel { rest := xml, complete := complete }

/-- What a list reader looks for: the element, the fields in it with what the text of each
does to a record, and which records it keeps. -/
structure Format (α : Type) where
  element : QString
  init : α
  field : QString → Option (QString → α → α)
  keep : α → Bool

section

variable {α : Type} (f : Format α)

/-- One turn of the inner loop. -/
def readField (r : XmlStreamReader) (v : α) : XmlStreamReader × α :=
  let r := r.readNext
  match r.startName.bind f.field with
  | some update => (r.readElementText.2, update r.readElementText.1 v)
  | none => (r, v)

/-- The inner loop: up to the closing tag of the element. -/
def recordLoop : Nat → XmlStreamReader → α → Option (XmlStreamReader × α)
  | 0, _, _ => none
  | fuel + 1, r, v =>
      if r.isEndElement f.element then some (r, v)
      else recordLoop fuel (readField f r v).1 (readField f r v).2

def listLoop : Nat → XmlStreamReader → List α → Option (List α)
  | 0, _, _ => none
  | fuel + 1, r, list =>
      if r.atEnd then some list
      else
        let r := r.readNextStartElement
        if r.startName = some f.element then
          (recordLoop f fuel r f.init).bind fun (r, v) =>
            listLoop fuel r (if f.keep v then list ++ [v] else list)
        else listLoop fuel r list

def readList (fuel : Nat) (xml : List Event) (complete : Bool) : Option (List α) :=
  listLoop f fuel { rest := xml, complete := complete } []

end

structure NvDisplayMode where
  width : Int := 0
  height : Int := 0
  refreshRate : Int := 0
deriving DecidableEq

def displayMode : Format NvDisplayMode where
  element := qs "DisplayMode"
  init := {}
  field name :=
    if name = qs "Width" then some fun text mode => { mode with width := toInt text }
    else if name = qs "Height" then some fun text mode => { mode with height := toInt text }
    else if name = qs "RefreshRate" then
      some fun text mode => { mode with refreshRate := toInt text }
    else none
  keep mode := 0 < mode.width

namespace NvDisplayMode

def product (m : NvDisplayMode) : Int := m.width * m.height * m.refreshRate

/-- The multiplications of the comparison stay in an `int`. -/
def InRange (m : NvDisplayMode) : Prop :=
  MachineInt.Fits 32 (m.width * m.height) ∧ MachineInt.Fits 32 m.product

instance : DecidablePred InRange := fun _ => inferInstanceAs (Decidable (_ ∧ _))

end NvDisplayMode

/-- `std::sort`, the largest first. It compares every mode there is when there are two, and an
overflow there is undefined: nothing is promised of what follows. -/
def sortModes (modes : List NvDisplayMode) : Option (List NvDisplayMode) :=
  if 2 ≤ modes.length ∧ ¬ ∀ m ∈ modes, m.InRange then none
  else some (modes.insertionSort fun a b => b.product ≤ a.product)

def getDisplayModeList (fuel : Nat) (serverInfo : List Event) (complete : Bool) :
    Option (List NvDisplayMode) :=
  (readList displayMode fuel serverInfo complete).bind sortModes

structure NvApp where
  id : Int := 0
  name : QString := []
  hdrSupported : Bool := false
deriving DecidableEq

def app : Format NvApp where
  element := qs "App"
  init := {}
  field name :=
    if name = qs "ID" then some fun text a => { a with id := toInt text }
    else if name = qs "AppTitle" then some fun text a => { a with name := text }
    else if name = qs "IsHdrSupported" then
      some fun text a => { a with hdrSupported := text = qs "1" }
    else none
  keep a := a.id ≠ 0 && !a.name.isEmpty

def parseAppList (fuel : Nat) (xml : List Event) (complete : Bool) : Option (List NvApp) :=
  readList app fuel xml complete

end MoonlightWeb.Backend.NvHTTP
