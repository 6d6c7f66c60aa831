import Mathlib
import MoonlightWeb.Qt.QString

/-! # Reading XML as a stream

`QXmlStreamReader` as a machine on the tokens a text has: those before its end, or before
the first error in it. At the end or at an error every further token is Invalid. Elements
close in the order they opened, in every text, up to where it breaks.
-/

namespace MoonlightWeb.Qt

/-- A token that opens and closes nothing. -/
inductive Plain
  | StartDocument
  | DTD
  | Characters (text : QString)
  | EntityReference (text : QString)
  | Comment
  | ProcessingInstruction
deriving DecidableEq

/-- A token of a text. -/
inductive Event
  | StartElement (name : QString)
  | EndElement (name : QString)
  | plain (p : Plain)
deriving DecidableEq

/-- The current token of a reader. -/
inductive Token
  | NoToken
  | Invalid
  | EndDocument
  | event (e : Event)
deriving DecidableEq

/-- A reader: its token, what it has not read, and whether the document ends after that or
is broken there. -/
structure XmlStreamReader where
  token : Token := .NoToken
  rest : List Event
  complete : Bool

namespace XmlStreamReader

variable (r : XmlStreamReader)

def atEnd : Bool := r.token = .Invalid || r.token = .EndDocument

def isEndElement (name : QString) : Bool :=
  r.token = .event (.EndElement name)

def startName : Option QString :=
  match r.token with
  | .event (.StartElement name) => some name
  | _ => none

def readNext : XmlStreamReader :=
  if r.atEnd then { r with token := .Invalid }
  else
    match r.rest with
    | [] => { r with token := if r.complete then .EndDocument else .Invalid }
    | e :: rest => { r with token := .event e, rest := rest }

/-- The reading of `readNextStartElement`: up to a start or an end tag, or the end. -/
def nextStart (complete : Bool) : List Event → XmlStreamReader
  | [] => { token := if complete then .EndDocument else .Invalid, rest := [], complete := complete }
  | .plain _ :: rest => nextStart complete rest
  | e :: rest => { token := .event e, rest := rest, complete := complete }

/-- `readNextStartElement`; what it returns is whether the reader is at a start tag. -/
def readNextStartElement : XmlStreamReader :=
  if r.atEnd then { r with token := .Invalid } else nextStart r.complete r.rest

/-- The text that a token adds to an element's, and `none` for a token that has no place in
it. -/
def textOf : Plain → Option QString
  | .Characters text => some text
  | .EntityReference text => some text
  | .Comment => some []
  | .ProcessingInstruction => some []
  | .StartDocument => none
  | .DTD => none

/-- The reading of `readElementText`: up to the end tag, or to a token that is not text, which
raises an error. -/
def elementText (complete : Bool) (result : QString) : List Event → QString × XmlStreamReader
  | [] => (result, { token := .Invalid, rest := [], complete := complete })
  | .EndElement name :: rest =>
      (result, { token := .event (.EndElement name), rest := rest, complete := complete })
  | .StartElement _ :: rest =>
      (result, { token := .Invalid, rest := rest, complete := complete })
  | .plain p :: rest =>
      match textOf p with
      | some text => elementText complete (result ++ text) rest
      | none => (result, { token := .Invalid, rest := rest, complete := complete })

/-- `readElementText` at a start element. -/
def readElementText : QString × XmlStreamReader :=
  elementText r.complete [] r.rest

end XmlStreamReader

/-- What stands between two tags, item by item. -/
inductive Content
  | nil
  | plain (p : Plain) (rest : Content)
  | element (name : QString) (children rest : Content)

namespace Content

def events : Content → List Event
  | nil => []
  | plain p rest => .plain p :: events rest
  | element name children rest =>
      .StartElement name :: (events children ++ .EndElement name :: events rest)

/-- The text of an element with this content, `none` when more than text is in it. -/
def text : Content → Option QString
  | nil => some []
  | plain p rest => (XmlStreamReader.textOf p).bind fun t => (text rest).map (t ++ ·)
  | element _ _ _ => none

/-- The contents of all elements with a name, however deep, in the order they open. -/
def named (name : QString) : Content → List Content
  | nil => []
  | plain _ rest => named name rest
  | element n children rest =>
      (if n = name then [children] else []) ++ named name children ++ named name rest

/-- The text of the last child with a name. -/
def childText (name : QString) : Content → Option QString
  | nil => none
  | plain _ rest => childText name rest
  | element n children rest =>
      (childText name rest).or (if n = name then text children else none)

/-- No element of the content, however deep, has such a name. -/
def Free (mine : QString → Prop) : Content → Prop
  | nil => True
  | plain _ rest => Free mine rest
  | element n children rest => ¬ mine n ∧ Free mine children ∧ Free mine rest

theorem named_of_text {name : QString} {c : Content} (h : c.text.isSome = true) :
    named name c = [] := by
  induction c with
  | nil => rfl
  | plain p rest ih =>
    have hrest : rest.text.isSome = true := by
      cases hp : XmlStreamReader.textOf p <;> simp_all [text]
    exact ih hrest
  | element n children rest _ _ => cases h

theorem named_of_free {name : QString} {mine : QString → Prop} (hmine : mine name) {c : Content}
    (h : c.Free mine) : named name c = [] := by
  induction c with
  | nil => rfl
  | plain p rest ih => exact ih h
  | element n children rest ihc ihr =>
    obtain ⟨hname, hchildren, hrest⟩ := h
    have hother : n ≠ name := fun heq => hname (heq ▸ hmine)
    rw [named, if_neg hother, ihc hchildren, ihr hrest]
    rfl

end Content

end MoonlightWeb.Qt
