import MoonlightWeb.Qt.QString
import Mathlib.Data.Rat.Defs

/-! # JSON values of Qt

`QJsonValue` as the modelled code reads it: a member that is absent or of
another type yields the default of the reader. Numbers are the finite doubles a
document can hold, kept exactly.
-/

namespace MoonlightWeb.Qt

inductive QJsonValue
  | null
  | bool (b : Bool)
  | number (q : ℚ)
  | string (s : QString)
  | array (values : List QJsonValue)
  | object (members : List (QString × QJsonValue))
  | undefined

abbrev QJsonObject := List (QString × QJsonValue)

namespace QJsonObject

/-- `object.value(key)`. -/
def value (o : QJsonObject) (key : String) : QJsonValue :=
  match o.find? fun m => m.1 = qs key with
  | some m => m.2
  | none => .undefined

def contains (o : QJsonObject) (key : String) : Bool := o.any fun m => m.1 = qs key

end QJsonObject

namespace QJsonValue

def toString : QJsonValue → QString
  | .string s => s
  | _ => []

variable (v : QJsonValue)

def toBool (default : Bool) : Bool :=
  match v with
  | .bool b => b
  | _ => default

def toDouble (default : ℚ) : ℚ :=
  match v with
  | .number q => q
  | _ => default

/-- `toInt(default)`: only a whole number in the range of an `int` converts. -/
def toInt (default : Int) : Int :=
  match v with
  | .number q =>
      if q.den = 1 ∧ -2147483648 ≤ q.num ∧ q.num ≤ 2147483647 then q.num else default
  | _ => default

/-- `static_cast<qint64>(toDouble(default))`, towards zero. -/
def toInt64 (default : Int) : Int :=
  let q := v.toDouble default
  q.num.tdiv q.den

def toArray : QJsonValue → List QJsonValue
  | .array values => values
  | _ => []

def toObject : QJsonValue → QJsonObject
  | .object members => members
  | _ => []

@[simp] theorem toString_string (s : QString) : (QJsonValue.string s).toString = s := rfl

@[simp] theorem toArray_array (values : List QJsonValue) :
    (QJsonValue.array values).toArray = values := rfl

@[simp] theorem toObject_object (members : QJsonObject) :
    (QJsonValue.object members).toObject = members := rfl

def isString : QJsonValue → Bool
  | .string _ => true
  | _ => false

end QJsonValue

end MoonlightWeb.Qt
