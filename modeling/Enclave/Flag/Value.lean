import Enclave.Decimal
import Enclave.Double

/-!
# Flag values

The values that regions give to flags: a permission, a truth value, an integer, a double or a text.

Doubles are kept as they are stored, bit for bit. Two values are equal as `==` says: a double that
is not a number equals nothing.

Where several regions give a flag a value, the flag's combinator makes one of them. It skips the
values that it cannot use; if none is left it makes nothing.
-/

namespace Enclave

/-- Whether something may be done. -/
inductive Permission where
  | allow
  | deny
  deriving DecidableEq, Repr

/-- The kinds of value. -/
inductive Kind where
  | state
  | boolean
  | integer
  | float
  | text
  deriving DecidableEq, Repr

/-- A value given to a flag. -/
inductive Value where
  | state (permission : Permission)
  | bool (value : Bool)
  | int (value : Int)
  | float (value : Double)
  | text (value : String)
  deriving BEq

namespace Permission

def name : Permission → String
  | allow => "allow"
  | deny => "deny"

/-- The verdict of several opinions: one that denies settles
it, and without an opinion there is no verdict. -/
def combine (opinions : List (Option Permission)) : Option Permission :=
  if opinions.contains (some .deny) then some .deny
  else if opinions.contains (some .allow) then some .allow
  else none

end Permission

namespace Kind

def name : Kind → String
  | state => "state"
  | boolean => "boolean"
  | integer => "integer"
  | float => "float"
  | text => "text"

def isNumeric : Kind → Bool
  | integer | float => true
  | _ => false

end Kind

namespace Value

def kind : Value → Kind
  | state _ => .state
  | bool _ => .boolean
  | int _ => .integer
  | float _ => .float
  | text _ => .text

def permission? : Value → Option Permission
  | state p => some p
  | _ => none

def bool? : Value → Option Bool
  | bool b => some b
  | _ => none

def int? : Value → Option Int
  | int i => some i
  | _ => none

/-- The value as a double; an integer converts to the nearest. -/
def double? : Value → Option Double
  | float x => some x
  | int i => some (.ofInt i)
  | _ => none

def text? : Value → Option String
  | text s => some s
  | _ => none

/-- The value as it is shown to people. -/
def display : Value → String
  | state p => p.name
  | bool b => if b then "true" else "false"
  | int i => toString i
  | float x => Decimal.Style.plain.write x.toFloat
  | text s => s

/-- Orders two numbers: integers exactly, anything else as doubles by rank. What is no number at all
counts as the positive double that is not a number. -/
def compareNumbers : Value → Value → Ordering
  | int i, int j => compare i j
  | v, w => Double.totalCompare (v.double?.getD .nan) (w.double?.getD .nan)

end Value

/-! ## Combining values -/

/-- How several values make one. -/
inductive Combinator where
  /-- The first value stands. -/
  | firstMatch
  /-- One permission that denies settles it. -/
  | denyOverrides
  /-- True if all are. -/
  | all
  /-- True if any is. -/
  | any
  /-- The least number, the first of equals. -/
  | least
  /-- The greatest number, the first of equals. -/
  | greatest
  deriving DecidableEq, Repr

namespace Combinator

/-- Where nothing else is said, the first value stands. -/
instance : Inhabited Combinator := ⟨firstMatch⟩

def name : Combinator → String
  | firstMatch => "FirstMatch"
  | denyOverrides => "DenyOverrides"
  | all => "And"
  | any => "Or"
  | least => "Min"
  | greatest => "Max"

/-- Whether values of the kind can be combined so. -/
def suits : Combinator → Kind → Bool
  | firstMatch, _ => true
  | denyOverrides, k => k == .state
  | all, k | any, k => k == .boolean
  | least, k | greatest, k => k.isNumeric

/-- Whether values beside the first count. -/
def isCombining : Combinator → Bool
  | firstMatch => false
  | _ => true

/-- Keeps `best` unless `v` compares to it as wanted. -/
def improve (wanted : Ordering) (best v : Value) : Value :=
  if v.compareNumbers best == wanted then v else best

/-- The first number to which no later one compared as wanted. -/
def extreme? (wanted : Ordering) (values : List Value) : Option Value :=
  match values.filter (·.kind.isNumeric) with
  | [] => none
  | v :: vs => some (vs.foldl (improve wanted) v)

/-- Combines values, the first in precedence first. -/
def combine (c : Combinator) (values : List Value) : Option Value :=
  match c with
  | firstMatch => values.head?
  | denyOverrides => (Permission.combine (values.map Value.permission?)).map .state
  | all =>
    match values.filterMap Value.bool? with
    | [] => none
    | bs => some (.bool (bs.all id))
  | any =>
    match values.filterMap Value.bool? with
    | [] => none
    | bs => some (.bool (bs.any id))
  | least => extreme? .lt values
  | greatest => extreme? .gt values

end Combinator

end Enclave
