import DBusMarshal.Fault
import DBusMarshal.Number.Binary64

/-!
The values that messages are made of.

A value is a scalar, a text, a byte string, a sequence or a dictionary. A dictionary keeps the order
in which its keys came first. Numbers of different kinds are the same key when their values are
equal, and what holds a list or a dictionary is no key at all. Values are plain data: a dictionary
answers for the keys that it holds and for no others, and no container of a message stands inside a
list, a tuple or a dictionary.
-/

set_option autoImplicit false

namespace DBusMarshal

inductive Value where
  | null
  | bool (truth : Bool)
  | int (number : Int)
  | float (number : Binary64)
  | text (written : String)
  | bytes (octets : List UInt8)
  | list (items : List Value)
  | tuple (items : List Value)
  | dict (entries : List (Value × Value))
deriving Repr

namespace Value

def isNull : Value → Bool
  | null => true
  | _ => false

/-! ### Keys -/

/-- The exact value of a number; a truth value counts as zero or one. -/
def numeric? : Value → Option Exact
  | bool truth => some (.ofInt truth.toInt)
  | int number => some (.ofInt number)
  | float number => some number.exact
  | _ => none

mutual

/-- A value may be a key: it is no list or dictionary and holds none. -/
def isKey : Value → Bool
  | list _ => false
  | dict _ => false
  | tuple items => areKeys items
  | _ => true

def areKeys : List Value → Bool
  | [] => true
  | item :: rest => item.isKey && areKeys rest

end

/-- Two values that hold no others are the same key. -/
def sameScalar (left right : Value) : Bool :=
  match left.numeric?, right.numeric? with
  | some a, some b => a.equals b
  | none, none =>
    match left, right with
    | null, null => true
    | text a, text b => a == b
    | bytes a, bytes b => a == b
    | _, _ => false
  | _, _ => false

mutual

def sameKey : Value → Value → Bool
  | tuple left, tuple right => sameKeys left right
  | left, right => left.sameScalar right

/-- Two sequences of values are the same keys one by one. -/
def sameKeys : List Value → List Value → Bool
  | [], [] => true
  | a :: left, b :: right => a.sameKey b && sameKeys left right
  | _, _ => false

end

/-! ### Dictionaries -/

def lookup (key : Value) : List (Value × Value) → Option Value
  | [] => none
  | (other, value) :: rest => if other.sameKey key then some value else lookup key rest

/-- Set the value of a key: in place when the key is there, and at the end when it is new. -/
def insert (key value : Value) : List (Value × Value) → List (Value × Value)
  | [] => [(key, value)]
  | (other, old) :: rest =>
    if other.sameKey key then (other, value) :: rest else (other, old) :: insert key value rest

/-- Set the value of a key, which has to be a value that may be one. -/
def insert? (entries : List (Value × Value)) (key value : Value) :
    Except Fault (List (Value × Value)) :=
  if key.isKey then .ok (insert key value entries) else .error .illTyped

/-- The dictionary of several keys and values, entered one after the other. -/
def dictOf (pairs : List (Value × Value)) : Except Fault Value :=
  (pairs.foldlM (fun entries pair => insert? entries pair.1 pair.2) []).map dict

/-! ### Sequences -/

/-- The members of a value, one after the other: the items of a sequence, the characters of a text,
the numbers of a byte string, the keys of a dictionary. -/
def members : Value → Except Fault (List Value)
  | list items => .ok items
  | tuple items => .ok items
  | text written => .ok (written.toList.map fun c => text (.singleton c))
  | bytes octets => .ok (octets.map fun octet => int octet.toNat)
  | dict pairs => .ok (pairs.map Prod.fst)
  | _ => .error .illTyped

/-- The keys and values of a dictionary, as pairs. -/
def entries : Value → Except Fault (List Value)
  | dict pairs => .ok (pairs.map fun pair => tuple [pair.1, pair.2])
  | _ => .error .noSuchPart

/-- A whole number that may count positions; a truth value counts as zero or one. -/
def position? : Value → Option Int
  | bool truth => some truth.toInt
  | int number => some number
  | _ => none

/-- The item at a position, where a negative position counts from the end. -/
def itemAt (items : List Value) (position : Int) : Except Fault Value :=
  let place := if position < 0 then position + items.length else position
  if place < 0 then .error .outOfRange
  else
    match items[place.toNat]? with
    | some item => .ok item
    | none => .error .outOfRange

/-- The part of a value that an index selects: the value of a key in a dictionary, the member at a
position elsewhere. -/
def select (value index : Value) : Except Fault Value :=
  match value with
  | dict pairs =>
    if index.isKey then
      match lookup index pairs with
      | some found => .ok found
      | none => .error .missingKey
    else .error .illTyped
  | _ => do
    let items ← value.members
    match index.position? with
    | some position => itemAt items position
    | none => .error .illTyped

/-! ### Counting -/

def less (left right : Value) : Except Fault Bool :=
  match left.numeric?, right.numeric? with
  | some a, some b => .ok (a.less b)
  | _, _ => .error .illTyped

def successor : Value → Except Fault Value
  | bool truth => .ok (int (truth.toInt + 1))
  | int number => .ok (int (number + 1))
  | float number => .ok (float number.increment)
  | _ => .error .illTyped

end Value

end DBusMarshal
