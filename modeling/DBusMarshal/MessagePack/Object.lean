import DBusMarshal.Number.Shortest
import DBusMarshal.Text.Quoted

/-!
The objects of MessagePack, and how messages show them.
-/

set_option autoImplicit false

namespace DBusMarshal.MessagePack

/-- The key of a map: a text or a byte string. -/
inductive Key where
  | text (written : String)
  | bytes (octets : List UInt8)
deriving DecidableEq, Repr

/-- An object. A map keeps the order in which its keys came first. -/
inductive Object where
  | nil
  | bool (truth : Bool)
  | int (number : Int)
  | float (number : Binary64)
  | text (written : String)
  | bytes (octets : List UInt8)
  | array (items : List Object)
  | map (entries : List (Key × Object))
  /-- An application's own type, by its number. -/
  | extension (code : Nat) (octets : List UInt8)
  | timestamp (seconds : Int) (nanoseconds : Nat)
deriving Repr

/-! ### Maps -/

/-- Set the object of a key: in place when the key is there, and at the end when it is new. -/
def insert (key : Key) (object : Object) : List (Key × Object) → List (Key × Object)
  | [] => [(key, object)]
  | (other, old) :: rest =>
    if other = key then (other, object) :: rest else (other, old) :: insert key object rest

/-- The entries of a map whose keys may be repeated: the last object of a key counts. -/
def Object.mapOf (entries : List (Key × Object)) : Object :=
  .map (entries.foldl (fun known entry => insert entry.1 entry.2 known) [])

def field (name : String) (entries : List (Key × Object)) : Option Object :=
  entries.lookup (.text name)

/-! ### Depth -/

mutual

/-- How deep arrays and maps stand one inside the other. -/
def Object.depth : Object → Nat
  | .array items => Object.allDepth items + 1
  | .map entries => Object.entriesDepth entries + 1
  | _ => 0

def Object.allDepth : List Object → Nat
  | [] => 0
  | item :: rest => max item.depth (Object.allDepth rest)

/-- The greatest depth of the objects of several entries. -/
def Object.entriesDepth : List (Key × Object) → Nat
  | [] => 0
  | (_, object) :: rest => max object.depth (Object.entriesDepth rest)

end

/-! ### How an object is shown -/

def Key.shown : Key → String
  | text written => Text.quoted written
  | bytes octets => Text.quotedBytes octets

/-- Put several texts between two others, with commas in between. -/
def listed (left : String) (parts : List String) (right : String) : String :=
  left ++ ", ".intercalate parts ++ right

mutual

def Object.shown : Object → String
  | .nil => "None"
  | .bool truth => if truth then "True" else "False"
  | .int number => toString number
  | .float number => number.text
  | .text written => Text.quoted written
  | .bytes octets => Text.quotedBytes octets
  | .array items => listed "[" (Object.allShown items) "]"
  | .map entries => listed "\x7b" (Object.entriesShown entries) "\x7d"
  | .extension code octets =>
    "ExtType(code=" ++ toString code ++ ", data=" ++ Text.quotedBytes octets ++ ")"
  | .timestamp seconds nanoseconds =>
    "Timestamp(seconds=" ++ toString seconds ++ ", nanoseconds=" ++ toString nanoseconds ++ ")"

def Object.allShown : List Object → List String
  | [] => []
  | item :: rest => item.shown :: Object.allShown rest

def Object.entriesShown : List (Key × Object) → List String
  | [] => []
  | (key, object) :: rest => (key.shown ++ ": " ++ object.shown) :: Object.entriesShown rest

end

end DBusMarshal.MessagePack
