import DBusMarshal.Text.Quoted

/-!
The tree of a D-Bus type, and the signature that it is written as.

A tree is built freely: a basic type may carry any code, and a leaf may be no type at all.
`Node.signature` writes the tree out from left to right. A tree with a leaf that is no type has no
signature; `Node.hasStray` finds such a leaf.
-/

set_option autoImplicit false

namespace DBusMarshal

inductive Node where
  /-- A type of one code. -/
  | basic (code : String)
  | array (element : Node)
  | struct (members : List Node)
  /-- A key and a value, the element of an array that is a dictionary. -/
  | entry (key value : Node)
  | variant
  /-- A leaf that is no type: a text, or nothing. -/
  | stray (text : Option String)
deriving Repr

namespace Node

/-! ### Codes -/

/-- The codes of the types whose values all have one size. -/
def fixedCodes : List String := ["y", "b", "n", "q", "i", "u", "x", "t", "d", "h"]

/-- The codes of the types whose values are texts. -/
def textCodes : List String := ["s", "o", "g"]

def basicCodes : List String := fixedCodes ++ textCodes

/-! ### Kinds of types -/

def isEntry : Node → Bool
  | entry _ _ => true
  | _ => false

def isVariant : Node → Bool
  | variant => true
  | _ => false

def isStray : Node → Bool
  | stray _ => true
  | _ => false

/-! ### The parts of a type -/

/-- The types directly below a type, in the order of its signature. -/
def children : Node → List Node
  | array element => [element]
  | struct members => members
  | entry key value => [key, value]
  | _ => []

/-- The values of a type all have one size. -/
def isFixed : Node → Bool
  | basic code => fixedCodes.contains code
  | _ => false

mutual

def any (test : Node → Bool) (node : Node) : Bool :=
  test node ||
    match node with
    | array element => element.any test
    | struct members => anyOf test members
    | entry key value => key.any test || value.any test
    | _ => false

/-- Some type in one of the trees satisfies a test. -/
def anyOf (test : Node → Bool) : List Node → Bool
  | [] => false
  | node :: rest => node.any test || anyOf test rest

end

def hasStray (node : Node) : Bool := node.any isStray

/-- Some leaf of the tree is the variant type. -/
def hasVariant (node : Node) : Bool := node.any isVariant

/-! ### The written form -/

mutual

/-- The signature of a type: its codes from left to right. -/
def signature : Node → String
  | basic code => code
  | array element => "a" ++ element.signature
  | struct members => "(" ++ signatures members ++ ")"
  | entry key value => "\x7b" ++ (key.signature ++ value.signature) ++ "\x7d"
  | variant => "v"
  | stray _ => ""

/-- The signatures of several types, one after the other. -/
def signatures : List Node → String
  | [] => ""
  | node :: rest => node.signature ++ signatures rest

end

/-- How a leaf that is not expected is shown in a message. -/
def shown : Node → String
  | stray none => "None"
  | stray (some text) => Text.quoted text
  | variant => "VariantType()"
  | node => node.signature

end Node

end DBusMarshal
