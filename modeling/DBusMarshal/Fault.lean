import DBusMarshal.Signature.Error

/-!
What can go wrong, from reading a signature to running a generated fragment.

A `Breach` is a demand of an operation that its caller did not meet. A `Fault` is a breach, a
signature that cannot be read or marshalled, the recovery code of a fragment being reached, or a
value of the wrong shape.
-/

set_option autoImplicit false

namespace DBusMarshal

/-- A demand that the caller of an operation did not meet. -/
inductive Breach where
  | missingNode
  | missingNames
  | missingRecovery
  | missingLists
  | unexpectedNode (shown : String)
  | unexpectedStatement (shown : String)
  | notDerived (name origin : String)
  | aggregateItself (name : String)
  | alreadyOwned (name : String)
  | duplicateName (name : String)
  | notOwned (name : String)
  | appendToClosed
  | openInsideClosed
  | closedTwice
  | neverClosed (typeConst : Option String)
deriving DecidableEq, Repr

def Breach.message : Breach → String
  | missingNode => "missing signature node"
  | missingNames => "iterator and variable names are required"
  | missingRecovery => "out-of-memory error code is required"
  | missingLists => "input and local lists are required"
  | unexpectedNode shown => "unexpected signature node: " ++ shown
  | unexpectedStatement shown => "unexpected statement: " ++ shown
  | notDerived name origin => name ++ " is not derived from " ++ origin
  | aggregateItself name => name ++ " is the aggregate itself"
  | alreadyOwned name => name ++ " is already owned by another list"
  | duplicateName name => "duplicate variable name " ++ name
  | notOwned name => name ++ " is not owned by this list"
  | appendToClosed => "append to a closed container"
  | openInsideClosed => "open inside a closed container"
  | closedTwice => "container closed twice"
  | neverClosed typeConst => "container " ++ typeConst.getD "None" ++ " was never closed"

inductive Fault where
  /-- A text is no signature. -/
  | signature (error : SignatureError)
  /-- A type with this signature holds a variant and cannot be marshalled. -/
  | variantValue (signature : String)
  /-- A type with this signature has no C type. -/
  | noCType (signature : String)
  | breach (breach : Breach)
  /-- The recovery code of a fragment is reached. -/
  | recovered (code : String)
  /-- A struct of some signature is given the wrong number of members. -/
  | memberCount (expected : Nat) (signature : String) (given : Nat)
  /-- A dictionary is given something else than a key and a value. -/
  | notPair
  /-- A name, a key or a code is looked up where it is not. -/
  | missingKey
  /-- An index lies outside of a sequence. -/
  | outOfRange
  /-- A value is of a kind that the operation does not take. -/
  | illTyped
  /-- A part is read of a thing that has no such part. -/
  | noSuchPart
  /-- A container that holds itself has no finite form. -/
  | endless
  /-- A loop goes round more often than the run allows. -/
  | unfinished
  /-- A path holds a null character. -/
  | nullInPath
deriving DecidableEq, Repr

/-- The wording of a fault, where it has one. -/
def Fault.message : Fault → Option String
  | signature error => error.fault.message
  | variantValue written => "variant values cannot be marshalled: " ++ Text.quoted written
  | noCType written => "no C type for signature " ++ Text.quoted written
  | breach demand => demand.message
  | recovered code => code
  | memberCount expected written given =>
    "expected " ++ toString expected ++ " members for " ++ written ++ ", got " ++ toString given
  | _ => none

end DBusMarshal
