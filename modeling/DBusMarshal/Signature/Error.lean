import DBusMarshal.Text.Quoted

/-!
What can be wrong with a signature, and where.
-/

set_option autoImplicit false

namespace DBusMarshal

inductive SignatureFault where
  | tooLong
  | arrayTooDeep
  | structTooDeep
  | structEmpty
  | structOpen
  | entryOutsideArray
  | entryIncomplete
  | entryKeyNotBasic
  | entryOpen
  | entryOverfull
  | unexpectedEnd
  | unexpectedBracket (bracket : Char)
  | unknownCode (code : Char)
  | notSingle (count : Nat)
deriving DecidableEq, Repr

def maxSignatureLength : Nat := 255

/-- The most arrays that may stand one inside the other. -/
def maxArrayDepth : Nat := 32

/-- The most structs and dict entries that may stand one inside the other. -/
def maxStructDepth : Nat := 32

def SignatureFault.message : SignatureFault → String
  | tooLong => "signature longer than " ++ toString maxSignatureLength ++ " characters"
  | arrayTooDeep => "array nesting too deep"
  | structTooDeep => "structure nesting too deep"
  | structEmpty => "empty structure"
  | structOpen => "unterminated structure"
  | entryOutsideArray => "dict entry outside of an array"
  | entryIncomplete => "dict entry must have a key and a value"
  | entryKeyNotBasic => "dict entry key must be a basic type"
  | entryOpen => "unterminated dict entry"
  | entryOverfull => "dict entry must have exactly two members"
  | unexpectedEnd => "unexpected end of signature"
  | unexpectedBracket bracket => "unexpected " ++ Text.quoted (.singleton bracket)
  | unknownCode code => "unknown type code " ++ Text.quoted (.singleton code)
  | notSingle count => "expected a single complete type, got " ++ toString count

/-- A fault and the index of the character that it is found at. -/
structure SignatureError where
  fault : SignatureFault
  index : Nat
deriving DecidableEq, Repr

end DBusMarshal
