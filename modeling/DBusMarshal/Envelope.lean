import DBusMarshal.Generation
import DBusMarshal.MessagePack.Reader
import DBusMarshal.MessagePack.Writer

/-!
The envelope in which a generated fragment is handed on.

An envelope is a MessagePack map with a version, the signature, the C text, and the declared inputs
and locals. It is written with its fields in a fixed order and read with them in any order; other
fields are ignored.
-/

set_option autoImplicit false

namespace DBusMarshal

open MessagePack (Object)

/-- The content of an envelope. A variable is its C type and the text of its name. -/
structure Envelope where
  signature : String
  code : String
  inputs : List (String × String)
  locals : List (String × String)
deriving DecidableEq, Repr

inductive EnvelopeFault where
  /-- The bytes are not one MessagePack object. -/
  | malformed
  /-- The object is no map with the fields of an envelope. -/
  | notEnvelope
  | version (shown : String)
  | notList (what : String)
  | notPair (what shown : String)
  /-- The object at fault is too deep to be shown. -/
  | tooDeep
deriving DecidableEq, Repr

/-- The wording of a fault that an envelope itself has. -/
def EnvelopeFault.message : EnvelopeFault → Option String
  | malformed => none
  | notEnvelope => "invalid result envelope"
  | version shown => "unsupported envelope version: " ++ shown
  | notList what => "invalid " ++ what ++ " list"
  | notPair what shown => "invalid " ++ what ++ " entry: " ++ shown
  | tooDeep => none

/-- How deep an object may be that a message shows. This is the one place where the recursion limit
of the interpreter counts; reading a message back and running a fragment go as deep as they have
to. -/
def maxShownDepth : Nat := 992

def EnvelopeFault.showing (fault : String → EnvelopeFault) (object : Object) : EnvelopeFault :=
  if maxShownDepth < object.depth then tooDeep else fault object.shown

namespace Envelope

/-- The version of the envelopes that are written and read. -/
def currentVersion : Nat := 0

/-! ### Writing -/

def pairOf (entry : TypedVar) : String × String := (entry.type, entry.name.text)

def ofGenerated (generated : Generated) : Except Fault Envelope := do
  return { signature := generated.signature
           code := ← generated.code
           inputs := generated.inputs.map pairOf
           locals := generated.locals.map pairOf }

/-- All texts of an envelope. -/
def texts (envelope : Envelope) : List String :=
  envelope.signature :: envelope.code ::
    (envelope.inputs ++ envelope.locals).flatMap fun pair => [pair.1, pair.2]

/-- A list of variables: an array of arrays of two texts. -/
def writePairs (pairs : List (String × String)) : List UInt8 :=
  MessagePack.writeArray (pairs.map fun pair =>
    MessagePack.writeArray [MessagePack.writeText pair.1, MessagePack.writeText pair.2])

def encode (envelope : Envelope) : List UInt8 :=
  MessagePack.writeMap [
    ("v", MessagePack.writeSmall currentVersion),
    ("signature", MessagePack.writeText envelope.signature),
    ("code", MessagePack.writeText envelope.code),
    ("inputs", writePairs envelope.inputs),
    ("locals", writePairs envelope.locals)]

/-! ### Reading -/

/-- An object is a number equal to the current version. -/
def isCurrent : Object → Bool
  | .bool truth => truth.toInt = currentVersion
  | .int number => number = currentVersion
  | .float number => number.exact.equals (.ofInt currentVersion)
  | _ => false

def readPair (what : String) : Object → Except EnvelopeFault (String × String)
  | .array [.text type, .text name] => .ok (type, name)
  | object => .error (.showing (.notPair what) object)

def readPairs (what : String) : Option Object → Except EnvelopeFault (List (String × String))
  | some (.array items) => items.mapM (readPair what)
  | _ => .error (.notList what)

/-- The version of a map has to be the current one; a missing one counts as nil. -/
def checkVersion (version : Option Object) : Except EnvelopeFault Unit :=
  let given := version.getD .nil
  if isCurrent given then .ok () else .error (.showing .version given)

/-- The envelope that the entries of a map are. -/
def ofEntries (entries : List (MessagePack.Key × Object)) : Except EnvelopeFault Envelope := do
  match MessagePack.field "code" entries with
  | none => throw .notEnvelope
  | some code =>
    checkVersion (MessagePack.field "v" entries)
    match code, MessagePack.field "signature" entries with
    | .text code, some (.text signature) =>
      let inputs ← readPairs "inputs" (MessagePack.field "inputs" entries)
      let locals ← readPairs "locals" (MessagePack.field "locals" entries)
      return { signature, code, inputs, locals }
    | _, _ => throw .notEnvelope

def decode (bytes : List UInt8) : Except EnvelopeFault Envelope :=
  match Object.ofBytes? bytes with
  | none => .error .malformed
  | some (.map entries) => ofEntries entries
  | some _ => .error .notEnvelope

end Envelope

end DBusMarshal
