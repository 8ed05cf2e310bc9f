import DBusMarshal.CType
import DBusMarshal.Fault
import DBusMarshal.Signature.Node

/-!
The C type and the D-Bus constant of every type.

A basic type has both in a table. An array is a pointer to its element's type, a struct or dict
entry a pointer to a named C struct. The name of the C struct is chosen by the caller or spelt
after the signature.
-/

set_option autoImplicit false

namespace DBusMarshal

/-! ### Choices of the caller -/

/-- What the caller may choose about the generated code. -/
structure Options where
  /-- The front of the name of every C struct. -/
  structStem : String := "dbus_struct"
  /-- The names of C structs that are not spelt after their signature. -/
  structNames : List (String × String) := []
  /-- One step of indentation. -/
  indentStep : String := "\t"
deriving DecidableEq, Repr

/-- The choices in force when the caller makes none; a stem may be set from outside, where an empty
one counts as none. -/
def Options.standard (stem : Option String) : Options :=
  match stem with
  | some text => if text = "" then {} else { structStem := text }
  | none => {}

/-! ### Tables of the basic types -/

def basicCType : String → Option String
  | "y" => some "uint8_t"
  | "b" => some "int"
  | "n" => some "int16_t"
  | "q" => some "uint16_t"
  | "i" => some "int32_t"
  | "u" => some "uint32_t"
  | "x" => some "int64_t"
  | "t" => some "uint64_t"
  | "d" => some "double"
  | "h" => some "int"
  | "s" => some "char *"
  | "o" => some "char *"
  | "g" => some "char *"
  | _ => none

def basicConst : String → Option String
  | "y" => some "DBUS_TYPE_BYTE"
  | "b" => some "DBUS_TYPE_BOOLEAN"
  | "n" => some "DBUS_TYPE_INT16"
  | "q" => some "DBUS_TYPE_UINT16"
  | "i" => some "DBUS_TYPE_INT32"
  | "u" => some "DBUS_TYPE_UINT32"
  | "x" => some "DBUS_TYPE_INT64"
  | "t" => some "DBUS_TYPE_UINT64"
  | "d" => some "DBUS_TYPE_DOUBLE"
  | "h" => some "DBUS_TYPE_UNIX_FD"
  | "s" => some "DBUS_TYPE_STRING"
  | "o" => some "DBUS_TYPE_OBJECT_PATH"
  | "g" => some "DBUS_TYPE_SIGNATURE"
  | _ => none

/-- The entry of a table, or the fault of looking up what is not there. -/
def found {α : Type} : Option α → Except Fault α
  | some entry => .ok entry
  | none => .error .missingKey

namespace Node

/-- The signature of a type whose leaves are all types. -/
def signature? (node : Node) : Except Fault String :=
  if node.hasStray then .error .noSuchPart else .ok node.signature

def typeConst : Node → Except Fault String
  | basic code => found (basicConst code)
  | array _ => .ok "DBUS_TYPE_ARRAY"
  | struct _ => .ok "DBUS_TYPE_STRUCT"
  | entry _ _ => .ok "DBUS_TYPE_DICT_ENTRY"
  | variant => .ok "DBUS_TYPE_VARIANT"
  | stray text => .error (.breach (.unexpectedNode (stray text).shown))

end Node

/-! ### C structs -/

namespace Options

/-- How a bracket of a signature is spelt in an identifier. -/
def mangleChar : Char → Char
  | '(' => 'r'
  | ')' => '_'
  | '{' => 'e'
  | '}' => '_'
  | c => c

/-- What stands between the outer brackets of a signature, spelt as part of an identifier. -/
def mangle (signature : String) : String :=
  .ofList ((signature.toList.drop 1).dropLast.map mangleChar)

/-- The name that the caller chose for a signature; an empty name is none. -/
def chosenName (options : Options) (signature : String) : Option String :=
  (options.structNames.lookup signature).filter (· ≠ "")

/-- The name of the C struct of a struct or dict entry. -/
def structName (options : Options) (node : Node) : Except Fault String := do
  let signature ← node.signature?
  match options.chosenName signature with
  | some name => return name
  | none =>
    let joint := if node.isEntry then "_entry_" else "_"
    return options.structStem ++ joint ++ mangle signature

def typeOf (options : Options) : Node → Except Fault String
  | .basic code => found (basicCType code)
  | .array element => (options.typeOf element).map CType.toPointer
  | .variant => .error (.noCType Node.variant.signature)
  | .stray _ => .error .noSuchPart
  | node => (options.structName node).map fun name => CType.toPointer ("struct " ++ name)

end Options

end DBusMarshal
