import DBusMarshal.Signature.Node
import DBusMarshal.Value

/-!
Reading a natural value back from a message.

In a message every container is a list. A struct is read back as a tuple, and an array of dict
entries as a dictionary.
-/

set_option autoImplicit false

namespace DBusMarshal

/-- A dictionary of what the entries of an array were read back as, each of which has to be a key
and a value. -/
def Value.ofEntries (read : Value → Except Fault Value) :
    List Value → List (Value × Value) → Except Fault (List (Value × Value))
  | [], entries => return entries
  | item :: rest, entries => do
    match ← read item with
    | .tuple [key, value] => Value.ofEntries read rest (← Value.insert? entries key value)
    | _ => throw .notPair

mutual

/-- Read a value of a type back from a message. -/
def Node.fromWire (node : Node) (value : Value) : Except Fault Value :=
  match node with
  | .basic _ => .ok value
  | .array element => do
    let items ← value.members
    if element.isEntry then
      return .dict (← Value.ofEntries element.fromWire items [])
    else return .list (← items.mapM element.fromWire)
  | .struct members => do return .tuple (← Node.fromWireAll members (← value.members))
  | .entry key content => do
    match ← value.members with
    | [] => return .tuple []
    | [first] => return .tuple [← key.fromWire first]
    | first :: second :: _ => return .tuple [← key.fromWire first, ← content.fromWire second]
  | .variant => .error (.breach (.unexpectedNode Node.variant.shown))
  | .stray text => .error (.breach (.unexpectedNode (Node.stray text).shown))

/-- Read members back one by one, as long as there are types and values. -/
def Node.fromWireAll (members : List Node) (values : List Value) : Except Fault (List Value) :=
  match members, values with
  | member :: rest, value :: others => do
    let first ← member.fromWire value
    return first :: (← Node.fromWireAll rest others)
  | _, _ => return []

end

end DBusMarshal
