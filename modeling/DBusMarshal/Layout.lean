import DBusMarshal.Generation
import DBusMarshal.Value

/-!
Laying a natural value out as the inputs that generated code expects.

A basic value is one input. An array becomes one column for every input of its element, with a null
at the end unless the length is an input of its own. A struct becomes a dictionary from field names
to the inputs of its members.
-/

set_option autoImplicit false

namespace DBusMarshal

abbrev Layout := List (VarName × Value)

/-- The inputs of the code that is generated for a type under a name. -/
def Node.inputNames (node : Node) (name : VarName) : Except Fault (List VarName) :=
  match node.marshal {} (.text "iter") (.name name) (some "") true {} with
  | .ok _ scope => .ok (scope.inputs.map TypedVar.name)
  | .error fault _ => .error fault

/-- The elements that an array is given: the entries of a dictionary where the element type is a
dict entry, and the members of a value elsewhere. -/
def Node.rows (element : Node) (value : Value) : Except Fault (List Value) :=
  if element.isEntry then value.entries else value.members

/-- The column of an array input, read from the layouts of the elements. -/
def Layout.column (bound : List Layout) (source : VarName) : Except Fault (List Value) :=
  bound.mapM fun layout => found (layout.lookup source)

/-- The columns of an array, one for every input. -/
def Layout.columns (element : Node) (name : VarName) (bound : List Layout) :
    List VarName → Except Fault Layout
  | [] => return []
  | input :: rest => do
    let entry ←
      if element.isFixed ∧ input = name.child .len then pure (Value.int bound.length)
      else do
        let column ← Layout.column bound (← input.rebase name (name.child .element))
        pure (Value.list (if element.isFixed then column else column ++ [.null]))
    return (input, entry) :: (← Layout.columns element name bound rest)

/-- Enter the inputs of a member under the names of their fields. -/
def Layout.fields (aggregate : VarName) :
    Layout → List (Value × Value) → Except Fault (List (Value × Value))
  | [], fields => return fields
  | (input, value) :: rest, fields => do
    let field ← input.fieldOf aggregate
    Layout.fields aggregate rest (Value.insert (.text field) value fields)

/-- The fault of giving a struct the wrong number of members. -/
def Node.memberMismatch (node : Node) (given : Nat) : Fault :=
  match node.signature? with
  | .ok signature => .memberCount node.children.length signature given
  | .error fault => fault

/-- The members that a struct or dict entry is given, one for every type in it. -/
def Node.membersOf (node : Node) (value : Value) : Except Fault (List Value) := do
  let values ← value.members
  if values.length ≠ node.children.length then throw (node.memberMismatch values.length)
  return values

/-- No member is missing and none is left over. -/
theorem Node.length_of_membersOf {node : Node} {value : Value} {values : List Value}
    (given : node.membersOf value = .ok values) : values.length = node.children.length := by
  unfold membersOf at given
  cases read : value.members with
  | error fault =>
    rw [read] at given
    cases given
  | ok found =>
    rw [read] at given
    by_cases same : found.length = node.children.length
    · change (if found.length ≠ node.children.length then _ else _) = _ at given
      rw [if_neg (not_not_intro same)] at given
      cases given
      exact same
    · change (if found.length ≠ node.children.length then _ else _) = _ at given
      rw [if_pos same] at given
      cases given

mutual

/-- Lay out a value of a type under a name. -/
def Node.layout (node : Node) (name : VarName) (value : Value) : Except Fault Layout :=
  match node with
  | .basic _ => .ok [(name, value)]
  | .array element => do
    let rows ← element.rows value
    let bound ← rows.mapM fun row => element.layout (name.child .element) row
    Layout.columns element name bound (← (Node.array element).inputNames name)
  | .struct members => do
    let values ← (Node.struct members).membersOf value
    let fields ← Node.layoutAll members name 0 values []
    return [(name, .dict fields)]
  | .entry key content => do
    match ← value.members with
    | [first, second] =>
      let fields ← Layout.fields name (← key.layout (name.child (.item 0)) first) []
      let fields ← Layout.fields name (← content.layout (name.child (.item 1)) second) fields
      return [(name, .dict fields)]
    | values => throw ((Node.entry key content).memberMismatch values.length)
  | .variant => .error (.breach (.unexpectedNode Node.variant.shown))
  | .stray text => .error (.breach (.unexpectedNode (Node.stray text).shown))

/-- Lay out the members of a struct, numbered from `position` on, and enter them as fields. -/
def Node.layoutAll (members : List Node) (name : VarName) (position : Nat) (values : List Value)
    (fields : List (Value × Value)) : Except Fault (List (Value × Value)) :=
  match members, values with
  | member :: rest, value :: others => do
    let fields ← Layout.fields name (← member.layout (name.child (.item position)) value) fields
    Node.layoutAll rest name (position + 1) others fields
  | _, _ => return fields

end

/-- Lay out a value under a name that a caller gives. Nothing can be laid out without a name, but a
type that has no values and a struct with the wrong number of members are refused before that. -/
def Node.layoutUnder (node : Node) (name : GivenName) (value : Value) : Except Fault Layout :=
  match name with
  | .text base => node.layout { base } value
  | .name given => node.layout given value
  | .absent =>
    match node with
    | .basic _ => .error .noSuchPart
    | .array _ => .error .noSuchPart
    | .variant => .error (.breach (.unexpectedNode Node.variant.shown))
    | .stray text => .error (.breach (.unexpectedNode (Node.stray text).shown))
    | node => do
      let _ ← node.membersOf value
      throw .noSuchPart

end DBusMarshal
