import DBusMarshal.Proofs.Code
import DBusMarshal.Proofs.Message
import DBusMarshal.Wire

/-!
Natural values of a type, and the messages that they are sent as.

A value conforms to a type when it has the shape of the type: numbers and texts at basic types,
lists at arrays, dictionaries with distinct keys at arrays of dict entries, tuples at structs. What
is read back from the message of a conforming value is the value itself.
-/

set_option autoImplicit false

namespace DBusMarshal

namespace Value

/-- The parts of a value: the items of a list or tuple, and the entries of a dictionary as pairs. -/
def parts : Value → List Value
  | list items => items
  | tuple items => items
  | dict entries => entries.map fun entry => tuple [entry.1, entry.2]
  | _ => []

def isNumber : Value → Bool
  | bool _ => true
  | int _ => true
  | float number => !number.isNaN
  | _ => false

def isText : Value → Bool
  | text _ => true
  | _ => false

def isTuple : Value → Bool
  | tuple _ => true
  | _ => false

/-- No key of a dictionary is the same as a later one. -/
def distinctKeys : List (Value × Value) → Bool
  | [] => true
  | (key, _) :: rest => (rest.all fun other => !key.sameKey other.1) && distinctKeys rest

/-- The value may be given for an array: a dictionary where the elements are dict entries, and a
list elsewhere. -/
def isRows (entries : Bool) : Value → Bool
  | list _ => !entries
  | dict pairs => entries && distinctKeys pairs
  | _ => false

end Value

namespace Node

mutual

/-- The value has the shape of the type. -/
def accepts (node : Node) (value : Value) : Bool :=
  match node with
  | basic code => if fixedCodes.contains code then value.isNumber else value.isText
  | array element => value.isRows element.isEntry && value.parts.all fun row => element.accepts row
  | struct members => value.isTuple && acceptsAll members value.parts
  | entry key content =>
    value.isTuple &&
      match value.parts with
      | [first, second] => key.accepts first && content.accepts second
      | _ => false
  | _ => false

def acceptsAll (members : List Node) (values : List Value) : Bool :=
  match members, values with
  | [], [] => true
  | member :: rest, value :: others => member.accepts value && acceptsAll rest others
  | _, _ => false

end

/-- The D-Bus constant for the values of every basic type. -/
def leafConstant : String → String
  | "y" => "DBUS_TYPE_BYTE"
  | "b" => "DBUS_TYPE_BOOLEAN"
  | "n" => "DBUS_TYPE_INT16"
  | "q" => "DBUS_TYPE_UINT16"
  | "i" => "DBUS_TYPE_INT32"
  | "u" => "DBUS_TYPE_UINT32"
  | "x" => "DBUS_TYPE_INT64"
  | "t" => "DBUS_TYPE_UINT64"
  | "d" => "DBUS_TYPE_DOUBLE"
  | "h" => "DBUS_TYPE_UNIX_FD"
  | "s" => "DBUS_TYPE_STRING"
  | "o" => "DBUS_TYPE_OBJECT_PATH"
  | "g" => "DBUS_TYPE_SIGNATURE"
  | _ => ""

mutual

/-- The message that a value of a type is sent as: the constants of its leaves and containers are
those of D-Bus, whatever the generator looks up. -/
def message (node : Node) (value : Value) : Message :=
  match node with
  | basic code => .leaf (leafConstant code) value
  | array element =>
    .container "DBUS_TYPE_ARRAY" (some element.signature)
      (value.parts.map fun row => element.message row)
  | struct members => .container "DBUS_TYPE_STRUCT" none (messageAll members value.parts)
  | entry key content =>
    .container "DBUS_TYPE_DICT_ENTRY" none
      (match value.parts with
      | [first, second] => [key.message first, content.message second]
      | _ => [])
  | _ => .container "" none []

def messageAll (members : List Node) (values : List Value) : List Message :=
  match members, values with
  | member :: rest, value :: others => member.message value :: messageAll rest others
  | _, _ => []

end

mutual

/-- The number of elements of the longest array in a value. -/
def longest (node : Node) (value : Value) : Nat :=
  match node with
  | array element =>
    value.parts.foldr (fun row most => max (element.longest row) most) value.parts.length
  | struct members => longestAll members value.parts
  | entry key content =>
    match value.parts with
    | [first, second] => max (key.longest first) (content.longest second)
    | _ => 0
  | _ => 0

def longestAll (members : List Node) (values : List Value) : Nat :=
  match members, values with
  | member :: rest, value :: others => max (member.longest value) (longestAll rest others)
  | _, _ => 0

end

/-- The constant in the generated code is the one of D-Bus. -/
theorem constant_basic {code : String} (known : code ∈ basicCodes) :
    (basic code).constant = leafConstant code := by
  have table : ∀ code ∈ basicCodes, (basic code).constant = leafConstant code := by
    decide +kernel
  exact table code known

/-! ### Structs and dict entries at once -/

theorem accepts_of_isGroup {node : Node} (group : node.isGroup = true) (value : Value) :
    node.accepts value = (value.isTuple && acceptsAll node.children value.parts) := by
  cases node with
  | struct members => rfl
  | entry key content =>
      rw [accepts, children]
      rcases value.parts with _ | ⟨first, _ | ⟨second, _ | ⟨third, rest⟩⟩⟩ <;>
        simp [acceptsAll]
  | _ => cases group

theorem length_of_acceptsAll {members : List Node} {values : List Value}
    (accepted : acceptsAll members values = true) : members.length = values.length := by
  induction members generalizing values with
  | nil =>
      cases values with
      | nil => rfl
      | cons value others => cases accepted
  | cons member rest ih =>
      cases values with
      | nil => cases accepted
      | cons value others =>
          rw [acceptsAll, Bool.and_eq_true] at accepted
          rw [List.length_cons, List.length_cons, ih accepted.2]

theorem message_of_isGroup {node : Node} (group : node.isGroup = true) {value : Value}
    (accepted : node.accepts value = true) :
    node.message value = .container node.constant none (messageAll node.children value.parts) := by
  cases node with
  | struct members => rfl
  | entry key content =>
      rw [accepts_of_isGroup group, Bool.and_eq_true] at accepted
      have two := length_of_acceptsAll accepted.2
      rw [message]
      generalize value.parts = given at two ⊢
      rcases given with _ | ⟨first, _ | ⟨second, _ | ⟨third, rest⟩⟩⟩
      · cases two
      · cases two
      · rfl
      · cases two
  | _ => cases group

theorem longest_of_isGroup {node : Node} (group : node.isGroup = true) {value : Value}
    (accepted : node.accepts value = true) :
    node.longest value = longestAll node.children value.parts := by
  cases node with
  | struct members => rfl
  | entry key content =>
      rw [accepts_of_isGroup group, Bool.and_eq_true] at accepted
      have two := length_of_acceptsAll accepted.2
      rw [longest]
      generalize value.parts = given at two ⊢
      rcases given with _ | ⟨first, _ | ⟨second, _ | ⟨third, rest⟩⟩⟩
      · cases two
      · cases two
      · simp [children, longestAll]
      · cases two
  | _ => cases group

end Node

theorem Value.eq_tuple_of_isTuple {value : Value} (isTuple : value.isTuple = true) :
    value = .tuple value.parts := by
  cases value with
  | tuple items => rfl
  | _ => cases isTuple

/-! ### Reading back -/

namespace Node

theorem plainAll_map {element : Node} (rows : List Value) :
    Message.plainAll (rows.map fun row => element.message row) =
      rows.map fun row => (element.message row).plain := by
  rw [Message.plainAll_eq, List.map_map]
  rfl

theorem isKey_of_accepts_basic {code : String} {key : Value}
    (accepted : (basic code).accepts key = true) : key.isKey = true := by
  rw [accepts] at accepted
  cases key with
  | list items => split at accepted <;> cases accepted
  | dict entries => split at accepted <;> cases accepted
  | tuple items => split at accepted <;> cases accepted
  | _ => rfl

theorem insert_of_new {key value : Value} {entries : List (Value × Value)}
    (new : ∀ entry ∈ entries, entry.1.sameKey key = false) :
    Value.insert key value entries = entries ++ [(key, value)] := by
  induction entries with
  | nil => rfl
  | cons entry rest ih =>
      obtain ⟨other, old⟩ := entry
      have different := new (other, old) List.mem_cons_self
      rw [Value.insert, if_neg (by simp [different]),
        ih (fun entry listed => new entry (List.mem_cons_of_mem _ listed))]
      rfl

theorem ofEntries_of_distinct {code : String} {content : Node} {read : Value → Except Fault Value}
    (sent : Value → Value) (pairs : List (Value × Value)) {before : List (Value × Value)}
    (each : ∀ pair ∈ pairs, read (sent (.tuple [pair.1, pair.2])) = .ok (.tuple [pair.1, pair.2]))
    (keys : ∀ pair ∈ pairs,
      (entry (basic code) content).accepts (.tuple [pair.1, pair.2]) = true)
    (distinct : Value.distinctKeys pairs = true)
    (new : ∀ earlier ∈ before, ∀ pair ∈ pairs, earlier.1.sameKey pair.1 = false) :
    Value.ofEntries read (pairs.map fun pair => sent (.tuple [pair.1, pair.2])) before =
      .ok (before ++ pairs) := by
  induction pairs generalizing before with
  | nil =>
      rw [List.append_nil]
      rfl
  | cons pair rest ih =>
      obtain ⟨key, value⟩ := pair
      simp only [Value.distinctKeys, Bool.and_eq_true, List.all_eq_true,
        Bool.not_eq_true'] at distinct
      have accepted := keys (key, value) List.mem_cons_self
      rw [accepts_of_isGroup rfl] at accepted
      simp only [children, Value.parts, acceptsAll, Bool.and_eq_true] at accepted
      have inserted : Value.insert? before key value = .ok (before ++ [(key, value)]) := by
        rw [Value.insert?, if_pos (isKey_of_accepts_basic accepted.2.1),
          insert_of_new (fun earlier listed => new earlier listed (key, value) List.mem_cons_self)]
      have newLater : ∀ earlier ∈ before ++ [(key, value)], ∀ pair ∈ rest,
          earlier.1.sameKey pair.1 = false := by
        intro earlier listed pair inRest
        rcases List.mem_append.1 listed with old | last
        · exact new earlier old pair (List.mem_cons_of_mem _ inRest)
        · rw [List.mem_singleton.1 last]
          exact distinct.1 pair inRest
      have later := ih (fun pair listed => each pair (List.mem_cons_of_mem _ listed))
        (fun pair listed => keys pair (List.mem_cons_of_mem _ listed)) distinct.2 newLater
      rw [List.map_cons, Value.ofEntries, each (key, value) List.mem_cons_self]
      change (Value.insert? before key value >>= fun entries =>
        Value.ofEntries read (rest.map fun pair => sent (.tuple [pair.1, pair.2])) entries) = _
      rw [inserted]
      change Value.ofEntries read _ (before ++ [(key, value)]) = _
      rw [later, List.append_assoc]
      rfl

theorem fromWireAll_messageAll {members : List Node} {values : List Value}
    (ih : ∀ member ∈ members, ∀ value : Value, member.accepts value = true →
      member.fromWire (member.message value).plain = .ok value)
    (accepted : acceptsAll members values = true) :
    fromWireAll members (Message.plainAll (messageAll members values)) = .ok values := by
  induction members generalizing values with
  | nil =>
      cases values with
      | nil => rfl
      | cons value others => cases accepted
  | cons member rest ihRest =>
      cases values with
      | nil => cases accepted
      | cons value others =>
          rw [acceptsAll, Bool.and_eq_true] at accepted
          have first := ih member List.mem_cons_self value accepted.1
          have later := ihRest (fun other listed => ih other (List.mem_cons_of_mem _ listed))
            accepted.2
          rw [messageAll, Message.plainAll, fromWireAll, first]
          change (fromWireAll rest (Message.plainAll (messageAll rest others)) >>= fun more =>
            pure (value :: more)) = _
          rw [later]
          rfl

theorem fromWire_array_list {element : Node} {items : List Value}
    (notEntry : element.isEntry = false)
    (each : ∀ row ∈ items, element.fromWire (element.message row).plain = .ok row) :
    (array element).fromWire ((array element).message (.list items)).plain = .ok (.list items) := by
  have read : (items.map fun row => (element.message row).plain).mapM element.fromWire =
      .ok items := by
    rw [List.mapM_map]
    have rows := mapM_of_ok (fun row : Value => row) each
    rw [List.map_id'] at rows
    exact rows
  rw [message, Message.plain, plainAll_map, fromWire]
  change (if element.isEntry = true then _ else
    ((items.map fun row => (element.message row).plain).mapM element.fromWire >>= fun rows =>
      pure (Value.list rows))) = _
  rw [notEntry, if_neg Bool.false_ne_true, read]
  rfl

theorem fromWire_array_dict {code : String} {content : Node} {pairs : List (Value × Value)}
    (distinct : Value.distinctKeys pairs = true)
    (accepted : ∀ pair ∈ pairs,
      (entry (basic code) content).accepts (.tuple [pair.1, pair.2]) = true)
    (each : ∀ pair ∈ pairs, (entry (basic code) content).fromWire
      ((entry (basic code) content).message (.tuple [pair.1, pair.2])).plain =
        .ok (.tuple [pair.1, pair.2])) :
    (array (entry (basic code) content)).fromWire
      ((array (entry (basic code) content)).message (.dict pairs)).plain = .ok (.dict pairs) := by
  have nothing : ∀ earlier ∈ ([] : List (Value × Value)), ∀ pair ∈ pairs,
      earlier.1.sameKey pair.1 = false := by
    intro earlier impossible
    cases impossible
  have read := ofEntries_of_distinct (fun row => ((entry (basic code) content).message row).plain)
    pairs each accepted distinct nothing
  rw [message, Message.plain, plainAll_map, fromWire, Value.parts, List.map_map]
  change (Value.ofEntries (entry (basic code) content).fromWire (pairs.map fun pair =>
    ((entry (basic code) content).message (.tuple [pair.1, pair.2])).plain) [] >>= fun entries =>
      pure (Value.dict entries)) = _
  rw [read]
  rfl

/-- What is read back from the message of a conforming value is the value. -/
theorem Marshallable.fromWire_message {node : Node} (marshallable : node.Marshallable)
    {value : Value} (accepted : node.accepts value = true) :
    node.fromWire (node.message value).plain = .ok value := by
  induction marshallable generalizing value with
  | basic known => rfl
  | @array element inside ih =>
      rw [accepts, Bool.and_eq_true, List.all_eq_true] at accepted
      obtain ⟨isRows, rowsAccepted⟩ := accepted
      cases value with
      | list items =>
          rw [Value.isRows, Bool.not_eq_true'] at isRows
          exact fromWire_array_list isRows (fun row listed => ih (rowsAccepted row listed))
      | dict pairs =>
          rw [Value.isRows, Bool.and_eq_true] at isRows
          have eachAccepted : ∀ pair ∈ pairs, element.accepts (.tuple [pair.1, pair.2]) = true :=
            fun pair listed => rowsAccepted _ (List.mem_map_of_mem listed)
          cases inside with
          | entry known content =>
              exact fromWire_array_dict isRows.2 eachAccepted
                (fun pair listed => ih (eachAccepted pair listed))
          | _ => cases isRows.1
      | _ => cases isRows
  | @struct members inside ih =>
      rw [accepts, Bool.and_eq_true] at accepted
      rw [Value.eq_tuple_of_isTuple accepted.1]
      have read := fromWireAll_messageAll (fun member listed value => ih member listed) accepted.2
      rw [message, Message.plain, fromWire]
      change (fromWireAll members (Message.plainAll (messageAll members value.parts)) >>=
        fun items => pure (Value.tuple items)) = _
      rw [read]
      rfl
  | @entry code content known inside ih =>
      rw [accepts_of_isGroup rfl, Bool.and_eq_true] at accepted
      rw [Value.eq_tuple_of_isTuple accepted.1]
      have two := length_of_acceptsAll accepted.2
      have both := accepted.2
      generalize value.parts = given at two both
      rcases given with _ | ⟨first, _ | ⟨second, _ | ⟨third, rest⟩⟩⟩
      · cases two
      · cases two
      · simp only [children, acceptsAll, Bool.and_eq_true] at both
        have later := ih both.2.1
        change ((Node.basic code).fromWire first >>= fun key =>
          content.fromWire (content.message second).plain >>= fun held =>
            pure (Value.tuple [key, held])) = _
        rw [later]
        rfl
      · cases two

end Node

end DBusMarshal
