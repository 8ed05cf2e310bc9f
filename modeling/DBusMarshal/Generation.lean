import DBusMarshal.Listing
import DBusMarshal.Pool
import DBusMarshal.Signature.Reader
import DBusMarshal.TypeMap

/-!
Generating the code that marshals a value.

`Node.emit` follows the type tree. A basic value is appended. An array is opened, filled by a loop
and closed; inside the loop every input of the element is copied out of an array of such inputs, so
the inputs of the array are the inputs of its element with one more level of pointers. A struct is
opened, its members are read out of it and marshalled one after the other, and it is closed.

`Node.marshal` adds the demands on the caller, and `generate` starts from a signature.
-/

set_option autoImplicit false

namespace DBusMarshal

open Pool (change declare newLists)

/-- The C type of the iterator of a container. -/
def iterType : String := "DBusMessageIter"

/-- The C type of a length or an index. -/
def sizeType : String := "size_t"

/-! ### Arrays -/

/-- Turn the inputs of an element into inputs of the array, one level of pointers higher, and move
each of them to what the loop declares, which copies it out of its array. -/
def liftInputs (name element index : VarName) (lists own : Lists) :
    List Nat → Emit (List Statement)
  | [] => return []
  | var :: rest => do
    let input := (← get).vars var
    let array ← MonadExcept.ofExcept (input.name.rebase element name)
    declare lists.inputs ⟨CType.toConst (CType.toPointer input.type), array⟩
    change (Registry.transfer own.inputs var own.locals)
    let copies ← liftInputs name element index lists own rest
    return .assign input.name array index :: copies

/-- The code for an array, around the code for an element, which is generated onto lists of its
own. -/
def emitArray (element : Node) (recovery : String) (iter name : VarName) (lists : Lists)
    (body : VarName → VarName → Lists → Emit Fragment) : Emit Fragment := do
  let inner := name.child .iter
  let index := name.child .index
  let elementName := name.child .element
  let length := name.child .len
  declare lists.locals ⟨iterType, inner⟩
  let own ← newLists
  let code ← body inner elementName own
  let copies ← liftInputs name elementName index lists own ((← get).members own.inputs)
  let declared := (← get).listed own.locals
  if element.isFixed then declare lists.inputs ⟨sizeType, length⟩
  return [
    .comment "Marshal an array onto the message",
    .openContainer iter "DBUS_TYPE_ARRAY" element.signature inner recovery,
    .blank,
    .loop index name (if element.isFixed then some length else none)
      ((declared.map fun entry => .declare entry.type entry.name) ++ [.blank] ++ copies ++ [.blank]
        ++ code),
    .blank,
    .closeContainer iter inner recovery]

/-! ### Structs -/

/-- Read the inputs of a member out of the struct, and move each of them to the local variables. -/
def readInputs (name : VarName) (lists own : Lists) : List Nat → Emit (List Statement)
  | [] => return []
  | var :: rest => do
    let input := (← get).vars var
    let field ← MonadExcept.ofExcept (input.name.fieldOf name)
    change (Registry.transfer own.inputs var lists.locals)
    let reads ← readInputs name lists own rest
    return .readField input.name name field :: reads

/-- The code for one member of a struct, from the code for the value of the member, which is
generated onto lists of its own. -/
def emitMember (name : VarName) (lists : Lists) (body : Lists → Emit Fragment) :
    Emit Fragment := do
  let own ← newLists
  let code ← body own
  change (Registry.transferAll own.locals lists.locals)
  let reads ← readInputs name lists own ((← get).members own.inputs)
  return reads ++ [.blank] ++ code ++ [.blank]

/-- The code for a struct or dict entry, around the code for its members. -/
def emitStruct (options : Options) (node : Node) (recovery : String) (iter name : VarName)
    (lists : Lists) (members : VarName → Emit Fragment) : Emit Fragment := do
  let inner := name.child .iter
  let type ← MonadExcept.ofExcept (options.typeOf node)
  let const ← MonadExcept.ofExcept node.typeConst
  declare lists.locals ⟨iterType, inner⟩
  let code ← members inner
  declare lists.inputs ⟨CType.toConst type, name⟩
  return [
    .comment "Marshal a structure onto the message",
    .openContainer iter const none inner recovery,
    .blank] ++ code ++ [.closeContainer iter inner recovery]

/-! ### All types -/

/-- The code for a value of a basic type. -/
def emitBasic (options : Options) (node : Node) (recovery : String) (iter name : VarName)
    (lists : Lists) : Emit Fragment := do
  let type ← MonadExcept.ofExcept (options.typeOf node)
  let const ← MonadExcept.ofExcept node.typeConst
  let qualified := CType.toConst type
  declare lists.inputs ⟨qualified, name⟩
  return [.comment ("Marshal a " ++ qualified ++ " onto the message"),
    .append iter const name recovery]

mutual

/-- The code that marshals the variable `name` of a type onto the container of `iter`, with its
variables added to the two lists. -/
def Node.emit (options : Options) (recovery : String) (node : Node) (iter name : VarName)
    (lists : Lists) : Emit Fragment :=
  match node with
  | .basic code => emitBasic options (.basic code) recovery iter name lists
  | .array element =>
    emitArray element recovery iter name lists fun inner elementName own =>
      element.emit options recovery inner elementName own
  | .struct members =>
    emitStruct options (.struct members) recovery iter name lists fun inner =>
      Node.emitAll options recovery members inner name 0 lists
  | .entry key value =>
    emitStruct options (.entry key value) recovery iter name lists fun inner => do
      let first ← emitMember name lists fun own =>
        key.emit options recovery inner (name.child (.item 0)) own
      let second ← emitMember name lists fun own =>
        value.emit options recovery inner (name.child (.item 1)) own
      return first ++ second
  | .variant => throw (.breach (.unexpectedNode Node.variant.shown))
  | .stray text => throw (.breach (.unexpectedNode (Node.stray text).shown))

/-- The code for the members of a struct, numbered from `position` on. -/
def Node.emitAll (options : Options) (recovery : String) (members : List Node)
    (inner name : VarName) (position : Nat) (lists : Lists) : Emit Fragment :=
  match members with
  | [] => return []
  | member :: rest => do
    let first ← emitMember name lists fun own =>
      member.emit options recovery inner (name.child (.item position)) own
    let others ← Node.emitAll options recovery rest inner name (position + 1) lists
    return first ++ others

end

/-! ### What the caller has to give -/

/-- A name as a caller gives it: not at all, as a text, or as a structured name. -/
inductive GivenName where
  | absent
  | text (base : String)
  | name (name : VarName)
deriving DecidableEq, Repr

/-- The name that is meant; an empty text is no name. -/
def GivenName.resolve : GivenName → Option VarName
  | absent => none
  | text base => if base = "" then none else some { base }
  | name given => some given

def Node.isMissing : Node → Bool
  | .stray none => true
  | _ => false

/-- Generate code onto two lists of a pool, after checking that nothing is missing: the type, the
two names, the recovery code and the lists. -/
def Node.marshalOnto (options : Options) (node : Node) (iter name : GivenName)
    (recovery : Option String) (lists : Option Lists) : Emit Fragment := do
  if node.isMissing then throw (.breach .missingNode)
  match iter.resolve, name.resolve with
  | some iter, some name =>
    match recovery with
    | none => throw (.breach .missingRecovery)
    | some recovery =>
      match lists with
      | none => throw (.breach .missingLists)
      | some lists =>
        if node.hasStray then throw .noSuchPart
        node.emit options recovery iter name lists
  | _, _ => throw (.breach .missingNames)

/-- Generate code onto two lists that hold what a scope tells. The lists keep what was added to them
before a fault. -/
def Node.marshal (options : Options) (node : Node) (iter name : GivenName)
    (recovery : Option String) (listsGiven : Bool) : EStateM Fault Scope Fragment := fun scope =>
  let lists := if listsGiven then some Pool.firstLists else none
  match node.marshalOnto options iter name recovery lists (.holding scope) with
  | .ok fragment pool => .ok fragment (pool.scope Pool.firstLists)
  | .error fault pool => .error fault (pool.scope Pool.firstLists)

/-! ### From a signature -/

/-- What code is generated for: a signature, or a type tree. -/
inductive Source where
  | signature (text : String)
  | tree (node : Node)
deriving Repr

def Source.node : Source → Except Fault Node
  | signature text => (Node.read text).mapError .signature
  | tree node => .ok node

/-- A generated fragment with all that belongs to it. -/
structure Generated where
  signature : String
  fragment : Fragment
  inputs : List TypedVar
  locals : List TypedVar
  options : Options
deriving Repr

def Generated.code (generated : Generated) : Except Fault String :=
  generated.fragment.render generated.options.indentStep

/-- Generate the code that marshals a variable. Values of a variant type are refused. -/
def generate (options : Options) (source : Source) (iter name : GivenName)
    (recovery : Option String) : Except Fault Generated := do
  let node ← source.node
  if node.hasStray then throw .noSuchPart
  if node.hasVariant then throw (.variantValue node.signature)
  match node.marshal options iter name recovery true {} with
  | .ok fragment scope =>
    return { signature := node.signature, fragment, inputs := scope.inputs, locals := scope.locals,
             options }
  | .error fault _ => throw fault

/-! ### The course of a generation -/

/-- One type that code is generated for, with the variable that holds the value and the container
that it goes to. -/
structure Visit where
  signature : String
  name : VarName
  iter : VarName
deriving DecidableEq, Repr

mutual

/-- Every type that code is generated for, from the outside to the inside. -/
def Node.visits (node : Node) (iter name : VarName) : List Visit :=
  { signature := node.signature, name, iter } ::
    match node with
    | .array element => element.visits (name.child .iter) (name.child .element)
    | .struct members => Node.visitsAll members (name.child .iter) name 0
    | .entry key value =>
      key.visits (name.child .iter) (name.child (.item 0)) ++
        value.visits (name.child .iter) (name.child (.item 1))
    | _ => []

/-- The visits of the members of a struct, numbered from `position` on. -/
def Node.visitsAll (members : List Node) (inner name : VarName) (position : Nat) : List Visit :=
  match members with
  | [] => []
  | member :: rest =>
    member.visits inner (name.child (.item position)) ++
      Node.visitsAll rest inner name (position + 1)

end

end DBusMarshal
